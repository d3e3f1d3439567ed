import GitScale.GraphQL.Parser

/-!
# Reads from the follower or from the primary

`SelectStore` sends an operation to one of two pools.  Mutations go to the primary, and so do
queries with `@liveRead` on a field; the search for the directive goes through nested fields and
inline fragments, but not through the named fragments of the document.
-/

namespace GitScale.GraphQL

open Foundation Go

/-- `Pools`. -/
structure Pools (Store : Type) where
  reader : Store
  primary : Store

/-- `LiveReadDirective`. -/
def liveReadDirective : String := "liveRead"

mutual

/-- `hasLiveRead`. -/
def hasLiveRead : List Selection → Bool
  | [] => false
  | selection :: rest => selectionHasLiveRead selection || hasLiveRead rest

/-- One iteration of `hasLiveRead`. -/
def selectionHasLiveRead : Selection → Bool
  | .field field => fieldHasLiveRead field
  | .inlineFragment _ sels => hasLiveRead sels
  | .fragmentSpread _ => false

def fieldHasLiveRead : Field → Bool
  | .mk _ _ _ directives sels => directives.contains liveReadDirective || hasLiveRead sels

end

/-- `SelectStore`. -/
def selectStore {Store : Type} (pools : Pools Store) (operation : Operation) : Store :=
  match operation.kind with
  | .mutation => pools.primary
  | .query => if hasLiveRead operation.sels then pools.primary else pools.reader

/-! ## What is reached -/

/-- A field is reached from selections through nested fields, inline fragments and spreads of
the fragments. -/
inductive Reaches (fragments : List (String × Fragment)) : List Selection → Field → Prop where
  | here {sels : List Selection} {field : Field} (selects : .field field ∈ sels) :
      Reaches fragments sels field
  | nested {sels : List Selection} {parent field : Field} (selects : .field parent ∈ sels)
      (below : Reaches fragments parent.sels field) : Reaches fragments sels field
  | inline {sels inner : List Selection} {onType : String} {field : Field}
      (contains : .inlineFragment onType inner ∈ sels)
      (within : Reaches fragments inner field) : Reaches fragments sels field
  | spread {sels : List Selection} {name : String} {fragment : Fragment} {field : Field}
      (spreads : .fragmentSpread name ∈ sels) (defined : fragments.lookup name = some fragment)
      (within : Reaches fragments fragment.sels field) : Reaches fragments sels field

/-- A live read is reached. -/
def ReachesLiveRead (fragments : List (String × Fragment)) (sels : List Selection) : Prop :=
  ∃ field, Reaches fragments sels field ∧ liveReadDirective ∈ field.directives

theorem Reaches.subset {fragments : List (String × Fragment)} {part whole : List Selection}
    {field : Field} (reaches : Reaches fragments part field) (subset : part ⊆ whole) :
    Reaches fragments whole field := by
  cases reaches with
  | here selects => exact .here (subset selects)
  | nested selects below => exact .nested (subset selects) below
  | inline contains within => exact .inline (subset contains) within
  | spread spreads defined within => exact .spread (subset spreads) defined within

/-- More fragments reach more. -/
theorem Reaches.own {fragments : List (String × Fragment)} {sels : List Selection}
    {field : Field} (reaches : Reaches [] sels field) : Reaches fragments sels field := by
  induction reaches with
  | here selects => exact .here selects
  | nested selects _ inductionHypothesis => exact .nested selects inductionHypothesis
  | inline contains _ inductionHypothesis => exact .inline contains inductionHypothesis
  | spread _ defined => cases defined

mutual

theorem hasLiveRead_sound :
    ∀ {sels : List Selection}, hasLiveRead sels = true → ReachesLiveRead [] sels
  | [], found => nomatch found
  | selection :: rest, found => by
      rw [hasLiveRead, Bool.or_eq_true] at found
      rcases found with here | later
      · obtain ⟨field, reaches, carries⟩ := selectionHasLiveRead_sound here
        exact ⟨field, reaches.subset (by simp), carries⟩
      · obtain ⟨field, reaches, carries⟩ := hasLiveRead_sound later
        exact ⟨field, reaches.subset (List.subset_cons_self _ _), carries⟩

theorem selectionHasLiveRead_sound :
    ∀ {selection : Selection}, selectionHasLiveRead selection = true →
      ReachesLiveRead [] [selection]
  | .field _, found => fieldHasLiveRead_sound found
  | .inlineFragment _ _, found =>
      let ⟨field, reaches, carries⟩ := hasLiveRead_sound found
      ⟨field, .inline List.mem_cons_self reaches, carries⟩
  | .fragmentSpread _, found => nomatch found

theorem fieldHasLiveRead_sound :
    ∀ {field : Field}, fieldHasLiveRead field = true → ReachesLiveRead [] [.field field]
  | .mk name aliasName args directives sels, found => by
      rw [fieldHasLiveRead, Bool.or_eq_true] at found
      rcases found with own | below
      · exact ⟨_, .here List.mem_cons_self, List.contains_iff_mem.mp own⟩
      · obtain ⟨field, reaches, carries⟩ := hasLiveRead_sound below
        exact ⟨field, .nested List.mem_cons_self reaches, carries⟩

end

theorem hasLiveRead_of_mem {sels : List Selection} {selection : Selection}
    (membership : selection ∈ sels) (found : selectionHasLiveRead selection = true) :
    hasLiveRead sels = true := by
  induction sels with
  | nil => cases membership
  | cons first rest inductionHypothesis =>
      rw [hasLiveRead, Bool.or_eq_true]
      rcases List.mem_cons.mp membership with rfl | later
      · exact Or.inl found
      · exact Or.inr (inductionHypothesis later)

/-- `hasLiveRead` finds the live reads that are reached without a named fragment. -/
theorem hasLiveRead_iff {sels : List Selection} :
    hasLiveRead sels = true ↔ ReachesLiveRead [] sels := by
  constructor
  · exact hasLiveRead_sound
  · rintro ⟨field, reaches, carries⟩
    induction reaches with
    | @here sels field selects =>
        apply hasLiveRead_of_mem selects
        cases field with
        | mk name aliasName args directives nested =>
            rw [selectionHasLiveRead, fieldHasLiveRead, Bool.or_eq_true]
            exact Or.inl (List.contains_iff_mem.mpr carries)
    | @nested sels parent field selects below inductionHypothesis =>
        apply hasLiveRead_of_mem selects
        cases parent with
        | mk name aliasName args directives nested =>
            rw [selectionHasLiveRead, fieldHasLiveRead, Bool.or_eq_true]
            exact Or.inr (inductionHypothesis carries)
    | inline contains within inductionHypothesis =>
        exact hasLiveRead_of_mem contains (inductionHypothesis carries)
    | spread spreads defined => cases defined

/-! ## The pool of an operation -/

/-- Live reads and mutations go to the primary, other queries to the reader, whatever the
pools are. -/
def RoutesLiveReads (document : Document) (operation : Operation) : Prop :=
  ∀ (Store : Type) (pools : Pools Store),
    (operation.kind = .mutation → selectStore pools operation = pools.primary) ∧
      (operation.kind = .query → ReachesLiveRead document.fragments operation.sels →
        selectStore pools operation = pools.primary) ∧
      (operation.kind = .query → ¬ ReachesLiveRead document.fragments operation.sels →
        selectStore pools operation = pools.reader)

/-- An operation is routed as it should be unless it is a query whose live reads are all behind
named fragments. -/
theorem routesLiveReads_iff (document : Document) (operation : Operation) :
    RoutesLiveReads document operation ↔
      (operation.kind = .query → ReachesLiveRead document.fragments operation.sels →
        ReachesLiveRead [] operation.sels) := by
  rcases operation with ⟨kind, name, sels⟩
  cases kind with
  | mutation =>
      constructor
      · intro _ query
        cases query
      · intro _ Store pools
        refine ⟨fun _ => rfl, ?_, ?_⟩
        · intro query
          cases query
        · intro query
          cases query
  | query =>
      constructor
      · intro routes _ reaches
        have primary := (routes Bool ⟨false, true⟩).2.1 rfl reaches
        apply hasLiveRead_iff.mp
        simpa [selectStore] using primary
      · intro own Store pools
        refine ⟨?_, ?_, ?_⟩
        · intro mutation
          cases mutation
        · intro _ reaches
          simp only [selectStore, hasLiveRead_iff.mpr (own rfl reaches), if_true]
        · intro _ unreached
          have absent : hasLiveRead sels = false := by
            rw [Bool.eq_false_iff]
            intro found
            obtain ⟨field, reaches, carries⟩ := hasLiveRead_iff.mp found
            exact unreached ⟨field, reaches.own, carries⟩
          simp [selectStore, absent]

/-- The live read is behind a named fragment. -/
def fragmentLiveRead : Text :=
  utf8 "query\x7b...F\x7dfragment F on Query\x7bagent@liveRead\x7bid\x7d\x7d"

theorem fragmentLiveRead_misrouted :
    ∃ document position operation, parseQuery fragmentLiveRead = .ok document position ∧
      operation ∈ document.operations ∧ ¬ RoutesLiveReads document operation := by
  let live : Field := .mk "agent" "" [] ["liveRead"] [.field (.mk "id" "" [] [] [])]
  let fragment : Fragment := ⟨"F", "Query", [.field live]⟩
  let operation : Operation := ⟨.query, "", [.fragmentSpread "F"]⟩
  refine ⟨⟨[operation], [("F", fragment)]⟩, fragmentLiveRead.length, operation,
    by decide +kernel, List.mem_cons_self, ?_⟩
  intro routes
  have reaches : ReachesLiveRead [("F", fragment)] operation.sels :=
    ⟨live, .spread List.mem_cons_self (show _ = some fragment from rfl)
      (.here List.mem_cons_self), List.mem_cons_self⟩
  have primary := (routes Bool ⟨false, true⟩).2.1 rfl reaches
  cases primary

end GitScale.GraphQL
