import GitScale.Go.JsonString
import Mathlib.Data.List.Sort
import Mathlib.Data.Set.Function

/-!
# The hash of a plan

`ComputePlanHash` hashes the JSON text of the actions, whose strings are arbitrary bytes
here.  The text determines the actions up to the bytes that are no part of valid UTF-8: all
of them are written as the same replacement character.
-/

namespace GitScale.Approval

open Foundation Go

/-! ## Actions and their text -/

/-- `Action` over arbitrary Go strings.  The map of fields is a list with one entry for each
key; it is empty for a nil map too. -/
structure TextAction where
  kind : Text
  fields : List (Text × Text)
  keys_nodup : (fields.map Prod.fst).Nodup

/-- Equal kinds and equal maps of fields. -/
structure SameAction (first second : TextAction) : Prop where
  kind : first.kind = second.kind
  fields : ∀ entry, entry ∈ first.fields ↔ entry ∈ second.fields

/-- The fields in the order of `sort.Strings` on the keys. -/
def TextAction.sorted (action : TextAction) : List (Text × Text) :=
  action.fields.insertionSort fun left right => left.1 ≤ right.1

/-- The entry of one field of a `map[string]string`. -/
def fieldText (key value : Text) : Text := key ++ byte ':' :: value

/-- The rest of an action after its kind; empty fields are omitted. -/
def fieldsText {Entry : Type} (entryText : Entry → Text) : List Entry → Text
  | [] => [byte '}']
  | entry :: entries =>
      (byte ',' :: utf8 "\"fields\":" ++ [byte '{']) ++
        (separated (byte ',') (byte '}') entryText (entry :: entries) ++ [byte '}'])

def actionText (kind fields : Text) : Text :=
  (byte '{' :: utf8 "\"kind\":") ++ (kind ++ fields)

/-- `CanonicalActionsJSON`, which returns no error on strings. -/
def canonicalActionsJSON (actions : List TextAction) : Text :=
  byte '[' :: separated (byte ',') (byte ']')
    (fun action => actionText (appendString action.kind)
      (fieldsText (fun entry => fieldText (appendString entry.1) (appendString entry.2))
        action.sorted))
    actions

/-- `ComputePlanHash`. -/
def computePlanHash {Digest : Type} (sha256 : Text → Digest) (actions : List TextAction) :
    Digest :=
  sha256 (canonicalActionsJSON actions)

/-! ## What the text determines -/

/-- An action as its text shows it: the pieces of the kind, and those of the keys and values
of the fields. -/
abbrev Marks := List Piece × List (List Piece × List Piece)

def TextAction.marks (action : TextAction) : Marks :=
  (pieces action.kind, action.sorted.map fun entry => (pieces entry.1, pieces entry.2))

def entryMarksText (entry : List Piece × List Piece) : Text :=
  fieldText (stringText entry.1) (stringText entry.2)

def marksText (marks : Marks) : Text :=
  actionText (stringText marks.1) (fieldsText entryMarksText marks.2)

theorem delimits_entryMarksText (entry : List Piece × List Piece) :
    Delimits anywhere entryMarksText entry :=
  (delimits_stringText entry.1).pair ((delimits_stringText entry.2).prepend [byte ':'])
    fun _ _ _ => trivial

theorem delimits_fieldsText (entries : List (List Piece × List Piece)) :
    Delimits anywhere (fieldsText entryMarksText) entries := by
  have different : byte ',' ≠ byte '}' := by decide
  have starts : ∀ entry rest, (entryMarksText entry ++ rest).head? ≠ some (byte '}') := by
    intro entry rest start
    have opening : quotation = byte '}' := Option.some.inj start
    exact absurd opening (by decide)
  intro others rest rest' _ _ same
  cases entries with
  | nil =>
      cases others with
      | nil => exact ⟨rfl, List.append_cancel_left same⟩
      | cons other others => exact absurd (List.cons.inj same).1.symm different
  | cons entry entries =>
      cases others with
      | nil => exact absurd (List.cons.inj same).1 different
      | cons other others =>
          have separation : Delimits anywhere
              (separated (byte ',') (byte '}') entryMarksText) (entry :: entries) :=
            delimits_separated different (fun _ => trivial) (fun _ => trivial) starts
              fun entry _ => delimits_entryMarksText entry
          exact ((separation.append [byte '}'] fun _ => trivial).prepend
            (byte ',' :: utf8 "\"fields\":" ++ [byte '{'])) trivial trivial same

theorem delimits_marksText (marks : Marks) : Delimits anywhere marksText marks :=
  ((delimits_stringText marks.1).pair (delimits_fieldsText marks.2) fun _ _ _ => trivial).prepend
    (byte '{' :: utf8 "\"kind\":")

theorem fieldsText_map {Entry Source : Type} (entryText : Entry → Text) (image : Source → Entry)
    (entries : List Source) :
    fieldsText entryText (entries.map image) =
      fieldsText (fun entry => entryText (image entry)) entries := by
  cases entries with
  | nil => rfl
  | cons entry entries =>
      have separation : separated (byte ',') (byte '}') entryText
          (image entry :: entries.map image) = _ := separated_map image (entry :: entries)
      rw [List.map_cons, fieldsText, fieldsText, separation]

theorem canonicalActionsJSON_eq (actions : List TextAction) :
    canonicalActionsJSON actions =
      byte '[' :: separated (byte ',') (byte ']') marksText
        (actions.map TextAction.marks) := by
  rw [canonicalActionsJSON, separated_map]
  congr 2
  funext action
  rw [marksText, TextAction.marks, fieldsText_map]
  rfl

/-- The texts of two lists of actions are equal exactly if the actions look the same. -/
theorem canonicalActionsJSON_eq_iff {first second : List TextAction} :
    canonicalActionsJSON first = canonicalActionsJSON second ↔
      first.map TextAction.marks = second.map TextAction.marks := by
  rw [canonicalActionsJSON_eq, canonicalActionsJSON_eq, List.cons_inj_right]
  have starts : ∀ marks rest, (marksText marks ++ rest).head? ≠ some (byte ']') := by
    intro marks rest start
    have opening : byte '{' = byte ']' := Option.some.inj start
    exact absurd opening (by decide)
  have injective : Function.Injective (separated (byte ',') (byte ']') marksText) :=
    Delimits.injective (fun marks => delimits_separated (by decide) (fun _ => trivial)
      (fun _ => trivial) starts fun entry _ => delimits_marksText entry) trivial
  exact injective.eq_iff

/-! ## What the hash binds -/

/-- Equal hashes are those of equal actions, position by position. -/
def BindsActions {Digest : Type} (sha256 : Text → Digest) (first second : List TextAction) :
    Prop :=
  computePlanHash sha256 first = computePlanHash sha256 second →
    List.Forall₂ SameAction first second

/-- The two lists look the same in their pieces but are not equal: they differ in bytes that
are no part of valid UTF-8, and in nothing else. -/
structure Disguised (first second : List TextAction) : Prop where
  looks : first.map TextAction.marks = second.map TextAction.marks
  differ : ¬ List.Forall₂ SameAction first second

/-- All strings of the action are valid UTF-8. -/
structure TextAction.Valid (action : TextAction) : Prop where
  kind : validUTF8 action.kind = true
  fields : ∀ entry ∈ action.fields, validUTF8 entry.1 = true ∧ validUTF8 entry.2 = true

theorem TextAction.mem_sorted {action : TextAction} {entry : Text × Text} :
    entry ∈ action.sorted ↔ entry ∈ action.fields :=
  List.mem_insertionSort _

theorem eq_of_map_pieces {first second : List (Text × Text)}
    (valid : ∀ entry ∈ first, validUTF8 entry.1 = true ∧ validUTF8 entry.2 = true)
    (same : first.map (fun entry => (pieces entry.1, pieces entry.2)) =
      second.map fun entry => (pieces entry.1, pieces entry.2)) : first = second := by
  induction first generalizing second with
  | nil => exact (List.map_eq_nil_iff.mp same.symm).symm
  | cons entry first inductionHypothesis =>
      cases second with
      | nil => cases same
      | cons other second =>
          simp only [List.map_cons, List.cons.injEq, Prod.mk.injEq] at same
          have here := valid entry List.mem_cons_self
          have key := eq_of_pieces here.1 same.1.1
          have value := eq_of_pieces here.2 same.1.2
          have others := inductionHypothesis
            (fun entry later => valid entry (List.mem_cons_of_mem _ later)) same.2
          rw [Prod.ext key value, others]

/-- A valid action is the only one that looks as it does. -/
theorem TextAction.Valid.sameAction {first second : TextAction} (valid : first.Valid)
    (looks : first.marks = second.marks) : SameAction first second where
  kind := eq_of_pieces valid.kind (congrArg Prod.fst looks)
  fields := by
    have entries : first.sorted = second.sorted :=
      eq_of_map_pieces (fun entry member => valid.fields entry (TextAction.mem_sorted.mp member))
        (congrArg Prod.snd looks)
    intro entry
    rw [← TextAction.mem_sorted, entries, TextAction.mem_sorted]

theorem forall₂_sameAction {first second : List TextAction}
    (valid : ∀ action ∈ first, action.Valid)
    (looks : first.map TextAction.marks = second.map TextAction.marks) :
    List.Forall₂ SameAction first second := by
  induction first generalizing second with
  | nil =>
      rw [List.map_eq_nil_iff.mp looks.symm]
      exact .nil
  | cons action first inductionHypothesis =>
      cases second with
      | nil => cases looks
      | cons other second =>
          rw [List.map_cons, List.map_cons, List.cons.injEq] at looks
          refine .cons ((valid action List.mem_cons_self).sameAction looks.1) ?_
          exact inductionHypothesis
            (fun action later => valid action (List.mem_cons_of_mem _ later)) looks.2

/-- The hash binds the actions unless the two lists differ in broken bytes only, and in
particular where all strings of one list are valid UTF-8. -/
theorem bindsActions_iff {Digest : Type} (sha256 : Text → Digest)
    (first second : List TextAction)
    (collisionFree : Set.InjOn sha256
      {canonicalActionsJSON first, canonicalActionsJSON second}) :
    (BindsActions sha256 first second ↔ ¬ Disguised first second) ∧
      ((∀ action ∈ first, action.Valid) → BindsActions sha256 first second) := by
  have hashes : computePlanHash sha256 first = computePlanHash sha256 second ↔
      first.map TextAction.marks = second.map TextAction.marks := by
    rw [computePlanHash, computePlanHash, ← canonicalActionsJSON_eq_iff]
    exact collisionFree.eq_iff (Set.mem_insert _ _) (Set.mem_insert_of_mem _ rfl)
  constructor
  · rw [BindsActions, hashes]
    constructor
    · intro binds disguised
      exact disguised.differ (binds disguised.looks)
    · intro plain looks
      by_contra differ
      exact plain ⟨looks, differ⟩
  · intro valid equal
    exact forall₂_sameAction valid (hashes.mp equal)

/-- A deployment with two fields. -/
def deployment : TextAction where
  kind := [byte 'd']
  fields := [([byte 'a'], [byte '1']), ([byte 'b'], [byte '2'])]
  keys_nodup := by decide

/-- The same fields in the other order. -/
def deployment' : TextAction where
  kind := [byte 'd']
  fields := [([byte 'b'], [byte '2']), ([byte 'a'], [byte '1'])]
  keys_nodup := by decide

theorem bindsActions_iff_reordered :
    computePlanHash sha256 [deployment] = computePlanHash sha256 [deployment'] ∧
      List.Forall₂ SameAction [deployment] [deployment'] := by
  have texts : canonicalActionsJSON [deployment] = canonicalActionsJSON [deployment'] :=
    canonicalActionsJSON_eq_iff.mpr (by decide)
  have valid : ∀ action ∈ [deployment], action.Valid := by
    intro action member
    rw [List.mem_singleton.mp member]
    exact ⟨by decide, by decide⟩
  have hashes : computePlanHash sha256 [deployment] = computePlanHash sha256 [deployment'] := by
    rw [computePlanHash, texts, computePlanHash]
  refine ⟨hashes, (bindsActions_iff sha256 [deployment] [deployment'] ?_).2 valid hashes⟩
  rw [texts, Set.pair_eq_singleton]
  exact Set.injOn_singleton _ _

/-- A force push to the ref that is this one byte. -/
def forcePushByte (value : UInt8) : TextAction where
  kind := utf8 "force_push"
  fields := [(utf8 "ref", [value])]
  keys_nodup := by simp

/-- Two refs of one broken byte each have the same hash. -/
theorem planHash_brokenBytes :
    computePlanHash sha256 [forcePushByte 0xFF] = computePlanHash sha256 [forcePushByte 0xFE] ∧
      ¬ List.Forall₂ SameAction [forcePushByte 0xFF] [forcePushByte 0xFE] := by
  constructor
  · have looks : [forcePushByte 0xFF].map TextAction.marks =
        [forcePushByte 0xFE].map TextAction.marks := rfl
    rw [computePlanHash, canonicalActionsJSON_eq_iff.mpr looks, computePlanHash]
  · intro same
    cases same with
    | cons action _ =>
        have present := (action.fields (utf8 "ref", [0xFF])).mp (List.mem_singleton_self _)
        simp [forcePushByte] at present

end GitScale.Approval
