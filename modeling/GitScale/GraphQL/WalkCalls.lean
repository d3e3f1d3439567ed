import GitScale.GraphQL.ParserBounds
import GitScale.GraphQL.Visits

/-!
# How many calls an analysis makes

A fragment is walked again at every spread, so the calls of an analysis are those for the
operation and, for each time a fragment is expanded, those for the fragment.  Each of the two is
at most as large as its text.
-/

namespace GitScale.GraphQL.Cost

open Foundation Go

variable {document : Document}

/-! ## Calls and expansions -/

/-- The size of a fragment, or 0 if it is not defined. -/
def fragmentSize (document : Document) (name : String) : Nat :=
  ((document.fragments.lookup name).map fun fragment => setSize fragment.sels).getD 0

/-- A walk makes at most so many calls, and those for the fragments that it expands. -/
def Bounded (document : Document) (size : Nat) (log : Log) : Prop :=
  log.calls ≤ size + (log.expanded.map (fragmentSize document)).sum

theorem bounded_empty : Bounded document 0 .empty := Nat.zero_le _

theorem bounded_stop (error : CostError) : Bounded document 0 (.stop error) := Nat.zero_le _

theorem Bounded.mono {smaller larger : Nat} {log : Log} (bounded : Bounded document smaller log)
    (le : smaller ≤ larger) : Bounded document larger log := by
  unfold Bounded at *
  omega

theorem Bounded.andThen {first second : Nat} {firstLog secondLog : Log}
    (firstBounded : Bounded document first firstLog)
    (secondBounded : Bounded document second secondLog) :
    Bounded document (first + second) (firstLog.andThen secondLog) := by
  unfold Bounded Log.calls Log.expanded at *
  unfold Log.andThen
  cases firstLog.error with
  | none =>
      simp only [List.countP_append, List.filterMap_append, List.map_append, List.sum_append]
      omega
  | some error =>
      dsimp only
      omega

/-- A call is one more. -/
theorem Bounded.call {size : Nat} {log : Log} (bounded : Bounded document size log)
    {visit : Visit} (call : visit.isCall = true) :
    Bounded document (size + 1) (log.visited visit) := by
  unfold Bounded at *
  rw [calls_visited call, expanded_visited call]
  omega

/-- The size of a fragment pays for the calls in it. -/
theorem Bounded.expand {name : String} {log : Log}
    (bounded : Bounded document (fragmentSize document name) log) :
    Bounded document 0 (log.visited (.expand name)) := by
  have expanded : (log.visited (.expand name)).expanded = name :: log.expanded := rfl
  unfold Bounded at *
  rw [calls_expand, expanded, List.map_cons, List.sum_cons]
  omega

section Syntax

variable {spread : String → Nat → Log}

mutual

theorem bounded_selections (spreads : ∀ name depth, Bounded document 0 (spread name depth))
    (parentType : String) (depth : Nat) :
    ∀ sels, Bounded document (Selection.sizes sels)
      (visitSelections spread parentType depth sels)
  | [] => bounded_empty
  | selection :: rest =>
      (bounded_selection spreads parentType depth selection).andThen
        (bounded_selections spreads parentType depth rest)

theorem bounded_selection (spreads : ∀ name depth, Bounded document 0 (spread name depth))
    (parentType : String) (depth : Nat) :
    ∀ selection, Bounded document selection.size
      (visitSelection spread parentType depth selection)
  | .field field => bounded_field spreads parentType depth field
  | .inlineFragment _ sels => (bounded_selections spreads _ depth sels).call rfl
  | .fragmentSpread name => spreads name depth

theorem bounded_field (spreads : ∀ name depth, Bounded document 0 (spread name depth))
    (parentType : String) (depth : Nat) :
    ∀ field, Bounded document field.size (visitField spread parentType depth field)
  | .mk name aliasName args directives sels => by
      have nested := bounded_selections spreads (childType parentType name) (depth + 1) sels
      unfold visitField Field.size
      by_cases leaf : sels.isEmpty
      · simp only [if_pos leaf]
        split
        · exact bounded_empty.call rfl
        · exact bounded_empty.call rfl
      · simp only [if_neg leaf]
        split
        · exact (bounded_empty.call rfl).mono (by omega)
        · exact (nested.call rfl).call rfl

end

end Syntax

theorem bounded_visit (fuel : Nat) (opened : List String) (parentType : String) (depth : Nat)
    (sels : List Selection) :
    Bounded document (setSize sels) (visit document fuel opened parentType depth sels) := by
  induction fuel generalizing opened parentType depth sels with
  | zero => exact (bounded_stop .stuck).mono (Nat.zero_le _)
  | succ fuel inductionHypothesis =>
      have spreads : ∀ name depth,
          Bounded document 0 (visitSpread document (visit document fuel) opened name depth) := by
        intro name depth
        unfold visitSpread
        split
        · exact bounded_stop _
        · cases found : document.fragments.lookup name with
          | none => exact bounded_stop _
          | some fragment =>
              apply Bounded.expand
              have size : fragmentSize document name = setSize fragment.sels := by
                simp [fragmentSize, found]
              rw [size]
              exact inductionHypothesis (name :: opened) fragment.onType depth fragment.sels
      exact (bounded_selections spreads parentType depth sels).call rfl

/-! ## The bound -/

/-- When no key occurs more often than the bound, neither does the size of its entry. -/
theorem sum_lookup_le {Value : Type} (size : Value → Nat) (bound : Nat)
    (entries : List (String × Value)) (keys : List String)
    (few : ∀ key, keys.count key ≤ bound) :
    (keys.map fun key => ((entries.lookup key).map size).getD 0).sum ≤
      bound * (entries.map fun entry => size entry.2).sum := by
  induction entries generalizing keys with
  | nil => simp
  | cons entry entries inductionHypothesis =>
      -- The keys of the first entry and the others are counted apart.
      have apart : (keys.map fun key => (((entry :: entries).lookup key).map size).getD 0).sum =
          keys.count entry.1 * size entry.2 +
            ((keys.filter (· ≠ entry.1)).map fun key =>
              ((entries.lookup key).map size).getD 0).sum := by
        clear few
        induction keys with
        | nil => simp
        | cons key keys step =>
            rw [List.map_cons, List.sum_cons, step]
            by_cases same : key = entry.1
            · rw [List.filter_cons_of_neg (by simpa using same), ← same, List.count_cons_self,
                Nat.add_mul, List.lookup_cons]
              simp only [beq_self_eq_true, same, Option.map_some, Option.getD_some]
              omega
            · rw [List.filter_cons_of_pos (by simpa using same), List.map_cons, List.sum_cons,
                List.count_cons_of_ne same, List.lookup_cons, beq_false_of_ne same]
              dsimp only
              omega
      have fewer : ∀ key, (keys.filter (· ≠ entry.1)).count key ≤ bound := by
        intro key
        exact (List.filter_sublist.count_le key).trans (few key)
      have rest := inductionHypothesis _ fewer
      have first : keys.count entry.1 * size entry.2 ≤ bound * size entry.2 :=
        Nat.mul_le_mul_right _ (few entry.1)
      rw [apart, List.map_cons, List.sum_cons, Nat.mul_add]
      omega

variable {analyzer : Analyzer} {vars : List (String × Variable)}

theorem pickOperation_mem {opName : String} {operation : Operation}
    (picked : pickOperation document opName = .ok operation) :
    operation ∈ document.operations := by
  unfold pickOperation at picked
  split at picked
  · cases picked
  · next single operations =>
      split at picked
      · cases picked
      · cases picked
        rw [operations]
        exact List.mem_singleton.mpr rfl
  · split at picked
    · cases picked
    · split at picked
      · next found =>
          cases picked
          exact List.mem_of_find?_eq_some found
      · cases picked

/-- The calls of an analysis are those of the visits. -/
theorem analyzeDocument_calls {opName : String} {operation : Operation}
    (picked : pickOperation document opName = .ok operation) (kind : PrincipalKind)
    (persisted : Bool) :
    (analyzer.analyzeDocument document vars opName kind persisted).calls =
      (visitOperation document operation).calls := by
  obtain ⟨visited, walked⟩ :=
    (walkOperation_eq operation : ∃ visited, walkOperation analyzer document vars operation = _)
  have counted : (Progress.zero.replay analyzer vars
      (visitOperation document operation).visits).calls = 0 + _ := replay_calls _ _
  unfold Analyzer.analyzeDocument
  rw [picked]
  dsimp only
  rw [walked]
  cases (visitOperation document operation).error with
  | some error => exact counted.trans (Nat.zero_add _)
  | none => exact counted.trans (Nat.zero_add _)

theorem pickOperation_not_stuck {opName : String} {error : CostError}
    (failed : pickOperation document opName = .error error) : error ≠ .stuck := by
  rintro rfl
  unfold pickOperation at failed
  split at failed
  · cases failed
  · split at failed
    · cases failed
    · cases failed
  · split at failed
    · cases failed
    · split at failed
      · cases failed
      · cases failed

theorem check_not_stuck (limits : Limits) (kind : PrincipalKind) (cost : QueryCost) :
    limits.check kind cost ≠ some .stuck := by
  unfold Limits.check
  split
  · simp
  · split
    · simp
    · simp

/-- The fuel of the parser and of the walk suffices for every source. -/
theorem analyze_not_stuck (source : Text) (opName : String) (kind : PrincipalKind)
    (persisted : Bool) :
    (analyzer.analyze vars source opName kind persisted).error ≠ some .stuck := by
  rcases parseQuery_cases source with ⟨document, next, parsed, -⟩ | ⟨message, failed⟩
  · simp only [Analyzer.analyze, parsed, Analyzer.analyzeDocument]
    cases picked : pickOperation document opName with
    | error error =>
        have known := pickOperation_not_stuck picked
        simpa using known
    | ok operation =>
        obtain ⟨visited, walked⟩ := (walkOperation_eq operation :
          ∃ visited, walkOperation analyzer document vars operation = _)
        have completes := visitOperation_not_stuck document operation
        dsimp only
        rw [walked]
        cases stopped : (visitOperation document operation).error with
        | some error =>
            rw [stopped] at completes
            exact completes
        | none => exact check_not_stuck _ _ _
  · simp [Analyzer.analyze, failed]

/-- The fragments that the analysis of a source expands, in order and as often as their
spreads are reached. -/
def expandedFragments (source : Text) (opName : String) : List String :=
  match parseQuery source with
  | .ok document _ =>
      match pickOperation document opName with
      | .ok operation => (visitOperation document operation).expanded
      | .error _ => []
  | _ => []

theorem visitOperation_calls_le {operation : Operation} {bound : Nat}
    (defined : operation ∈ document.operations) (small : document.size ≤ bound)
    (few : ∀ name, (visitOperation document operation).expanded.count name ≤ bound) :
    (visitOperation document operation).calls ≤ bound ^ 2 := by
  have counted : Bounded document (setSize operation.sels) (visitOperation document operation) :=
    bounded_visit _ _ _ _ _
  have fragments := sum_lookup_le (fun fragment : Fragment => setSize fragment.sels) bound
    document.fragments _ few
  have own : setSize operation.sels ≤
      (document.operations.map fun operation => setSize operation.sels).sum :=
    List.single_le_sum (fun _ _ => Nat.zero_le _) _ (List.mem_map_of_mem defined)
  -- The set of the operation is not empty, so the bound is at least one.
  have positive : 1 ≤ bound := by
    have : 1 ≤ setSize operation.sels := Nat.succ_le_succ (Nat.zero_le _)
    unfold Document.size at small
    omega
  calc
    (visitOperation document operation).calls
        ≤ setSize operation.sels +
            bound * (document.fragments.map fun entry => setSize entry.2.sels).sum :=
      counted.trans (Nat.add_le_add_left fragments _)
    _ ≤ bound * (document.operations.map fun operation => setSize operation.sels).sum +
          bound * (document.fragments.map fun entry => setSize entry.2.sels).sum := by
      apply Nat.add_le_add_right
      exact own.trans (Nat.le_mul_of_pos_left _ positive)
    _ = bound * document.size := (Nat.mul_add _ _ _).symm
    _ ≤ bound ^ 2 := by
      rw [Nat.pow_two]
      exact Nat.mul_le_mul_left bound small

/-- An analysis makes at most quadratically many calls when it expands no fragment more often
than the source has bytes. -/
theorem analyze_calls_le (analyzer : Analyzer) (vars : List (String × Variable))
    (source : Text) (opName : String) (kind : PrincipalKind) (persisted : Bool)
    (few : ∀ name, (expandedFragments source opName).count name ≤ source.length) :
    (analyzer.analyze vars source opName kind persisted).calls ≤ source.length ^ 2 := by
  rcases parseQuery_cases source with ⟨document, next, parsed, small⟩ | ⟨message, failed⟩
  · simp only [Analyzer.analyze, parsed]
    cases picked : pickOperation document opName with
    | error error => simp [Analyzer.analyzeDocument, picked]
    | ok operation =>
        simp only [expandedFragments, parsed, picked] at few
        rw [analyzeDocument_calls picked]
        exact visitOperation_calls_le (pickOperation_mem picked) small few
  · simp [Analyzer.analyze, failed]

/-- A fragment that is spread twice. -/
def spreadTwice : Text := utf8 "query\x7b...a...a\x7dfragment a on User\x7bid\x7d"

theorem analyze_calls_le_spreadTwice :
    expandedFragments spreadTwice "" = ["a", "a"] ∧
      (Analyzer.standard.analyze [] spreadTwice "" .human false).calls ≤
        spreadTwice.length ^ 2 := by
  have expanded : expandedFragments spreadTwice "" = ["a", "a"] := by decide +kernel
  have longer : 2 ≤ spreadTwice.length := by decide +kernel
  refine ⟨expanded, analyze_calls_le .standard [] spreadTwice "" .human false ?_⟩
  intro name
  rw [expanded]
  exact List.count_le_length.trans longer

/-! ## A source with more calls -/

/-- A walk that is completed, with its number of calls. -/
def Completes (log : Log) (calls : Nat) : Prop := log.error = none ∧ log.calls = calls

theorem Completes.andThen {first second : Log} {firstCalls secondCalls : Nat}
    (firstCompletes : Completes first firstCalls)
    (secondCompletes : Completes second secondCalls) :
    Completes (first.andThen second) (firstCalls + secondCalls) := by
  rw [andThen_of_completed firstCompletes.1]
  refine ⟨secondCompletes.1, ?_⟩
  rw [← firstCompletes.2, ← secondCompletes.2]
  exact List.countP_append

/-- Spreads of one fragment, one after another, multiply the calls for it. -/
theorem completes_replicate {fuel depth calls : Nat} {opened : List String}
    {parentType name : String} (fragment : Fragment) (fresh : name ∉ opened)
    (found : document.fragments.lookup name = some fragment)
    (completes : Completes (visit document fuel (name :: opened) fragment.onType depth
      fragment.sels) calls) (count : Nat) :
    Completes (visit document (fuel + 1) opened parentType depth
      (List.replicate count (.fragmentSpread name))) (count * calls + 1) := by
  have spread : Completes (visitSpread document (visit document fuel) opened name depth)
      calls := by
    rw [visitSpread, if_neg fresh, found]
    exact ⟨completes.1, (calls_expand name _).trans completes.2⟩
  have body : Completes (visitSelections (visitSpread document (visit document fuel) opened)
      parentType depth (List.replicate count (.fragmentSpread name))) (count * calls) := by
    induction count with
    | zero => exact ⟨rfl, (Nat.zero_mul calls).symm⟩
    | succ count inductionHypothesis =>
        rw [List.replicate_succ, Nat.add_mul, Nat.one_mul, Nat.add_comm]
        exact spread.andThen inductionHypothesis
  exact ⟨body.1, (calls_visited rfl _).trans (congrArg (· + 1) body.2)⟩

/-- Five fragments, of which each but the last spreads the next one eight times. -/
def fanOut : Text :=
  utf8 ("query\x7b...a\x7d" ++
    "fragment a on User\x7b...b...b...b...b...b...b...b...b\x7d" ++
    "fragment b on User\x7b...c...c...c...c...c...c...c...c\x7d" ++
    "fragment c on User\x7b...d...d...d...d...d...d...d...d\x7d" ++
    "fragment d on User\x7b...e...e...e...e...e...e...e...e\x7d" ++
    "fragment e on User\x7bid,id,id,id,id,id,id,id,id,id,id,id,id,id,id,id,id,id,id,id,id,id,id" ++
    ",id,id,id,id\x7d")

/-- The selections of the last fragment. -/
def fanOutLeaves : List Selection := List.replicate 27 (.field (.mk "id" "" [] [] []))

/-- The operation of `fanOut`. -/
def fanOutOperation : Operation := ⟨.query, "", List.replicate 1 (.fragmentSpread "a")⟩

def fanOutDocument : Document where
  operations := [fanOutOperation]
  fragments :=
    [("a", ⟨"a", "User", List.replicate 8 (.fragmentSpread "b")⟩),
      ("b", ⟨"b", "User", List.replicate 8 (.fragmentSpread "c")⟩),
      ("c", ⟨"c", "User", List.replicate 8 (.fragmentSpread "d")⟩),
      ("d", ⟨"d", "User", List.replicate 8 (.fragmentSpread "e")⟩),
      ("e", ⟨"e", "User", fanOutLeaves⟩)]

theorem fanOut_completes :
    Completes (visitOperation fanOutDocument fanOutOperation) 115274 := by
  have leaves : Completes (visit fanOutDocument 1 ["e", "d", "c", "b", "a"] "User" 1
      fanOutLeaves) 28 := ⟨by decide +kernel, by decide +kernel⟩
  have d : Completes (visit fanOutDocument 2 ["d", "c", "b", "a"] "User" 1
      (List.replicate 8 (.fragmentSpread "e"))) 225 :=
    completes_replicate ⟨"e", "User", fanOutLeaves⟩ (by decide) rfl leaves 8
  have c : Completes (visit fanOutDocument 3 ["c", "b", "a"] "User" 1
      (List.replicate 8 (.fragmentSpread "d"))) 1801 :=
    completes_replicate ⟨"d", "User", List.replicate 8 (.fragmentSpread "e")⟩ (by decide)
      rfl d 8
  have b : Completes (visit fanOutDocument 4 ["b", "a"] "User" 1
      (List.replicate 8 (.fragmentSpread "c"))) 14409 :=
    completes_replicate ⟨"c", "User", List.replicate 8 (.fragmentSpread "d")⟩ (by decide)
      rfl c 8
  have a : Completes (visit fanOutDocument 5 ["a"] "User" 1
      (List.replicate 8 (.fragmentSpread "b"))) 115273 :=
    completes_replicate ⟨"b", "User", List.replicate 8 (.fragmentSpread "c")⟩ (by decide)
      rfl b 8
  exact completes_replicate ⟨"a", "User", List.replicate 8 (.fragmentSpread "b")⟩ (by decide)
    rfl a 1

theorem analyze_calls_fanOut :
    ¬ ∀ (vars : List (String × Variable)) (source : Text) (opName : String)
      (kind : PrincipalKind),
      (Analyzer.standard.analyze vars source opName kind false).calls ≤ source.length ^ 2 := by
  intro always
  have parsed : parseQuery fanOut = .ok fanOutDocument 319 := by decide +kernel
  have picked : pickOperation fanOutDocument "" = .ok fanOutOperation := by decide +kernel
  have length : fanOut.length = 319 := by decide +kernel
  have bound := always [] fanOut "" .human
  simp only [Analyzer.analyze, parsed] at bound
  rw [analyzeDocument_calls picked, fanOut_completes.2, length] at bound
  exact absurd bound (by decide)

end GitScale.GraphQL.Cost
