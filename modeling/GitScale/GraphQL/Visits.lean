import GitScale.GraphQL.Cost
import Mathlib.Algebra.Ring.Int.Defs
import Mathlib.Data.List.Perm.Subperm

/-!
# What a walk visits

Which calls a walk makes, in which order, and where it stops depends on the document alone.
`visit` lists them; the cost is what the visits add up to.  The open fragments are those on the
path, so they are an argument here and not a set that is changed and restored.
-/

namespace GitScale.GraphQL.Cost

open Foundation

/-- One call of `walk` or `walkField`, or the start of a fragment. -/
inductive Visit where
  | enter (depth : Nat)
  | introspection (name : String)
  | field (parentType name : String) (args : List (String × ArgValue))
  | expand (name : String)

/-- The visits of a walk up to its end or its error. -/
structure Log where
  visits : List Visit
  error : Option CostError

namespace Log

/-- Nothing is visited. -/
def empty : Log := ⟨[], none⟩

/-- The walk stops. -/
def stop (error : CostError) : Log := ⟨[], some error⟩

/-- One visit before the others. -/
def visited (visit : Visit) (log : Log) : Log := ⟨visit :: log.visits, log.error⟩

/-- One walk after another, unless the first one stopped. -/
def andThen (first second : Log) : Log :=
  match first.error with
  | none => ⟨first.visits ++ second.visits, second.error⟩
  | some error => ⟨first.visits, some error⟩

end Log

section Syntax

-- What is visited for a named fragment at a depth.
variable (spread : String → Nat → Log)

mutual

def visitSelections (parentType : String) (depth : Nat) : List Selection → Log
  | [] => .empty
  | selection :: rest =>
      (visitSelection parentType depth selection).andThen
        (visitSelections parentType depth rest)

def visitSelection (parentType : String) (depth : Nat) : Selection → Log
  | .field field => visitField parentType depth field
  | .inlineFragment onType sels =>
      (visitSelections (if onType = "" then parentType else onType) depth sels).visited
        (.enter depth)
  | .fragmentSpread name => spread name depth

def visitField (parentType : String) (depth : Nat) : Field → Log
  | .mk name _ args _ sels =>
      if isIntrospection name then Log.empty.visited (.introspection name)
      else
        Log.visited (.field parentType name args) <|
          if sels.isEmpty then .empty
          else
            (visitSelections (childType parentType name) (depth + 1) sels).visited
              (.enter (depth + 1))

end

end Syntax

variable (document : Document)

/-- The visits for the spread of a named fragment. -/
def visitSpread (visit : List String → String → Nat → List Selection → Log)
    (opened : List String) (name : String) (depth : Nat) : Log :=
  if name ∈ opened then .stop (.fragmentCycle name)
  else
    match document.fragments.lookup name with
    | none => .stop (.fragmentNotDefined name)
    | some fragment =>
        (visit (name :: opened) fragment.onType depth fragment.sels).visited (.expand name)

/-- The visits of `walk`. -/
def visit : Nat → List String → String → Nat → List Selection → Log
  | 0, _, _, _, _ => .stop .stuck
  | fuel + 1, opened, parentType, depth, sels =>
      (visitSelections (visitSpread document (visit fuel) opened) parentType depth sels).visited
        (.enter depth)

/-- The visits for an operation. -/
def visitOperation (operation : Operation) : Log :=
  visit document (document.fragments.length + 1) [] (rootType operation) 1 operation.sels

/-! ## The walk follows the visits -/

variable (analyzer : Analyzer) (vars : List (String × Variable))

/-- What one visit does to the cost. -/
def Progress.record (progress : Progress) : Visit → Progress
  | .enter depth => progress.enter depth
  | .introspection _ => progress.called
  | .field parentType name args =>
      progress.called.charge (analyzer.fieldCharge vars parentType name args)
  | .expand _ => progress

/-- What the visits do to the cost. -/
def Progress.replay (progress : Progress) (visits : List Visit) : Progress :=
  visits.foldl (Progress.record analyzer vars) progress

/-- The same progress with other open fragments. -/
def Progress.withVisited (progress : Progress) (visited : List String) : Progress :=
  { progress with visited := visited }

/-- A walk makes these visits when it starts with these open fragments, and it leaves them as
they were unless it stops. -/
def Follows (opened : List String) (walk : Progress → Walked) (log : Log) : Prop :=
  ∀ progress, progress.visited = opened → ∃ visited,
    walk progress =
        ((progress.replay analyzer vars log.visits).withVisited visited, log.error) ∧
      (log.error = none → visited = opened)

variable {document analyzer vars}

theorem replay_cons (progress : Progress) (visit : Visit) (visits : List Visit) :
    progress.replay analyzer vars (visit :: visits) =
      (progress.record analyzer vars visit).replay analyzer vars visits :=
  rfl

theorem replay_append (progress : Progress) (first second : List Visit) :
    progress.replay analyzer vars (first ++ second) =
      (progress.replay analyzer vars first).replay analyzer vars second :=
  List.foldl_append

/-- The visits do not look at the open fragments. -/
theorem replay_visited (progress : Progress) (visits : List Visit) (visited : List String) :
    (progress.withVisited visited).replay analyzer vars visits =
      (progress.replay analyzer vars visits).withVisited visited := by
  induction visits generalizing progress with
  | nil => rfl
  | cons visit visits inductionHypothesis =>
      rw [replay_cons, replay_cons, ← inductionHypothesis]
      cases visit with
      | enter depth => rfl
      | introspection name => rfl
      | field parentType name args => rfl
      | expand name => rfl

theorem record_visited (progress : Progress) (visit : Visit) :
    (progress.record analyzer vars visit).visited = progress.visited := by
  cases visit with
  | enter depth => rfl
  | introspection name => rfl
  | field parentType name args => rfl
  | expand name => rfl

variable {opened : List String}

theorem follows_empty : Follows analyzer vars opened (fun progress => (progress, none)) .empty := by
  intro progress start
  refine ⟨opened, ?_, fun _ => rfl⟩
  rw [← start]
  rfl

theorem follows_stop (error : CostError) :
    Follows analyzer vars opened (fun progress => (progress, some error)) (.stop error) := by
  intro progress start
  refine ⟨progress.visited, rfl, ?_⟩
  intro completed
  cases completed

/-- One visit, then the rest of the walk. -/
theorem Follows.visited {walk : Progress → Walked} {log : Log}
    (follows : Follows analyzer vars opened walk log) (visit : Visit) :
    Follows analyzer vars opened (fun progress => walk (progress.record analyzer vars visit))
      (log.visited visit) := by
  intro progress start
  exact follows (progress.record analyzer vars visit) ((record_visited progress visit).trans start)

theorem Follows.andThen {first second : Progress → Walked} {firstLog secondLog : Log}
    (firstFollows : Follows analyzer vars opened first firstLog)
    (secondFollows : Follows analyzer vars opened second secondLog) :
    Follows analyzer vars opened (fun progress => (first progress).andThen second)
      (firstLog.andThen secondLog) := by
  intro progress start
  dsimp only
  obtain ⟨visited, walked, restored⟩ := firstFollows progress start
  rw [walked]
  cases stopped : firstLog.error with
  | some error =>
      refine ⟨visited, ?_, ?_⟩
      · simp only [Log.andThen, stopped, Walked.andThen]
      · simp [Log.andThen, stopped]
  | none =>
      obtain ⟨last, walkedOn, restoredLast⟩ :=
        secondFollows ((progress.replay analyzer vars firstLog.visits).withVisited visited)
          (restored stopped)
      refine ⟨last, ?_, ?_⟩
      · simp only [Log.andThen, stopped, Walked.andThen, walkedOn]
        rw [replay_visited, replay_append]
        rfl
      · simp only [Log.andThen, stopped]
        exact restoredLast

section Syntax

variable {spread : String → Nat → Progress → Walked} {spreadLog : String → Nat → Log}

mutual

theorem follows_selections
    (spreads : ∀ name depth, Follows analyzer vars opened (spread name depth)
      (spreadLog name depth)) (parentType : String) (depth : Nat) :
    ∀ sels, Follows analyzer vars opened
      (walkSelections analyzer vars spread parentType depth sels)
      (visitSelections spreadLog parentType depth sels)
  | [] => follows_empty
  | selection :: rest =>
      (follows_selection spreads parentType depth selection).andThen
        (follows_selections spreads parentType depth rest)

theorem follows_selection
    (spreads : ∀ name depth, Follows analyzer vars opened (spread name depth)
      (spreadLog name depth)) (parentType : String) (depth : Nat) :
    ∀ selection, Follows analyzer vars opened
      (walkSelection analyzer vars spread parentType depth selection)
      (visitSelection spreadLog parentType depth selection)
  | .field field => follows_field spreads parentType depth field
  | .inlineFragment _ sels =>
      (follows_selections spreads _ depth sels).visited (.enter depth)
  | .fragmentSpread name => spreads name depth

theorem follows_field
    (spreads : ∀ name depth, Follows analyzer vars opened (spread name depth)
      (spreadLog name depth)) (parentType : String) (depth : Nat) :
    ∀ field, Follows analyzer vars opened
      (walkField analyzer vars spread parentType depth field)
      (visitField spreadLog parentType depth field)
  | .mk name aliasName args directives sels => by
      have nested := follows_selections spreads (childType parentType name) (depth + 1) sels
      intro progress start
      unfold walkField visitField
      by_cases free : isIntrospection name
      · simp only [if_pos free]
        exact follows_empty.visited (.introspection name) progress start
      · simp only [if_neg free]
        by_cases leaf : sels.isEmpty
        · simp only [if_pos leaf]
          exact follows_empty.visited (.field parentType name args) progress start
        · simp only [if_neg leaf]
          exact (nested.visited (.enter (depth + 1))).visited (.field parentType name args)
            progress start

end

end Syntax

/-- A fragment is closed again where it was opened. -/
theorem follows_spread {walk : String → Nat → List Selection → Progress → Walked}
    {visit : List String → String → Nat → List Selection → Log}
    (walks : ∀ opened parentType depth sels,
      Follows analyzer vars opened (walk parentType depth sels)
        (visit opened parentType depth sels)) (name : String) (depth : Nat) :
    Follows analyzer vars opened (walkSpread document walk name depth)
      (visitSpread document visit opened name depth) := by
  intro progress start
  unfold walkSpread visitSpread
  rw [start]
  by_cases cycle : name ∈ opened
  · simp only [if_pos cycle]
    exact follows_stop (.fragmentCycle name) progress start
  · simp only [if_neg cycle]
    cases found : document.fragments.lookup name with
    | none => exact follows_stop (.fragmentNotDefined name) progress start
    | some fragment =>
        obtain ⟨visited, walked, restored⟩ :=
          walks (name :: opened) fragment.onType depth fragment.sels
            (progress.openFragment name) (by rw [Progress.openFragment, start])
        have recorded : (progress.openFragment name).replay analyzer vars
            (visit (name :: opened) fragment.onType depth fragment.sels).visits =
            (progress.replay analyzer vars
              (visit (name :: opened) fragment.onType depth fragment.sels).visits).withVisited
                (name :: opened) := by
          rw [← replay_visited, ← start]
          rfl
        dsimp only [Log.visited]
        rw [walked, recorded]
        cases stopped : (visit (name :: opened) fragment.onType depth fragment.sels).error with
        | some error =>
            refine ⟨visited, rfl, ?_⟩
            intro completed
            cases completed
        | none =>
            refine ⟨opened, ?_, fun _ => rfl⟩
            have closed : visited.filter (· ≠ name) = opened := by
              rw [restored stopped, List.filter_cons_of_neg (by simp), List.filter_eq_self]
              intro other member
              simp only [decide_eq_true_eq]
              rintro rfl
              exact cycle member
            simp only [Walked.andThen, Progress.closeFragment, Progress.withVisited, closed]
            rfl

/-- The walk makes the visits of the document. -/
theorem follows_walk (fuel : Nat) (opened : List String) (parentType : String) (depth : Nat)
    (sels : List Selection) :
    Follows analyzer vars opened (walk analyzer document vars fuel parentType depth sels)
      (visit document fuel opened parentType depth sels) := by
  induction fuel generalizing opened parentType depth sels with
  | zero => exact follows_stop .stuck
  | succ fuel inductionHypothesis =>
      have spreads : ∀ name depth, Follows analyzer vars opened
          (walkSpread document (walk analyzer document vars fuel) name depth)
          (visitSpread document (visit document fuel) opened name depth) := by
        intro name depth
        exact follows_spread inductionHypothesis name depth
      exact (follows_selections spreads parentType depth sels).visited (.enter depth)

/-- The cost of an operation is what its visits add up to. -/
theorem walkOperation_eq (operation : Operation) :
    ∃ visited, walkOperation analyzer document vars operation =
      ((Progress.zero.replay analyzer vars (visitOperation document operation).visits).withVisited
        visited, (visitOperation document operation).error) := by
  have follows : Follows analyzer vars []
      (walk analyzer document vars (document.fragments.length + 1) (rootType operation) 1
        operation.sels) (visitOperation document operation) :=
    follows_walk _ _ _ _ _
  obtain ⟨visited, walked, -⟩ := follows .zero rfl
  exact ⟨visited, walked⟩

/-! ## The fuel of the walk -/

theorem andThen_error {first second : Log} {error : CostError}
    (stopped : (first.andThen second).error = some error) :
    first.error = some error ∨ second.error = some error := by
  unfold Log.andThen at stopped
  cases firstError : first.error with
  | none =>
      rw [firstError] at stopped
      exact Or.inr stopped
  | some other =>
      rw [firstError] at stopped
      exact Or.inl stopped

section Syntax

variable {spread : String → Nat → Log} {error : CostError}

mutual

/-- Only a spread stops a walk. -/
theorem error_of_selections {parentType : String} {depth : Nat} :
    ∀ {sels}, (visitSelections spread parentType depth sels).error = some error →
      ∃ name depth, (spread name depth).error = some error
  | [], stopped => nomatch stopped
  | _ :: _, stopped =>
      match andThen_error stopped with
      | .inl first => error_of_selection first
      | .inr second => error_of_selections second

theorem error_of_selection {parentType : String} {depth : Nat} :
    ∀ {selection}, (visitSelection spread parentType depth selection).error = some error →
      ∃ name depth, (spread name depth).error = some error
  | .field _, stopped => error_of_field stopped
  | .inlineFragment _ _, stopped => error_of_selections stopped
  | .fragmentSpread name, stopped => ⟨name, depth, stopped⟩

theorem error_of_field {parentType : String} {depth : Nat} :
    ∀ {field}, (visitField spread parentType depth field).error = some error →
      ∃ name depth, (spread name depth).error = some error
  | .mk name aliasName args directives sels, stopped => by
      unfold visitField at stopped
      split at stopped
      · cases stopped
      · dsimp only [Log.visited] at stopped
        split at stopped
        · cases stopped
        · exact error_of_selections stopped

end

end Syntax

theorem mem_of_lookup {Value : Type} {entries : List (String × Value)} {key : String}
    {value : Value} (found : entries.lookup key = some value) : (key, value) ∈ entries := by
  obtain ⟨before, after, split, -⟩ := List.lookup_eq_some_iff.mp found
  rw [split]
  simp

/-- The open fragments are different ones of the document, so there is fuel for one more. -/
theorem visit_not_stuck (fuel : Nat) (opened : List String) (parentType : String) (depth : Nat)
    (sels : List Selection) (nodup : opened.Nodup)
    (declared : opened ⊆ document.fragments.map Prod.fst)
    (enough : document.fragments.length < fuel + opened.length) :
    (visit document fuel opened parentType depth sels).error ≠ some .stuck := by
  induction fuel generalizing opened parentType depth sels with
  | zero =>
      have fewer := (List.subperm_of_subset nodup declared).length_le
      rw [List.length_map] at fewer
      omega
  | succ fuel inductionHypothesis =>
      intro stuck
      obtain ⟨name, depth, stopped⟩ := error_of_selections stuck
      unfold visitSpread at stopped
      split at stopped
      · cases stopped
      · next fresh =>
          cases found : document.fragments.lookup name with
          | none =>
              rw [found] at stopped
              cases stopped
          | some fragment =>
              rw [found] at stopped
              refine inductionHypothesis (name :: opened) fragment.onType depth fragment.sels
                (List.nodup_cons.mpr ⟨fresh, nodup⟩) ?_ ?_ stopped
              · exact List.cons_subset.mpr
                  ⟨List.mem_map_of_mem (mem_of_lookup found), declared⟩
              · rw [List.length_cons]
                omega

theorem visitOperation_not_stuck (document : Document) (operation : Operation) :
    (visitOperation document operation).error ≠ some .stuck :=
  visit_not_stuck _ [] _ 1 operation.sels List.nodup_nil (List.nil_subset _) (Nat.lt_succ_self _)

/-! ## What the visits add up to -/

/-- A call of `walk` or `walkField`. -/
def Visit.isCall : Visit → Bool
  | .expand _ => false
  | _ => true

/-- The calls of a walk. -/
def Log.calls (log : Log) : Nat := log.visits.countP Visit.isCall

/-- The fragments that are expanded, in order. -/
def Log.expanded (log : Log) : List String :=
  log.visits.filterMap fun
    | .expand name => some name
    | _ => none

variable (analyzer vars) in
/-- The charge of a visit, before any overflow. -/
def Visit.charge : Visit → Int
  | .field parentType name args =>
      (analyzer.weights.weightFor parentType name).weight.toInt *
        (analyzer.limits.multiplier (analyzer.weights.weightFor parentType name) args
          vars).toInt
  | _ => 0

variable (analyzer vars) in
/-- The charges of a walk, before any overflow. -/
def Log.charged (log : Log) : Int := (log.visits.map (Visit.charge analyzer vars)).sum

theorem calls_visited {visit : Visit} (call : visit.isCall = true) (log : Log) :
    (log.visited visit).calls = log.calls + 1 := by
  simp [Log.calls, Log.visited, call]

theorem calls_expand (name : String) (log : Log) :
    (log.visited (.expand name)).calls = log.calls := by
  simp [Log.calls, Log.visited, Visit.isCall]

theorem expanded_visited {visit : Visit} (call : visit.isCall = true) (log : Log) :
    (log.visited visit).expanded = log.expanded := by
  cases visit with
  | expand name => cases call
  | enter depth => rfl
  | introspection name => rfl
  | field parentType name args => rfl

/-- After a walk that was completed the next one goes on. -/
theorem andThen_of_completed {first : Log} (completed : first.error = none) (second : Log) :
    first.andThen second = ⟨first.visits ++ second.visits, second.error⟩ := by
  rw [Log.andThen, completed]

theorem completed_of_andThen {first second : Log}
    (completed : (first.andThen second).error = none) :
    first.error = none ∧ second.error = none := by
  unfold Log.andThen at completed
  cases stopped : first.error with
  | none =>
      rw [stopped] at completed
      exact ⟨rfl, completed⟩
  | some error =>
      rw [stopped] at completed
      cases completed

theorem replay_calls (progress : Progress) (visits : List Visit) :
    (progress.replay analyzer vars visits).calls =
      progress.calls + visits.countP Visit.isCall := by
  induction visits generalizing progress with
  | nil => rfl
  | cons visit visits inductionHypothesis =>
      rw [replay_cons, inductionHypothesis, List.countP_cons]
      cases visit with
      | enter depth =>
          simp [Progress.record, Progress.enter, Visit.isCall]
          omega
      | introspection name =>
          simp [Progress.record, Progress.called, Visit.isCall]
          omega
      | field parentType name args =>
          simp [Progress.record, Progress.called, Progress.charge, Visit.isCall]
          omega
      | expand name => simp [Progress.record, Visit.isCall]

theorem record_complexity (visit : Visit) (progress : Progress) :
    (progress.record analyzer vars visit).complexity =
      progress.complexity + Int64.ofInt (visit.charge analyzer vars) := by
  cases visit with
  | enter depth => simp [Progress.record, Progress.enter, Visit.charge]
  | introspection name => simp [Progress.record, Progress.called, Visit.charge]
  | field parentType name args =>
      simp [Progress.record, Progress.called, Progress.charge, Visit.charge,
        Analyzer.fieldCharge, Int64.ofInt_mul]
  | expand name => simp [Progress.record, Visit.charge]

theorem replay_complexity (progress : Progress) (visits : List Visit) :
    (progress.replay analyzer vars visits).complexity =
      progress.complexity +
        Int64.ofInt (visits.map (Visit.charge analyzer vars)).sum := by
  induction visits generalizing progress with
  | nil => simp [Progress.replay]
  | cons visit visits inductionHypothesis =>
      rw [replay_cons, inductionHypothesis, record_complexity, List.map_cons, List.sum_cons,
        Int64.ofInt_add, Int64.add_assoc]

end GitScale.GraphQL.Cost
