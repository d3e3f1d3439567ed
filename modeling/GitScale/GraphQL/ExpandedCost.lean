import GitScale.GraphQL.WalkCalls

/-!
# The cost of the expanded query

What the analysis of a query means without the walk: a path through the document on which a
fragment is missing or spread within itself is an error, and every other query has one tree in
which all fragments are replaced by what they contain.  The complexity is the sum over that tree
and the depth is its height.
-/

namespace GitScale.GraphQL.Cost

open Foundation Go

/-! ## Paths and trees -/

/-- Some path from the selections reaches a fragment that is not defined or that is open on
the path. -/
inductive Broken (document : Document) : List String → List Selection → Prop where
  | missing {opened : List String} {sels : List Selection} {name : String}
      (spreads : .fragmentSpread name ∈ sels)
      (absent : document.fragments.lookup name = none) : Broken document opened sels
  | cycle {opened : List String} {sels : List Selection} {name : String}
      (spreads : .fragmentSpread name ∈ sels) (again : name ∈ opened) :
      Broken document opened sels
  | spread {opened : List String} {sels : List Selection} {name : String} {fragment : Fragment}
      (spreads : .fragmentSpread name ∈ sels)
      (defined : document.fragments.lookup name = some fragment)
      (broken : Broken document (name :: opened) fragment.sels) : Broken document opened sels
  | inline {opened : List String} {sels inner : List Selection} {onType : String}
      (contains : .inlineFragment onType inner ∈ sels)
      (broken : Broken document opened inner) : Broken document opened sels
  | field {opened : List String} {sels nested : List Selection} {name aliasName : String}
      {args : List (String × ArgValue)} {directives : List String}
      (selects : .field (.mk name aliasName args directives nested) ∈ sels)
      (entered : isIntrospection name = false) (broken : Broken document opened nested) :
      Broken document opened sels

/-- The selections of a query without fragments.  A field stands with the type it is selected
on, and is a leaf when it has no selection set or is an introspection field. -/
inductive Tree where
  | leaf (parentType name : String) (args : List (String × ArgValue))
  | node (parentType name : String) (args : List (String × ArgValue)) (sels : List Tree)

/-- `Expands document parentType sels trees`: the selections on a type, with every fragment
replaced by what it contains. -/
inductive Expands (document : Document) : String → List Selection → List Tree → Prop where
  | nil {parentType : String} : Expands document parentType [] []
  | leaf {parentType name aliasName : String} {args : List (String × ArgValue)}
      {directives : List String} {nested rest : List Selection} {trees : List Tree}
      (ends : isIntrospection name = true ∨ nested = [])
      (others : Expands document parentType rest trees) :
      Expands document parentType (.field (.mk name aliasName args directives nested) :: rest)
        (.leaf parentType name args :: trees)
  | node {parentType name aliasName : String} {args : List (String × ArgValue)}
      {directives : List String} {nested rest : List Selection} {inner trees : List Tree}
      (entered : isIntrospection name = false) (nonempty : nested ≠ [])
      (within : Expands document (childType parentType name) nested inner)
      (others : Expands document parentType rest trees) :
      Expands document parentType (.field (.mk name aliasName args directives nested) :: rest)
        (.node parentType name args inner :: trees)
  | inline {parentType onType : String} {sels rest : List Selection} {inner trees : List Tree}
      (within : Expands document (if onType = "" then parentType else onType) sels inner)
      (others : Expands document parentType rest trees) :
      Expands document parentType (.inlineFragment onType sels :: rest) (inner ++ trees)
  | spread {parentType name : String} {fragment : Fragment} {rest : List Selection}
      {inner trees : List Tree} (defined : document.fragments.lookup name = some fragment)
      (within : Expands document fragment.onType fragment.sels inner)
      (others : Expands document parentType rest trees) :
      Expands document parentType (.fragmentSpread name :: rest) (inner ++ trees)

section Measures

variable (analyzer : Analyzer) (vars : List (String × Variable))

/-- The weight of a field times the multiplier that `walkField` picks, before any overflow; an
introspection field is free. -/
def fieldCost (parentType name : String) (args : List (String × ArgValue)) : Int :=
  if isIntrospection name then 0
  else
    let weight := analyzer.weights.weightFor parentType name
    weight.weight.toInt * (analyzer.limits.multiplier weight args vars).toInt

mutual

def Tree.cost : Tree → Int
  | .leaf parentType name args => fieldCost analyzer vars parentType name args
  | .node parentType name args sels =>
      fieldCost analyzer vars parentType name args + Tree.costs sels

/-- The sum over all fields. -/
def Tree.costs : List Tree → Int
  | [] => 0
  | tree :: rest => tree.cost + Tree.costs rest

end

end Measures

mutual

def Tree.height : Tree → Nat
  | .leaf _ _ _ => 0
  | .node _ _ _ sels => Tree.heights sels + 1

/-- The largest number of nested selection sets of fields. -/
def Tree.heights : List Tree → Nat
  | [] => 0
  | tree :: rest => max tree.height (Tree.heights rest)

end

/-- The expansion is determined by the document. -/
theorem Expands.unique {document : Document} {parentType : String} {sels : List Selection}
    {trees others : List Tree} (first : Expands document parentType sels trees)
    (second : Expands document parentType sels others) : trees = others := by
  induction first generalizing others with
  | nil =>
      cases second
      rfl
  | leaf ends rest inductionHypothesis =>
      cases second with
      | leaf _ rest => rw [inductionHypothesis rest]
      | node entered nonempty =>
          rcases ends with free | empty
          · rw [free] at entered
            cases entered
          · exact absurd empty nonempty
  | node entered nonempty within rest nestedHypothesis inductionHypothesis =>
      cases second with
      | leaf ends =>
          rcases ends with free | empty
          · rw [free] at entered
            cases entered
          · exact absurd empty nonempty
      | node _ _ within rest => rw [nestedHypothesis within, inductionHypothesis rest]
  | inline within rest nestedHypothesis inductionHypothesis =>
      cases second with
      | inline within rest => rw [nestedHypothesis within, inductionHypothesis rest]
  | spread defined within rest nestedHypothesis inductionHypothesis =>
      cases second with
      | spread found within rest =>
          rw [defined] at found
          cases found
          rw [nestedHypothesis within, inductionHypothesis rest]

/-- Expansions are joined selection by selection. -/
theorem Expands.cons {document : Document} {parentType : String} {selection : Selection}
    {rest : List Selection} {first trees : List Tree}
    (here : Expands document parentType [selection] first)
    (others : Expands document parentType rest trees) :
    Expands document parentType (selection :: rest) (first ++ trees) := by
  cases here with
  | leaf ends none =>
      cases none
      exact .leaf ends others
  | node entered nonempty within none =>
      cases none
      exact .node entered nonempty within others
  | inline within none =>
      cases none
      rw [List.append_nil]
      exact .inline within others
  | spread defined within none =>
      cases none
      rw [List.append_nil]
      exact .spread defined within others

/-! ## What a completed walk adds up to -/

/-- The depth of a call of `walk`. -/
def Visit.depth : Visit → Nat
  | .enter depth => depth
  | _ => 0

/-- The greatest depth of a walk. -/
def Log.deepest (log : Log) : Nat := (log.visits.map Visit.depth).foldr max 0

theorem foldr_max_append (first second : List Nat) :
    (first ++ second).foldr max 0 = max (first.foldr max 0) (second.foldr max 0) := by
  induction first with
  | nil => simp
  | cons depth rest inductionHypothesis => simp [inductionHypothesis, max_assoc]

theorem deepest_visited (visit : Visit) (log : Log) :
    (log.visited visit).deepest = max visit.depth log.deepest :=
  rfl

theorem replay_depth {analyzer : Analyzer} {vars : List (String × Variable)}
    (progress : Progress) (visits : List Visit) :
    (progress.replay analyzer vars visits).depth =
      max progress.depth ((visits.map Visit.depth).foldr max 0) := by
  induction visits generalizing progress with
  | nil => simp [Progress.replay]
  | cons visit visits inductionHypothesis =>
      rw [replay_cons, inductionHypothesis, List.map_cons, List.foldr_cons, ← max_assoc]
      congr 1
      cases visit with
      | enter depth => rfl
      | introspection name => simp [Progress.record, Progress.called, Visit.depth]
      | field parentType name args =>
          simp [Progress.record, Progress.called, Progress.charge, Visit.depth]
      | expand name => simp [Progress.record, Visit.depth]

theorem costs_append (analyzer : Analyzer) (vars : List (String × Variable))
    (first second : List Tree) :
    Tree.costs analyzer vars (first ++ second) =
      Tree.costs analyzer vars first + Tree.costs analyzer vars second := by
  induction first with
  | nil => simp [Tree.costs]
  | cons tree rest inductionHypothesis => simp [Tree.costs, inductionHypothesis, Int.add_assoc]

theorem heights_append (first second : List Tree) :
    Tree.heights (first ++ second) = max (Tree.heights first) (Tree.heights second) := by
  induction first with
  | nil => simp [Tree.heights]
  | cons tree rest inductionHypothesis => simp [Tree.heights, inductionHypothesis, max_assoc]

section Weighing

variable {document : Document} {analyzer : Analyzer} {vars : List (String × Variable)}

variable (analyzer vars) in
/-- A walk at a depth charges for the trees and goes as deep as they are high. -/
structure Weighs (depth : Nat) (log : Log) (trees : List Tree) : Prop where
  charged : log.charged analyzer vars = Tree.costs analyzer vars trees
  deepest : max depth log.deepest = depth + Tree.heights trees

variable {depth : Nat} {log : Log} {trees : List Tree}

theorem weighs_empty : Weighs analyzer vars depth .empty [] :=
  ⟨rfl, by simp [Log.deepest, Log.empty, Tree.heights]⟩

theorem Weighs.andThen (weighs : Weighs analyzer vars depth log trees)
    (completed : log.error = none) {second : Log} {others : List Tree}
    (next : Weighs analyzer vars depth second others) :
    Weighs analyzer vars depth (log.andThen second) (trees ++ others) := by
  rw [andThen_of_completed completed]
  constructor
  · have charged := weighs.charged
    have nextCharged := next.charged
    unfold Log.charged at *
    rw [List.map_append, List.sum_append, costs_append, charged, nextCharged]
  · have deepest := weighs.deepest
    have nextDeepest := next.deepest
    unfold Log.deepest at *
    rw [List.map_append, foldr_max_append, heights_append]
    omega

/-- A visit that is free and not deeper. -/
theorem Weighs.visited (weighs : Weighs analyzer vars depth log trees) {visit : Visit}
    (free : visit.charge analyzer vars = 0) (within : visit.depth ≤ depth) :
    Weighs analyzer vars depth (log.visited visit) trees := by
  constructor
  · rw [← weighs.charged]
    simp [Log.charged, Log.visited, free]
  · have deepest := weighs.deepest
    rw [deepest_visited]
    omega

theorem weighs_introspection (parentType : String) {name : String}
    (free : isIntrospection name = true) (args : List (String × ArgValue)) :
    Weighs analyzer vars depth (Log.empty.visited (.introspection name))
      [.leaf parentType name args] := by
  constructor
  · simp [Log.charged, Log.visited, Log.empty, Visit.charge, Tree.costs, Tree.cost, fieldCost,
      free]
  · simp [Log.deepest, Log.visited, Log.empty, Visit.depth, Tree.heights, Tree.height]

theorem weighs_leaf (parentType : String) {name : String}
    (entered : isIntrospection name = false) (args : List (String × ArgValue)) :
    Weighs analyzer vars depth (Log.empty.visited (.field parentType name args))
      [.leaf parentType name args] := by
  constructor
  · simp [Log.charged, Log.visited, Log.empty, Visit.charge, Tree.costs, Tree.cost, fieldCost,
      entered]
  · simp [Log.deepest, Log.visited, Log.empty, Visit.depth, Tree.heights, Tree.height]

theorem Weighs.node (weighs : Weighs analyzer vars (depth + 1) log trees) (parentType : String)
    {name : String} (entered : isIntrospection name = false)
    (args : List (String × ArgValue)) :
    Weighs analyzer vars depth
      ((log.visited (.enter (depth + 1))).visited (.field parentType name args))
      [.node parentType name args trees] := by
  constructor
  · have charged := weighs.charged
    simp only [Log.charged] at charged
    simp [Log.charged, Log.visited, Visit.charge, Tree.costs, Tree.cost, fieldCost, entered,
      charged]
  · have deepest := weighs.deepest
    rw [deepest_visited, deepest_visited]
    simp only [Visit.depth, Tree.heights, Tree.height]
    omega

/-- What a walk that was completed stands for. -/
def Accounts (document : Document) (analyzer : Analyzer) (vars : List (String × Variable))
    (parentType : String) (sels : List Selection) (depth : Nat) (log : Log) : Prop :=
  log.error = none →
    ∃ trees, Expands document parentType sels trees ∧ Weighs analyzer vars depth log trees

section Syntax

variable {spread : String → Nat → Log}

mutual

theorem accounts_selections
    (spreads : ∀ name depth parentType, Accounts document analyzer vars parentType
      [.fragmentSpread name] depth (spread name depth)) (parentType : String) (depth : Nat) :
    ∀ sels, Accounts document analyzer vars parentType sels depth
      (visitSelections spread parentType depth sels)
  | [], _ => ⟨[], .nil, weighs_empty⟩
  | selection :: rest, completed => by
      obtain ⟨first, second⟩ := completed_of_andThen completed
      obtain ⟨here, expandsHere, weighsHere⟩ :=
        accounts_selection spreads parentType depth selection first
      obtain ⟨others, expandsOthers, weighsOthers⟩ :=
        accounts_selections spreads parentType depth rest second
      exact ⟨here ++ others, expandsHere.cons expandsOthers,
        weighsHere.andThen first weighsOthers⟩

theorem accounts_selection
    (spreads : ∀ name depth parentType, Accounts document analyzer vars parentType
      [.fragmentSpread name] depth (spread name depth)) (parentType : String) (depth : Nat) :
    ∀ selection, Accounts document analyzer vars parentType [selection] depth
      (visitSelection spread parentType depth selection)
  | .field field, completed => accounts_field spreads parentType depth field completed
  | .inlineFragment onType sels, completed => by
      obtain ⟨inner, expands, weighs⟩ := accounts_selections spreads _ depth sels completed
      refine ⟨inner, ?_, weighs.visited rfl (Nat.le_refl _)⟩
      rw [← List.append_nil inner]
      exact .inline expands .nil
  | .fragmentSpread name, completed => spreads name depth parentType completed

theorem accounts_field
    (spreads : ∀ name depth parentType, Accounts document analyzer vars parentType
      [.fragmentSpread name] depth (spread name depth)) (parentType : String) (depth : Nat) :
    ∀ field, Accounts document analyzer vars parentType [.field field] depth
      (visitField spread parentType depth field)
  | .mk name aliasName args directives sels, completed => by
      have nested := accounts_selections spreads (childType parentType name) (depth + 1) sels
      unfold visitField at completed ⊢
      by_cases free : isIntrospection name
      · simp only [if_pos free] at completed ⊢
        exact ⟨_, .leaf (Or.inl free) .nil, weighs_introspection parentType free args⟩
      · simp only [if_neg free] at completed ⊢
        have entered := Bool.eq_false_iff.mpr free
        by_cases leaf : sels.isEmpty
        · simp only [if_pos leaf]
          exact ⟨_, .leaf (Or.inr (List.isEmpty_iff.mp leaf)) .nil,
            weighs_leaf parentType entered args⟩
        · simp only [if_neg leaf] at completed ⊢
          obtain ⟨inner, expands, weighs⟩ := nested completed
          exact ⟨_, .node entered (fun empty => leaf (List.isEmpty_iff.mpr empty)) expands .nil,
            weighs.node parentType entered args⟩

end

end Syntax

variable (analyzer vars) in
theorem accounts_visit (fuel : Nat) (opened : List String) (parentType : String) (depth : Nat)
    (sels : List Selection) :
    Accounts document analyzer vars parentType sels depth
      (visit document fuel opened parentType depth sels) := by
  induction fuel generalizing opened parentType depth sels with
  | zero =>
      intro completed
      cases completed
  | succ fuel inductionHypothesis =>
      have spreads : ∀ name depth parentType, Accounts document analyzer vars parentType
          [.fragmentSpread name] depth
          (visitSpread document (visit document fuel) opened name depth) := by
        intro name depth parentType completed
        unfold visitSpread at completed ⊢
        split at completed
        · cases completed
        · next fresh =>
            rw [if_neg fresh]
            cases found : document.fragments.lookup name with
            | none =>
                rw [found] at completed
                cases completed
            | some fragment =>
                rw [found] at completed
                obtain ⟨inner, expands, weighs⟩ := inductionHypothesis (name :: opened)
                  fragment.onType depth fragment.sels completed
                refine ⟨inner, ?_, weighs.visited rfl (Nat.zero_le _)⟩
                rw [← List.append_nil inner]
                exact .spread found expands .nil
      intro completed
      obtain ⟨trees, expands, weighs⟩ :=
        accounts_selections spreads parentType depth sels completed
      exact ⟨trees, expands, weighs.visited rfl (Nat.le_refl _)⟩

end Weighing

/-! ## Where a walk stops -/

section Breaking

variable {document : Document} {opened : List String}

section Syntax

variable {spread : String → Nat → Log} {error : CostError}

mutual

/-- A walk stops at a spread, and the path to it is broken. -/
theorem broken_of_selections
    (spreads : ∀ name depth sels, (spread name depth).error = some error →
      .fragmentSpread name ∈ sels → Broken document opened sels)
    {parentType : String} {depth : Nat} :
    ∀ {part : List Selection} (whole : List Selection),
      (visitSelections spread parentType depth part).error = some error →
      part ⊆ whole → Broken document opened whole
  | [], _, stopped, _ => nomatch stopped
  | _ :: _, whole, stopped, subset =>
      match andThen_error stopped with
      | .inl first => broken_of_selection spreads whole first (subset List.mem_cons_self)
      | .inr second =>
          broken_of_selections spreads whole second fun _ membership =>
            subset (List.mem_cons_of_mem _ membership)

theorem broken_of_selection
    (spreads : ∀ name depth sels, (spread name depth).error = some error →
      .fragmentSpread name ∈ sels → Broken document opened sels)
    {parentType : String} {depth : Nat} :
    ∀ {selection : Selection} (sels : List Selection),
      (visitSelection spread parentType depth selection).error = some error →
      selection ∈ sels → Broken document opened sels
  | .field _, sels, stopped, membership => broken_of_field spreads sels stopped membership
  | .inlineFragment _ inner, _, stopped, membership =>
      .inline membership (broken_of_selections spreads inner stopped (List.Subset.refl _))
  | .fragmentSpread name, sels, stopped, membership => spreads name depth sels stopped membership

theorem broken_of_field
    (spreads : ∀ name depth sels, (spread name depth).error = some error →
      .fragmentSpread name ∈ sels → Broken document opened sels)
    {parentType : String} {depth : Nat} :
    ∀ {field : Field} (sels : List Selection),
      (visitField spread parentType depth field).error = some error →
      .field field ∈ sels → Broken document opened sels
  | .mk name aliasName args directives nested, sels, stopped, membership => by
      unfold visitField at stopped
      split at stopped
      · cases stopped
      · next entered =>
          dsimp only [Log.visited] at stopped
          split at stopped
          · cases stopped
          · exact .field membership (Bool.eq_false_iff.mpr entered)
              (broken_of_selections spreads nested stopped (List.Subset.refl _))

end

end Syntax

/-- The error of a fragment. -/
def CostError.IsFragment : CostError → Prop
  | .fragmentCycle _ | .fragmentNotDefined _ => True
  | _ => False

/-- A walk that stops was led to a fragment on a broken path, unless it ran out of fuel. -/
theorem broken_of_visit {error : CostError} (fuel : Nat) {parentType : String} {depth : Nat}
    {sels : List Selection}
    (stopped : (visit document fuel opened parentType depth sels).error = some error)
    (enough : error ≠ .stuck) : error.IsFragment ∧ Broken document opened sels := by
  induction fuel generalizing opened parentType depth sels with
  | zero =>
      cases stopped
      exact absurd rfl enough
  | succ fuel inductionHypothesis =>
      have spreads : ∀ name depth sels,
          (visitSpread document (visit document fuel) opened name depth).error = some error →
          .fragmentSpread name ∈ sels → error.IsFragment ∧ Broken document opened sels := by
        intro name depth sels stopped membership
        unfold visitSpread at stopped
        split at stopped
        · next again =>
            cases stopped
            exact ⟨trivial, .cycle membership again⟩
        · cases found : document.fragments.lookup name with
          | none =>
              rw [found] at stopped
              cases stopped
              exact ⟨trivial, .missing membership found⟩
          | some fragment =>
              rw [found] at stopped
              obtain ⟨fragmentError, broken⟩ := inductionHypothesis stopped
              exact ⟨fragmentError, .spread membership found broken⟩
      have broken : Broken document opened sels :=
        broken_of_selections
          (fun name depth sels stopped membership => (spreads name depth sels stopped membership).2)
          sels stopped (List.Subset.refl _)
      obtain ⟨name, depth, atSpread⟩ := error_of_selections stopped
      exact ⟨(spreads name depth [.fragmentSpread name] atSpread List.mem_cons_self).1, broken⟩

theorem completed_of_mem {spread : String → Nat → Log} {parentType : String} {depth : Nat}
    {sels : List Selection}
    (completed : (visitSelections spread parentType depth sels).error = none)
    {selection : Selection} (membership : selection ∈ sels) :
    (visitSelection spread parentType depth selection).error = none := by
  induction sels with
  | nil => cases membership
  | cons first rest inductionHypothesis =>
      obtain ⟨here, others⟩ := completed_of_andThen completed
      rcases List.mem_cons.mp membership with rfl | membership
      · exact here
      · exact inductionHypothesis others membership

/-- A walk is not completed when some path is broken. -/
theorem Broken.not_completed {sels : List Selection} (broken : Broken document opened sels)
    (fuel : Nat) (parentType : String) (depth : Nat) :
    (visitSelections (visitSpread document (visit document fuel) opened) parentType depth
      sels).error ≠ none := by
  induction broken generalizing fuel parentType depth with
  | missing spreads absent =>
      intro completed
      have here := completed_of_mem completed spreads
      simp only [visitSelection, visitSpread, absent] at here
      split at here <;> cases here
  | cycle spreads again =>
      intro completed
      have here := completed_of_mem completed spreads
      simp only [visitSelection, visitSpread, if_pos again] at here
      cases here
  | spread spreads defined broken inductionHypothesis =>
      intro completed
      have here := completed_of_mem completed spreads
      simp only [visitSelection, visitSpread, defined] at here
      split at here
      · cases here
      · cases fuel with
        | zero => cases here
        | succ fuel => exact inductionHypothesis fuel _ _ here
  | inline contains broken inductionHypothesis =>
      intro completed
      have here := completed_of_mem completed contains
      exact inductionHypothesis fuel _ _ here
  | @field opened sels nested name aliasName args directives selects entered broken
      inductionHypothesis =>
      intro completed
      have here := completed_of_mem completed selects
      simp only [visitSelection, visitField, entered, Log.visited] at here
      cases nested with
      | nil => exact inductionHypothesis fuel parentType depth rfl
      | cons selection rest => exact inductionHypothesis fuel _ _ here

/-- Only a fragment stops the walk of an operation. -/
theorem visitOperation_stopped {operation : Operation} {error : CostError}
    (stopped : (visitOperation document operation).error = some error) :
    error.IsFragment ∧ Broken document [] operation.sels := by
  apply broken_of_visit _ stopped
  rintro rfl
  exact visitOperation_not_stuck document operation stopped

end Breaking

section Analysis

variable {document : Document} {analyzer : Analyzer} {vars : List (String × Variable)}
  {opName : String} {operation : Operation} {kind : PrincipalKind}

variable (vars) in
/-- Without limits an analysis reports the walk. -/
theorem analyzeDocument_unlimited (picked : pickOperation document opName = .ok operation)
    (noDepth : analyzer.limits.maxDepth kind = none)
    (noComplexity : analyzer.limits.maxComplexity kind = none) :
    let log := visitOperation document operation
    let analysis := analyzer.analyzeDocument document vars opName kind false
    analysis.error = log.error ∧
      (log.error = none → analysis.cost =
        ⟨log.deepest, Int64.ofInt (log.charged analyzer vars)⟩) := by
  intro log analysis
  obtain ⟨visited, walked⟩ :=
    (walkOperation_eq operation : ∃ visited, walkOperation analyzer document vars operation = _)
  have depth : (Progress.zero.replay analyzer vars log.visits).depth = max 0 _ :=
    replay_depth _ _
  have complexity : (Progress.zero.replay analyzer vars log.visits).complexity = 0 + _ :=
    replay_complexity _ _
  have passes (cost : QueryCost) : analyzer.limits.check kind cost = none := by
    simp [Limits.check, noDepth, noComplexity]
  dsimp only [analysis, log] at *
  unfold Analyzer.analyzeDocument
  rw [picked]
  dsimp only
  rw [walked]
  cases (visitOperation document operation).error with
  | some error => simp
  | none =>
      refine ⟨passes _, fun _ => ?_⟩
      simp only [Progress.withVisited, depth, complexity, Nat.zero_max, Int64.zero_add]
      rfl

/-- `Analyze` of a parsed source, without limits: a fragment is the error exactly when some path
is broken, and otherwise the cost is that of the one expanded tree. -/
theorem analyze_expanded (analyzer : Analyzer) (vars : List (String × Variable)) (source : Text)
    (document : Document) (position : Nat) (opName : String) (operation : Operation)
    (kind : PrincipalKind) (parsed : parseQuery source = .ok document position)
    (picked : pickOperation document opName = .ok operation)
    (noDepth : analyzer.limits.maxDepth kind = none)
    (noComplexity : analyzer.limits.maxComplexity kind = none) :
    let analysis := analyzer.analyze vars source opName kind false
    analysis.error ≠ some .stuck ∧
      ((∃ error, analysis.error = some error ∧ error.IsFragment) ↔
        Broken document [] operation.sels) ∧
      (¬ Broken document [] operation.sels →
        ∃ trees, (∀ others, Expands document (rootType operation) operation.sels others ↔
            others = trees) ∧
          analysis.error = none ∧ analysis.cost.depth = 1 + Tree.heights trees ∧
          analysis.cost.complexity = Int64.ofInt (Tree.costs analyzer vars trees) ∧
          (-2 ^ 63 ≤ Tree.costs analyzer vars trees → Tree.costs analyzer vars trees < 2 ^ 63 →
            analysis.cost.complexity.toInt = Tree.costs analyzer vars trees)) := by
  intro analysis
  have terminates : analysis.error ≠ some .stuck := analyze_not_stuck source opName kind false
  have document_eq : analysis = analyzer.analyzeDocument document vars opName kind false := by
    simp only [analysis, Analyzer.analyze, parsed]
  obtain ⟨errorEq, costEq⟩ := analyzeDocument_unlimited vars picked noDepth noComplexity
  rw [← document_eq] at errorEq costEq
  refine ⟨terminates, ⟨?_, ?_⟩, ?_⟩
  · rintro ⟨error, stopped, -⟩
    exact (visitOperation_stopped (errorEq.symm.trans stopped)).2
  · intro broken
    cases stopped : (visitOperation document operation).error with
    | none => exact absurd stopped (broken.not_completed _ _ _)
    | some error => exact ⟨error, errorEq.trans stopped, (visitOperation_stopped stopped).1⟩
  · intro whole
    cases stopped : (visitOperation document operation).error with
    | some error => exact absurd (visitOperation_stopped stopped).2 whole
    | none =>
        obtain ⟨trees, expands, weighs⟩ :=
          accounts_visit analyzer vars _ _ _ _ _ stopped
        have entered : 1 ≤ (visitOperation document operation).deepest := Nat.le_max_left _ _
        have depth : (visitOperation document operation).deepest = 1 + Tree.heights trees :=
          (Nat.max_eq_right entered).symm.trans weighs.deepest
        have charged : (visitOperation document operation).charged analyzer vars =
          Tree.costs analyzer vars trees := weighs.charged
        rw [costEq stopped, depth, charged]
        refine ⟨trees, ?_, errorEq.trans stopped, rfl, rfl, ?_⟩
        · intro others
          constructor
          · intro expandsOthers
            exact expandsOthers.unique expands
          · rintro rfl
            exact expands
        · intro above below
          exact Int64.toInt_ofInt_of_le above below

end Analysis

/-- A connection of three issues with a fragment in it. -/
def connectionQuery : Text :=
  utf8 "query\x7brepository\x7bissues(first:3)\x7b...P\x7d\x7d\x7dfragment P on IssueConnection\x7bid\x7d"

def connectionDocument : Document where
  operations :=
    [⟨.query, "", [.field (.mk "repository" "" [] [] [.field
      (.mk "issues" "" [("first", ⟨some 3, "3"⟩)] [] [.fragmentSpread "P"])])]⟩]
  fragments := [("P", ⟨"P", "IssueConnection", [.field (.mk "id" "" [] [] [])]⟩)]

theorem analyze_expanded_connectionQuery :
    ∃ operation trees, pickOperation connectionDocument "" = .ok operation ∧
      Expands connectionDocument "Query" operation.sels trees ∧
      (Analyzer.standard.analyze [] connectionQuery "" .unknown false).cost =
        ⟨1 + Tree.heights trees, Int64.ofInt (Tree.costs .standard [] trees)⟩ := by
  have parsed : parseQuery connectionQuery = .ok connectionDocument connectionQuery.length := by
    decide +kernel
  have completes : (Analyzer.standard.analyze [] connectionQuery "" .unknown false).error = none := by
    decide +kernel
  obtain ⟨-, ⟨-, stops⟩, weighs⟩ :=
    analyze_expanded .standard [] connectionQuery connectionDocument _ "" _ .unknown parsed rfl
      rfl rfl
  obtain ⟨trees, expands, -, depth, complexity, -⟩ := weighs fun broken => by
    obtain ⟨error, stopped, -⟩ := stops broken
    rw [completes] at stopped
    cases stopped
  refine ⟨_, trees, rfl, (expands trees).mpr rfl, ?_⟩
  rw [← depth, ← complexity]

end GitScale.GraphQL.Cost
