import GitScale.GraphQL.Executor
import GitScale.GraphQL.Visits
import Mathlib.Algebra.Order.BigOperators.Group.List
import Mathlib.Algebra.Order.Ring.Int

/-!
# The charge of a query and what is executed

The router charges the complexity of the analysis and then executes the operation.  The
analyzer and the executor go through the document each in its own way: the analyzer weighs a
field under the type condition of its fragment and takes every name with two underscores for
introspection, while the executor gives all root fields to the resolver of the root type.
-/

namespace GitScale.GraphQL.Cost

open Foundation Go

/-! ## What is executed -/

/-- The operation that `execute` of the router hands to the executor. -/
def executedOperation (document : Document) (opName : String) : Option Operation :=
  match document.operations with
  | [] => none
  | first :: rest =>
      if opName = "" then some first
      else
        some (((first :: rest).find? fun candidate => candidate.name = opName).getD first)

/-- `dispatchRoot` answers these fields itself. -/
def isAnswered (field : Field) : Bool :=
  field.name = "__schema" || field.name = "__type" || field.name = "__typename"

/-- The fields that `Execute` passes to `resolveQueryRoot` or `resolveMutationRoot`. -/
def resolvedFields (document : Document) (operation : Operation) : List Field :=
  (rootFields document operation).filter fun field => !isAnswered field

/-- The weight of a field under the root type that the executor uses. -/
def rootWeight (operation : Operation) (field : Field) : Int :=
  (defaultFieldWeights.weightFor (rootType operation) field.name).weight.toInt

/-- The root fields of a selection, each with the type that encloses it. -/
def scopedFieldsOf (document : Document) (root : String) : Selection → List (String × Field)
  | .field field => [(root, field)]
  | .inlineFragment onType sels =>
      (fieldsOf sels).map fun field => (if onType = "" then root else onType, field)
  | .fragmentSpread name =>
      match document.fragments.lookup name with
      | none => []
      | some fragment => (fieldsOf fragment.sels).map fun field => (fragment.onType, field)

/-- The root fields of an operation, each with the type that encloses it. -/
def scopedFields (document : Document) (operation : Operation) : List (String × Field) :=
  operation.sels.flatMap (scopedFieldsOf document (rootType operation))

/-- The resolved fields that the source puts under the root type and that do not start with
two underscores. -/
def coveredFields (document : Document) (operation : Operation) : List Field :=
  ((scopedFields document operation).filter fun entry =>
    entry.1 = rootType operation && !isIntrospection entry.2.name).map Prod.snd

variable {document : Document}

/-- These are the fields that the executor dispatches. -/
theorem map_snd_scopedFields (operation : Operation) :
    (scopedFields document operation).map Prod.snd = rootFields document operation := by
  unfold scopedFields rootFields
  rw [List.map_flatMap]
  congr 1
  funext selection
  cases selection with
  | field field => rfl
  | inlineFragment onType sels => simp [scopedFieldsOf, rootFieldsOf, expandFragment]
  | fragmentSpread name =>
      simp only [scopedFieldsOf, rootFieldsOf, expandFragment]
      cases document.fragments.lookup name with
      | none => rfl
      | some fragment => simp

/-- The router executes the operation that was analysed. -/
theorem executedOperation_of_picked {opName : String} {operation : Operation}
    (picked : pickOperation document opName = .ok operation) :
    executedOperation document opName = some operation := by
  unfold pickOperation at picked
  unfold executedOperation
  split at picked
  · cases picked
  · next single operations =>
      rw [operations]
      split at picked
      · cases picked
      · cases picked
        simp only [List.find?_singleton]
        split
        · rfl
        · split
          · rfl
          · rfl
  · next several notNil notSingle =>
      split at picked
      · cases picked
      · next named =>
          cases operations : document.operations with
          | nil => exact absurd operations notNil
          | cons first rest =>
              rw [operations] at picked
              simp only [if_neg named]
              cases found : (first :: rest).find? fun candidate => candidate.name = opName with
              | none =>
                  rw [found] at picked
                  cases picked
              | some candidate =>
                  rw [found] at picked
                  cases picked
                  rfl

/-! ## What is charged -/

theorem weightFor_nonneg (parentType name : String) :
    0 ≤ (defaultFieldWeights.weightFor parentType name).weight.toInt := by
  have listed : ∀ fields ∈ defaultFieldWeights.perType, ∀ entry ∈ fields.2,
      0 ≤ entry.2.weight.toInt := by decide
  unfold FieldWeights.weightFor
  cases found : (defaultFieldWeights.perType.lookup parentType).bind (List.lookup name) with
  | none => decide
  | some weight =>
      obtain ⟨fields, foundType, foundField⟩ := Option.bind_eq_some_iff.mp found
      exact listed (parentType, fields) (mem_of_lookup foundType) (name, weight)
        (mem_of_lookup foundField)

variable {limits : Limits} {vars : List (String × Variable)}

/-- The analyzer with the default weights. -/
def weighted (limits : Limits) : Analyzer := .new limits defaultFieldWeights

theorem multiplier_pos (weight : Weight) (args : List (String × ArgValue)) :
    1 ≤ ((weighted limits).limits.multiplier weight args vars).toInt := by
  have positive : ∀ value : Int64, 0 < value → 1 ≤ value.toInt := by
    intro value above
    exact Int64.lt_iff_toInt_lt.mp above
  have defaultFirst : 0 < (weighted limits).limits.defaultFirst := by
    simp only [weighted, Analyzer.new]
    split
    · decide
    · next above => exact Int64.not_le.mp above
  have maxFirst : 0 < (weighted limits).limits.maxFirst := by
    simp only [weighted, Analyzer.new]
    split
    · decide
    · next above => exact Int64.not_le.mp above
  have picked : 0 < ((weight.multipliers.findSome? fun name =>
      let value := intArg args name vars
      if value > 0 then
        some (if value > (weighted limits).limits.maxFirst then
          (weighted limits).limits.maxFirst else value)
      else none).getD 1 : Int64) := by
    cases found : weight.multipliers.findSome? fun name =>
        let value := intArg args name vars
        if value > 0 then
          some (if value > (weighted limits).limits.maxFirst then
            (weighted limits).limits.maxFirst else value)
        else none with
    | none => decide
    | some value =>
        obtain ⟨name, -, chosen⟩ := List.exists_of_findSome?_eq_some found
        dsimp only at chosen
        split at chosen
        · next above =>
            cases chosen
            rw [Option.getD_some]
            split
            · exact maxFirst
            · exact above
        · cases chosen
  unfold Limits.multiplier
  split
  · exact positive _ picked
  · split
    · exact positive _ defaultFirst
    · exact positive _ picked

theorem charge_nonneg (visit : Visit) : 0 ≤ visit.charge (weighted limits) vars := by
  cases visit with
  | enter depth => exact Int.le_refl 0
  | introspection name => exact Int.le_refl 0
  | expand name => exact Int.le_refl 0
  | field parentType name args =>
      exact Int.mul_nonneg (weightFor_nonneg parentType name)
        (Int.le_trans (by decide) (multiplier_pos _ args))

/-- A field is charged at least its weight under the enclosing type. -/
theorem weight_le_charge (parentType name : String) (args : List (String × ArgValue)) :
    (defaultFieldWeights.weightFor parentType name).weight.toInt ≤
      (Visit.field parentType name args).charge (weighted limits) vars := by
  have weight := weightFor_nonneg parentType name
  exact le_mul_of_one_le_right weight (multiplier_pos _ args)

theorem charged_nonneg (log : Log) : 0 ≤ log.charged (weighted limits) vars := by
  unfold Log.charged
  apply List.sum_nonneg
  intro amount member
  obtain ⟨visit, -, rfl⟩ := List.mem_map.mp member
  exact charge_nonneg visit

theorem charged_visited (visit : Visit) (log : Log) :
    (log.visited visit).charged (weighted limits) vars =
      visit.charge (weighted limits) vars + log.charged (weighted limits) vars := by
  simp [Log.charged, Log.visited]

theorem charged_andThen {first : Log} (completed : first.error = none) (second : Log) :
    (first.andThen second).charged (weighted limits) vars =
      first.charged (weighted limits) vars + second.charged (weighted limits) vars := by
  rw [andThen_of_completed completed]
  simp [Log.charged]

/-- The weights of the fields that are not taken for introspection, each under the type that
encloses it. -/
def scopedWeights (fields : List (String × Field)) : Int :=
  ((fields.filter fun entry => !isIntrospection entry.2.name).map fun entry =>
    (defaultFieldWeights.weightFor entry.1 entry.2.name).weight.toInt).sum

theorem scopedWeights_append (first second : List (String × Field)) :
    scopedWeights (first ++ second) = scopedWeights first + scopedWeights second := by
  simp [scopedWeights]

section Syntax

variable {spread : String → Nat → Log}

theorem scopedWeights_field_le (parentType : String) (depth : Nat) (field : Field) :
    scopedWeights [(parentType, field)] ≤
      (visitField spread parentType depth field).charged (weighted limits) vars := by
  cases field with
  | mk name aliasName args directives sels =>
      unfold visitField
      by_cases free : isIntrospection name
      · simp only [if_pos free]
        have none_weighed : scopedWeights [(parentType, Field.mk name aliasName args directives
            sels)] = 0 := by simp [scopedWeights, Field.name, free]
        rw [none_weighed]
        exact charged_nonneg _
      · simp only [if_neg free]
        have weighed : scopedWeights [(parentType, Field.mk name aliasName args directives
            sels)] = (defaultFieldWeights.weightFor parentType name).weight.toInt := by
          simp [scopedWeights, Field.name, free]
        rw [weighed, charged_visited]
        exact le_add_of_le_of_nonneg (weight_le_charge parentType name args) (charged_nonneg _)

/-- The immediate fields of a selection set are charged. -/
theorem scopedWeights_fieldsOf_le (parentType : String) (depth : Nat) (sels : List Selection)
    (completed : (visitSelections spread parentType depth sels).error = none) :
    scopedWeights ((fieldsOf sels).map fun field => (parentType, field)) ≤
      (visitSelections spread parentType depth sels).charged (weighted limits) vars := by
  induction sels with
  | nil => exact Int.le_refl 0
  | cons selection rest inductionHypothesis =>
      rw [visitSelections] at completed ⊢
      have both := completed_of_andThen completed
      have rest_le := inductionHypothesis both.2
      rw [charged_andThen both.1]
      cases selection with
      | field field =>
          have fields : (fieldsOf (.field field :: rest)).map (fun field => (parentType, field)) =
              [(parentType, field)] ++ (fieldsOf rest).map fun field => (parentType, field) :=
            rfl
          rw [fields, scopedWeights_append]
          exact add_le_add (scopedWeights_field_le parentType depth field) rest_le
      | inlineFragment onType nested =>
          exact le_add_of_nonneg_of_le (charged_nonneg _) rest_le
      | fragmentSpread name => exact le_add_of_nonneg_of_le (charged_nonneg _) rest_le

end Syntax

theorem scopedWeights_visit_le {fuel : Nat} {opened : List String} (parentType : String)
    (depth : Nat) (sels : List Selection)
    (completed : (visit document fuel opened parentType depth sels).error = none) :
    scopedWeights ((fieldsOf sels).map fun field => (parentType, field)) ≤
      (visit document fuel opened parentType depth sels).charged (weighted limits) vars := by
  cases fuel with
  | zero => cases completed
  | succ fuel =>
      rw [visit, charged_visited]
      exact le_add_of_nonneg_of_le (charge_nonneg _)
        (scopedWeights_fieldsOf_le parentType depth sels completed)

/-- The root fields of an operation are charged at least their weights under the types that
enclose them. -/
theorem scopedWeights_selection_le {fuel depth : Nat} {opened : List String} {root : String}
    (selection : Selection)
    (completed : (visitSelection (visitSpread document (visit document fuel) opened) root depth
      selection).error = none) :
    scopedWeights (scopedFieldsOf document root selection) ≤
      (visitSelection (visitSpread document (visit document fuel) opened) root depth
        selection).charged (weighted limits) vars := by
  cases selection with
  | field field => exact scopedWeights_field_le root depth field
  | inlineFragment onType sels =>
      rw [visitSelection, charged_visited]
      exact le_add_of_nonneg_of_le (charge_nonneg _)
        (scopedWeights_fieldsOf_le _ depth sels completed)
  | fragmentSpread name =>
      rw [visitSelection] at completed ⊢
      cases found : document.fragments.lookup name with
      | none =>
          have fields : scopedFieldsOf document root (.fragmentSpread name) = [] := by
            simp only [scopedFieldsOf, found]
          rw [fields]
          exact charged_nonneg _
      | some fragment =>
          have fields : scopedFieldsOf document root (.fragmentSpread name) =
              (fieldsOf fragment.sels).map fun field => (fragment.onType, field) := by
            simp only [scopedFieldsOf, found]
          unfold visitSpread at completed ⊢
          rw [found] at completed ⊢
          rw [fields]
          split at completed
          · cases completed
          · next fresh =>
              rw [if_neg fresh, charged_visited]
              exact le_add_of_nonneg_of_le (charge_nonneg _)
                (scopedWeights_visit_le fragment.onType depth fragment.sels completed)

theorem scopedWeights_operation_le (operation : Operation)
    (completed : (visitOperation document operation).error = none) :
    scopedWeights (scopedFields document operation) ≤
      (visitOperation document operation).charged (weighted limits) vars := by
  unfold visitOperation visit at completed ⊢
  unfold scopedFields
  rw [charged_visited]
  refine le_add_of_nonneg_of_le (charge_nonneg _) ?_
  change (visitSelections _ _ _ operation.sels).error = none at completed
  generalize operation.sels = sels at completed ⊢
  induction sels with
  | nil => exact Int.le_refl 0
  | cons selection rest inductionHypothesis =>
      rw [visitSelections] at completed ⊢
      have both := completed_of_andThen completed
      rw [charged_andThen both.1, List.flatMap_cons, scopedWeights_append]
      exact add_le_add (scopedWeights_selection_le selection both.1)
        (inductionHypothesis both.2)

/-- The fields that are covered count towards the weights under the enclosing types. -/
theorem covered_le_scopedWeights (operation : Operation) :
    ((coveredFields document operation).map (rootWeight operation)).sum ≤
      scopedWeights (scopedFields document operation) := by
  unfold coveredFields scopedWeights
  rw [List.map_map, ← List.filter_filter]
  generalize (scopedFields document operation).filter
    (fun entry => !isIntrospection entry.2.name) = fields
  -- Under the root type the two weights are the same.
  have same : ∀ entry ∈ fields.filter fun entry => entry.1 = rootType operation,
      (rootWeight operation ∘ Prod.snd) entry =
        (defaultFieldWeights.weightFor entry.1 entry.2.name).weight.toInt := by
    intro entry member
    have scope : entry.1 = rootType operation := by simpa using (List.mem_filter.mp member).2
    rw [Function.comp_apply, rootWeight, scope]
  rw [List.map_congr_left same]
  apply (List.filter_sublist.map _).sum_le_sum
  intro weight member
  obtain ⟨entry, -, rfl⟩ := List.mem_map.mp member
  exact weightFor_nonneg entry.1 entry.2.name

/-- What an accepted analysis went through. -/
theorem accepted_cases {analyzer : Analyzer} {source : Text} {opName : String}
    {kind : PrincipalKind} (accepted : (analyzer.analyze vars source opName kind false).error = none) :
    ∃ document next operation, parseQuery source = .ok document next ∧
      pickOperation document opName = .ok operation ∧
      (visitOperation document operation).error = none ∧
      (analyzer.analyze vars source opName kind false).cost.complexity =
        Int64.ofInt ((visitOperation document operation).charged analyzer vars) := by
  unfold Analyzer.analyze at accepted ⊢
  cases parsed : parseQuery source with
  | failed message =>
      rw [parsed] at accepted
      cases accepted
  | outOfRange =>
      rw [parsed] at accepted
      cases accepted
  | exhausted =>
      rw [parsed] at accepted
      cases accepted
  | ok document next =>
      rw [parsed] at accepted
      dsimp only at accepted ⊢
      unfold Analyzer.analyzeDocument at accepted ⊢
      cases picked : pickOperation document opName with
      | error error =>
          rw [picked] at accepted
          cases accepted
      | ok operation =>
          obtain ⟨visited, walked⟩ :=
            (walkOperation_eq operation :
              ∃ visited, walkOperation analyzer document vars operation = _)
          rw [picked] at accepted
          dsimp only at accepted ⊢
          rw [walked] at accepted ⊢
          cases stopped : (visitOperation document operation).error with
          | some error =>
              rw [stopped] at accepted
              cases accepted
          | none =>
              refine ⟨document, next, operation, rfl, picked, stopped, ?_⟩
              exact (replay_complexity _ _).trans (Int64.zero_add _)

/-- The router executes the operation that was analysed, and unless the charges overflow, the
complexity covers the weight of every root field that the source puts under the root type,
names with two underscores excepted. -/
theorem complexity_covers_rootFields (limits : Limits) (vars : List (String × Variable))
    (source : Text) (opName : String) (kind : PrincipalKind)
    (accepted : ((weighted limits).analyze vars source opName kind false).error = none) :
    ∃ document next operation, parseQuery source = .ok document next ∧
      pickOperation document opName = .ok operation ∧
      executedOperation document opName = some operation ∧
      ((visitOperation document operation).charged (weighted limits) vars < int64Bound →
        ((coveredFields document operation).map (rootWeight operation)).sum ≤
          ((weighted limits).analyze vars source opName kind false).cost.complexity.toInt) := by
  obtain ⟨document, next, operation, parsed, picked, completed, complexity⟩ :=
    accepted_cases accepted
  refine ⟨document, next, operation, parsed, picked, executedOperation_of_picked picked, ?_⟩
  intro fits
  have nonneg : 0 ≤ (visitOperation document operation).charged (weighted limits) vars :=
    charged_nonneg _
  have lower : -2 ^ 63 ≤ (visitOperation document operation).charged (weighted limits) vars :=
    Int.le_trans (by decide) nonneg
  rw [complexity, Int64.toInt_ofInt_of_le lower fits]
  calc
    ((coveredFields document operation).map (rootWeight operation)).sum
        ≤ scopedWeights (scopedFields document operation) := covered_le_scopedWeights operation
    _ ≤ (visitOperation document operation).charged (weighted limits) vars :=
      scopedWeights_operation_le operation completed

/-- Two mutations, one of them in a fragment on the root type. -/
def twoMutations : Text :=
  utf8 "mutation\x7b...on Mutation\x7bcreateAgent\x7bagent\x7bid\x7d\x7d\x7dcreatePullRequest\x7d"

theorem complexity_covers_twoMutations :
    20 ≤ ((weighted defaultLimits).analyze [] twoMutations "" .human
      false).cost.complexity.toInt := by
  let createAgent : Field :=
    .mk "createAgent" "" [] [] [.field (.mk "agent" "" [] [] [.field (.mk "id" "" [] [] [])])]
  let mutation : Operation := ⟨.mutation, "", [.inlineFragment "Mutation" [.field createAgent],
    .field (.mk "createPullRequest" "" [] [] [])]⟩
  have parsing : parseQuery twoMutations = .ok ⟨[mutation], []⟩ 65 := by decide +kernel
  have weights : 20 ≤ ((coveredFields ⟨[mutation], []⟩ mutation).map
      (rootWeight mutation)).sum := by decide +kernel
  have fits : (visitOperation ⟨[mutation], []⟩ mutation).charged (weighted defaultLimits) [] <
      int64Bound := by decide
  obtain ⟨document, next, operation, parsed, picked, -, covers⟩ :=
    complexity_covers_rootFields defaultLimits [] twoMutations "" .human (by decide +kernel)
  cases parsing.symm.trans parsed
  cases picked
  exact weights.trans (covers fits)

/-- The complexity of an accepted analysis covers the weight, under the root type, of all
fields that the executor passes to a resolver. -/
def CoversResolved (limits : Limits) (vars : List (String × Variable)) (source : Text)
    (opName : String) (kind : PrincipalKind) : Prop :=
  ((weighted limits).analyze vars source opName kind false).error = none →
    ∃ document next operation, parseQuery source = .ok document next ∧
      pickOperation document opName = .ok operation ∧
      executedOperation document opName = some operation ∧
      ((resolvedFields document operation).map (rootWeight operation)).sum ≤
        ((weighted limits).analyze vars source opName kind false).cost.complexity.toInt

/-- A field that is not one of the three introspection fields. -/
def unknownIntrospection : Text := utf8 "\x7b __secret \x7d"

/-- A mutation in a fragment whose type condition is the other root type. -/
def mutationOnQuery : Text :=
  utf8 "mutation \x7b ...F \x7d fragment F on Query \x7b createAgent \x7d"

/-- A source whose resolved fields weigh more than its complexity. -/
theorem not_coversResolved {source : Text} {document : Document} {next : Nat}
    {operation : Operation} (parsed : parseQuery source = .ok document next)
    (picked : pickOperation document "" = .ok operation)
    (accepted : ((weighted defaultLimits).analyze [] source "" .human false).error = none)
    (less : ((weighted defaultLimits).analyze [] source "" .human
      false).cost.complexity.toInt < ((resolvedFields document operation).map
        (rootWeight operation)).sum) :
    ¬ CoversResolved defaultLimits [] source "" .human := by
  intro covers
  obtain ⟨document', next', operation', parsed', picked', -, enough⟩ := covers accepted
  cases parsed.symm.trans parsed'
  cases picked.symm.trans picked'
  omega

theorem rootFields_not_covered :
    ¬ CoversResolved defaultLimits [] unknownIntrospection "" .human ∧
      ¬ CoversResolved defaultLimits [] mutationOnQuery "" .human := by
  have secret : parseQuery unknownIntrospection =
      .ok ⟨[⟨.query, "", [.field (.mk "__secret" "" [] [] [])]⟩], []⟩ 12 := by decide
  have mutation : parseQuery mutationOnQuery =
      .ok ⟨[⟨.mutation, "", [.fragmentSpread "F"]⟩],
        [("F", ⟨"F", "Query", [.field (.mk "createAgent" "" [] [] [])]⟩)]⟩ 53 := by
    decide +kernel
  constructor
  · exact not_coversResolved secret rfl (by decide +kernel) (by decide +kernel)
  · exact not_coversResolved mutation rfl (by decide +kernel) (by decide +kernel)

end GitScale.GraphQL.Cost
