import GitScale.Approval.Finality
import GitScale.Approval.Ladder

/-!
# The policy engine

`Engine.SubmitPlan` evaluates a plan against the policy of its `PolicyLoader` and hands
the decision to its `PlanRecorder`.  `MemService.SubmitPlan` inlines the same evaluation
because its mutex cannot be taken twice.  With the service as loader and recorder the two
agree, and the decision is the one of the first rule that matches.
-/

namespace GitScale.Approval

/-- `Engine`: its `PolicyLoader` and its `PlanRecorder` over the store behind both. -/
structure Engine (Store : Type) where
  loadPolicy : UUID → Option UUID → Store → Except ServiceError (Option Policy)
  recordSubmission : Plan → Decision → Store → Except ServiceError Unit × Store

/-- The errors of the engine.  A policy that fails validation is reported as
`policy: loaded policy fails validation` around the error of `Validate`. -/
inductive EngineError where
  | plain (error : ServiceError)
  | loadedPolicyInvalid (error : ValidationError)
  deriving DecidableEq, Repr

namespace Engine

variable {Store : Type} (engine : Engine Store) (platform : Platform) (readings : Readings)

/-- Record a decision and return it. -/
def record (plan : Plan) (decision : Decision) (store : Store) :
    Except EngineError Decision × Store :=
  match engine.recordSubmission plan decision store with
  | (.error error, store) => (.error (.plain error), store)
  | (.ok _, store) => (.ok decision, store)

/-- The loop of `Engine.SubmitPlan` over the rules from an index on, and what follows
it. -/
def walkRules (plan : Plan) (store : Store) :
    Nat → List Rule → Except EngineError Decision × Store
  | _, [] =>
      engine.record plan {
        planID := plan.id
        status := .autoApprovedNoRule
        autoApproved := true
        matchedRuleIndex := -1
        ladder := []
        expirySeconds := 0 } store
  | index, rule :: rest =>
      if matchRule platform.pathMatch rule plan.actions plan.proposerKind then
        engine.record plan {
          planID := plan.id
          status := .pending
          autoApproved := false
          matchedRuleIndex := index
          ladder := rule.ladder
          expirySeconds := rule.expirySeconds } store
      else
        walkRules plan store (index + 1) rest

/-- `Engine.SubmitPlan`. -/
def submitPlan (plan : Option Plan) (store : Store) : Except EngineError Decision × Store :=
  match plan with
  | none => (.error (.plain (.other "policy: nil plan")), store)
  | some plan =>
      if ¬ plan.proposerKind.isValid then
        (.error (.plain (.other ("policy: invalid proposer_kind " ++
          platform.quote plan.proposerKind.text))), store)
      else
        match engine.loadPolicy plan.orgID plan.repoID store with
        | .error error => (.error (.plain error), store)
        | .ok none => (.error (.plain .policyNotFound), store)
        | .ok (some policy) =>
            match validate platform.quote (some policy) with
            | some error => (.error (.loadedPolicyInvalid error), store)
            | none =>
                match platform.canonicalActionsJSON plan.actions with
                | .error message => (.error (.plain (.other message)), store)
                | .ok canonical =>
                    engine.walkRules platform
                      { plan with
                        policyID := policy.id
                        planHash := platform.digest.sha256 canonical
                        id := storedID readings plan }
                      store 0 policy.rules

end Engine

/-- The engine with a `MemService` as its loader and recorder. -/
def memEngine (platform : Platform) (readings : Readings) : Engine MemService where
  loadPolicy := fun orgID repoID service => .ok (loadPolicy orgID repoID service)
  recordSubmission := recordSubmission platform readings

/-! ## The two evaluations -/

/-- The decision for the first rule that matches, with its index. -/
def decisionOf (plan : Plan) : Option (Rule × Nat) → Decision
  | some (rule, index) =>
      { planID := plan.id
        status := .pending
        autoApproved := false
        matchedRuleIndex := index
        ladder := rule.ladder
        expirySeconds := rule.expirySeconds }
  | none =>
      { planID := plan.id
        status := .autoApprovedNoRule
        autoApproved := true
        matchedRuleIndex := -1
        ladder := []
        expirySeconds := 0 }

theorem evaluate_eq_decisionOf (platform : Platform) (policy : Policy) (plan : Plan) :
    evaluate platform policy plan =
      decisionOf plan (policy.rules.zipIdx.find? fun entry =>
        matchRule platform.pathMatch entry.1 plan.actions plan.proposerKind) := by
  unfold evaluate
  split
  · rename_i rule index found
    rw [found, decisionOf]
  · rename_i unmatched
    rw [unmatched, decisionOf]

theorem Engine.walkRules_eq_record {Store : Type} (engine : Engine Store)
    (platform : Platform) (plan : Plan) (store : Store) (index : Nat) (rules : List Rule) :
    engine.walkRules platform plan store index rules =
      engine.record plan (decisionOf plan ((rules.zipIdx index).find? fun entry =>
        matchRule platform.pathMatch entry.1 plan.actions plan.proposerKind)) store := by
  induction rules generalizing index with
  | nil => rfl
  | cons rule rest inductionHypothesis =>
      rw [List.zipIdx_cons, List.find?_cons, Engine.walkRules]
      cases matched : matchRule platform.pathMatch rule plan.actions plan.proposerKind with
      | true => rfl
      | false => exact inductionHypothesis (index + 1)

section Agreement

variable {platform : Platform} {readings : Readings} {service : MemService}

/-- Whatever one of the two returns and leaves behind, so does the other. -/
theorem memEngine_agrees (platform : Platform) (readings : Readings) (service : MemService)
    (plan : Option Plan) :
    let byEngine := (memEngine platform readings).submitPlan platform readings plan service
    let byService := submitPlan platform readings plan service
    (∀ decision, byEngine.1 = .ok decision ↔ byService.1 = .ok decision) ∧
      byEngine.2 = byService.2 := by
  cases plan with
  | none => simp [Engine.submitPlan, submitPlan]
  | some plan =>
      simp only [Engine.submitPlan, submitPlan, memEngine, loadPolicy]
      split
      · simp
      · cases service.policies plan.orgID with
        | none => simp
        | some policy =>
            simp only
            cases validate platform.quote (some policy) with
            | some error => simp
            | none =>
                simp only
                cases platform.canonicalActionsJSON plan.actions with
                | error message => simp
                | ok canonical =>
                    simp only [Engine.walkRules_eq_record, evaluate_eq_decisionOf,
                      Engine.record]
                    split <;> simp_all

/-! ## The decision -/

/-- The plan goes to the humans of the first rule that matches it. -/
structure Routed (platform : Platform) (policy : Policy) (plan : Plan) (decision : Decision) :
    Prop where
  pending : decision.status = .pending
  firstMatch : ∃ (index : Nat) (rule : Rule), decision.matchedRuleIndex = index ∧
    policy.rules[index]? = some rule ∧
    matchRule platform.pathMatch rule plan.actions plan.proposerKind = true ∧
    (∀ earlier < index, ∀ other, policy.rules[earlier]? = some other →
      matchRule platform.pathMatch other plan.actions plan.proposerKind = false) ∧
    decision.ladder = rule.ladder
  nonempty : decision.ladder ≠ []
  declared : ∀ rung ∈ decision.ladder, (policy.approverGroups.lookup rung.groupName).isSome
  expiry : 0 < decision.expirySeconds

/-- What `find?` on an indexed list says about the list itself. -/
theorem find?_zipIdx_eq_some {α : Type} (values : List α) (accept : α → Bool) {value : α}
    {index : Nat}
    (found : (values.zipIdx.find? fun entry => accept entry.1) = some (value, index)) :
    values[index]? = some value ∧ accept value = true ∧
      ∀ earlier < index, ∀ other, values[earlier]? = some other → accept other = false := by
  rw [List.find?_eq_some_iff_getElem] at found
  obtain ⟨accepted, position, inside, located, least⟩ := found
  rw [List.getElem_zipIdx] at located
  obtain ⟨rfl, rfl⟩ := Prod.mk.inj located
  rw [List.length_zipIdx] at inside
  refine ⟨by simp [inside], accepted, ?_⟩
  intro earlier lower other equal
  have before := least earlier (by omega)
  rw [List.getElem_zipIdx] at before
  obtain ⟨_, rfl⟩ := List.getElem?_eq_some_iff.mp equal
  simpa using before

theorem evaluate_routed (policy : Policy) (plan : Plan)
    (valid : validate platform.quote (some policy) = none)
    (matched : ¬ NoRuleMatches platform policy plan) :
    Routed platform policy plan (evaluate platform policy plan) := by
  rw [noRuleMatches_iff] at matched
  obtain ⟨⟨rule, index⟩, found⟩ := Option.ne_none_iff_exists'.mp matched
  obtain ⟨located, accepted, least⟩ := find?_zipIdx_eq_some policy.rules
    (fun rule => matchRule platform.pathMatch rule plan.actions plan.proposerKind) found
  have validated := validRule_of_validate valid located
  rw [evaluate_eq_decisionOf, found]
  exact {
    pending := rfl
    firstMatch := ⟨index, rule, rfl, located, accepted, least, rfl⟩
    nonempty := validated.nonempty
    declared := fun rung member => validated.declared member
    expiry := validated.expiry }

theorem evaluate_admitted_iff (policy : Policy) (plan : Plan) :
    ((evaluate platform policy plan).status = .autoApprovedNoRule ∧
        (evaluate platform policy plan).matchedRuleIndex = -1) ↔
      NoRuleMatches platform policy plan := by
  rw [noRuleMatches_iff, evaluate_eq_decisionOf]
  cases policy.rules.zipIdx.find? fun entry =>
      matchRule platform.pathMatch entry.1 plan.actions plan.proposerKind with
  | none => simp [decisionOf]
  | some entry => simp [decisionOf]

/-- `Engine.SubmitPlan` on a `MemService` and `MemService.SubmitPlan` agree, and what they
return is the decision of the first rule that matches. -/
theorem memEngine_submitPlan_agrees (platform : Platform) (readings : Readings)
    (service : MemService) (plan : Plan) (policy : Policy)
    (registered : service.policies plan.orgID = some policy) :
    let byEngine :=
      (memEngine platform readings).submitPlan platform readings (some plan) service
    let byService := submitPlan platform readings (some plan) service
    (∀ decision, byEngine.1 = .ok decision ↔ byService.1 = .ok decision) ∧
      byEngine.2 = byService.2 ∧
      ∀ decision, byService.1 = .ok decision →
        ((decision.status = .autoApprovedNoRule ∧ decision.matchedRuleIndex = -1) ↔
            NoRuleMatches platform policy plan) ∧
          (¬ NoRuleMatches platform policy plan → Routed platform policy plan decision) := by
  obtain ⟨results, stores⟩ := memEngine_agrees platform readings service (some plan)
  refine ⟨results, stores, ?_⟩
  intro decision returned
  cases submitPlan_submits (Prod.ext returned rfl) with
  | stored _ other canonical _ admitted appended =>
      cases registered.symm.trans admitted.found
      -- What the service stamps on the plan is nothing that a rule looks at.
      let stamped := stampedPlan platform readings policy canonical plan
      exact ⟨evaluate_admitted_iff policy stamped, fun matched =>
        { evaluate_routed policy stamped admitted.valid matched with }⟩

end Agreement

/-- A plan of an agent under `twoOfThree`. -/
def agentPlan : Plan :=
  ⟨UUID.nil, 2, none, UUID.nil, 7, .agent, [⟨"pr_merge", [("branch", "main")]⟩], [], 0⟩

theorem memEngine_submitPlan_agrees_agentPlan :
    ∃ service : MemService, ∃ readings, service.policies agentPlan.orgID = some twoOfThree ∧
      ∃ decision,
        ((memEngine plainPlatform readings).submitPlan plainPlatform readings
          (some agentPlan) service).1 = .ok decision ∧
        (submitPlan plainPlatform readings (some agentPlan) service).1 = .ok decision ∧
        Routed plainPlatform twoOfThree agentPlan decision := by
  let service : MemService := { newMemService with
    policies := Function.update newMemService.policies 2 (some twoOfThree) }
  let readings : Readings := ⟨100, 100, 31⟩
  have registered : service.policies agentPlan.orgID = some twoOfThree := rfl
  obtain ⟨results, -, decided⟩ :=
    memEngine_submitPlan_agrees plainPlatform readings service agentPlan twoOfThree registered
  let decision : Decision := ⟨31, .pending, false, 0, [⟨"leads", 3600, .autoDeny⟩], 14400⟩
  have returned :
      (submitPlan plainPlatform readings (some agentPlan) service).1 = .ok decision := rfl
  have matched : ¬ NoRuleMatches plainPlatform twoOfThree agentPlan := by
    intro unmatched
    exact Bool.noConfusion (unmatched _ List.mem_cons_self)
  exact ⟨service, readings, registered, decision, (results decision).mpr returned, returned,
    (decided decision returned).2 matched⟩

end GitScale.Approval
