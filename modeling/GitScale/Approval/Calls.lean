import GitScale.Approval.MemService

/-!
# What a call can do

One inductive predicate for each method that writes, with one case for each way the call
can end.  What the service guarantees follows from these cases, not from the code of the
methods.
-/

namespace GitScale.Approval

section Calls

variable {platform : Platform} {readings : Readings} {service next : MemService}

/-! ## The audit append -/

/-- The row that follows `rows` in the chain of a policy. -/
structure NextRow (digest : Digest) (rows : List AuditRow) (policyID : UUID)
    (planID : Option UUID) (kind : AuditEventKind) (row : AuditRow) : Prop where
  id : row.id = rows.length + 1
  policyID : row.policyID = policyID
  planID : row.planID = planID
  eventKind : row.eventKind = kind
  prevHash : row.prevHash = (rows.getLast?.map (·.rowHash)).getD genesisHash
  hashed : computeRowHash digest row.prevHash row = .ok row.rowHash

section Append

variable {policyID : UUID} {planID : Option UUID} {kind : AuditEventKind}
  {actorID : Option UUID} {actorKind : ActorKind} {payload : AuditPayload} {now : Time}

/-- A successful append adds one row to one chain and does nothing else. -/
theorem appendAuditLocked_appends
    (appended : appendAuditLocked platform readings policyID planID kind actorID actorKind
      payload now service = .ok next) :
    ∃ row, NextRow platform.digest (service.audit policyID) policyID planID kind row ∧
      next = { service with
        audit := Function.update service.audit policyID (service.audit policyID ++ [row]) } := by
  unfold appendAuditLocked appendRow at appended
  simp only at appended
  split at appended
  · cases appended
  · rename_i row stamped
    split at stamped
    · cases stamped
    · rename_i hash computed
      cases stamped
      cases appended
      exact ⟨_, ⟨rfl, rfl, rfl, rfl, rfl, computed⟩, rfl⟩

theorem appendAuditLocked_plans
    (appended : appendAuditLocked platform readings policyID planID kind actorID actorKind
      payload now service = .ok next) :
    next.plans = service.plans := by
  rcases appendAuditLocked_appends appended with ⟨row, -, rfl⟩
  rfl

theorem appendAuditLocked_policies
    (appended : appendAuditLocked platform readings policyID planID kind actorID actorKind
      payload now service = .ok next) :
    next.policies = service.policies := by
  rcases appendAuditLocked_appends appended with ⟨row, -, rfl⟩
  rfl

end Append

@[simp] theorem audited_plans (policyID planID : UUID) (kind : AuditEventKind)
    (actorID : Option UUID) (actorKind : ActorKind) (payload : AuditPayload) (now : Time) :
    (audited platform readings policyID planID kind actorID actorKind payload now
      service).plans = service.plans := by
  unfold audited
  split
  · rfl
  · rename_i next appended
    exact appendAuditLocked_plans appended

@[simp] theorem audited_policies (policyID planID : UUID) (kind : AuditEventKind)
    (actorID : Option UUID) (actorKind : ActorKind) (payload : AuditPayload) (now : Time) :
    (audited platform readings policyID planID kind actorID actorKind payload now
      service).policies = service.policies := by
  unfold audited
  split
  · rfl
  · rename_i next appended
    exact appendAuditLocked_policies appended

/-! ## Submission -/

theorem evaluate_planID (policy : Policy) (plan : Plan) :
    (evaluate platform policy plan).planID = plan.id := by
  unfold evaluate
  split <;> rfl

/-- The plan as `SubmitPlan` completes it. -/
def stampedPlan (platform : Platform) (readings : Readings) (policy : Policy)
    (canonical : Bytes) (plan : Plan) : Plan :=
  { plan with
    policyID := policy.id
    planHash := platform.digest.sha256 canonical
    id := storedID readings plan }

/-- The entry that `SubmitPlan` stores. -/
def entryOf (platform : Platform) (readings : Readings) (policy : Policy)
    (canonical : Bytes) (plan : Plan) : MemPlan :=
  let stamped := stampedPlan platform readings policy canonical plan
  submittedPlan stamped (evaluate platform policy stamped) policy readings.clock

/-- `SubmitPlan` gets to the store: the proposer is valid, the org has a valid policy and
the actions have an encoding. -/
structure Admitted (platform : Platform) (service : MemService) (plan : Plan)
    (policy : Policy) (canonical : Bytes) : Prop where
  proposer : plan.proposerKind.isValid
  found : service.policies plan.orgID = some policy
  valid : validate platform.quote (some policy) = none
  encoded : platform.canonicalActionsJSON plan.actions = .ok canonical

/-- The audit append of a submission. -/
def auditSubmission (platform : Platform) (readings : Readings) (policy : Policy)
    (canonical : Bytes) (plan : Plan) (service : MemService) : Except String MemService :=
  let stamped := stampedPlan platform readings policy canonical plan
  let decision := evaluate platform policy stamped
  appendAuditLocked platform readings policy.id (some stamped.id)
    (if decision.autoApproved then .autoApprovedNoRule else .submitted)
    (some plan.proposerID) (actorKindFromProposer plan.proposerKind)
    (.submission stamped.id decision.matchedRuleIndex stamped.planHash
      plan.proposerKind.text) readings.clock
    (service.setPlan stamped.id (entryOf platform readings policy canonical plan))

/-- How `SubmitPlan` ends. -/
inductive Submits (platform : Platform) (readings : Readings) (service : MemService) :
    Option Plan → Except ServiceError Decision → MemService → Prop where
  | refused (plan : Option Plan) (error : ServiceError)
      (unmet : ∀ given policy canonical, plan = some given →
        ¬ Admitted platform service given policy canonical)
      (notFound : error = .policyNotFound → ∀ given, plan = some given →
        service.policies given.orgID = none) :
      Submits platform readings service plan (.error error) service
  | unaudited (plan : Plan) (policy : Policy) (canonical : Bytes) (message : String)
      (admitted : Admitted platform service plan policy canonical)
      (failed : auditSubmission platform readings policy canonical plan service =
        .error message) :
      Submits platform readings service (some plan) (.error (.other message))
        (service.setPlan (storedID readings plan)
          (entryOf platform readings policy canonical plan))
  | stored (plan : Plan) (policy : Policy) (canonical : Bytes) (next : MemService)
      (admitted : Admitted platform service plan policy canonical)
      (appended : auditSubmission platform readings policy canonical plan service =
        .ok next) :
      Submits platform readings service (some plan)
        (.ok (evaluate platform policy
          (stampedPlan platform readings policy canonical plan))) next

theorem submitPlan_submits {plan : Option Plan} {result : Except ServiceError Decision}
    (returned : submitPlan platform readings plan service = (result, next)) :
    Submits platform readings service plan result next := by
  obtain rfl : (submitPlan platform readings plan service).1 = result := by rw [returned]
  obtain rfl : (submitPlan platform readings plan service).2 = next := by rw [returned]
  clear returned
  unfold submitPlan
  cases plan with
  | none => exact .refused none _ (by simp) (by simp)
  | some plan =>
      simp only
      split
      · rename_i invalid
        refine .refused _ _ ?_ (by simp)
        rintro _ _ _ ⟨⟩ admitted
        exact invalid admitted.proposer
      · rename_i proposer
        cases found : service.policies plan.orgID with
        | none =>
            refine .refused _ _ ?_ (by simp [found])
            rintro _ _ _ ⟨⟩ admitted
            exact nomatch found.symm.trans admitted.found
        | some policy =>
            simp only
            cases valid : validate platform.quote (some policy) with
            | some error =>
                refine .refused _ _ ?_ (by simp)
                rintro _ _ _ ⟨⟩ admitted
                cases found.symm.trans admitted.found
                exact nomatch valid.symm.trans admitted.valid
            | none =>
                simp only
                cases encoded : platform.canonicalActionsJSON plan.actions with
                | error message =>
                    refine .refused _ _ ?_ (by simp)
                    rintro _ _ _ ⟨⟩ admitted
                    exact nomatch encoded.symm.trans admitted.encoded
                | ok canonical =>
                    have admitted : Admitted platform service plan policy canonical :=
                      ⟨not_not.mp proposer, found, valid, encoded⟩
                    simp only [recordSubmission, found]
                    cases appended :
                        auditSubmission platform readings policy canonical plan service with
                    | error message =>
                        have outcome := Submits.unaudited plan policy canonical message
                          admitted appended
                        unfold auditSubmission entryOf stampedPlan at appended
                        simp only at appended
                        rw [appended]
                        exact outcome
                    | ok next =>
                        have outcome := Submits.stored plan policy canonical next admitted
                          appended
                        unfold auditSubmission entryOf stampedPlan at appended
                        simp only at appended
                        rw [appended]
                        exact outcome

/-! ## Decisions -/

/-- A decision is accepted only from a member of the current rung's group, within the
window of a pending plan. -/
structure Admits (plan : MemPlan) (input : DecisionInput) (now : Time)
    (rung : EscalationRung) (group : ApproverGroup) : Prop where
  pending : plan.status = .pending
  inTime : plan.expiresAt.isZero = false → now ≤ plan.expiresAt
  current : input.rungIndex = plan.currentRung
  located : rungAt plan.ladder input.rungIndex = some rung
  grouped : plan.policy.approverGroups.lookup rung.groupName = some group
  member : input.actorID ∈ group.humanUserIDs

/-- The plan after an accepted decision. -/
def MemPlan.settle (plan : MemPlan) (input : DecisionInput) (group : ApproverGroup) :
    MemPlan :=
  { plan.vote input with status := (plan.vote input).verdict input.rungIndex group }

theorem not_elapsed {plan : MemPlan} {now : Time} (inside : ¬ plan.elapsed now = true) :
    plan.expiresAt.isZero = false → now ≤ plan.expiresAt := by
  intro set
  simp only [MemPlan.elapsed, set, Bool.not_false, Bool.true_and, decide_eq_true_eq] at inside
  exact Int.not_lt.mp inside

theorem mem_of_contains {haystack : List UUID} {needle : UUID}
    (found : contains haystack needle = true) : needle ∈ haystack := by
  obtain ⟨id, member, equal⟩ := List.any_eq_true.mp found
  exact of_decide_eq_true equal ▸ member

/-- How `RecordDecision` ends. -/
inductive Decides (platform : Platform) (readings : Readings) (service : MemService)
    (input : DecisionInput) : Except ServiceError DecisionOutcome → MemService → Prop where
  | refused (error : ServiceError) (other : ∀ message, error ≠ .api .planExpired message) :
      Decides platform readings service input (.error error) service
  | expired (plan : MemPlan) (present : service.plans input.planID = some plan)
      (pending : plan.status = .pending) (elapsed : plan.elapsed readings.clock) :
      Decides platform readings service input
        (.error (.api .planExpired "approval window elapsed"))
        (audited platform readings plan.policy.id plan.plan.id .expired none .system .expiry
          readings.clock (service.setPlan input.planID { plan with status := .expired }))
  | settled (plan : MemPlan) (rung : EscalationRung) (group : ApproverGroup)
      (present : service.plans input.planID = some plan)
      (admits : Admits plan input readings.clock rung group)
      (event : AuditEventKind × AuditPayload)
      (recorded : event = voteEvent (plan.vote input) input (plan.settle input group).status) :
      Decides platform readings service input
        (.ok (outcomeOf (plan.vote input) input.rungIndex group))
        (audited platform readings plan.policy.id plan.plan.id event.1 (some input.actorID)
          .human event.2 readings.clock
          (service.setPlan input.planID (plan.settle input group)))

theorem recordDecision_decides {input : DecisionInput}
    {result : Except ServiceError DecisionOutcome}
    (returned : recordDecision platform readings input service = (result, next)) :
    Decides platform readings service input result next := by
  obtain rfl : (recordDecision platform readings input service).1 = result := by rw [returned]
  obtain rfl : (recordDecision platform readings input service).2 = next := by rw [returned]
  clear returned
  unfold recordDecision
  cases present : service.plans input.planID with
  | none => exact .refused _ (by simp)
  | some plan =>
      simp only
      split
      · exact .refused _ (by simp)
      · rename_i undecided
        have pending : plan.status = .pending := not_not.mp undecided
        split
        · rename_i elapsed
          exact .expired plan present pending elapsed
        · rename_i inside
          split
          · exact .refused _ (by simp)
          · split
            · exact .refused _ (by simp)
            · rename_i current
              have same : input.rungIndex = plan.currentRung := not_not.mp current
              cases located : rungAt plan.ladder plan.currentRung with
              | none => exact .refused _ (by simp)
              | some rung =>
                  simp only
                  cases grouped : plan.policy.approverGroups.lookup rung.groupName with
                  | none => exact .refused _ (by simp)
                  | some group =>
                      simp only
                      split
                      · exact .refused _ (by simp)
                      · rename_i member
                        split
                        · exact .refused _ (by simp)
                        · exact .settled plan rung group present {
                            pending := pending
                            inTime := not_elapsed inside
                            current := same
                            located := same ▸ located
                            grouped := grouped
                            member := mem_of_contains (not_not.mp member) } _ rfl

/-! ## Escalation -/

/-- `Escalate` finds a pending plan at the rung that the caller names. -/
structure Ready (service : MemService) (input : EscalateInput) (plan : MemPlan)
    (rung : EscalationRung) : Prop where
  present : service.plans input.planID = some plan
  pending : plan.status = .pending
  current : input.fromRung = plan.currentRung
  located : rungAt plan.ladder plan.currentRung = some rung

/-- The rung ends the ladder. -/
def Ends (plan : MemPlan) (rung : EscalationRung) : Prop :=
  rung.onTimeout = .autoDeny ∨
    rung.onTimeout = .notifyNext ∧ (plan.ladder.length : Int) ≤ plan.currentRung + 1

/-- The rung leads to another one. -/
def Leads (plan : MemPlan) (rung : EscalationRung) (target : Int) : Prop :=
  (rung.onTimeout = .fallBack ∧ target = plan.currentRung - 1) ∨
    (rung.onTimeout = .notifyNext ∧ target = plan.currentRung + 1 ∧
      plan.currentRung + 1 < plan.ladder.length)

/-- How `Escalate` ends. -/
inductive Escalates (platform : Platform) (readings : Readings) (service : MemService)
    (input : EscalateInput) : Except ServiceError EscalateOutcome → MemService → Prop where
  | refused (error : ServiceError) (unmet : ∀ plan rung, ¬ Ready service input plan rung) :
      Escalates platform readings service input (.error error) service
  | denied (plan : MemPlan) (rung : EscalationRung) (payload : AuditPayload)
      (ready : Ready service input plan rung) (ends : Ends plan rung) :
      Escalates platform readings service input
        (.ok ⟨plan.currentRung, rung.onTimeout, true⟩)
        (audited platform readings plan.policy.id plan.plan.id .autoDenied none .system
          payload readings.clock
          (service.setPlan input.planID { plan with status := .autoDenied }))
  | moved (plan : MemPlan) (rung : EscalationRung) (target : Int) (payload : AuditPayload)
      (ready : Ready service input plan rung) (leads : Leads plan rung target) :
      Escalates platform readings service input (.ok ⟨target, rung.onTimeout, false⟩)
        (audited platform readings plan.policy.id plan.plan.id .escalated none .system
          payload readings.clock
          (service.setPlan input.planID { plan with currentRung := target }))
  | ignored (plan : MemPlan) (rung : EscalationRung) (text : String)
      (ready : Ready service input plan rung) (unknown : rung.onTimeout = .unknown text) :
      Escalates platform readings service input (.ok ⟨0, rung.onTimeout, false⟩) service

theorem escalate_escalates {input : EscalateInput}
    {result : Except ServiceError EscalateOutcome}
    (returned : escalate platform readings input service = (result, next)) :
    Escalates platform readings service input result next := by
  obtain rfl : (escalate platform readings input service).1 = result := by rw [returned]
  obtain rfl : (escalate platform readings input service).2 = next := by rw [returned]
  clear returned
  unfold escalate
  cases present : service.plans input.planID with
  | none =>
      refine .refused _ ?_
      intro plan rung ready
      exact nomatch present.symm.trans ready.present
  | some plan =>
      simp only
      split
      · rename_i decided
        refine .refused _ ?_
        intro plan rung ready
        cases present.symm.trans ready.present
        exact decided ready.pending
      · rename_i undecided
        have pending : plan.status = .pending := not_not.mp undecided
        split
        · rename_i elsewhere
          refine .refused _ ?_
          intro plan rung ready
          cases present.symm.trans ready.present
          exact elsewhere ready.current
        · rename_i current
          cases located : rungAt plan.ladder plan.currentRung with
          | none =>
              refine .refused _ ?_
              intro plan rung ready
              cases present.symm.trans ready.present
              exact nomatch located.symm.trans ready.located
          | some rung =>
              have ready : Ready service input plan rung :=
                ⟨present, pending, not_not.mp current, located⟩
              simp only
              split
              · rename_i deny
                rw [← deny]
                exact .denied plan rung _ ready (Or.inl deny)
              · rename_i back
                rw [← back]
                exact .moved plan rung _ _ ready (Or.inl ⟨back, rfl⟩)
              · rename_i onward
                split
                · rename_i exhausted
                  rw [← onward]
                  exact .denied plan rung _ ready (Or.inr ⟨onward, exhausted⟩)
                · rename_i remains
                  rw [← onward, ← pending]
                  exact .moved plan rung _ _ ready
                    (Or.inr ⟨onward, rfl, Int.not_le.mp remains⟩)
              · rename_i text unknown
                rw [← unknown]
                exact .ignored plan rung text ready unknown

/-! ## Policies -/

/-- Only `RegisterPolicy` writes a policy. -/
theorem serve_policies (call : Call) (readings : Readings)
    (other : ∀ policy, call ≠ .registerPolicy policy) :
    (serve platform call readings service).2.policies = service.policies := by
  cases call with
  | registerPolicy policy => exact absurd rfl (other policy)
  | submitPlan plan =>
      generalize returned : submitPlan platform readings plan service = outcome
      rcases outcome with ⟨result, next⟩
      simp only [serve, returned]
      cases submitPlan_submits returned with
      | refused plan error unmet notFound => rfl
      | unaudited plan policy canonical message admitted failed => rfl
      | stored plan policy canonical next admitted appended =>
          exact (appendAuditLocked_policies appended).trans rfl
  | recordDecision input =>
      generalize returned : recordDecision platform readings input service = outcome
      rcases outcome with ⟨result, next⟩
      simp only [serve, returned]
      cases recordDecision_decides returned with
      | refused error other => rfl
      | expired plan present pending elapsed => exact audited_policies ..
      | settled plan rung group present admits event recorded => exact audited_policies ..
  | escalate input =>
      generalize returned : escalate platform readings input service = outcome
      rcases outcome with ⟨result, next⟩
      simp only [serve, returned]
      cases escalate_escalates returned with
      | refused error unmet => rfl
      | ignored plan rung text ready unknown => rfl
      | denied plan rung payload ready ends => exact audited_policies ..
      | moved plan rung target payload ready leads => exact audited_policies ..

end Calls

end GitScale.Approval
