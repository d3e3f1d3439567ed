import GitScale.Approval.Chain
import GitScale.Approval.Ladder
import GitScale.Approval.Quorum

/-!
# Completeness of the audit trail

A call that returns no error writes one plan and appends one row to the chain of its
policy; the kind of the row goes with the status that the call leaves.  A call that
returns an error changes nothing, except that a decision on an expired plan records the
expiry.
-/

namespace GitScale.Approval

open Foundation

/-! ## The statement -/

/-- The kind of row that goes with the status that a call leaves. -/
def eventKindOf : Call → PlanStatus → Option AuditEventKind
  | .submitPlan _, .pending => some .submitted
  | .submitPlan _, .autoApprovedNoRule => some .autoApprovedNoRule
  | .recordDecision _, .approved => some .approved
  | .recordDecision _, .rejected => some .rejected
  | .recordDecision _, .pending => some .submitted
  | .recordDecision _, .expired => some .expired
  | .escalate _, .pending => some .escalated
  | .escalate _, .autoDenied => some .autoDenied
  | _, _ => none

/-- The call writes the entry of one plan, appends one row about it to the chain of the
plan's policy, and does nothing else. -/
def Records (digest : Digest) (call : Call) (id : UUID) (plan : MemPlan)
    (before after : MemService) : Prop :=
  ∃ kind row, eventKindOf call plan.status = some kind ∧
    NextRow digest (before.audit plan.policy.id) plan.policy.id (some id) kind row ∧
    after = {
      policies := before.policies
      plans := Function.update before.plans id (some plan)
      audit := Function.update before.audit plan.policy.id
        (before.audit plan.policy.id ++ [row]) }

/-- The entry continues one that was pending: it is about the same plan under the same
policy. -/
structure Continues (before : MemService) (id : UUID) (previous plan : MemPlan) : Prop where
  present : before.plans id = some previous
  pending : previous.status = .pending
  samePlan : plan.plan = previous.plan
  samePolicy : plan.policy = previous.policy

/-- What a call has to leave, given what it returned. -/
def Accounted (digest : Digest) (before : MemService) (call : Call) (after : MemService) :
    Reply → Prop
  | .registered _ => after.plans = before.plans ∧ after.audit = before.audit
  | .submitted (.ok decision) => ∃ given plan, call = .submitPlan (some given) ∧
      before.policies given.orgID = some plan.policy ∧ plan.status = decision.status ∧
      Records digest call decision.planID plan before after
  | .submitted (.error _) => after = before
  | .decided (.ok outcome) => ∃ input previous plan, call = .recordDecision input ∧
      Continues before input.planID previous plan ∧ plan.status = outcome.status ∧
      Records digest call input.planID plan before after
  | .decided (.error (.api .planExpired _)) => ∃ input previous, call = .recordDecision input ∧
      before.plans input.planID = some previous ∧ previous.status = .pending ∧
      Records digest call input.planID { previous with status := .expired } before after
  | .decided (.error _) => after = before
  | .escalated (.ok outcome) => ∃ input previous plan, call = .escalate input ∧
      Continues before input.planID previous plan ∧
      plan.status = (if outcome.finalRung then .autoDenied else .pending) ∧
      Records digest call input.planID plan before after
  | .escalated (.error _) => after = before

/-- The chains are numbered from one on and `VerifyChain` accepts them. -/
def ChainsSound (digest : Digest) (service : MemService) : Prop :=
  ∀ policyID, (service.audit policyID).map AuditRow.id =
      (List.range (service.audit policyID).length).map (fun index : Nat => (index : Int) + 1) ∧
    verifyChain digest (service.audit policyID) = (-1, none)

/-- `CanonicalPayload` reads back what `json.Marshal` wrote. -/
def RoundTrips (digest : Digest) : Prop :=
  ∀ payload, ∃ canonical, digest.canonicalPayload (digest.marshal payload) = .ok canonical

/-! ## Appending -/

section Append

variable {platform : Platform} {readings : Readings} {service next : MemService}

/-- A payload that can be read back can be appended. -/
theorem appendAuditLocked_ok (readings : Readings) (roundTrips : RoundTrips platform.digest)
    (policyID : UUID) (planID : Option UUID) (kind : AuditEventKind) (actorID : Option UUID)
    (actorKind : ActorKind) (payload : AuditPayload) (now : Time) (service : MemService) :
    ∃ next, appendAuditLocked platform readings policyID planID kind actorID actorKind
      payload now service = .ok next := by
  rcases roundTrips payload with ⟨canonical, read⟩
  unfold appendAuditLocked appendRow computeRowHash
  simp only [read]
  exact ⟨_, rfl⟩

theorem audited_appends (readings : Readings) (roundTrips : RoundTrips platform.digest)
    (policyID planID : UUID) (kind : AuditEventKind) (actorID : Option UUID) (actorKind : ActorKind)
    (payload : AuditPayload) (now : Time) (service : MemService) :
    ∃ row, NextRow platform.digest (service.audit policyID) policyID (some planID) kind row ∧
      audited platform readings policyID planID kind actorID actorKind payload now service =
        { service with
          audit := Function.update service.audit policyID
            (service.audit policyID ++ [row]) } := by
  rcases appendAuditLocked_ok readings roundTrips policyID (some planID) kind
    actorID actorKind payload now service with ⟨next, appended⟩
  rcases appendAuditLocked_appends appended with ⟨row, nextRow, rfl⟩
  refine ⟨row, nextRow, ?_⟩
  simp only [audited, appended]

/-- Writing an entry and appending its row. -/
theorem records_audited (readings : Readings) (service : MemService)
    (roundTrips : RoundTrips platform.digest) {call : Call} {id : UUID} (plan : MemPlan)
    {kind : AuditEventKind} (named : plan.plan.id = id)
    (fitting : eventKindOf call plan.status = some kind) (actorID : Option UUID)
    (actorKind : ActorKind) (payload : AuditPayload) (now : Time) :
    Records platform.digest call id plan service
      (audited platform readings plan.policy.id plan.plan.id kind actorID actorKind payload
        now (service.setPlan id plan)) := by
  rcases audited_appends readings roundTrips plan.policy.id plan.plan.id kind
    actorID actorKind payload now (service.setPlan id plan) with ⟨row, nextRow, equal⟩
  rw [named] at nextRow
  exact ⟨kind, row, fitting, nextRow, equal⟩

theorem ChainsSound.append {digest : Digest} {rows : List AuditRow} {policyID : UUID}
    {planID : Option UUID} {kind : AuditEventKind} {row : AuditRow}
    (numbered : rows.map AuditRow.id =
      (List.range rows.length).map fun index : Nat => (index : Int) + 1)
    (accepted : verifyChain digest rows = (-1, none))
    (nextRow : NextRow digest rows policyID planID kind row) :
    (rows ++ [row]).map AuditRow.id =
        (List.range (rows ++ [row]).length).map (fun index : Nat => (index : Int) + 1) ∧
      verifyChain digest (rows ++ [row]) = (-1, none) := by
  constructor
  · rw [List.map_append, numbered, List.length_append, List.length_singleton,
      List.range_succ, List.map_append, List.map_singleton, List.map_singleton, nextRow.id]
  · rw [verifyChain_eq_iff, Linking.linked_concat_iff, tip_eq_getLast]
    have hashed := nextRow.hashed
    rw [nextRow.prevHash] at hashed
    exact ⟨verifyChain_eq_iff.mp accepted, nextRow.prevHash, hashed⟩

theorem Records.chainsSound {digest : Digest} {call : Call} {id : UUID} {plan : MemPlan}
    (records : Records digest call id plan service next)
    (sound : ChainsSound digest service) : ChainsSound digest next := by
  rcases records with ⟨kind, row, -, nextRow, rfl⟩
  intro policyID
  by_cases same : policyID = plan.policy.id
  · subst same
    simp only [Function.update_self]
    exact ChainsSound.append (sound _).1 (sound _).2 nextRow
  · simp only [Function.update_of_ne same]
    exact sound policyID

end Append

/-! ## Calls -/

section Calls

variable {platform : Platform} {readings : Readings} {service : MemService}

theorem eventKindOf_submission (given : Option Plan) (policy : Policy) (plan : Plan) :
    eventKindOf (.submitPlan given) (evaluate platform policy plan).status =
      some (if (evaluate platform policy plan).autoApproved then .autoApprovedNoRule
        else .submitted) := by
  unfold evaluate
  split <;> rfl

theorem eventKindOf_vote (input : DecisionInput) (plan : MemPlan) (rung : Int)
    (group : ApproverGroup) :
    eventKindOf (.recordDecision input) (plan.verdict rung group) =
      some (voteEvent plan input (plan.verdict rung group)).1 := by
  unfold MemPlan.verdict
  repeat' split
  all_goals rfl

theorem settle_plan (plan : MemPlan) (input : DecisionInput) (group : ApproverGroup) :
    (plan.settle input group).plan = plan.plan := by
  unfold MemPlan.settle MemPlan.vote
  split <;> rfl

theorem settle_policy (plan : MemPlan) (input : DecisionInput) (group : ApproverGroup) :
    (plan.settle input group).policy = plan.policy := by
  unfold MemPlan.settle MemPlan.vote
  split <;> rfl

/-- Every call on a service with sound ladders is accounted for. -/
theorem accounted_serve (roundTrips : RoundTrips platform.digest)
    (sound : LaddersSound platform service) (call : Call) (readings : Readings) :
    Accounted platform.digest service call (serve platform call readings service).2
      (serve platform call readings service).1 := by
  cases call with
  | registerPolicy policy =>
      simp only [serve, registerPolicy]
      split <;> exact ⟨rfl, rfl⟩
  | submitPlan plan =>
      generalize returned : submitPlan platform readings plan service = outcome
      rcases outcome with ⟨result, next⟩
      simp only [serve, returned]
      cases submitPlan_submits returned with
      | refused plan error unmet notFound => rfl
      | unaudited plan policy canonical message admitted failed =>
          rcases appendAuditLocked_ok readings roundTrips _ _ _ _ _ _ _ _ with
            ⟨next, appended⟩
          cases failed.symm.trans appended
      | stored plan policy canonical next admitted appended =>
          rcases appendAuditLocked_appends appended with ⟨row, nextRow, rfl⟩
          refine ⟨plan, entryOf platform readings policy canonical plan, rfl,
            admitted.found, rfl, _, row, eventKindOf_submission _ _ _, ?_, ?_⟩
          · rw [evaluate_planID]
            exact nextRow
          · rw [evaluate_planID]
            rfl
  | recordDecision input =>
      generalize returned : recordDecision platform readings input service = outcome
      rcases outcome with ⟨result, next⟩
      simp only [serve, returned]
      cases recordDecision_decides returned with
      | refused error other =>
          unfold Accounted
          split
          all_goals first | rfl | simp_all
      | expired plan present pending elapsed =>
          exact ⟨input, plan, rfl, present, pending,
            records_audited readings service roundTrips { plan with status := .expired }
              (sound input.planID plan present).named rfl ..⟩
      | settled plan rung group present admits event recorded =>
          have continues : Continues service input.planID plan (plan.settle input group) :=
            ⟨present, admits.pending, settle_plan .., settle_policy ..⟩
          have named : (plan.settle input group).plan.id = input.planID := by
            rw [settle_plan]
            exact (sound input.planID plan present).named
          have fitting : eventKindOf (.recordDecision input) (plan.settle input group).status =
              some event.1 := by
            rw [recorded]
            exact eventKindOf_vote input (plan.vote input) input.rungIndex group
          have records := records_audited readings service roundTrips
            (plan.settle input group) named fitting (some input.actorID) .human event.2
            readings.clock
          rw [settle_policy, settle_plan] at records
          exact ⟨input, plan, plan.settle input group, rfl, continues, rfl, records⟩
  | escalate input =>
      generalize returned : escalate platform readings input service = outcome
      rcases outcome with ⟨result, next⟩
      simp only [serve, returned]
      cases escalate_escalates returned with
      | refused error unmet => rfl
      | ignored plan rung text ready unknown =>
          have valid := (sound input.planID plan ready.present).isValid ready.pending
            ready.located
          rw [unknown] at valid
          exact absurd valid (by simp [OnTimeout.isValid])
      | denied plan rung payload ready ends =>
          exact ⟨input, plan, { plan with status := .autoDenied }, rfl,
            ⟨ready.present, ready.pending, rfl, rfl⟩, rfl,
            records_audited readings service roundTrips { plan with status := .autoDenied }
              (sound input.planID plan ready.present).named rfl ..⟩
      | moved plan rung target payload ready leads =>
          have fitting : eventKindOf (.escalate input) plan.status = some .escalated := by
            rw [ready.pending]
            rfl
          exact ⟨input, plan, { plan with currentRung := target }, rfl,
            ⟨ready.present, ready.pending, rfl, rfl⟩, ready.pending,
            records_audited readings service roundTrips { plan with currentRung := target }
              (sound input.planID plan ready.present).named fitting ..⟩

/-- What is accounted for keeps the chains sound. -/
theorem Accounted.chainsSound {digest : Digest} {before after : MemService} {call : Call}
    {reply : Reply} (accounted : Accounted digest before call after reply)
    (sound : ChainsSound digest before) : ChainsSound digest after := by
  unfold Accounted at accounted
  split at accounted
  · intro policyID
    rw [accounted.2]
    exact sound policyID
  · rcases accounted with ⟨given, plan, -, -, -, records⟩
    exact records.chainsSound sound
  · rw [accounted]
    exact sound
  · rcases accounted with ⟨input, previous, plan, -, -, -, records⟩
    exact records.chainsSound sound
  · rcases accounted with ⟨input, previous, -, -, -, records⟩
    exact records.chainsSound sound
  · rw [accounted]
    exact sound
  · rcases accounted with ⟨input, previous, plan, -, -, -, records⟩
    exact records.chainsSound sound
  · rw [accounted]
    exact sound

end Calls

/-! ## Runs -/

section Runs

variable {platform : Platform} {schedule : List (Call × Readings)} {final : System}

theorem chainsSound_of_run (roundTrips : RoundTrips platform.digest)
    (reached : run (step platform) initialSystem schedule = some final) :
    ChainsSound platform.digest final.service := by
  have preserved : ∀ (system : System) (label : Call × Readings) (next : System),
      LaddersSound platform system.service ∧ ChainsSound platform.digest system.service →
      step platform system label = some next →
      LaddersSound platform next.service ∧ ChainsSound platform.digest next.service := by
    intro system label next sound taken
    cases taken
    exact ⟨sound.1.serve label.1 label.2,
      (accounted_serve roundTrips sound.1 label.1 label.2).chainsSound sound.2⟩
  have initially : LaddersSound platform initialSystem.service ∧
      ChainsSound platform.digest initialSystem.service := by
    constructor
    · intro id plan present
      cases present
    · intro policyID
      exact ⟨rfl, rfl⟩
  exact (invariant_of_run preserved schedule initialSystem final initially reached).2

/-- After every run the chains are numbered from one on and accepted, and whatever call
comes next is accounted for. -/
theorem audited_of_run (platform : Platform) (schedule : List (Call × Readings))
    (final : System) (roundTrips : RoundTrips platform.digest)
    (reached : run (step platform) initialSystem schedule = some final) :
    ChainsSound platform.digest final.service ∧
      ∀ call readings, Accounted platform.digest final.service call
        (serve platform call readings final.service).2
        (serve platform call readings final.service).1 := by
  constructor
  · exact chainsSound_of_run roundTrips reached
  · intro call readings
    exact accounted_serve roundTrips (laddersSound_of_run reached) call readings

end Runs

/-- The string form of a `uuid.UUID`. -/
def uuidText (id : UUID) : String :=
  let digits := (Go.hexEncode (bigEndian 16 id.toNat)).toList
  String.ofList (digits.take 8 ++ '-' :: (digits.drop 8).take 4 ++
    '-' :: (digits.drop 12).take 4 ++ '-' :: (digits.drop 16).take 4 ++ '-' :: digits.drop 20)

/-- `json.Marshal` sorts the keys of a map; the texts here need no escapes. -/
def payloadText : AuditPayload → String
  | .submission planID index hash kind =>
      "\x7b\"matched_rule_index\":" ++ toString index ++ ",\"plan_hash\":\"" ++
        Go.hexEncode hash ++ "\",\"plan_id\":\"" ++ uuidText planID ++
        "\",\"proposer_kind\":\"" ++ kind ++ "\"\x7d"
  | .expiry => "\x7b\"reason\":\"expiry_window_elapsed\"\x7d"
  | .rejection rung reason | .denial rung reason =>
      "\x7b\"reason\":\"" ++ reason ++ "\",\"rung\":" ++ toString rung ++ "\x7d"
  | .approval rung approvals =>
      "\x7b\"approvals\":" ++ toString approvals ++ ",\"rung\":" ++ toString rung ++ "\x7d"
  | .partialVote rung approvals =>
      "\x7b\"approvals\":" ++ toString approvals ++ ",\"rung\":" ++ toString rung ++
        ",\"vote\":\"approve_partial\"\x7d"
  | .escalation fromRung toRung kind =>
      "\x7b\"from_rung\":" ++ toString fromRung ++ ",\"kind\":\"" ++ kind ++
        "\",\"to_rung\":" ++ toString toRung ++ "\x7d"

/-- What `json.Marshal` writes for a map is canonical already. -/
def jsonPlatform : Platform :=
  { plainPlatform with
    digest := {
      sha256 := Go.sha256
      marshal := fun payload => (payloadText payload).toUTF8.toList
      canonicalPayload := fun payload => .ok payload } }

/-- A plan with two approvals, one of them cast twice. -/
theorem audited_of_run_twoApprovals :
    ∃ final, run (step jsonPlatform) initialSystem twoApprovals = some final ∧
      ChainsSound jsonPlatform.digest final.service ∧
      (final.service.audit 1).map AuditRow.eventKind =
        [.submitted, .submitted, .submitted, .approved] ∧
      ∀ call readings, Accounted jsonPlatform.digest final.service call
        (serve jsonPlatform call readings final.service).2
        (serve jsonPlatform call readings final.service).1 := by
  have audited := audited_of_run jsonPlatform twoApprovals _ (fun payload => ⟨_, rfl⟩) rfl
  exact ⟨_, rfl, audited.1, rfl, audited.2⟩

end GitScale.Approval
