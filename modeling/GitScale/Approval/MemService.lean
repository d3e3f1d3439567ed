import GitScale.Approval.Audit
import GitScale.Approval.Dsl
import GitScale.Foundation.Transition
import Mathlib.Data.Finset.Insert
import Mathlib.Data.Finset.Card
import Mathlib.Logic.Function.Basic

/-!
# The in-memory approval service

`MemService` keeps the registered policies, the submitted plans and one audit chain for
each policy.  Every method runs under one mutex, so a run of the service is a sequence
of calls.  What a call reads from the clocks and draws as a fresh identifier is part of
the call.
-/

namespace GitScale.Approval

open Foundation

/-- `PlanStatus`. -/
inductive PlanStatus where
  | pending
  | approved
  | rejected
  | expired
  | escalated
  | autoApprovedNoRule
  | autoDenied
  deriving DecidableEq, Repr

def PlanStatus.text : PlanStatus → String
  | .pending => "pending"
  | .approved => "approved"
  | .rejected => "rejected"
  | .expired => "expired"
  | .escalated => "escalated"
  | .autoApprovedNoRule => "auto_approved_no_rule"
  | .autoDenied => "auto_denied"

/-- `Plan`. -/
structure Plan where
  id : UUID
  orgID : UUID
  repoID : Option UUID
  policyID : UUID
  proposerID : UUID
  proposerKind : ProposerKind
  actions : List Action
  planHash : Bytes
  createdAt : Time
  deriving DecidableEq, Repr

/-- `Decision`. -/
structure Decision where
  planID : UUID
  status : PlanStatus
  autoApproved : Bool
  matchedRuleIndex : Int
  ladder : List EscalationRung
  expirySeconds : Int
  deriving DecidableEq, Repr

/-- `DecisionInput`. -/
structure DecisionInput where
  planID : UUID
  actorID : UUID
  approve : Bool
  reason : String
  rungIndex : Int
  deriving DecidableEq, Repr

/-- `DecisionOutcome`. -/
structure DecisionOutcome where
  status : PlanStatus
  quorumMet : Bool
  approvals : Nat
  rejections : Nat
  deriving DecidableEq, Repr

/-- `EscalateInput`. -/
structure EscalateInput where
  planID : UUID
  fromRung : Int
  reason : String
  deriving DecidableEq, Repr

/-- `EscalateOutcome`. -/
structure EscalateOutcome where
  newRung : Int
  onTimeout : OnTimeout
  finalRung : Bool
  deriving DecidableEq, Repr

/-- The codes of `APIError`. -/
inductive APICode where
  | planAlreadyDecided
  | planExpired
  | decisionUnauthorized
  | planNotFound
  | rungOutOfRange
  deriving DecidableEq, Repr

/-- The errors of the service.  An index out of range panics. -/
inductive ServiceError where
  | validation (error : ValidationError)
  | api (code : APICode) (message : String)
  | policyNotFound
  | other (message : String)
  | panicked
  deriving DecidableEq, Repr

/-- `memPlan`; the vote maps are given by the set of voters at each rung. -/
structure MemPlan where
  plan : Plan
  status : PlanStatus
  currentRung : Int
  approvals : Int → Finset UUID
  rejections : Int → Finset UUID
  ladder : List EscalationRung
  policy : Policy
  expiresAt : Time

/-- `MemService`. -/
structure MemService where
  policies : UUID → Option Policy
  plans : UUID → Option MemPlan
  audit : UUID → List AuditRow

/-- `NewMemService`. -/
def newMemService : MemService where
  policies := fun _ => none
  plans := fun _ => none
  audit := fun _ => []

/-- The functions that the service gets from elsewhere: the `%q` verb, `path.Match`,
`CanonicalActionsJSON`, and those of the audit chain. -/
structure Platform where
  quote : String → String
  pathMatch : String → String → Option Bool
  canonicalActionsJSON : List Action → Except String Bytes
  digest : Digest

/-- What a call reads from the service clock and the wall clock, and the identifier that
`uuid.New` would return. -/
structure Readings where
  clock : Time
  wallClock : Time
  freshID : UUID

/-- The index of a slice. -/
def rungAt (ladder : List EscalationRung) (index : Int) : Option EscalationRung :=
  if 0 ≤ index then ladder[index.toNat]? else none

/-- `s.plans[id] = plan`. -/
def MemService.setPlan (service : MemService) (id : UUID) (plan : MemPlan) : MemService :=
  { service with plans := Function.update service.plans id (some plan) }

/-- `contains`. -/
def contains (haystack : List UUID) (needle : UUID) : Bool :=
  haystack.any fun id => id = needle

/-- `actorKindFromProposer`. -/
def actorKindFromProposer : ProposerKind → ActorKind
  | .agent => .agent
  | .service => .service
  | .unknown _ => .system

variable (platform : Platform) (readings : Readings)

/-- `appendAuditLocked`. -/
def appendAuditLocked (policyID : UUID) (planID : Option UUID) (kind : AuditEventKind)
    (actorID : Option UUID) (actorKind : ActorKind) (payload : AuditPayload) (now : Time)
    (service : MemService) : Except String MemService :=
  let rows := service.audit policyID
  let prev := (rows.getLast?.map (·.rowHash)).getD genesisHash
  match appendRow platform.digest prev readings.wallClock {
      id := rows.length + 1
      policyID := policyID
      planID := planID
      eventKind := kind
      actorID := actorID
      actorKind := actorKind
      payload := platform.digest.marshal payload
      prevHash := genesisHash
      rowHash := genesisHash
      createdAt := now } with
  | .error message => .error message
  | .ok row =>
      .ok { service with audit := Function.update service.audit policyID (rows ++ [row]) }

/-- `_ = s.appendAuditLocked(…)`. -/
def audited (policyID planID : UUID) (kind : AuditEventKind) (actorID : Option UUID)
    (actorKind : ActorKind) (payload : AuditPayload) (now : Time) (service : MemService) :
    MemService :=
  match appendAuditLocked platform readings policyID (some planID) kind actorID actorKind
      payload now service with
  | .error _ => service
  | .ok service => service

/-! ## Methods -/

/-- `RegisterPolicy`. -/
def registerPolicy (policy : Option Policy) (service : MemService) :
    Except ServiceError Unit × MemService :=
  match validate platform.quote policy, policy with
  | some error, _ => (.error (.validation error), service)
  | none, none => (.ok (), service)
  | none, some policy =>
      (.ok (), { service with
        policies := Function.update service.policies policy.orgID (some policy) })

/-- `LoadPolicy`; the repository is not looked at. -/
def loadPolicy (orgID : UUID) (_repoID : Option UUID) (service : MemService) :
    Option Policy :=
  service.policies orgID

/-- `time.Duration(seconds) * time.Second`, which wraps in 64 bits. -/
def durationOfSeconds (seconds : Int) : Int := (seconds * 1000000000).bmod (2 ^ 64)

/-- The plan that `RecordSubmission` stores. -/
def submittedPlan (plan : Plan) (decision : Decision) (policy : Policy) (now : Time) :
    MemPlan where
  plan := plan
  status := decision.status
  currentRung := 0
  approvals := fun _ => ∅
  rejections := fun _ => ∅
  ladder := decision.ladder
  policy := policy
  expiresAt :=
    if 0 < decision.expirySeconds then now + durationOfSeconds decision.expirySeconds else 0

/-- `RecordSubmission`. -/
def recordSubmission (plan : Plan) (decision : Decision) (service : MemService) :
    Except ServiceError Unit × MemService :=
  match service.policies plan.orgID with
  | none => (.error .policyNotFound, service)
  | some policy =>
      let now := readings.clock
      let service := service.setPlan plan.id (submittedPlan plan decision policy now)
      let kind := if decision.autoApproved then .autoApprovedNoRule else .submitted
      match appendAuditLocked platform readings policy.id (some plan.id) kind
          (some plan.proposerID) (actorKindFromProposer plan.proposerKind)
          (.submission plan.id decision.matchedRuleIndex plan.planHash plan.proposerKind.text)
          now service with
      | .error message => (.error (.other message), service)
      | .ok service => (.ok (), service)

/-- The loop of `SubmitPlan` over the rules: the first one that matches decides. -/
def evaluate (policy : Policy) (plan : Plan) : Decision :=
  match policy.rules.zipIdx.find? fun entry =>
      matchRule platform.pathMatch entry.1 plan.actions plan.proposerKind with
  | some (rule, index) =>
      { planID := plan.id
        status := .pending
        autoApproved := false
        matchedRuleIndex := index
        ladder := rule.ladder
        expirySeconds := rule.expirySeconds }
  | none =>
      { planID := plan.id
        status := .autoApprovedNoRule
        autoApproved := true
        matchedRuleIndex := -1
        ladder := []
        expirySeconds := 0 }

/-- The identifier under which a plan is stored. -/
def storedID (plan : Plan) : UUID :=
  if plan.id = UUID.nil then readings.freshID else plan.id

/-- `SubmitPlan`. -/
def submitPlan (plan : Option Plan) (service : MemService) :
    Except ServiceError Decision × MemService :=
  match plan with
  | none => (.error (.other "policy: nil plan"), service)
  | some plan =>
      if ¬ plan.proposerKind.isValid then
        (.error (.other ("policy: invalid proposer_kind " ++
          platform.quote plan.proposerKind.text)), service)
      else
        match service.policies plan.orgID with
        | none => (.error .policyNotFound, service)
        | some policy =>
            match validate platform.quote (some policy) with
            | some error => (.error (.validation error), service)
            | none =>
                match platform.canonicalActionsJSON plan.actions with
                | .error message => (.error (.other message), service)
                | .ok canonical =>
                    let plan := { plan with
                      policyID := policy.id
                      planHash := platform.digest.sha256 canonical
                      id := storedID readings plan }
                    let decision := evaluate platform policy plan
                    match recordSubmission platform readings plan decision service with
                    | (.error error, service) => (.error error, service)
                    | (.ok _, service) => (.ok decision, service)

/-- The approval window of a plan has elapsed. -/
def MemPlan.elapsed (plan : MemPlan) (now : Time) : Bool :=
  !plan.expiresAt.isZero && plan.expiresAt < now

/-- The plan with the vote of a decision recorded. -/
def MemPlan.vote (plan : MemPlan) (input : DecisionInput) : MemPlan :=
  if input.approve then
    { plan with
      approvals := Function.update plan.approvals input.rungIndex
        (insert input.actorID (plan.approvals input.rungIndex)) }
  else
    { plan with
      rejections := Function.update plan.rejections input.rungIndex
        (insert input.actorID (plan.rejections input.rungIndex)) }

/-- The status after a vote: one rejection rejects, a quorum approves. -/
def MemPlan.verdict (plan : MemPlan) (rung : Int) (group : ApproverGroup) : PlanStatus :=
  if 0 < (plan.rejections rung).card then .rejected
  else if group.requiredCount ≤ (plan.approvals rung).card then .approved
  else .pending

/-- What `RecordDecision` reports about a plan that was voted on. -/
def outcomeOf (plan : MemPlan) (rung : Int) (group : ApproverGroup) : DecisionOutcome where
  status := plan.verdict rung group
  quorumMet := plan.verdict rung group = .approved
  approvals := (plan.approvals rung).card
  rejections := (plan.rejections rung).card

/-- The audit event and payload that follow a vote. -/
def voteEvent (plan : MemPlan) (input : DecisionInput) (status : PlanStatus) :
    AuditEventKind × AuditPayload :=
  match status with
  | .rejected => (.rejected, .rejection input.rungIndex input.reason)
  | .approved => (.approved, .approval input.rungIndex (plan.approvals input.rungIndex).card)
  | _ => (.submitted, .partialVote input.rungIndex (plan.approvals input.rungIndex).card)

/-- `RecordDecision`. -/
def recordDecision (input : DecisionInput) (service : MemService) :
    Except ServiceError DecisionOutcome × MemService :=
  match service.plans input.planID with
  | none => (.error (.api .planNotFound "no such plan"), service)
  | some plan =>
      if plan.status ≠ .pending then
        (.error (.api .planAlreadyDecided ("status=" ++ plan.status.text)), service)
      else
        let now := readings.clock
        if plan.elapsed now then
          (.error (.api .planExpired "approval window elapsed"),
            audited platform readings plan.policy.id plan.plan.id .expired none .system
              .expiry now (service.setPlan input.planID { plan with status := .expired }))
        else if input.rungIndex < 0 ∨ (plan.ladder.length : Int) ≤ input.rungIndex then
          (.error (.api .rungOutOfRange ("rung=" ++ toString input.rungIndex)), service)
        else if input.rungIndex ≠ plan.currentRung then
          (.error (.api .rungOutOfRange ("decision rung " ++ toString input.rungIndex ++
            " != current rung " ++ toString plan.currentRung)), service)
        else
          match rungAt plan.ladder plan.currentRung with
          | none => (.error .panicked, service)
          | some rung =>
              match plan.policy.approverGroups.lookup rung.groupName with
              | none => (.error (.api .decisionUnauthorized "rung group missing"), service)
              | some group =>
                  if ¬ contains group.humanUserIDs input.actorID then
                    (.error (.api .decisionUnauthorized "actor not in approver group"), service)
                  else if ¬ input.approve ∧ input.reason = "" then
                    (.error (.api .decisionUnauthorized "reject requires reason"), service)
                  else
                    let voted := plan.vote input
                    let status := voted.verdict input.rungIndex group
                    let event := voteEvent voted input status
                    (.ok (outcomeOf voted input.rungIndex group),
                      audited platform readings plan.policy.id plan.plan.id event.1
                        (some input.actorID) .human event.2 now
                        (service.setPlan input.planID { voted with status := status }))

/-- `Escalate`. -/
def escalate (input : EscalateInput) (service : MemService) :
    Except ServiceError EscalateOutcome × MemService :=
  match service.plans input.planID with
  | none => (.error (.api .planNotFound "no such plan"), service)
  | some plan =>
      if plan.status ≠ .pending then
        (.error (.api .planAlreadyDecided ("status=" ++ plan.status.text)), service)
      else if input.fromRung ≠ plan.currentRung then
        (.error (.api .rungOutOfRange ("escalate from " ++ toString input.fromRung ++
          " but current is " ++ toString plan.currentRung)), service)
      else
        match rungAt plan.ladder plan.currentRung with
        | none => (.error .panicked, service)
        | some rung =>
            let now := readings.clock
            match rung.onTimeout with
            | .autoDeny =>
                (.ok ⟨plan.currentRung, .autoDeny, true⟩,
                  audited platform readings plan.policy.id plan.plan.id .autoDenied none
                    .system (.denial plan.currentRung input.reason) now
                    (service.setPlan input.planID { plan with status := .autoDenied }))
            | .fallBack =>
                let next := plan.currentRung - 1
                (.ok ⟨next, .fallBack, false⟩,
                  audited platform readings plan.policy.id plan.plan.id .escalated none
                    .system (.escalation input.fromRung next "fall_back") now
                    (service.setPlan input.planID { plan with currentRung := next }))
            | .notifyNext =>
                let next := plan.currentRung + 1
                if (plan.ladder.length : Int) ≤ next then
                  (.ok ⟨plan.currentRung, .notifyNext, true⟩,
                    audited platform readings plan.policy.id plan.plan.id .autoDenied none
                      .system (.denial plan.currentRung "ladder_exhausted") now
                      (service.setPlan input.planID { plan with status := .autoDenied }))
                else
                  (.ok ⟨next, .notifyNext, false⟩,
                    audited platform readings plan.policy.id plan.plan.id .escalated none
                      .system (.escalation input.fromRung next "notify_next") now
                      (service.setPlan input.planID { plan with
                        currentRung := next
                        status := .pending }))
            | .unknown text => (.ok ⟨0, .unknown text, false⟩, service)

/-- `GetPlanStatus`. -/
def getPlanStatus (planID : UUID) (service : MemService) :
    Except ServiceError PlanStatus :=
  match service.plans planID with
  | none => .error (.api .planNotFound "no such plan")
  | some plan => .ok plan.status

/-! ## Runs -/

/-- A call and its arguments. -/
inductive Call where
  | registerPolicy (policy : Option Policy)
  | submitPlan (plan : Option Plan)
  | recordDecision (input : DecisionInput)
  | escalate (input : EscalateInput)
  deriving DecidableEq

/-- What a call returned. -/
inductive Reply where
  | registered (result : Except ServiceError Unit)
  | submitted (result : Except ServiceError Decision)
  | decided (result : Except ServiceError DecisionOutcome)
  | escalated (result : Except ServiceError EscalateOutcome)
  deriving DecidableEq

/-- Execute one call. -/
def serve (call : Call) (readings : Readings) (service : MemService) :
    Reply × MemService :=
  match call with
  | .registerPolicy policy =>
      let outcome := registerPolicy platform policy service
      (.registered outcome.1, outcome.2)
  | .submitPlan plan =>
      let outcome := submitPlan platform readings plan service
      (.submitted outcome.1, outcome.2)
  | .recordDecision input =>
      let outcome := recordDecision platform readings input service
      (.decided outcome.1, outcome.2)
  | .escalate input =>
      let outcome := escalate platform readings input service
      (.escalated outcome.1, outcome.2)

/-- One call of the past: the state it met, its arguments, what it read and returned. -/
structure Event where
  before : MemService
  call : Call
  readings : Readings
  reply : Reply

/-- The service together with everything that was called. -/
structure System where
  service : MemService
  history : List Event

def initialSystem : System := ⟨newMemService, []⟩

/-- One call. -/
def step (system : System) (label : Call × Readings) : Option System :=
  let outcome := serve platform label.1 label.2 system.service
  some {
    service := outcome.2
    history := system.history ++ [⟨system.service, label.1, label.2, outcome.1⟩] }

/-- A plan is submitted under an identifier that no plan has yet. -/
def FreshID (system : System) (label : Call × Readings) : Prop :=
  match label.1 with
  | .submitPlan (some plan) => system.service.plans (storedID label.2 plan) = none
  | _ => True

instance decidableFreshID (system : System) :
    ∀ label, Decidable (FreshID system label)
  | (.submitPlan (some plan), readings) =>
      inferInstanceAs (Decidable (system.service.plans (storedID readings plan) = none))
  | (.submitPlan none, _) => isTrue trivial
  | (.registerPolicy _, _) => isTrue trivial
  | (.recordDecision _, _) => isTrue trivial
  | (.escalate _, _) => isTrue trivial

/-! ## A policy and a platform to run with -/

/-- A policy that asks two of three humans about every plan of an agent. -/
def twoOfThree : Policy where
  id := 1
  orgID := 2
  repoID := none
  name := "two of three"
  version := 1
  rules := [{
    kind := .agentDefault
    constraints := []
    threshold := none
    ladder := [⟨"leads", 3600, .autoDeny⟩]
    expirySeconds := 14400 }]
  approverGroups := [("leads", ⟨"leads", [11, 12, 13], 2⟩)]
  keys_nodup := by decide

/-- The functions from elsewhere; nothing here depends on the bytes of the chain. -/
def plainPlatform : Platform where
  quote := fun text => "\"" ++ text ++ "\""
  pathMatch := fun _ _ => some false
  canonicalActionsJSON := fun _ => .ok "[]".toUTF8.toList
  digest := {
    sha256 := fun _ => genesisHash
    marshal := fun _ => "\x7b\x7d".toUTF8.toList
    canonicalPayload := fun payload => .ok payload }

end GitScale.Approval
