import GitScale.Approval.Calls

/-!
# Quorum safety

Votes are kept by rung and survive escalation and fall-back.  The invariant ties every
recorded vote to the accepted call that cast it, and an approved plan to a rung whose
votes reach the quorum of its group.
-/

namespace GitScale.Approval

open Foundation

/-! ## What a call does to the plans -/

section Calls

variable {platform : Platform} {readings : Readings} {service : MemService}

/-- A pending plan changes its rung or gets a status other than approved; its votes
stay. -/
def Moves (id : UUID) (before after : MemService) : Prop :=
  ∃ plan status rung, before.plans id = some plan ∧ plan.status = .pending ∧
    status ≠ .approved ∧ after.plans = Function.update before.plans id
      (some { plan with status := status, currentRung := rung })

/-- `RecordDecision` settles an admitted vote, expires the plan, or leaves the plans
alone; only the first returns no error. -/
theorem recordDecision_cases {input : DecisionInput} {next : MemService}
    {result : Except ServiceError DecisionOutcome}
    (returned : recordDecision platform readings input service = (result, next)) :
    (∃ plan rung group outcome, service.plans input.planID = some plan ∧
        Admits plan input readings.clock rung group ∧ result = .ok outcome ∧
        next.plans = Function.update service.plans input.planID
          (some (plan.settle input group))) ∨
      ∃ error, result = .error error ∧
        (next.plans = service.plans ∨
          Moves input.planID service next) := by
  cases recordDecision_decides returned with
  | refused error _ => exact Or.inr ⟨error, rfl, Or.inl rfl⟩
  | expired plan present pending _ =>
      refine Or.inr ⟨_, rfl, Or.inr ⟨plan, .expired, plan.currentRung, present, pending,
        by decide, ?_⟩⟩
      rw [audited_plans]
      rfl
  | settled plan rung group present admits event _ =>
      refine Or.inl ⟨plan, rung, group, _, present, admits, rfl, ?_⟩
      rw [audited_plans]
      rfl

/-- `Escalate` moves a pending plan or leaves the plans alone. -/
theorem escalate_cases {input : EscalateInput} {next : MemService}
    {result : Except ServiceError EscalateOutcome}
    (returned : escalate platform readings input service = (result, next)) :
    next.plans = service.plans ∨ Moves input.planID service next := by
  cases escalate_escalates returned with
  | refused error _ => exact Or.inl rfl
  | ignored plan rung text ready unknown => exact Or.inl rfl
  | denied plan rung payload ready _ =>
      refine Or.inr ⟨plan, .autoDenied, plan.currentRung, ready.present, ready.pending,
        by decide, ?_⟩
      rw [audited_plans]
      rfl
  | moved plan rung target payload ready _ =>
      refine Or.inr ⟨plan, .pending, target, ready.present, ready.pending, by decide, ?_⟩
      rw [audited_plans, ← ready.pending]
      rfl

/-- The plan is stored without votes and not as approved. -/
def Stores (id : UUID) (before after : MemService) : Prop :=
  ∃ plan, plan.status ≠ .approved ∧ (∀ rung, plan.approvals rung = ∅) ∧
    after.plans = Function.update before.plans id (some plan)

theorem evaluate_status (policy : Policy) (plan : Plan) :
    (evaluate platform policy plan).status ≠ .approved := by
  unfold evaluate
  split
  all_goals
    intro equal
    cases equal

/-- `SubmitPlan` stores the plan or leaves the plans alone. -/
theorem submitPlan_cases {plan : Option Plan} {next : MemService}
    {result : Except ServiceError Decision}
    (returned : submitPlan platform readings plan service = (result, next)) :
    next.plans = service.plans ∨
      ∃ given, plan = some given ∧ Stores (storedID readings given) service next := by
  cases submitPlan_submits returned with
  | refused plan error _ _ => exact Or.inl rfl
  | unaudited plan policy canonical message admitted _ =>
      exact Or.inr ⟨plan, rfl, entryOf platform readings policy canonical plan,
        evaluate_status _ _, fun _ => rfl, rfl⟩
  | stored plan policy canonical next admitted appended =>
      refine Or.inr ⟨plan, rfl, entryOf platform readings policy canonical plan,
        evaluate_status _ _, fun _ => rfl, ?_⟩
      rw [appendAuditLocked_plans appended]
      rfl

theorem registerPolicy_plans (policy : Option Policy) :
    (registerPolicy platform policy service).2.plans = service.plans := by
  unfold registerPolicy
  split <;> rfl

end Calls

/-! ## Votes of the past -/

/-- The call was a `RecordDecision` that returned no error. -/
def Event.Accepts (event : Event) (input : DecisionInput) : Prop :=
  event.call = .recordDecision input ∧ ∃ outcome, event.reply = .decided (.ok outcome)

/-- An accepted approval of `user` at `rung`, cast while that rung was the current one
and, when the plan expires, not after `expiresAt`. -/
def ApprovingVote (id : UUID) (rung : Int) (user : UUID) (expiresAt : Time)
    (event : Event) : Prop :=
  ∃ input, event.Accepts input ∧ input.planID = id ∧ input.approve = true ∧
    input.rungIndex = rung ∧ input.actorID = user ∧
    (∃ plan, event.before.plans id = some plan ∧ plan.currentRung = rung) ∧
    (expiresAt.isZero = false → event.readings.clock ≤ expiresAt)

/-- An accepted rejection. -/
def RejectingVote (id : UUID) (event : Event) : Prop :=
  ∃ input, event.Accepts input ∧ input.planID = id ∧ input.approve = false

/-- What the state of one plan says about the calls of the past. -/
structure PlanSound (history : List Event) (id : UUID) (plan : MemPlan) : Prop where
  votes : ∀ rung user, user ∈ plan.approvals rung →
    ∃ event ∈ history, ApprovingVote id rung user plan.expiresAt event
  members : ∀ rung user, user ∈ plan.approvals rung → ∃ entry group,
    rungAt plan.ladder rung = some entry ∧
      plan.policy.approverGroups.lookup entry.groupName = some group ∧
      user ∈ group.humanUserIDs
  quorum : plan.status = .approved → ∃ rung entry group,
    rungAt plan.ladder rung = some entry ∧
      plan.policy.approverGroups.lookup entry.groupName = some group ∧
      group.requiredCount ≤ (plan.approvals rung).card
  rejected : ∀ event ∈ history, RejectingVote id event → plan.status = .rejected

/-- The invariant: every plan is sound, and an unknown plan has no accepted rejection. -/
structure Sound (system : System) : Prop where
  plans : ∀ id plan, system.service.plans id = some plan →
    PlanSound system.history id plan
  unknown : ∀ id, system.service.plans id = none →
    ∀ event ∈ system.history, ¬ RejectingVote id event

theorem sound_initial : Sound initialSystem where
  plans := by
    intro id plan present
    cases present
  unknown := by
    intro id _ event member
    cases member

theorem approvingVote_concat {history : List Event} {event : Event} {id : UUID} {rung : Int}
    {user : UUID} {expiresAt : Time}
    (found : ∃ past ∈ history, ApprovingVote id rung user expiresAt past) :
    ∃ past ∈ history ++ [event], ApprovingVote id rung user expiresAt past := by
  obtain ⟨past, member, vote⟩ := found
  exact ⟨past, List.mem_append_left _ member, vote⟩

/-- An event that accepts no rejection of the plan adds nothing to the past. -/
theorem PlanSound.concat {history : List Event} {event : Event} {id : UUID} {plan : MemPlan}
    (sound : PlanSound history id plan) (silent : ¬ RejectingVote id event) :
    PlanSound (history ++ [event]) id plan where
  votes := fun rung user member => approvingVote_concat (sound.votes rung user member)
  members := sound.members
  quorum := sound.quorum
  rejected := by
    intro past member vote
    rcases List.mem_append.mp member with old | new
    · exact sound.rejected past old vote
    · rw [List.mem_singleton.mp new] at vote
      exact absurd vote silent

/-- A pending plan keeps its votes when it moves. -/
theorem PlanSound.move {history : List Event} {id : UUID} {plan : MemPlan}
    (sound : PlanSound history id plan) (pending : plan.status = .pending)
    {status : PlanStatus} (undecided : status ≠ .approved) (rung : Int) :
    PlanSound history id { plan with status := status, currentRung := rung } where
  votes := sound.votes
  members := sound.members
  quorum := fun approved => absurd approved undecided
  rejected := by
    intro past member vote
    have decided := sound.rejected past member vote
    rw [pending] at decided
    cases decided

/-! ## An accepted vote -/

theorem required_of_verdict {plan : MemPlan} {rung : Int} {group : ApproverGroup}
    (approved : plan.verdict rung group = .approved) :
    group.requiredCount ≤ (plan.approvals rung).card := by
  unfold MemPlan.verdict at approved
  split at approved
  · cases approved
  · split at approved
    · assumption
    · cases approved

theorem verdict_of_reject {plan : MemPlan} {input : DecisionInput} {group : ApproverGroup}
    (rejects : input.approve = false) :
    (plan.vote input).verdict input.rungIndex group = .rejected := by
  unfold MemPlan.verdict MemPlan.vote
  rw [if_pos]
  rw [rejects]
  simp only [Bool.false_eq_true, if_false, Function.update_self]
  exact Finset.card_pos.mpr ⟨input.actorID, Finset.mem_insert_self _ _⟩

/-- The approvals after a vote are the earlier ones and the one just cast. -/
theorem mem_approvals_vote {plan : MemPlan} {input : DecisionInput} {rung : Int}
    {user : UUID} (member : user ∈ (plan.vote input).approvals rung) :
    user ∈ plan.approvals rung ∨
      input.approve = true ∧ rung = input.rungIndex ∧ user = input.actorID := by
  unfold MemPlan.vote at member
  split at member
  · rename_i approves
    simp only [Function.update_apply] at member
    split at member
    · rename_i same
      rcases Finset.mem_insert.mp member with new | old
      · exact Or.inr ⟨approves, same, new⟩
      · rw [same]
        exact Or.inl old
    · exact Or.inl member
  · exact Or.inl member

@[simp] theorem vote_frame (plan : MemPlan) (input : DecisionInput) :
    (plan.vote input).ladder = plan.ladder ∧ (plan.vote input).policy = plan.policy ∧
      (plan.vote input).expiresAt = plan.expiresAt := by
  unfold MemPlan.vote
  split <;> exact ⟨rfl, rfl, rfl⟩

theorem accepts_unique {event : Event} {first second : DecisionInput}
    (left : event.Accepts first) (right : event.Accepts second) : first = second := by
  have same := left.1.symm.trans right.1
  cases same
  rfl

/-- Settling an admitted vote keeps the plan sound. -/
theorem PlanSound.settle {history : List Event} {event : Event} {plan : MemPlan}
    {input : DecisionInput} {rung : EscalationRung} {group : ApproverGroup}
    (sound : PlanSound history input.planID plan)
    (present : event.before.plans input.planID = some plan)
    (admits : Admits plan input event.readings.clock rung group)
    (accepts : event.Accepts input) :
    PlanSound (history ++ [event]) input.planID (plan.settle input group) := by
  obtain ⟨ladder, policy, expiresAt⟩ := vote_frame plan input
  constructor
  · intro index user member
    simp only [MemPlan.settle, expiresAt]
    rcases mem_approvals_vote member with old | ⟨approves, rfl, rfl⟩
    · exact approvingVote_concat (sound.votes index user old)
    · exact ⟨event, List.mem_append_right _ (List.mem_singleton_self event), input, accepts,
        rfl, approves, rfl, rfl, ⟨plan, present, admits.current.symm⟩, admits.inTime⟩
  · intro index user member
    simp only [MemPlan.settle, ladder, policy]
    rcases mem_approvals_vote member with old | ⟨-, rfl, rfl⟩
    · exact sound.members index user old
    · exact ⟨rung, group, admits.located, admits.grouped, admits.member⟩
  · intro approved
    simp only [MemPlan.settle, ladder, policy]
    exact ⟨input.rungIndex, rung, group, admits.located, admits.grouped,
      required_of_verdict approved⟩
  · intro past member vote
    rcases List.mem_append.mp member with old | new
    · have decided := sound.rejected past old vote
      rw [admits.pending] at decided
      cases decided
    · rw [List.mem_singleton.mp new] at vote
      obtain ⟨other, accepted, -, rejects⟩ := vote
      rw [accepts_unique accepted accepts] at rejects
      exact verdict_of_reject rejects

/-! ## Runs -/

section Steps

variable {system : System} {next : MemService} {event : Event}

/-- A call that leaves the plans alone and accepts no rejection. -/
theorem Sound.same (sound : Sound system) (same : next.plans = system.service.plans)
    (silent : ∀ id, ¬ RejectingVote id event) :
    Sound ⟨next, system.history ++ [event]⟩ where
  plans := by
    intro id plan present
    rw [same] at present
    exact (sound.plans id plan present).concat (silent id)
  unknown := by
    intro id absent past member
    rw [same] at absent
    rcases List.mem_append.mp member with old | new
    · exact sound.unknown id absent past old
    · rw [List.mem_singleton.mp new]
      exact silent id

/-- A call that writes one plan and accepts no rejection of any other. -/
theorem Sound.update {target : UUID} {written : MemPlan} (sound : Sound system)
    (changed : next.plans = Function.update system.service.plans target (some written))
    (planSound : PlanSound (system.history ++ [event]) target written)
    (silent : ∀ id, id ≠ target → ¬ RejectingVote id event) :
    Sound ⟨next, system.history ++ [event]⟩ where
  plans := by
    intro id plan present
    rw [changed, Function.update_apply] at present
    split at present
    · rename_i same
      cases present
      rw [same]
      exact planSound
    · rename_i other
      exact (sound.plans id plan present).concat (silent id other)
  unknown := by
    intro id absent past member
    rw [changed, Function.update_apply] at absent
    split at absent
    · cases absent
    · rename_i other
      rcases List.mem_append.mp member with old | new
      · exact sound.unknown id absent past old
      · rw [List.mem_singleton.mp new]
        exact silent id other

theorem Sound.moves {target : UUID} (sound : Sound system)
    (moves : Moves target system.service next) (silent : ∀ id, ¬ RejectingVote id event) :
    Sound ⟨next, system.history ++ [event]⟩ := by
  obtain ⟨plan, status, rung, present, pending, undecided, changed⟩ := moves
  apply sound.update changed
  · exact ((sound.plans target plan present).move pending undecided rung).concat
      (silent target)
  · intro id _
    exact silent id

/-- A plan stored under a fresh identifier has no past. -/
theorem Sound.stores {target : UUID} (sound : Sound system)
    (fresh : system.service.plans target = none)
    (stores : Stores target system.service next) (silent : ∀ id, ¬ RejectingVote id event) :
    Sound ⟨next, system.history ++ [event]⟩ := by
  obtain ⟨plan, undecided, empty, changed⟩ := stores
  have planSound : PlanSound system.history target plan := by
    constructor
    · intro rung user member
      rw [empty rung] at member
      exact absurd member (Finset.notMem_empty user)
    · intro rung user member
      rw [empty rung] at member
      exact absurd member (Finset.notMem_empty user)
    · intro approved
      exact absurd approved undecided
    · intro past member vote
      exact absurd vote (sound.unknown target fresh past member)
  apply sound.update changed (planSound.concat (silent target))
  intro id _
  exact silent id

/-- Only a `RecordDecision` without error casts a vote. -/
theorem silent_of_reply (notDecided : ∀ outcome, event.reply ≠ .decided (.ok outcome))
    (id : UUID) : ¬ RejectingVote id event := by
  intro vote
  obtain ⟨input, ⟨-, outcome, reply⟩, -⟩ := vote
  exact notDecided outcome reply

end Steps

/-- Every call keeps the invariant. -/
theorem Sound.step {platform : Platform} {system next : System} {label : Call × Readings}
    (fresh : FreshID system label) (sound : Sound system)
    (taken : step platform system label = some next) : Sound next := by
  obtain ⟨call, readings⟩ := label
  unfold Approval.step at taken
  cases taken
  cases call with
  | registerPolicy policy =>
      apply sound.same (registerPolicy_plans policy)
      exact silent_of_reply (by rintro outcome ⟨⟩)
  | submitPlan plan =>
      have silent : ∀ id, ¬ RejectingVote id ⟨system.service, .submitPlan plan, readings,
          (serve platform (.submitPlan plan) readings system.service).1⟩ :=
        silent_of_reply (by rintro outcome ⟨⟩)
      rcases submitPlan_cases (Prod.mk.eta (p := submitPlan platform readings plan
        system.service)).symm with same | ⟨given, rfl, stored⟩
      · exact sound.same same silent
      · exact sound.stores fresh stored silent
  | recordDecision input =>
      rcases recordDecision_cases (Prod.mk.eta (p := recordDecision platform readings input
        system.service)).symm with
        ⟨plan, rung, group, outcome, present, admits, accepted, changed⟩ |
          ⟨error, failed, same | moves⟩
      · have accepts : Event.Accepts ⟨system.service, .recordDecision input, readings,
            .decided (recordDecision platform readings input system.service).1⟩ input :=
          ⟨rfl, outcome, congrArg Reply.decided accepted⟩
        apply sound.update changed
        · exact (sound.plans input.planID plan present).settle present admits accepts
        · intro id other vote
          obtain ⟨cast, accepted, named, -⟩ := vote
          rw [accepts_unique accepted accepts] at named
          exact other named.symm
      · apply sound.same same
        apply silent_of_reply
        intro outcome equal
        simp only [serve, failed] at equal
        cases equal
      · apply sound.moves moves
        apply silent_of_reply
        intro outcome equal
        simp only [serve, failed] at equal
        cases equal
  | escalate input =>
      have silent : ∀ id, ¬ RejectingVote id ⟨system.service, .escalate input, readings,
          (serve platform (.escalate input) readings system.service).1⟩ :=
        silent_of_reply (by rintro outcome ⟨⟩)
      rcases escalate_cases (Prod.mk.eta (p := escalate platform readings input
        system.service)).symm with same | moves
      · exact sound.same same silent
      · exact sound.moves moves silent

/-- Every run with fresh plan identifiers: an approved plan has a rung whose group gave
its quorum, by distinct members, in time and while the rung was current, and no rejection
of it was ever accepted. -/
theorem quorum_of_run (platform : Platform) (schedule : List (Call × Readings))
    (final : System) (fresh : Meets (step platform) FreshID initialSystem schedule)
    (reached : run (step platform) initialSystem schedule = some final)
    (id : UUID) (plan : MemPlan) (present : final.service.plans id = some plan)
    (approved : plan.status = .approved) :
    (∃ (rung : Int) (entry : EscalationRung) (group : ApproverGroup) (voters : Finset UUID),
      rungAt plan.ladder rung = some entry ∧
        plan.policy.approverGroups.lookup entry.groupName = some group ∧
        group.requiredCount ≤ voters.card ∧
        ∀ user ∈ voters, user ∈ group.humanUserIDs ∧
          ∃ event ∈ final.history, ApprovingVote id rung user plan.expiresAt event) ∧
      ∀ event ∈ final.history, ¬ RejectingVote id event := by
  have sound : Sound final :=
    invariant_of_meets (fun _ _ _ fresh holds taken => holds.step fresh taken)
      schedule initialSystem final fresh sound_initial reached
  have planSound := sound.plans id plan present
  constructor
  · obtain ⟨rung, entry, group, located, grouped, required⟩ := planSound.quorum approved
    refine ⟨rung, entry, group, plan.approvals rung, located, grouped, required, ?_⟩
    intro user member
    obtain ⟨found, its, equal, same, listed⟩ := planSound.members rung user member
    rw [located] at equal
    cases equal
    rw [grouped] at same
    cases same
    exact ⟨listed, planSound.votes rung user member⟩
  · intro event member vote
    have decided := planSound.rejected event member vote
    rw [approved] at decided
    cases decided

/-- A plan of an agent with two approvals, one of them cast twice. -/
def twoApprovals : List (Call × Readings) :=
  [(.registerPolicy (some twoOfThree), ⟨1, 1, 0⟩),
    (.submitPlan (some ⟨5, 2, none, 0, 6, .agent, [], [], 0⟩), ⟨2, 2, 0⟩),
    (.recordDecision ⟨5, 11, true, "", 0⟩, ⟨3, 3, 0⟩),
    (.recordDecision ⟨5, 11, true, "", 0⟩, ⟨4, 4, 0⟩),
    (.recordDecision ⟨5, 12, true, "", 0⟩, ⟨5, 5, 0⟩)]

def afterTwoApprovals : System :=
  (run (step plainPlatform) initialSystem twoApprovals).getD initialSystem

theorem quorum_of_run_twoApprovals :
    ∃ plan, afterTwoApprovals.service.plans 5 = some plan ∧ plan.status = .approved ∧
      (∃ (rung : Int) (entry : EscalationRung) (group : ApproverGroup)
          (voters : Finset UUID),
        rungAt plan.ladder rung = some entry ∧
          plan.policy.approverGroups.lookup entry.groupName = some group ∧
          group.requiredCount ≤ voters.card ∧
          ∀ user ∈ voters, user ∈ group.humanUserIDs ∧ ∃ event ∈ afterTwoApprovals.history,
            ApprovingVote 5 rung user plan.expiresAt event) ∧
        ∀ event ∈ afterTwoApprovals.history, ¬ RejectingVote 5 event :=
  ⟨_, rfl, rfl, quorum_of_run plainPlatform twoApprovals afterTwoApprovals
    (by decide) rfl 5 _ rfl rfl⟩

end GitScale.Approval
