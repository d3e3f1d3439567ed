import GitScale.Approval.Ladder
import GitScale.Approval.Quorum
import GitScale.Approval.Finality

/-!
# Reaching a quorum

`Validate` compares the required count of a group with the length of its member list, and
`RecordDecision` counts the members that voted.  A member that is listed twice counts
twice for the one and once for the other.
-/

namespace GitScale.Approval

open Foundation

/-! ## Calls of the members -/

/-- An approving call of a member of the group, not before `now` and not after the window
of the plan. -/
structure MemberApproval (id : UUID) (plan : MemPlan) (group : ApproverGroup) (now : Time)
    (vote : DecisionInput × Readings) : Prop where
  planID : vote.1.planID = id
  approve : vote.1.approve = true
  member : vote.1.actorID ∈ group.humanUserIDs
  later : now ≤ vote.2.clock
  inTime : plan.elapsed vote.2.clock = false

/-- The votes as calls of the service. -/
def ballots (votes : List (DecisionInput × Readings)) : List (Call × Readings) :=
  votes.map fun vote => (.recordDecision vote.1, vote.2)

/-- Approving calls of members of the group, made from `now` on, can make the plan
approved. -/
def QuorumReachable (platform : Platform) (system : System) (id : UUID) (plan : MemPlan)
    (group : ApproverGroup) (now : Time) : Prop :=
  ∃ votes final, (∀ vote ∈ votes, MemberApproval id plan group now vote) ∧
    run (step platform) system (ballots votes) = some final ∧
    getPlanStatus id final.service = .ok .approved

/-- The rung `index` of the ladder asks `group`. -/
structure Asks (plan : MemPlan) (index : Int) (rung : EscalationRung)
    (group : ApproverGroup) : Prop where
  located : rungAt plan.ladder index = some rung
  grouped : plan.policy.approverGroups.lookup rung.groupName = some group

section Votes

variable {platform : Platform} {readings : Readings} {service : MemService}
  {plan : MemPlan} {input : DecisionInput} {rung : EscalationRung} {group : ApproverGroup}

theorem settle_frame (plan : MemPlan) (input : DecisionInput) (group : ApproverGroup) :
    (plan.settle input group).currentRung = plan.currentRung ∧
      (plan.settle input group).ladder = plan.ladder ∧
      (plan.settle input group).policy = plan.policy ∧
      (plan.settle input group).expiresAt = plan.expiresAt := by
  unfold MemPlan.settle MemPlan.vote
  split <;> exact ⟨rfl, rfl, rfl, rfl⟩

theorem Asks.settle {index : Int} (asks : Asks plan index rung group)
    (input : DecisionInput) (other : ApproverGroup) :
    Asks (plan.settle input other) index rung group := by
  obtain ⟨-, ladder, policy, -⟩ := settle_frame plan input other
  constructor
  · rw [ladder]
    exact asks.located
  · rw [policy]
    exact asks.grouped

theorem contains_of_mem {haystack : List UUID} {needle : UUID} (member : needle ∈ haystack) :
    contains haystack needle = true :=
  List.any_eq_true.mpr ⟨needle, member, decide_eq_true rfl⟩

/-- The approval of a member in time is settled. -/
theorem recordDecision_settles (platform : Platform) (readings : Readings)
    (present : service.plans input.planID = some plan) (pending : plan.status = .pending)
    (inTime : plan.elapsed readings.clock = false) (current : input.rungIndex = plan.currentRung)
    (asks : Asks plan plan.currentRung rung group)
    (member : input.actorID ∈ group.humanUserIDs) (approve : input.approve = true) :
    (recordDecision platform readings input service).2.plans =
      Function.update service.plans input.planID (some (plan.settle input group)) := by
  have inside : ¬ (input.rungIndex < 0 ∨ (plan.ladder.length : Int) ≤ input.rungIndex) := by
    have located := asks.located
    unfold rungAt at located
    split at located
    · rename_i natural
      have bound := (List.getElem?_eq_some_iff.mp located).1
      omega
    · cases located
  unfold recordDecision
  rw [current] at inside
  simp only [present, pending, inTime, current, asks.located, asks.grouped,
    contains_of_mem member, approve, ne_eq, not_true_eq_false, if_false, Bool.false_eq_true,
    false_and]
  rw [if_neg inside]
  simp only [audited_plans, MemService.setPlan, MemPlan.settle, current]

/-- A decided plan stays as it is. -/
theorem recordDecision_decided (present : service.plans input.planID = some plan)
    (decided : plan.status ≠ .pending) :
    (recordDecision platform readings input service).2 = service := by
  unfold recordDecision
  simp only [present, decided, ne_eq, not_false_eq_true, if_true]

theorem vote_of_approve (plan : MemPlan) (approve : input.approve = true) :
    (plan.vote input).approvals =
        Function.update plan.approvals input.rungIndex
          (insert input.actorID (plan.approvals input.rungIndex)) ∧
      (plan.vote input).rejections = plan.rejections := by
  unfold MemPlan.vote
  simp only [approve, if_true, and_self]

/-- The status after an approval when nobody rejected. -/
theorem settle_status (approve : input.approve = true)
    (unrejected : plan.rejections input.rungIndex = ∅) :
    (plan.settle input group).status =
      if group.requiredCount ≤
          (insert input.actorID (plan.approvals input.rungIndex)).card
        then .approved else .pending := by
  obtain ⟨approvals, rejections⟩ := vote_of_approve plan approve
  simp only [MemPlan.settle, MemPlan.verdict, approvals, rejections, unrejected,
    Finset.card_empty, Nat.lt_irrefl, if_false, Function.update_self]

end Votes

/-! ## Enough members -/

theorem step_recordDecision (platform : Platform) (system : System)
    (vote : DecisionInput × Readings) :
    ∃ next, step platform system (.recordDecision vote.1, vote.2) = some next ∧
      next.service = (recordDecision platform vote.2 vote.1 system.service).2 :=
  ⟨_, rfl, rfl⟩

section Enough

variable {platform : Platform} {id : UUID} {index : Int} {rung : EscalationRung}
  {group : ApproverGroup} {now : Time}

/-- The call by which a member approves at a rung. -/
def approvalOf (id : UUID) (index : Int) (now : Time) (member : UUID) :
    DecisionInput × Readings :=
  (⟨id, member, true, "", index⟩, ⟨now, now, id⟩)

/-- The plan waits at `index` for `group`, and `members` are some of those that did not
vote. -/
structure Waits (id : UUID) (index : Int) (rung : EscalationRung) (group : ApproverGroup)
    (now : Time) (members : List UUID) (service : MemService) (plan : MemPlan) : Prop where
  present : service.plans id = some plan
  inTime : plan.elapsed now = false
  current : plan.currentRung = index
  asks : Asks plan index rung group
  unrejected : plan.rejections index = ∅
  distinct : members.Nodup
  eligible : ∀ member ∈ members, member ∈ group.humanUserIDs
  silent : ∀ member ∈ members, member ∉ plan.approvals index

/-- The plan after the vote of the first member. -/
theorem Waits.vote {member : UUID} {members : List UUID} {service next : MemService}
    {plan : MemPlan} (waits : Waits id index rung group now (member :: members) service plan)
    (pending : plan.status = .pending)
    (taken : next = (recordDecision platform (approvalOf id index now member).2
      (approvalOf id index now member).1 service).2) :
    ∃ entry, Waits id index rung group now members next entry ∧
      (entry.approvals index).card = (plan.approvals index).card + 1 ∧
      entry.status = if group.requiredCount ≤ ((plan.approvals index).card + 1 : Nat)
        then .approved else .pending := by
  let input := (approvalOf id index now member).1
  have approve : input.approve = true := rfl
  have eligible : member ∈ group.humanUserIDs := waits.eligible member List.mem_cons_self
  have silent : member ∉ plan.approvals index := waits.silent member List.mem_cons_self
  obtain ⟨fresh, distinct⟩ := List.nodup_cons.mp waits.distinct
  obtain ⟨current, -, -, expiresAt⟩ := settle_frame plan input group
  obtain ⟨approvals, rejections⟩ := vote_of_approve plan approve
  have approvals : (plan.settle input group).approvals index =
      insert member (plan.approvals index) := by
    simp only [MemPlan.settle, approvals]
    exact Function.update_self ..
  have present : service.plans input.planID = some plan := waits.present
  have written := recordDecision_settles platform (approvalOf id index now member).2 present
    pending waits.inTime waits.current.symm (waits.current ▸ waits.asks) eligible approve
  refine ⟨plan.settle input group, ?_, ?_, ?_⟩
  · constructor
    · rw [taken, written]
      exact Function.update_self ..
    · simp only [MemPlan.elapsed, expiresAt]
      exact waits.inTime
    · exact current.trans waits.current
    · exact waits.asks.settle input group
    · simp only [MemPlan.settle, rejections]
      exact waits.unrejected
    · exact distinct
    · exact fun other listed => waits.eligible other (.tail member listed)
    · intro other listed
      rw [approvals, Finset.mem_insert, not_or]
      exact ⟨fun same => fresh (same ▸ listed), waits.silent other (.tail member listed)⟩
  · rw [approvals, Finset.card_insert_of_notMem silent]
  · rw [settle_status approve waits.unrejected]
    change (if _ ≤ ((insert member (plan.approvals index)).card : Int) then _ else _) = _
    rw [Finset.card_insert_of_notMem silent]

/-- Members that did not vote yet and are enough for the quorum bring it about.  The
induction is on these members; a call after the quorum changes nothing. -/
theorem approved_of_members (platform : Platform) (members : List UUID) :
    ∀ (system : System) (plan : MemPlan),
      Waits id index rung group now members system.service plan →
      plan.status = .approved ∨ plan.status = .pending ∧
        ((plan.approvals index).card : Int) < group.requiredCount ∧
        group.requiredCount ≤ (plan.approvals index).card + members.length →
      ∃ final, run (step platform) system
          (ballots (members.map (approvalOf id index now))) = some final ∧
        getPlanStatus id final.service = .ok .approved := by
  induction members with
  | nil =>
      intro system plan waits reached
      rcases reached with approved | ⟨-, short, enough⟩
      · exact ⟨system, rfl, getPlanStatus_eq_ok_iff.mpr ⟨plan, waits.present, approved⟩⟩
      · rw [List.length_nil] at enough
        omega
  | cons member members inductionHypothesis =>
      intro system plan waits reached
      rcases step_recordDecision platform system (approvalOf id index now member) with
        ⟨next, taken, service⟩
      have advanced : ∃ entry, Waits id index rung group now members next.service entry ∧
          (entry.status = .approved ∨ entry.status = .pending ∧
            ((entry.approvals index).card : Int) < group.requiredCount ∧
            group.requiredCount ≤ (entry.approvals index).card + members.length) := by
        rcases reached with approved | ⟨pending, short, enough⟩
        · refine ⟨plan, ?_, Or.inl approved⟩
          rw [service, recordDecision_decided waits.present (by simp [approved])]
          exact { waits with
            distinct := (List.nodup_cons.mp waits.distinct).2
            eligible := fun other listed => waits.eligible other (.tail member listed)
            silent := fun other listed => waits.silent other (.tail member listed) }
        · rcases waits.vote pending service with ⟨entry, waiting, counted, status⟩
          refine ⟨entry, waiting, ?_⟩
          rw [List.length_cons] at enough
          split at status
          · exact Or.inl status
          · exact Or.inr ⟨status, by omega, by omega⟩
      rcases advanced with ⟨entry, waiting, advanced⟩
      rcases inductionHypothesis next entry waiting advanced with ⟨final, completed, status⟩
      exact ⟨final, run_cons_iff.mpr ⟨next, taken, completed⟩, status⟩

end Enough

/-! ## Too few members -/

/-- The approvals at a rung come from members of its group, and an approved plan has as
many as the group asks for. -/
structure Canvassed (index : Int) (rung : EscalationRung) (group : ApproverGroup)
    (plan : MemPlan) : Prop where
  current : plan.currentRung = index
  asks : Asks plan index rung group
  members : plan.approvals index ⊆ group.humanUserIDs.toFinset
  quorum : plan.status = .approved → group.requiredCount ≤ (plan.approvals index).card

section TooFew

variable {platform : Platform} {index : Int} {rung : EscalationRung} {group : ApproverGroup}

theorem Canvassed.settle {plan : MemPlan} {input : DecisionInput} {now : Time}
    {found : EscalationRung} {its : ApproverGroup} (canvassed : Canvassed index rung group plan)
    (admits : Admits plan input now found its) :
    Canvassed index rung group (plan.settle input its) := by
  have same : input.rungIndex = index := admits.current.trans canvassed.current
  have located := admits.located
  rw [same] at located
  cases canvassed.asks.located.symm.trans located
  cases canvassed.asks.grouped.symm.trans admits.grouped
  constructor
  · exact (settle_frame plan input group).1.trans canvassed.current
  · exact canvassed.asks.settle input group
  · intro user member
    rcases mem_approvals_vote member with old | ⟨-, -, rfl⟩
    · exact canvassed.members old
    · exact List.mem_toFinset.mpr admits.member
  · intro approved
    have required := required_of_verdict approved
    rwa [same] at required

/-- A decision about the plan keeps the account of its votes. -/
theorem Canvassed.recordDecision {service : MemService} {plan : MemPlan}
    {input : DecisionInput} (canvassed : Canvassed index rung group plan)
    (present : service.plans input.planID = some plan) (readings : Readings) :
    ∃ entry, (Approval.recordDecision platform readings input service).2.plans
        input.planID = some entry ∧ Canvassed index rung group entry := by
  generalize returned : Approval.recordDecision platform readings input service = outcome
  rcases outcome with ⟨result, next⟩
  cases recordDecision_decides returned with
  | refused error other => exact ⟨plan, present, canvassed⟩
  | expired found located pending elapsed =>
      cases present.symm.trans located
      refine ⟨{ plan with status := .expired }, ?_, canvassed.current, ?_, canvassed.members,
        nofun⟩
      · rw [audited_plans]
        exact Function.update_self ..
      · exact ⟨canvassed.asks.located, canvassed.asks.grouped⟩
  | settled found itsRung its located admits event recorded =>
      cases present.symm.trans located
      refine ⟨plan.settle input its, ?_, canvassed.settle admits⟩
      rw [audited_plans]
      exact Function.update_self ..

/-- So do all calls of the members. -/
theorem canvassed_of_ballots {id : UUID} {given : MemPlan} {now : Time}
    (votes : List (DecisionInput × Readings)) :
    ∀ (system final : System) (plan : MemPlan), system.service.plans id = some plan →
      Canvassed index rung group plan →
      (∀ vote ∈ votes, MemberApproval id given group now vote) →
      run (step platform) system (ballots votes) = some final →
      ∃ entry, final.service.plans id = some entry ∧ Canvassed index rung group entry := by
  induction votes with
  | nil =>
      intro system final plan present canvassed _ completed
      cases completed
      exact ⟨plan, present, canvassed⟩
  | cons vote votes inductionHypothesis =>
      intro system final plan present canvassed approvals completed
      rcases run_cons_iff.mp completed with ⟨next, taken, remaining⟩
      cases taken
      obtain rfl := (approvals vote List.mem_cons_self).planID
      rcases canvassed.recordDecision present vote.2 with ⟨entry, stored, kept⟩
      exact inductionHypothesis _ final entry stored kept
        (fun other listed => approvals other (.tail vote listed)) remaining

/-- Nobody approves twice: the quorum is no larger than the number of members. -/
theorem Canvassed.requiredCount_le {system : System} {id : UUID} {plan : MemPlan} {now : Time}
    (canvassed : Canvassed index rung group plan)
    (present : system.service.plans id = some plan)
    (reachable : QuorumReachable platform system id plan group now) :
    group.requiredCount ≤ group.humanUserIDs.toFinset.card := by
  rcases reachable with ⟨votes, final, approvals, completed, status⟩
  rcases canvassed_of_ballots votes system final plan present canvassed approvals completed
    with ⟨entry, stored, counted⟩
  rcases getPlanStatus_eq_ok_iff.mp status with ⟨found, same, approved⟩
  cases stored.symm.trans same
  calc group.requiredCount
      ≤ (entry.approvals index).card := counted.quorum approved
    _ ≤ group.humanUserIDs.toFinset.card := Int.ofNat_le.mpr (Finset.card_le_card counted.members)

end TooFew

/-! ## The quorum of a validated group -/

/-- What `Validate` says about a group. -/
theorem validGroup_of_validate {quote : String → String} {policy : Policy}
    (valid : validate quote (some policy) = none) {name : String} {group : ApproverGroup}
    (found : policy.approverGroups.lookup name = some group) : 0 < group.requiredCount := by
  have listed : (name, group) ∈ policy.approverGroups := by
    rcases List.lookup_eq_some_iff.mp found with ⟨front, back, split, -⟩
    rw [split]
    exact List.mem_append_right front List.mem_cons_self
  unfold validate at valid
  simp only at valid
  repeat' split at valid
  all_goals first | cases valid | skip
  rename_i checked
  have passed := List.findSome?_eq_none_iff.mp checked (name, group) listed
  unfold validateGroup at passed
  repeat' split at passed
  all_goals try cases passed
  rename_i positive _ _
  exact not_le.mp positive

/-- A plan that waits at a rung of a validated ladder, in time and without votes, can be
approved by members of the rung's group if and only if the group has as many distinct
members as it asks for. -/
theorem quorumReachable_iff (platform : Platform) (system : System) (id : UUID)
    (plan : MemPlan) (present : system.service.plans id = some plan)
    (pending : plan.status = .pending)
    (valid : validate platform.quote (some plan.policy) = none)
    (index : Nat) (rung : EscalationRung) (located : plan.ladder[index]? = some rung)
    (current : plan.currentRung = index) (group : ApproverGroup)
    (grouped : plan.policy.approverGroups.lookup rung.groupName = some group) (now : Time)
    (inTime : plan.elapsed now = false)
    (unvoted : ∀ rung, plan.approvals rung = ∅ ∧ plan.rejections rung = ∅) :
    QuorumReachable platform system id plan group now ↔
      group.requiredCount ≤ group.humanUserIDs.toFinset.card := by
  have asks : Asks plan index rung group := ⟨by rw [rungAt_natCast, located], grouped⟩
  constructor
  · intro reachable
    have initially : Canvassed index rung group plan :=
      ⟨current, asks, by simp [(unvoted index).1], by simp [pending]⟩
    exact initially.requiredCount_le present reachable
  · intro enough
    have waits : Waits id index rung group now group.humanUserIDs.dedup system.service plan :=
      { present := present
        inTime := inTime
        current := current
        asks := asks
        unrejected := (unvoted index).2
        distinct := group.humanUserIDs.nodup_dedup
        eligible := fun member listed => List.mem_dedup.mp listed
        silent := by simp [(unvoted index).1] }
    have positive := validGroup_of_validate valid grouped
    have counted : (plan.approvals index).card = 0 := by simp [(unvoted index).1]
    rw [List.card_toFinset] at enough
    have reached := approved_of_members platform group.humanUserIDs.dedup system plan waits
      (Or.inr ⟨pending, by omega, by omega⟩)
    rcases reached with ⟨final, completed, status⟩
    refine ⟨group.humanUserIDs.dedup.map (approvalOf id index now), final, ?_, completed,
      status⟩
    intro vote cast
    rcases List.mem_map.mp cast with ⟨member, chosen, rfl⟩
    exact ⟨rfl, rfl, List.mem_dedup.mp chosen, le_rfl, inTime⟩

/-- A plan of an agent under the policy with the given members of its only group, of which
two have to approve. -/
def submittedTo (members : List UUID) : System :=
  let policy : Policy := { twoOfThree with
    approverGroups := [("leads", ⟨"leads", members, 2⟩)]
    keys_nodup := List.nodup_singleton "leads" }
  (run (step plainPlatform) initialSystem
    [(.registerPolicy (some policy), ⟨1, 1, 0⟩),
      (.submitPlan (some ⟨5, 2, none, 0, 6, .agent, [], [], 0⟩), ⟨2, 2, 0⟩)]).getD
    initialSystem

theorem quorumReachable_iff_twoMembers :
    ∃ plan, (submittedTo [11, 12, 11]).service.plans 5 = some plan ∧
      QuorumReachable plainPlatform (submittedTo [11, 12, 11]) 5 plan
        ⟨"leads", [11, 12, 11], 2⟩ 3 :=
  ⟨_, rfl, (quorumReachable_iff plainPlatform _ 5 _ rfl rfl (by decide) 0
    ⟨"leads", 3600, .autoDeny⟩ rfl rfl ⟨"leads", [11, 12, 11], 2⟩ rfl 3 (by decide)
    fun _ => ⟨rfl, rfl⟩).mpr (by decide)⟩

/-- A group of one member that is listed twice, with a required count of two. -/
theorem quorum_unreachable_duplicateMember :
    ∃ plan, (submittedTo [11, 11]).service.plans 5 = some plan ∧
      plan.status = .pending ∧ plan.currentRung = 0 ∧
      validate plainPlatform.quote (some plan.policy) = none ∧
      plan.policy.rules.map (·.ladder) = [plan.ladder] ∧
      plan.ladder = [⟨"leads", 3600, .autoDeny⟩] ∧
      plan.policy.approverGroups.lookup "leads" = some ⟨"leads", [11, 11], 2⟩ ∧
      plan.elapsed 3 = false ∧
      (∀ rung, plan.approvals rung = ∅ ∧ plan.rejections rung = ∅) ∧
      ¬ QuorumReachable plainPlatform (submittedTo [11, 11]) 5 plan
        ⟨"leads", [11, 11], 2⟩ 3 := by
  refine ⟨_, rfl, rfl, rfl, by decide, rfl, rfl, rfl, by decide, fun _ => ⟨rfl, rfl⟩, ?_⟩
  intro reachable
  have asks : ∀ plan, (submittedTo [11, 11]).service.plans 5 = some plan →
      Canvassed 0 ⟨"leads", 3600, .autoDeny⟩ ⟨"leads", [11, 11], 2⟩ plan := by
    intro plan present
    cases present
    exact ⟨rfl, ⟨rfl, rfl⟩, Finset.empty_subset _, nofun⟩
  have required := (asks _ rfl).requiredCount_le rfl reachable
  exact absurd required (by decide)

end GitScale.Approval
