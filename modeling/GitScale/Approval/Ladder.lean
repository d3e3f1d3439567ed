import GitScale.Approval.Calls

/-!
# Ladders and rungs

A policy is validated before it is stored, so a pending plan stands on a rung of a ladder
whose rungs all have a known disposition.  The way up is by `notify_next` only: every rung
below the current one has it.
-/

namespace GitScale.Approval

open Foundation

/-! ## Validated ladders -/

/-- What `Validate` says about the dispositions of a ladder. -/
structure ValidLadder (ladder : List EscalationRung) : Prop where
  nonempty : ladder ≠ []
  known : ∀ rung ∈ ladder, rung.onTimeout.isValid
  first : ∀ rung, ladder[0]? = some rung → rung.onTimeout ≠ .fallBack

section Validation

variable {quote : String → String} {policy : Policy}

theorem validateRung_eq_none {i j : Nat} {rung : EscalationRung}
    (valid : validateRung quote policy i j rung = none) :
    (policy.approverGroups.lookup rung.groupName).isSome ∧ rung.onTimeout.isValid ∧
      (j = 0 → rung.onTimeout ≠ .fallBack) := by
  unfold validateRung at valid
  simp only at valid
  split at valid
  · cases valid
  · rename_i declared
    split at valid
    · cases valid
    · split at valid
      · cases valid
      · rename_i known
        split at valid
        · cases valid
        · rename_i allowed
          exact ⟨by simpa [Option.isSome_iff_ne_none] using declared, not_not.mp known,
            fun first back => allowed ⟨first, back⟩⟩

/-- What `Validate` says about a rule. -/
structure ValidRule (quote : String → String) (policy : Policy) (i : Nat) (rule : Rule) :
    Prop where
  expiry : 0 < rule.expirySeconds
  nonempty : rule.ladder ≠ []
  rungs : ∀ j rung, rule.ladder[j]? = some rung → validateRung quote policy i j rung = none

theorem validateRule_eq_none {i : Nat} {rule : Rule}
    (valid : validateRule quote policy i rule = none) : ValidRule quote policy i rule := by
  unfold validateRule at valid
  simp only at valid
  repeat' split at valid
  all_goals first | cases valid | skip
  rename_i expiry _ nonempty
  refine ⟨not_le.mp expiry, nonempty, ?_⟩
  intro j rung located
  exact List.findSome?_eq_none_iff.mp valid (rung, j)
    (List.mem_zipIdx_iff_getElem?.mpr located)

theorem ValidRule.validLadder {i : Nat} {rule : Rule}
    (valid : ValidRule quote policy i rule) : ValidLadder rule.ladder := by
  constructor
  · exact valid.nonempty
  · intro rung member
    rcases List.mem_iff_getElem?.mp member with ⟨j, located⟩
    exact (validateRung_eq_none (valid.rungs j rung located)).2.1
  · intro rung located
    exact (validateRung_eq_none (valid.rungs 0 rung located)).2.2 rfl

/-- Every rung of a validated rule names a declared group. -/
theorem ValidRule.declared {i : Nat} {rule : Rule} (valid : ValidRule quote policy i rule)
    {rung : EscalationRung} (member : rung ∈ rule.ladder) :
    (policy.approverGroups.lookup rung.groupName).isSome := by
  rcases List.mem_iff_getElem?.mp member with ⟨j, located⟩
  exact (validateRung_eq_none (valid.rungs j rung located)).1

/-- The rules of a validated policy. -/
theorem validRule_of_validate (valid : validate quote (some policy) = none) {i : Nat}
    {rule : Rule} (located : policy.rules[i]? = some rule) : ValidRule quote policy i rule := by
  unfold validate at valid
  simp only at valid
  repeat' split at valid
  all_goals first | cases valid | skip
  exact validateRule_eq_none (List.findSome?_eq_none_iff.mp valid (rule, i)
    (List.mem_zipIdx_iff_getElem?.mpr located))

/-- The ladders of a validated policy. -/
theorem validLadder_of_validate (valid : validate quote (some policy) = none) {rule : Rule}
    (member : rule ∈ policy.rules) : ValidLadder rule.ladder := by
  rcases List.mem_iff_getElem?.mp member with ⟨i, located⟩
  exact (validRule_of_validate valid located).validLadder

end Validation

/-! ## The rung of a pending plan -/

/-- The rung exists and everything below it is `notify_next`. -/
structure Climbed (ladder : List EscalationRung) (index : Nat) : Prop where
  inside : index < ladder.length
  below : ∀ earlier < index, ∀ rung, ladder[earlier]? = some rung →
    rung.onTimeout = .notifyNext

/-- What the entry of a plan says about its ladder. -/
structure LadderSound (quote : String → String) (id : UUID) (plan : MemPlan) : Prop where
  named : plan.plan.id = id
  valid : validate quote (some plan.policy) = none
  matched : plan.status = .pending → ∃ rule ∈ plan.policy.rules, plan.ladder = rule.ladder
  climbed : plan.status = .pending → ∃ index : Nat, plan.currentRung = index ∧
    Climbed plan.ladder index

@[simp] theorem rungAt_natCast (ladder : List EscalationRung) (index : Nat) :
    rungAt ladder (index : Int) = ladder[index]? := by
  simp [rungAt]

theorem LadderSound.validLadder {quote : String → String} {id : UUID} {plan : MemPlan}
    (sound : LadderSound quote id plan) (pending : plan.status = .pending) :
    ValidLadder plan.ladder := by
  rcases sound.matched pending with ⟨rule, member, equal⟩
  rw [equal]
  exact validLadder_of_validate sound.valid member

/-- A pending plan stands on a rung of its ladder. -/
theorem LadderSound.located {quote : String → String} {id : UUID} {plan : MemPlan}
    (sound : LadderSound quote id plan) (pending : plan.status = .pending) :
    ∃ rung, rungAt plan.ladder plan.currentRung = some rung := by
  rcases sound.climbed pending with ⟨index, current, climbed⟩
  rw [current, rungAt_natCast]
  exact ⟨_, List.getElem?_eq_getElem climbed.inside⟩

/-- A pending plan stands on a rung with a known disposition. -/
theorem LadderSound.isValid {quote : String → String} {id : UUID} {plan : MemPlan}
    {rung : EscalationRung} (sound : LadderSound quote id plan)
    (pending : plan.status = .pending)
    (located : rungAt plan.ladder plan.currentRung = some rung) : rung.onTimeout.isValid := by
  rcases sound.climbed pending with ⟨index, current, -⟩
  rw [current, rungAt_natCast] at located
  exact (sound.validLadder pending).known rung (List.mem_of_getElem? located)

/-- A move along the ladder stays on it. -/
theorem Climbed.move {ladder : List EscalationRung} {index : Nat} {rung : EscalationRung}
    (climbed : Climbed ladder index) (valid : ValidLadder ladder)
    (located : ladder[index]? = some rung) :
    (rung.onTimeout = .fallBack → 0 < index ∧ Climbed ladder (index - 1)) ∧
      (rung.onTimeout = .notifyNext → index + 1 < ladder.length →
        Climbed ladder (index + 1)) := by
  constructor
  · intro back
    have positive : 0 < index := by
      rcases Nat.eq_zero_or_pos index with zero | positive
      · rw [zero] at located
        exact absurd back (valid.first rung located)
      · exact positive
    refine ⟨positive, by have := climbed.inside; omega, ?_⟩
    intro earlier lower
    exact climbed.below earlier (by omega)
  · intro onward inside
    refine ⟨inside, ?_⟩
    intro earlier lower other found
    rcases Nat.lt_succ_iff_lt_or_eq.mp lower with below | same
    · exact climbed.below earlier below other found
    · rw [same] at found
      cases located.symm.trans found
      exact onward

/-! ## Runs -/

/-- The invariant: every entry is sound. -/
def LaddersSound (platform : Platform) (service : MemService) : Prop :=
  ∀ id plan, service.plans id = some plan → LadderSound platform.quote id plan

section Step

variable {platform : Platform} {service next : MemService}

theorem LaddersSound.update (sound : LaddersSound platform service) {id : UUID}
    {entry : MemPlan}
    (written : next.plans = Function.update service.plans id (some entry))
    (entrySound : LadderSound platform.quote id entry) : LaddersSound platform next := by
  intro other plan present
  rw [written, Function.update_apply] at present
  split at present
  · rename_i same
    cases present
    rw [same]
    exact entrySound
  · exact sound other plan present

/-- A plan that is no longer pending has left its ladder. -/
theorem LadderSound.decide {quote : String → String} {id : UUID} {plan : MemPlan}
    (sound : LadderSound quote id plan) {status : PlanStatus} (decided : status ≠ .pending) :
    LadderSound quote id { plan with status := status } where
  named := sound.named
  valid := sound.valid
  matched := fun pending => absurd pending decided
  climbed := fun pending => absurd pending decided

theorem LadderSound.settle {quote : String → String} {id : UUID} {plan : MemPlan}
    (sound : LadderSound quote id plan) (pending : plan.status = .pending)
    (input : DecisionInput) (group : ApproverGroup) :
    LadderSound quote id (plan.settle input group) := by
  unfold MemPlan.settle MemPlan.vote
  split
  all_goals exact ⟨sound.named, sound.valid, fun _ => sound.matched pending,
    fun _ => sound.climbed pending⟩

theorem LadderSound.move {quote : String → String} {id : UUID} {plan : MemPlan}
    (sound : LadderSound quote id plan) (pending : plan.status = .pending)
    {rung : EscalationRung} (located : rungAt plan.ladder plan.currentRung = some rung)
    {target : Int} (leads : Leads plan rung target) :
    LadderSound quote id { plan with currentRung := target } where
  named := sound.named
  valid := sound.valid
  matched := fun _ => sound.matched pending
  climbed := by
    intro _
    rcases sound.climbed pending with ⟨index, current, climbed⟩
    rw [current, rungAt_natCast] at located
    have moves := climbed.move (sound.validLadder pending) located
    rcases leads with ⟨back, rfl⟩ | ⟨onward, rfl, inside⟩
    · rcases moves.1 back with ⟨positive, climbed⟩
      exact ⟨index - 1, by simp only [current]; omega, climbed⟩
    · rw [current] at inside
      exact ⟨index + 1, by simp only [current]; omega, moves.2 onward (by omega)⟩

/-- The entry of an admitted plan starts on the first rung of the rule that matched. -/
theorem ladderSound_entryOf {readings : Readings} {plan : Plan} {policy : Policy}
    {canonical : Bytes} (valid : validate platform.quote (some policy) = none) :
    LadderSound platform.quote (storedID readings plan)
      (entryOf platform readings policy canonical plan) := by
  have matched : ∀ stamped : Plan, (evaluate platform policy stamped).status = .pending →
      ∃ rule ∈ policy.rules, (evaluate platform policy stamped).ladder = rule.ladder := by
    intro stamped pending
    unfold evaluate at pending ⊢
    split at pending
    · rename_i rule index found
      have listed := List.mem_of_find?_eq_some found
      exact ⟨rule, List.mem_of_getElem? (List.mem_zipIdx_iff_getElem?.mp listed), rfl⟩
    · cases pending
  refine ⟨rfl, valid, fun pending => matched _ pending, ?_⟩
  intro pending
  rcases matched _ pending with ⟨rule, member, equal⟩
  have nonempty := (validLadder_of_validate valid member).nonempty
  refine ⟨0, rfl, ?_, fun earlier lower => absurd lower (Nat.not_lt_zero earlier)⟩
  change 0 < (evaluate platform policy _).ladder.length
  rw [equal]
  exact List.length_pos_iff.mpr nonempty

theorem LaddersSound.serve (sound : LaddersSound platform service) (call : Call)
    (readings : Readings) :
    LaddersSound platform (Approval.serve platform call readings service).2 := by
  cases call with
  | registerPolicy policy =>
      simp only [Approval.serve, registerPolicy]
      split <;> exact sound
  | submitPlan plan =>
      generalize returned : submitPlan platform readings plan service = outcome
      rcases outcome with ⟨result, next⟩
      simp only [Approval.serve, returned]
      cases submitPlan_submits returned with
      | refused plan error unmet notFound => exact sound
      | unaudited plan policy canonical message admitted failed =>
          exact sound.update rfl (ladderSound_entryOf admitted.valid)
      | stored plan policy canonical next admitted appended =>
          exact sound.update (appendAuditLocked_plans appended)
            (ladderSound_entryOf admitted.valid)
  | recordDecision input =>
      generalize returned : recordDecision platform readings input service = outcome
      rcases outcome with ⟨result, next⟩
      simp only [Approval.serve, returned]
      cases recordDecision_decides returned with
      | refused error other => exact sound
      | expired plan present pending elapsed =>
          exact sound.update (audited_plans ..)
            ((sound input.planID plan present).decide (by decide))
      | settled plan rung group present admits event recorded =>
          exact sound.update (audited_plans ..)
            ((sound input.planID plan present).settle admits.pending input group)
  | escalate input =>
      generalize returned : escalate platform readings input service = outcome
      rcases outcome with ⟨result, next⟩
      simp only [Approval.serve, returned]
      cases escalate_escalates returned with
      | refused error unmet => exact sound
      | ignored plan rung text ready unknown => exact sound
      | denied plan rung payload ready ends =>
          exact sound.update (audited_plans ..)
            ((sound input.planID plan ready.present).decide (by decide))
      | moved plan rung target payload ready leads =>
          exact sound.update (audited_plans ..)
            ((sound input.planID plan ready.present).move ready.pending ready.located leads)

end Step

/-- Every run keeps the ladders sound. -/
theorem laddersSound_of_run {platform : Platform} {schedule : List (Call × Readings)}
    {final : System} (reached : run (step platform) initialSystem schedule = some final) :
    LaddersSound platform final.service := by
  have preserved : ∀ (system : System) (label : Call × Readings) (next : System),
      LaddersSound platform system.service → step platform system label = some next →
      LaddersSound platform next.service := by
    intro system label next sound taken
    cases taken
    exact sound.serve label.1 label.2
  have initially : LaddersSound platform initialSystem.service := by
    intro id plan present
    cases present
  exact invariant_of_run preserved schedule initialSystem final initially reached

/-! ## No call leaves the ladder -/

section InRange

variable {platform : Platform} {service : MemService}

/-- The group of the rung on which a pending plan stands is declared. -/
theorem LadderSound.grouped {quote : String → String} {id : UUID} {plan : MemPlan}
    (sound : LadderSound quote id plan) (pending : plan.status = .pending) :
    ∃ rung group, rungAt plan.ladder plan.currentRung = some rung ∧
      plan.policy.approverGroups.lookup rung.groupName = some group := by
  rcases sound.located pending with ⟨rung, located⟩
  rcases sound.matched pending with ⟨rule, ruleListed, equal⟩
  rcases sound.climbed pending with ⟨index, current, -⟩
  have listed : rung ∈ rule.ladder := by
    rw [current, rungAt_natCast, equal] at located
    exact List.mem_of_getElem? located
  rcases List.mem_iff_getElem?.mp ruleListed with ⟨i, ruleLocated⟩
  have declared := (validRule_of_validate sound.valid ruleLocated).declared listed
  rcases Option.isSome_iff_exists.mp declared with ⟨group, found⟩
  exact ⟨rung, group, located, found⟩

/-- `RecordDecision` finds the rung and its group. -/
theorem LaddersSound.recordDecision (sound : LaddersSound platform service)
    (readings : Readings) (input : DecisionInput) :
    (Approval.recordDecision platform readings input service).1 ≠ .error .panicked ∧
      (Approval.recordDecision platform readings input service).1 ≠
        .error (.api .decisionUnauthorized "rung group missing") := by
  unfold Approval.recordDecision
  cases present : service.plans input.planID with
  | none => exact ⟨nofun, nofun⟩
  | some plan =>
      simp only
      split
      · exact ⟨nofun, nofun⟩
      · rename_i undecided
        rcases (sound input.planID plan present).grouped (not_not.mp undecided) with
          ⟨rung, group, located, grouped⟩
        -- the two lookups are decided here, what is left are the other refusals
        rw [located]
        simp only [grouped]
        repeat' split
        all_goals simp

/-- `Escalate` finds the rung. -/
theorem LaddersSound.escalate (sound : LaddersSound platform service)
    (readings : Readings) (input : EscalateInput) :
    (Approval.escalate platform readings input service).1 ≠ .error .panicked := by
  unfold Approval.escalate
  cases present : service.plans input.planID with
  | none => exact nofun
  | some plan =>
      simp only
      split
      · exact nofun
      · rename_i undecided
        rcases (sound input.planID plan present).located (not_not.mp undecided) with
          ⟨rung, located⟩
        rw [located]
        simp only
        repeat' split
        all_goals
          intro equal
          cases equal

end InRange

/-- In every reachable state a pending plan stands on a rung of its ladder whose group its
policy declares, so neither `RecordDecision` nor `Escalate` indexes the ladder out of
range or misses the group, whatever the call. -/
theorem rungs_in_range (platform : Platform) (schedule : List (Call × Readings))
    (final : System) (reached : run (step platform) initialSystem schedule = some final) :
    (∀ id plan, final.service.plans id = some plan → plan.status = .pending →
      (0 ≤ plan.currentRung ∧ plan.currentRung < plan.ladder.length) ∧
        ∃ rung group, rungAt plan.ladder plan.currentRung = some rung ∧
          plan.policy.approverGroups.lookup rung.groupName = some group) ∧
      ∀ readings,
        (∀ input, (recordDecision platform readings input final.service).1 ≠
            .error .panicked ∧
          (recordDecision platform readings input final.service).1 ≠
            .error (.api .decisionUnauthorized "rung group missing")) ∧
        ∀ input, (escalate platform readings input final.service).1 ≠ .error .panicked := by
  have sound := laddersSound_of_run reached
  constructor
  · intro id plan present pending
    have entrySound := sound id plan present
    rcases entrySound.climbed pending with ⟨index, current, climbed⟩
    refine ⟨?_, entrySound.grouped pending⟩
    have inside := climbed.inside
    rw [current]
    omega
  · intro readings
    exact ⟨sound.recordDecision readings, sound.escalate readings⟩

/-- A plan that climbed to its second rung and fell back to the first. -/
def fallenBack : List (Call × Readings) :=
  let policy : Policy := { twoOfThree with
    rules := [{
      kind := .agentDefault
      constraints := []
      threshold := none
      ladder := [⟨"leads", 60, .notifyNext⟩, ⟨"leads", 60, .fallBack⟩]
      expirySeconds := 14400 }] }
  [(.registerPolicy (some policy), ⟨1, 1, 0⟩),
    (.submitPlan (some ⟨5, 2, none, 0, 6, .agent, [], [], 0⟩), ⟨2, 2, 0⟩),
    (.escalate ⟨5, 0, "sla"⟩, ⟨3, 3, 0⟩),
    (.escalate ⟨5, 1, "sla"⟩, ⟨4, 4, 0⟩)]

theorem rungs_in_range_fallenBack :
    ∃ final, run (step plainPlatform) initialSystem fallenBack = some final ∧
      ∃ plan, final.service.plans 5 = some plan ∧ plan.status = .pending ∧
        0 ≤ plan.currentRung ∧ plan.currentRung < plan.ladder.length ∧
        (escalate plainPlatform ⟨5, 5, 0⟩ ⟨5, 0, "sla"⟩ final.service).1 ≠
          .error .panicked := by
  have ranged := rungs_in_range plainPlatform fallenBack _ rfl
  have inside := (ranged.1 5 _ rfl rfl).1
  exact ⟨_, rfl, _, rfl, rfl, inside.1, inside.2, (ranged.2 ⟨5, 5, 0⟩).2 _⟩

end GitScale.Approval
