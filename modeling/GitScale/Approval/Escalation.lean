import GitScale.Approval.Ladder
import GitScale.Foundation.Loop

/-!
# Where escalation leads

A rung that times out denies the plan, hands it to the next rung or hands it back.  The
plan climbs through rungs with `notify_next` only, so the first rung of another kind
decides: with `auto_deny` the plan is denied there, with `fall_back` it goes back and
forth between that rung and the one below for as long as it is escalated.
-/

namespace GitScale.Approval

open Foundation

/-- The first rung that is not `notify_next`, if there is one, is `auto_deny`. -/
def EndsInDenial (ladder : List EscalationRung) : Prop :=
  ∀ rung, ladder.find? (fun rung => rung.onTimeout ≠ .notifyNext) = some rung →
    rung.onTimeout = .autoDeny

/-! ## One escalation -/

/-- What `Escalate` makes of a pending plan. -/
inductive Advances (plan : MemPlan) : EscalateOutcome → MemPlan → Prop where
  | denied (rung : EscalationRung)
      (located : rungAt plan.ladder plan.currentRung = some rung) (ends : Ends plan rung) :
      Advances plan ⟨plan.currentRung, rung.onTimeout, true⟩
        { plan with status := .autoDenied }
  | moved (rung : EscalationRung) (target : Int)
      (located : rungAt plan.ladder plan.currentRung = some rung)
      (leads : Leads plan rung target) :
      Advances plan ⟨target, rung.onTimeout, false⟩ { plan with currentRung := target }

section Step

variable {platform : Platform} {service : MemService} {id : UUID} {plan entry : MemPlan}
  {outcome : EscalateOutcome}

/-- `Escalate` does not fail when the caller names the current rung of a pending plan. -/
theorem escalate_advances (sound : LaddersSound platform service)
    (present : service.plans id = some plan) (pending : plan.status = .pending)
    (readings : Readings) (reason : String) :
    ∃ outcome next entry,
      escalate platform readings ⟨id, plan.currentRung, reason⟩ service =
        (.ok outcome, next) ∧
      next.plans = Function.update service.plans id (some entry) ∧
      Advances plan outcome entry := by
  generalize returned : escalate platform readings ⟨id, plan.currentRung, reason⟩ service =
    result
  rcases result with ⟨result, next⟩
  have entrySound := sound id plan present
  rcases entrySound.located pending with ⟨rung, located⟩
  have ready : Ready service ⟨id, plan.currentRung, reason⟩ plan rung :=
    ⟨present, pending, rfl, located⟩
  cases escalate_escalates returned with
  | refused error unmet => exact absurd ready (unmet plan rung)
  | ignored other rung text ready unknown =>
      cases present.symm.trans ready.present
      have valid := entrySound.isValid pending ready.located
      rw [unknown] at valid
      exact absurd valid (by simp [OnTimeout.isValid])
  | denied other rung payload ready ends =>
      cases present.symm.trans ready.present
      exact ⟨_, _, _, rfl, audited_plans .., .denied rung ready.located ends⟩
  | moved other rung target payload ready leads =>
      cases present.symm.trans ready.present
      exact ⟨_, _, _, rfl, audited_plans .., .moved rung target ready.located leads⟩

theorem Advances.ladder (advances : Advances plan outcome entry) :
    entry.ladder = plan.ladder := by
  cases advances with
  | denied rung located ends => rfl
  | moved rung target located leads => rfl

/-- The rung that a climbing plan has reached is the first of its kind. -/
theorem Climbed.find?_eq {ladder : List EscalationRung} {index : Nat} {rung : EscalationRung}
    (climbed : Climbed ladder index) (located : ladder[index]? = some rung)
    (other : rung.onTimeout ≠ .notifyNext) :
    ladder.find? (fun rung => rung.onTimeout ≠ .notifyNext) = some rung := by
  rcases List.getElem?_eq_some_iff.mp located with ⟨inside, equal⟩
  rw [List.find?_eq_some_iff_getElem]
  refine ⟨by simpa using other, index, inside, equal, ?_⟩
  intro earlier lower
  have below := climbed.below earlier lower _ (List.getElem?_eq_getElem (by omega))
  simpa using below

/-- On a ladder that ends in denial every escalation denies the plan or lifts it. -/
theorem Advances.lifts (sound : LadderSound platform.quote id plan)
    (pending : plan.status = .pending) (denial : EndsInDenial plan.ladder)
    (advances : Advances plan outcome entry) :
    entry.status = .autoDenied ∨ entry.currentRung = plan.currentRung + 1 := by
  cases advances with
  | denied rung located ends => exact Or.inl rfl
  | moved rung target located leads =>
      rcases leads with ⟨back, -⟩ | ⟨-, equal, -⟩
      · rcases sound.climbed pending with ⟨index, current, climbed⟩
        rw [current, rungAt_natCast] at located
        have denied := denial rung (climbed.find?_eq located (by simp [back]))
        exact nomatch back.symm.trans denied
      · exact Or.inr equal

/-- On any other ladder no escalation decides the plan. -/
theorem Advances.undecided (sound : LadderSound platform.quote id plan)
    (pending : plan.status = .pending) (endless : ¬ EndsInDenial plan.ladder)
    (advances : Advances plan outcome entry) : entry.status = .pending := by
  cases advances with
  | moved rung target located leads => exact pending
  | denied rung located ends =>
      refine absurd ?_ endless
      rcases sound.climbed pending with ⟨index, current, climbed⟩
      rw [current, rungAt_natCast] at located
      rcases ends with deny | ⟨onward, exhausted⟩
      · intro first found
        cases (climbed.find?_eq located (by simp [deny])).symm.trans found
        exact deny
      · -- every rung is `notify_next`
        intro first found
        rcases List.find?_eq_some_iff_getElem.mp found with ⟨other, earlier, inside, equal, -⟩
        rw [current] at exhausted
        have listed : plan.ladder[earlier]? = some first :=
          List.getElem?_eq_some_iff.mpr ⟨inside, equal⟩
        rcases Nat.lt_or_ge earlier index with below | above
        · exact absurd (climbed.below earlier below first listed) (by simpa using other)
        · have same : earlier = index := by omega
          rw [same] at listed
          cases listed.symm.trans located
          exact absurd onward (by simpa using other)

end Step

/-! ## Escalating again and again -/

/-- Escalate a plan at its current rung, unless it is decided. -/
def escalateCurrent (platform : Platform) (id : UUID) (tick : Readings × String)
    (service : MemService) : PlanStatus ⊕ MemService :=
  match service.plans id with
  | none => .inr service
  | some plan =>
      if plan.status ≠ .pending then .inl plan.status
      else .inr (escalate platform tick.1 ⟨id, plan.currentRung, tick.2⟩ service).2

/-- How many rungs a pending plan has above it. -/
def MemPlan.remaining (plan : MemPlan) : Nat :=
  if plan.status = .pending then (plan.ladder.length - plan.currentRung).toNat else 0

theorem MemPlan.remaining_of_pending {plan : MemPlan} (pending : plan.status = .pending) :
    plan.remaining = (plan.ladder.length - plan.currentRung).toNat :=
  if_pos pending

/-- A plan that is denied or lifted has fewer rungs above it. -/
theorem Advances.remaining_lt {platform : Platform} {id : UUID} {plan entry : MemPlan}
    {outcome : EscalateOutcome} (sound : LadderSound platform.quote id plan)
    (pending : plan.status = .pending) (denial : EndsInDenial plan.ladder)
    (advances : Advances plan outcome entry) : entry.remaining < plan.remaining := by
  rcases sound.climbed pending with ⟨index, current, climbed⟩
  have inside := climbed.inside
  rw [MemPlan.remaining_of_pending pending]
  by_cases undecided : entry.status = .pending
  · rw [MemPlan.remaining_of_pending undecided, advances.ladder]
    rcases advances.lifts sound pending denial with denied | lifted
    · exact nomatch undecided.symm.trans denied
    · omega
  · rw [MemPlan.remaining, if_neg undecided]
    omega

section Repeated

variable {platform : Platform} {service : MemService} {id : UUID} {plan : MemPlan}
  {ladder : List EscalationRung}

/-- The plan has this ladder, and every plan of the service is sound. -/
structure On (platform : Platform) (id : UUID) (ladder : List EscalationRung)
    (service : MemService) (plan : MemPlan) : Prop where
  sound : LaddersSound platform service
  present : service.plans id = some plan
  ladder : plan.ladder = ladder

/-- Escalation at the current rung of a pending plan. -/
theorem On.escalate (on : On platform id ladder service plan)
    (pending : plan.status = .pending) (readings : Readings) (reason : String) :
    ∃ outcome next entry,
      Approval.escalate platform readings ⟨id, plan.currentRung, reason⟩ service =
        (.ok outcome, next) ∧
      On platform id ladder next entry ∧ Advances plan outcome entry := by
  rcases escalate_advances on.sound on.present pending readings reason with
    ⟨outcome, next, entry, returned, written, advances⟩
  refine ⟨outcome, next, entry, returned, ?_, advances⟩
  constructor
  · have kept := on.sound.serve (.escalate ⟨id, plan.currentRung, reason⟩) readings
    simp only [serve, returned] at kept
    exact kept
  · rw [written, Function.update_self]
  · exact advances.ladder.trans on.ladder

/-- Escalating at the current rung decides a pending plan after finitely many calls exactly
when its ladder ends in denial. -/
theorem returns_escalateCurrent_iff (on : On platform id ladder service plan)
    (pending : plan.status = .pending) (ticks : Nat → Readings × String) (first : Nat) :
    Returns (escalateCurrent platform id) ticks first service ↔ EndsInDenial ladder := by
  constructor
  · intro returns
    by_contra endless
    refine not_returns_of_invariant (fun service => ∃ plan,
      On platform id ladder service plan ∧ plan.status = .pending) ?_ ⟨plan, on, pending⟩
      returns
    rintro first service ⟨plan, on, pending⟩
    rcases on.escalate pending (ticks first).1 (ticks first).2 with
      ⟨outcome, next, entry, returned, onward, advances⟩
    refine ⟨next, ?_, entry, onward, ?_⟩
    · simp [escalateCurrent, on.present, pending, returned]
    · rw [← on.ladder] at endless
      exact advances.undecided (on.sound id plan on.present) pending endless
  · intro denial
    apply returns_of_variant (fun service => ∃ plan, On platform id ladder service plan)
      (fun _ _ => True) (fun service => ((service.plans id).map MemPlan.remaining).getD 0)
    · rintro first service next ⟨plan, on⟩ onward
      simp only [escalateCurrent, on.present] at onward
      split at onward
      · cases onward
      · rename_i undecided
        have pending : plan.status = .pending := not_not.mp undecided
        rcases on.escalate pending (ticks first).1 (ticks first).2 with
          ⟨outcome, after, entry, returned, kept, advances⟩
        rw [returned] at onward
        cases onward
        refine ⟨⟨entry, kept⟩, Or.inl ?_⟩
        rw [← on.ladder] at denial
        simp only [kept.present, on.present, Option.map_some, Option.getD_some]
        exact advances.remaining_lt (on.sound id plan on.present) pending denial
    · intro first service _
      exact ⟨0, trivial⟩
    · exact ⟨plan, on⟩

end Repeated

end GitScale.Approval
