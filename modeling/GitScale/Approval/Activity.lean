import GitScale.Approval.Escalation

/-!
# The approval activity

The activity of the workflow plane submits a plan and polls it until it is no longer
pending; when the service level of the current rung is breached it escalates.  It keeps
the current rung and the instant it got there for itself.
-/

namespace GitScale.Approval

open Foundation

/-- `Activity`; the client is the service itself. -/
structure Activity where
  pollInterval : Int
  slaJitter : Int
  deriving DecidableEq, Repr

/-- `NewActivity`. -/
def newActivity : Activity where
  pollInterval := 2 * 1000000000
  slaJitter := 5 * 1000000000

/-- `Input`. -/
structure ActivityInput where
  orgID : UUID
  repoID : Option UUID
  proposerID : UUID
  proposerKind : ProposerKind
  actions : List Action

/-- `Result`. -/
structure ActivityResult where
  planID : UUID
  status : PlanStatus
  deriving DecidableEq, Repr

/-- The errors of the activity: a text of its own, an error of the service behind a text,
and the error of the context together with what is returned beside it. -/
inductive ActivityError where
  | text (message : String)
  | wrapped (message : String) (error : ServiceError)
  | cancelled (result : ActivityResult)
  deriving DecidableEq, Repr

/-- What one turn of the loop reads: whether the context is done, at the top and in the
sleep, its clock when it compares with the deadline and after an escalation, and the
clocks of the service. -/
structure Tick where
  cancelled : Bool
  now : Time
  readings : Readings
  entered : Time
  cancelledAsleep : Bool

/-- The variables of the loop, and the service. -/
structure Polling where
  service : MemService
  currentRung : Int
  rungEnteredAt : Time

/-- What `Execute` leaves. -/
abbrev ActivityOutcome := Except ActivityError ActivityResult × MemService

/-- The instant after which a rung is escalated; durations wrap in 64 bits. -/
def Activity.deadline (activity : Activity) (rungEnteredAt : Time) (rung : EscalationRung) :
    Time :=
  rungEnteredAt +
    (durationOfSeconds rung.slaSeconds + activity.slaJitter : Int).bmod (2 ^ 64)

variable (platform : Platform) (activity : Activity)

/-- One turn of the loop of `Execute`. -/
def poll (decision : Decision) (tick : Tick) (polling : Polling) :
    ActivityOutcome ⊕ Polling :=
  if tick.cancelled then
    .inl (.error (.cancelled ⟨decision.planID, .pending⟩), polling.service)
  else
    match getPlanStatus decision.planID polling.service with
    | .error error => .inl (.error (.wrapped "approval: poll: " error), polling.service)
    | .ok status =>
        if status ≠ .pending then .inl (.ok ⟨decision.planID, status⟩, polling.service)
        else if (decision.ladder.length : Int) ≤ polling.currentRung then
          .inl (.error (.text "approval: ladder exhausted without decision"), polling.service)
        else
          match rungAt decision.ladder polling.currentRung with
          | none => .inl (.error (.wrapped "" .panicked), polling.service)
          | some rung =>
              if activity.deadline polling.rungEnteredAt rung < tick.now then
                match escalate platform tick.readings
                    ⟨decision.planID, polling.currentRung, "sla_breach"⟩ polling.service with
                | (.error error, service) =>
                    .inl (.error (.wrapped "approval: escalate: " error), service)
                | (.ok outcome, service) =>
                    if outcome.finalRung then .inr { polling with service := service }
                    else .inr ⟨service, outcome.newRung, tick.entered⟩
              else if tick.cancelledAsleep then
                .inl (.error (.cancelled ⟨decision.planID, .pending⟩), polling.service)
              else .inr polling

/-- The plan that `Execute` submits. -/
def ActivityInput.plan (input : ActivityInput) : Plan where
  id := UUID.nil
  orgID := input.orgID
  repoID := input.repoID
  policyID := UUID.nil
  proposerID := input.proposerID
  proposerKind := input.proposerKind
  actions := input.actions
  planHash := []
  createdAt := 0

/-- `Execute` with at most `fuel` turns of its loop. -/
def execute (input : ActivityInput) (readings : Readings) (startedAt : Time)
    (ticks : Nat → Tick) (fuel : Nat) (service : MemService) : Option ActivityOutcome :=
  if ¬ input.proposerKind.isValid then
    some (.error (.text ("approval: invalid proposer_kind " ++
      platform.quote input.proposerKind.text)), service)
  else
    match submitPlan platform readings (some input.plan) service with
    | (.error error, service) => some (.error (.wrapped "approval: submit: " error), service)
    | (.ok decision, service) =>
        if decision.autoApproved ∨ decision.status = .autoApprovedNoRule then
          some (.ok ⟨decision.planID, decision.status⟩, service)
        else if decision.status ≠ .pending then
          some (.ok ⟨decision.planID, decision.status⟩, service)
        else
          iterate (poll platform activity decision) ticks fuel 0 ⟨service, 0, startedAt⟩

/-! ## The loop -/

/-- The context of the activity is never done. -/
def Uncancelled (ticks : Nat → Tick) : Prop :=
  ∀ index, (ticks index).cancelled = false ∧ (ticks index).cancelledAsleep = false

/-- The clock of the activity passes every instant, at every turn from which it is
watched. -/
def Unbounded (ticks : Nat → Tick) : Prop :=
  ∀ (bound : Time) (first : Nat), ∃ distance, bound < (ticks (first + distance)).now

/-- The loop watches this plan, and knows its rung as long as the plan is pending. -/
structure Watches (decision : Decision) (polling : Polling) (plan : MemPlan) : Prop where
  on : On platform decision.planID decision.ladder polling.service plan
  tracked : plan.status = .pending → polling.currentRung = plan.currentRung

/-- The clock is past the deadline of the rung. -/
def Breached (decision : Decision) (now : Time) (polling : Polling) : Prop :=
  ∀ rung, rungAt decision.ladder polling.currentRung = some rung →
    activity.deadline polling.rungEnteredAt rung < now

section Loop

variable {platform activity} {decision : Decision} {polling : Polling} {plan : MemPlan}
  {tick : Tick}

/-- A plan that is decided ends the loop. -/
theorem Watches.leaves (activity : Activity)
    (watches : Watches platform decision polling plan) (decided : plan.status ≠ .pending)
    (live : tick.cancelled = false) :
    ∃ outcome, poll platform activity decision tick polling = .inl outcome := by
  simp [poll, live, getPlanStatus, watches.on.present, decided]

/-- One turn on a pending plan: it is left alone before the deadline and escalated after
it. -/
theorem Watches.turns (watches : Watches platform decision polling plan)
    (pending : plan.status = .pending) (live : tick.cancelled = false)
    (awake : tick.cancelledAsleep = false) :
    (¬ Breached activity decision tick.now polling ∧
        poll platform activity decision tick polling = .inr polling) ∨
      ∃ next entry outcome, poll platform activity decision tick polling = .inr next ∧
        Watches platform decision next entry ∧ Advances plan outcome entry := by
  have on := watches.on
  have tracked := watches.tracked pending
  have sound := on.sound decision.planID plan on.present
  rcases sound.located pending with ⟨rung, located⟩
  rcases sound.climbed pending with ⟨index, current, climbed⟩
  have inside := climbed.inside
  have within : ¬ (decision.ladder.length : Int) ≤ polling.currentRung := by
    rw [← on.ladder, tracked, current]
    omega
  rw [on.ladder, ← tracked] at located
  by_cases late : activity.deadline polling.rungEnteredAt rung < tick.now
  · right
    rcases on.escalate pending tick.readings "sla_breach" with
      ⟨outcome, next, entry, returned, kept, advances⟩
    rw [← tracked] at returned
    cases advances with
    | denied rung' located' ends =>
        refine ⟨{ polling with service := next }, _, _, ?_, ⟨kept, ?_⟩,
          .denied rung' located' ends⟩
        · simp [poll, live, getPlanStatus, on.present, pending, within, located, late,
            returned]
        · intro undecided
          cases undecided
    | moved rung' target located' leads =>
        refine ⟨⟨next, target, tick.entered⟩, _, _, ?_, ⟨kept, fun _ => rfl⟩,
          .moved rung' target located' leads⟩
        simp [poll, live, getPlanStatus, on.present, pending, within, located, late,
          returned]
  · left
    constructor
    · intro breached
      exact late (breached rung located)
    · simp [poll, live, awake, getPlanStatus, on.present, pending, within, located, late]

/-- The loop leaves after finitely many turns exactly when the ladder ends in denial. -/
theorem Watches.returns_iff (activity : Activity)
    (watches : Watches platform decision polling plan) (pending : plan.status = .pending)
    {ticks : Nat → Tick} (uncancelled : Uncancelled ticks) (unbounded : Unbounded ticks)
    (first : Nat) :
    Returns (poll platform activity decision) ticks first polling ↔
      EndsInDenial decision.ladder := by
  constructor
  · intro returns
    by_contra endless
    refine not_returns_of_invariant (fun polling => ∃ plan,
      Watches platform decision polling plan ∧ plan.status = .pending) ?_
      ⟨plan, watches, pending⟩ returns
    rintro first polling ⟨plan, watches, pending⟩
    rcases uncancelled first with ⟨live, awake⟩
    rcases watches.turns pending live awake with
      ⟨-, stays⟩ | ⟨next, entry, outcome, taken, kept, advances⟩
    · exact ⟨polling, stays, plan, watches, pending⟩
    · refine ⟨next, taken, entry, kept, ?_⟩
      rw [← watches.on.ladder] at endless
      exact advances.undecided (watches.on.sound _ plan watches.on.present) pending endless
  · intro denial
    apply returns_of_variant (fun polling => ∃ plan, Watches platform decision polling plan)
      (fun polling index => Breached activity decision (ticks index).now polling)
      (fun polling =>
        ((polling.service.plans decision.planID).map MemPlan.remaining).getD 0)
    · rintro first polling next ⟨plan, watches⟩ onward
      rcases uncancelled first with ⟨live, awake⟩
      by_cases pending : plan.status = .pending
      · rcases watches.turns pending live awake with
          ⟨early, stays⟩ | ⟨after, entry, outcome, taken, kept, advances⟩
        · cases stays.symm.trans onward
          exact ⟨⟨plan, watches⟩, Or.inr ⟨rfl, early⟩⟩
        · cases taken.symm.trans onward
          refine ⟨⟨entry, kept⟩, Or.inl ?_⟩
          rw [← watches.on.ladder] at denial
          simp only [kept.on.present, watches.on.present, Option.map_some, Option.getD_some]
          exact advances.remaining_lt (watches.on.sound _ plan watches.on.present) pending
            denial
      · rcases watches.leaves activity pending live with ⟨outcome, leaves⟩
        exact nomatch leaves.symm.trans onward
    · rintro first polling -
      cases located : rungAt decision.ladder polling.currentRung with
      | none =>
          refine ⟨0, ?_⟩
          intro rung other
          exact nomatch located.symm.trans other
      | some rung =>
          rcases unbounded (activity.deadline polling.rungEnteredAt rung) first with
            ⟨distance, late⟩
          refine ⟨distance, ?_⟩
          intro other same
          cases located.symm.trans same
          exact late
    · exact ⟨plan, watches⟩

end Loop

/-! ## Runs -/

section Runs

variable {platform} {activity} {service next : MemService} {readings : Readings}

/-- The loop starts on the plan that was submitted. -/
theorem watches_of_submitPlan (sound : LaddersSound platform service) {plan : Plan}
    {decision : Decision}
    (returned : submitPlan platform readings (some plan) service = (.ok decision, next))
    (startedAt : Time) :
    ∃ entry, Watches platform decision ⟨next, 0, startedAt⟩ entry ∧
      entry.status = decision.status := by
  have kept := sound.serve (.submitPlan (some plan)) readings
  simp only [serve, returned] at kept
  cases submitPlan_submits returned with
  | stored plan policy canonical next admitted appended =>
      refine ⟨entryOf platform readings policy canonical plan, ⟨⟨kept, ?_, rfl⟩, ?_⟩, rfl⟩
      · rw [evaluate_planID, appendAuditLocked_plans appended]
        exact Function.update_self ..
      · intro _
        rfl

/-- A pending decision is not an automatic approval. -/
theorem autoApproved_eq_false {plan : Plan} {decision : Decision}
    (returned : submitPlan platform readings (some plan) service = (.ok decision, next))
    (pending : decision.status = .pending) : decision.autoApproved = false := by
  cases submitPlan_submits returned with
  | stored plan policy canonical next admitted appended =>
      unfold evaluate at pending ⊢
      split
      · rfl
      · rename_i unmatched
        rw [unmatched] at pending
        cases pending

/-- `Execute` returns exactly when the plan is not left pending on a ladder that goes on
forever. -/
theorem returns_execute_iff (sound : LaddersSound platform service) (input : ActivityInput)
    (startedAt : Time) {ticks : Nat → Tick} (uncancelled : Uncancelled ticks)
    (unbounded : Unbounded ticks) :
    (∃ fuel outcome, execute platform activity input readings startedAt ticks fuel service =
        some outcome) ↔
      ∀ decision next,
        submitPlan platform readings (some input.plan) service = (.ok decision, next) →
        decision.status = .pending → EndsInDenial decision.ladder := by
  by_cases valid : input.proposerKind.isValid
  · generalize returned : submitPlan platform readings (some input.plan) service = submission
    rcases submission with ⟨_ | decision, next⟩
    · simp [execute, valid, returned]
    · by_cases pending : decision.status = .pending
      · have asked := autoApproved_eq_false returned pending
        rcases watches_of_submitPlan sound returned startedAt with ⟨entry, watches, equal⟩
        have loop := watches.returns_iff activity (equal.trans pending) uncancelled
          unbounded 0
        simp only [execute, valid, returned, asked, pending]
        simpa [Returns, pending] using loop
      · simp [execute, valid, returned, pending]
  · have refused : ∀ decision next, submitPlan platform readings (some input.plan) service ≠
        (.ok decision, next) := by
      intro decision next returned
      cases submitPlan_submits returned with
      | stored plan policy canonical next admitted appended => exact valid admitted.proposer
    simp [execute, valid, refused]

/-- After every run: escalating a pending plan at its current rung again and again decides
it, and the activity returns, exactly when the ladder ends in denial. -/
theorem escalation_terminates_iff (platform : Platform) (schedule : List (Call × Readings))
    (final : System) (reached : run (step platform) initialSystem schedule = some final) :
    (∀ id plan, final.service.plans id = some plan → plan.status = .pending →
      ∀ ticks, Returns (escalateCurrent platform id) ticks 0 final.service ↔
        EndsInDenial plan.ladder) ∧
      ∀ (activity : Activity) (input : ActivityInput) (readings : Readings) (startedAt : Time)
        (ticks : Nat → Tick), Uncancelled ticks → Unbounded ticks →
        ((∃ fuel outcome, execute platform activity input readings startedAt ticks fuel
            final.service = some outcome) ↔
          ∀ decision next,
            submitPlan platform readings (some input.plan) final.service =
              (.ok decision, next) →
            decision.status = .pending → EndsInDenial decision.ladder) := by
  have sound := laddersSound_of_run reached
  constructor
  · intro id plan present pending ticks
    exact returns_escalateCurrent_iff ⟨sound, present, rfl⟩ pending ticks 0
  · intro activity input readings startedAt ticks uncancelled unbounded
    exact returns_execute_iff sound input startedAt uncancelled unbounded

end Runs

/-! ## Two ladders -/

/-- A plan of an agent under the policy of two out of three. -/
def afterSubmission (policy : Policy) : List (Call × Readings) :=
  [(.registerPolicy (some policy), ⟨1, 1, 0⟩),
    (.submitPlan (some ⟨5, 2, none, 0, 6, .agent, [], [], 0⟩), ⟨2, 2, 0⟩)]

/-- Its only rung denies. -/
theorem escalation_terminates_iff_twoOfThree :
    ∃ final, run (step plainPlatform) initialSystem (afterSubmission twoOfThree) =
        some final ∧
      ∀ ticks, Returns (escalateCurrent plainPlatform 5) ticks 0 final.service := by
  have both := escalation_terminates_iff plainPlatform (afterSubmission twoOfThree) _ rfl
  refine ⟨_, rfl, ?_⟩
  intro ticks
  refine (both.1 5 _ rfl rfl ticks).mpr ?_
  rintro rung ⟨⟩
  rfl

/-- A policy whose second rung falls back to the first. -/
def pingPong : Policy :=
  { twoOfThree with
    rules := [{
      kind := .agentDefault
      constraints := []
      threshold := none
      ladder := [⟨"leads", 3600, .notifyNext⟩, ⟨"leads", 3600, .fallBack⟩]
      expirySeconds := 14400 }] }

theorem pingPong_endless : ¬ EndsInDenial [⟨"leads", 3600, .notifyNext⟩,
    ⟨"leads", 3600, .fallBack⟩] := by
  intro denial
  exact nomatch denial ⟨"leads", 3600, .fallBack⟩ rfl

/-- A turn of the loop an hour and a minute after the one before. -/
def hourly (index : Nat) : Tick :=
  let now := 3660 * 1000000000 * (index + 1)
  ⟨false, now, ⟨now, now, 0⟩, now, false⟩

theorem hour_lt (bound : Int) (first : Nat) :
    bound < 3660 * 1000000000 * ((first + bound.toNat : Nat) + 1) := by
  omega

theorem unbounded_hourly : Unbounded hourly := by
  intro bound first
  exact ⟨bound.toNat, hour_lt bound first⟩

/-- The policy is valid, the plan is pending, the clocks go forward, and neither the calls
to `Escalate` nor the activity come to an end. -/
theorem pingPong_escalates_forever :
    validate plainPlatform.quote (some pingPong) = none ∧
      (∃ final plan, run (step plainPlatform) initialSystem (afterSubmission pingPong) =
          some final ∧
        final.service.plans 5 = some plan ∧ plan.status = .pending ∧
        ¬ Returns (escalateCurrent plainPlatform 5)
          (fun index => ((hourly index).readings, "sla_breach")) 0 final.service) ∧
      ∃ final, run (step plainPlatform) initialSystem
          [(.registerPolicy (some pingPong), ⟨1, 1, 0⟩)] = some final ∧
        ∀ fuel, execute plainPlatform newActivity ⟨2, none, 6, .agent, []⟩ ⟨2, 2, 5⟩ 2 hourly
          fuel final.service = none := by
  refine ⟨by decide, ⟨_, _, rfl, rfl, rfl, ?_⟩, _, rfl, ?_⟩
  · intro returns
    have reached : run (step plainPlatform) initialSystem (afterSubmission pingPong) =
      some _ := rfl
    have on : On plainPlatform 5 _ _ _ := ⟨laddersSound_of_run reached, rfl, rfl⟩
    exact pingPong_endless ((returns_escalateCurrent_iff on rfl _ 0).mp returns)
  · intro fuel
    have reached : run (step plainPlatform) initialSystem
      [(.registerPolicy (some pingPong), ⟨1, 1, 0⟩)] = some _ := rfl
    by_contra returned
    rcases Option.ne_none_iff_exists'.mp returned with ⟨outcome, returned⟩
    have denial := (returns_execute_iff (laddersSound_of_run reached) _ _ (fun index => ⟨rfl, rfl⟩)
      unbounded_hourly).mp ⟨fuel, outcome, returned⟩
    exact pingPong_endless (denial _ _ rfl rfl)

end GitScale.Approval
