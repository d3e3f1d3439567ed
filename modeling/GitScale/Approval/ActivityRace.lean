import GitScale.Approval.Activity
import GitScale.Approval.AuditTrail
import GitScale.Approval.QuorumReach

/-!
# The approval activity and the approvers

The calls that `Execute` makes to the service are separate steps, and decisions of the
approvers can come between any two of them.  The loop knows that the plan is pending from
its last `GetPlanStatus`; when the deadline has passed it calls `Escalate`, which refuses a
plan that was decided in the meantime.
-/

namespace GitScale.Approval

open Foundation

/-! ## The calls of `Execute` as steps -/

/-- Where `Execute` stands: before `SubmitPlan`, at the top of its loop, before `Escalate`,
or at its end. -/
inductive Stage where
  | submitting
  | polling (decision : Decision) (currentRung : Int) (rungEnteredAt : Time)
  | escalating (decision : Decision) (currentRung : Int) (rungEnteredAt : Time)
  | returned (outcome : Except ActivityError ActivityResult)

/-- The activity and the service that it shares with the approvers. -/
structure Race where
  service : MemService
  stage : Stage

/-- One call with what it reads: of `Execute` (whether the context is done and the clock of
the activity, as in a turn of the loop), or of an approver. -/
inductive Move where
  | submit (readings : Readings) (startedAt : Time)
  | poll (cancelled : Bool) (now : Time) (cancelledAsleep : Bool)
  | escalate (readings : Readings) (entered : Time)
  | recordDecision (input : DecisionInput) (readings : Readings)

section Steps

variable (platform : Platform) (activity : Activity)

/-- From the start of `Execute` to its loop. -/
def submitStage (input : ActivityInput) (readings : Readings) (startedAt : Time)
    (service : MemService) : Race :=
  if ¬ input.proposerKind.isValid then
    ⟨service, .returned (.error (.text ("approval: invalid proposer_kind " ++
      platform.quote input.proposerKind.text)))⟩
  else
    match submitPlan platform readings (some input.plan) service with
    | (.error error, service) =>
        ⟨service, .returned (.error (.wrapped "approval: submit: " error))⟩
    | (.ok decision, service) =>
        if decision.autoApproved ∨ decision.status = .autoApprovedNoRule then
          ⟨service, .returned (.ok ⟨decision.planID, decision.status⟩)⟩
        else if decision.status ≠ .pending then
          ⟨service, .returned (.ok ⟨decision.planID, decision.status⟩)⟩
        else ⟨service, .polling decision 0 startedAt⟩

/-- From the top of the loop to `Escalate`, or once around; only `GetPlanStatus` reads the
service. -/
def pollStage (decision : Decision) (currentRung : Int) (rungEnteredAt : Time)
    (cancelled : Bool) (now : Time) (cancelledAsleep : Bool) (service : MemService) : Stage :=
  if cancelled then .returned (.error (.cancelled ⟨decision.planID, .pending⟩))
  else
    match getPlanStatus decision.planID service with
    | .error error => .returned (.error (.wrapped "approval: poll: " error))
    | .ok status =>
        if status ≠ .pending then .returned (.ok ⟨decision.planID, status⟩)
        else if (decision.ladder.length : Int) ≤ currentRung then
          .returned (.error (.text "approval: ladder exhausted without decision"))
        else
          match rungAt decision.ladder currentRung with
          | none => .returned (.error (.wrapped "" .panicked))
          | some rung =>
              if activity.deadline rungEnteredAt rung < now then
                .escalating decision currentRung rungEnteredAt
              else if cancelledAsleep then
                .returned (.error (.cancelled ⟨decision.planID, .pending⟩))
              else .polling decision currentRung rungEnteredAt

/-- From `Escalate` to the top of the loop. -/
def escalateStage (decision : Decision) (currentRung : Int) (rungEnteredAt : Time)
    (readings : Readings) (entered : Time) (service : MemService) : Race :=
  match escalate platform readings ⟨decision.planID, currentRung, "sla_breach"⟩ service with
  | (.error error, service) =>
      ⟨service, .returned (.error (.wrapped "approval: escalate: " error))⟩
  | (.ok outcome, service) =>
      if outcome.finalRung then ⟨service, .polling decision currentRung rungEnteredAt⟩
      else ⟨service, .polling decision outcome.newRung entered⟩

/-- One call; approvers can call at any time. -/
def raceStep (input : ActivityInput) (race : Race) (move : Move) : Option Race :=
  match move, race.stage with
  | .submit readings startedAt, .submitting =>
      some (submitStage platform input readings startedAt race.service)
  | .poll cancelled now cancelledAsleep, .polling decision currentRung rungEnteredAt =>
      some ⟨race.service, pollStage activity decision currentRung rungEnteredAt cancelled now
        cancelledAsleep race.service⟩
  | .escalate readings entered, .escalating decision currentRung rungEnteredAt =>
      some (escalateStage platform decision currentRung rungEnteredAt readings entered
        race.service)
  | .recordDecision decision readings, _ =>
      some ⟨(recordDecision platform readings decision race.service).2, race.stage⟩
  | _, _ => none

/-- A `GetPlanStatus` and then, if it comes to that, an `Escalate`, with no call in
between. -/
def turn (decision : Decision) (tick : Tick) (polling : Polling) : Race :=
  match pollStage activity decision polling.currentRung polling.rungEnteredAt tick.cancelled
      tick.now tick.cancelledAsleep polling.service with
  | .escalating decision currentRung rungEnteredAt =>
      escalateStage platform decision currentRung rungEnteredAt tick.readings tick.entered
        polling.service
  | stage => ⟨polling.service, stage⟩

/-- The end of a turn as the loop sees it. -/
def Race.outcome (race : Race) : ActivityOutcome ⊕ Polling :=
  match race.stage with
  | .returned outcome => .inl (outcome, race.service)
  | .polling _ currentRung rungEnteredAt => .inr ⟨race.service, currentRung, rungEnteredAt⟩
  | .escalating _ currentRung rungEnteredAt => .inr ⟨race.service, currentRung, rungEnteredAt⟩
  | .submitting => .inr ⟨race.service, 0, 0⟩

/-- A turn that nothing interrupts is a turn of the loop of `Execute`. -/
theorem outcome_turn (decision : Decision) (tick : Tick) (polling : Polling) :
    (turn platform activity decision tick polling).outcome =
      poll platform activity decision tick polling := by
  unfold turn poll pollStage
  by_cases cancelled : tick.cancelled
  · rw [if_pos cancelled, if_pos cancelled]
    rfl
  · rw [if_neg cancelled, if_neg cancelled]
    cases getPlanStatus decision.planID polling.service with
    | error error => rfl
    | ok status =>
        dsimp only
        by_cases decided : status ≠ .pending
        · rw [if_pos decided, if_pos decided]
          rfl
        · rw [if_neg decided, if_neg decided]
          by_cases exhausted : (decision.ladder.length : Int) ≤ polling.currentRung
          · rw [if_pos exhausted, if_pos exhausted]
            rfl
          · rw [if_neg exhausted, if_neg exhausted]
            cases rungAt decision.ladder polling.currentRung with
            | none => rfl
            | some rung =>
                dsimp only
                by_cases late : activity.deadline polling.rungEnteredAt rung < tick.now
                · rw [if_pos late, if_pos late]
                  dsimp only [escalateStage]
                  generalize escalate platform tick.readings _ polling.service = answer
                  rcases answer with ⟨error | outcome, service⟩
                  · rfl
                  · dsimp only
                    split <;> rfl
                · rw [if_neg late, if_neg late]
                  cases tick.cancelledAsleep with
                  | true => rfl
                  | false => rfl

end Steps

/-! ## What a run keeps -/

/-- The context of the activity is not done at this call. -/
def Move.Live : Move → Prop
  | .poll cancelled _ cancelledAsleep => cancelled = false ∧ cancelledAsleep = false
  | _ => True

/-- When the activity calls `Escalate`, the plan is still pending. -/
def EscalatesPending (race : Race) (move : Move) : Prop :=
  match move, race.stage with
  | .escalate _ _, .escalating decision _ _ =>
      getPlanStatus decision.planID race.service = .ok .pending
  | _, _ => True

/-- When `Execute` has returned, it returned no error, and its result carries the status in
which the plan ended. -/
def ReturnsFinalStatus (race : Race) : Prop :=
  match race.stage with
  | .returned (.ok result) =>
      result.status ≠ .pending ∧ getPlanStatus result.planID race.service = .ok result.status
  | .returned (.error _) => False
  | _ => True

/-- `Execute` has returned an error. -/
def Failed (race : Race) : Prop :=
  ∃ error, race.stage = .returned (.error error)

/-- The invariant: the submission will be admitted, the loop watches its plan, the result is
final. -/
def OnCourse (platform : Platform) (input : ActivityInput) (race : Race) : Prop :=
  LaddersSound platform race.service ∧
    match race.stage with
    | .submitting => ∃ policy canonical, Admitted platform race.service input.plan policy canonical
    | .polling decision currentRung rungEnteredAt =>
        ∃ plan, Watches platform decision ⟨race.service, currentRung, rungEnteredAt⟩ plan
    | .escalating decision currentRung rungEnteredAt =>
        ∃ plan, Watches platform decision ⟨race.service, currentRung, rungEnteredAt⟩ plan
    | .returned (.ok result) =>
        result.status ≠ .pending ∧
          getPlanStatus result.planID race.service = .ok result.status
    | .returned (.error _) => False

section Calls

variable {platform : Platform} {activity : Activity} {input : ActivityInput}
  {service : MemService} {decision : Decision} {currentRung : Int} {rungEnteredAt : Time}

theorem onCourse_submitStage (roundTrips : RoundTrips platform.digest)
    (sound : LaddersSound platform service) {policy : Policy} {canonical : Bytes}
    (admitted : Admitted platform service input.plan policy canonical) (readings : Readings)
    (startedAt : Time) :
    OnCourse platform input (submitStage platform input readings startedAt service) := by
  have proposer : ¬ ¬ input.proposerKind.isValid := not_not.mpr admitted.proposer
  unfold submitStage
  rw [if_neg proposer]
  generalize returned : submitPlan platform readings (some input.plan) service = answer
  rcases answer with ⟨error | decision, next⟩
  · exfalso
    cases submitPlan_submits returned with
    | refused plan error unmet notFound => exact unmet _ policy canonical rfl admitted
    | unaudited plan policy canonical message admitted failed =>
        unfold auditSubmission at failed
        rcases appendAuditLocked_ok readings roundTrips _ _ _ _ _ _ _ _ with ⟨next, appended⟩
        cases appended.symm.trans failed
  · have kept := sound.serve (.submitPlan (some input.plan)) readings
    simp only [serve, returned] at kept
    rcases watches_of_submitPlan sound returned startedAt with ⟨entry, watches, status⟩
    have known : getPlanStatus decision.planID next = .ok decision.status :=
      getPlanStatus_eq_ok_iff.mpr ⟨entry, watches.on.present, status⟩
    dsimp only
    split
    · rename_i automatic
      have decided : decision.status ≠ .pending := by
        intro pending
        have asked := autoApproved_eq_false returned pending
        rcases automatic with approved | approved
        · cases asked.symm.trans approved
        · cases pending.symm.trans approved
      exact ⟨kept, decided, known⟩
    · split
      · rename_i decided
        exact ⟨kept, decided, known⟩
      · exact ⟨kept, entry, watches⟩

theorem Watches.pollStage {plan : MemPlan}
    (watches : Watches platform decision ⟨service, currentRung, rungEnteredAt⟩ plan)
    (now : Time) :
    OnCourse platform input ⟨service, Approval.pollStage activity decision currentRung
      rungEnteredAt false now false service⟩ := by
  have on := watches.on
  have status : getPlanStatus decision.planID service = .ok plan.status :=
    getPlanStatus_eq_ok_iff.mpr ⟨plan, on.present, rfl⟩
  unfold Approval.pollStage
  rw [if_neg Bool.false_ne_true, status]
  dsimp only
  by_cases pending : plan.status = .pending
  · have sound := on.sound decision.planID plan on.present
    have tracked : currentRung = plan.currentRung := watches.tracked pending
    rcases sound.located pending with ⟨rung, located⟩
    rcases sound.climbed pending with ⟨index, current, climbed⟩
    have inside := climbed.inside
    rw [on.ladder] at located inside
    have within : ¬ (decision.ladder.length : Int) ≤ currentRung := by omega
    rw [if_neg (not_not.mpr pending), if_neg within, tracked, located]
    dsimp only
    rw [← tracked]
    split
    · exact ⟨on.sound, plan, watches⟩
    · rw [if_neg Bool.false_ne_true]
      exact ⟨on.sound, plan, watches⟩
  · rw [if_pos pending]
    exact ⟨on.sound, pending, status⟩

/-- `Escalate` goes through as long as the plan is pending. -/
theorem Watches.escalateStage {plan : MemPlan}
    (watches : Watches platform decision ⟨service, currentRung, rungEnteredAt⟩ plan)
    (pending : plan.status = .pending) (readings : Readings) (entered : Time) :
    OnCourse platform input (Approval.escalateStage platform decision currentRung
      rungEnteredAt readings entered service) := by
  have tracked : currentRung = plan.currentRung := watches.tracked pending
  rcases watches.on.escalate pending readings "sla_breach" with
    ⟨outcome, next, entry, returned, kept, advances⟩
  unfold Approval.escalateStage
  rw [tracked, returned]
  cases advances with
  | denied rung located ends => exact ⟨kept.sound, _, kept, nofun⟩
  | moved rung target located leads => exact ⟨kept.sound, _, kept, fun _ => rfl⟩

/-- `Escalate` refuses a plan that is decided. -/
theorem failed_escalateStage {plan : MemPlan}
    (present : service.plans decision.planID = some plan) (decided : plan.status ≠ .pending)
    (readings : Readings) (entered : Time) :
    Failed (Approval.escalateStage platform decision currentRung rungEnteredAt readings
      entered service) := by
  unfold Approval.escalateStage escalate
  simp only [present, decided, ne_eq, not_false_eq_true, if_true]
  exact ⟨_, rfl⟩

/-- A decision keeps the ladder and the rung of every plan, and the status of one that is
decided. -/
theorem recordDecision_keeps (platform : Platform) {id : UUID} {plan : MemPlan}
    (present : service.plans id = some plan) (vote : DecisionInput) (readings : Readings) :
    ∃ entry, (recordDecision platform readings vote service).2.plans id = some entry ∧
      entry.ladder = plan.ladder ∧ entry.currentRung = plan.currentRung ∧
      (plan.status ≠ .pending → entry.status = plan.status) := by
  generalize returned : recordDecision platform readings vote service = outcome
  rcases outcome with ⟨result, next⟩
  have untouched : ∃ entry, service.plans id = some entry ∧ entry.ladder = plan.ladder ∧
      entry.currentRung = plan.currentRung ∧
      (plan.status ≠ .pending → entry.status = plan.status) :=
    ⟨plan, present, rfl, rfl, fun _ => rfl⟩
  by_cases same : id = vote.planID
  · subst same
    cases recordDecision_decides returned with
    | refused error other => exact untouched
    | expired found located pending elapsed =>
        cases present.symm.trans located
        refine ⟨{ plan with status := .expired }, ?_, rfl, rfl, fun decided => absurd pending decided⟩
        rw [audited_plans]
        exact Function.update_self ..
    | settled found rung group located admits event recorded =>
        cases present.symm.trans located
        obtain ⟨current, ladder, -, -⟩ := settle_frame plan vote group
        refine ⟨plan.settle vote group, ?_, ladder, current,
          fun decided => absurd admits.pending decided⟩
        rw [audited_plans]
        exact Function.update_self ..
  · cases recordDecision_decides returned with
    | refused error other => exact untouched
    | expired found located pending elapsed =>
        rw [audited_plans]
        simpa only [MemService.setPlan, Function.update_of_ne same] using untouched
    | settled found rung group located admits event recorded =>
        rw [audited_plans]
        simpa only [MemService.setPlan, Function.update_of_ne same] using untouched

theorem Watches.recordDecision {plan : MemPlan}
    (watches : Watches platform decision ⟨service, currentRung, rungEnteredAt⟩ plan)
    (vote : DecisionInput) (readings : Readings) :
    ∃ entry, Watches platform decision
      ⟨(Approval.recordDecision platform readings vote service).2, currentRung, rungEnteredAt⟩
      entry := by
  have kept := watches.on.sound.serve (.recordDecision vote) readings
  rcases recordDecision_keeps platform watches.on.present vote readings with
    ⟨entry, present, ladder, current, final⟩
  refine ⟨entry, ⟨⟨kept, present, ladder.trans watches.on.ladder⟩, ?_⟩⟩
  intro undecided
  have pending : plan.status = .pending := by
    by_contra decided
    exact decided ((final decided).symm.trans undecided)
  exact (watches.tracked pending).trans current.symm

/-- Approvers do not take the activity off its course. -/
theorem OnCourse.recordDecision {stage : Stage}
    (course : OnCourse platform input ⟨service, stage⟩) (vote : DecisionInput)
    (readings : Readings) :
    OnCourse platform input
      ⟨(Approval.recordDecision platform readings vote service).2, stage⟩ := by
  rcases course with ⟨sound, holds⟩
  refine ⟨sound.serve (.recordDecision vote) readings, ?_⟩
  cases stage with
  | submitting =>
      rcases holds with ⟨policy, canonical, admitted⟩
      have policies : (Approval.recordDecision platform readings vote service).2.policies =
          service.policies := serve_policies (.recordDecision vote) readings nofun
      exact ⟨policy, canonical, admitted.proposer,
        (congrFun policies input.plan.orgID).trans admitted.found, admitted.valid,
        admitted.encoded⟩
  | polling decision currentRung rungEnteredAt =>
      rcases holds with ⟨plan, watches⟩
      exact watches.recordDecision vote readings
  | escalating decision currentRung rungEnteredAt =>
      rcases holds with ⟨plan, watches⟩
      exact watches.recordDecision vote readings
  | returned outcome =>
      cases outcome with
      | error error => exact holds
      | ok result =>
          rcases holds with ⟨decided, status⟩
          rcases getPlanStatus_eq_ok_iff.mp status with ⟨plan, present, equal⟩
          rcases recordDecision_keeps platform present vote readings with
            ⟨entry, stored, -, -, final⟩
          refine ⟨decided, getPlanStatus_eq_ok_iff.mpr ⟨entry, stored, ?_⟩⟩
          exact (final (equal ▸ decided)).trans equal

end Calls

/-! ## Runs -/

section Runs

variable {platform : Platform} {activity : Activity} {input : ActivityInput}
  {race next : Race} {move : Move}

theorem OnCourse.not_failed (course : OnCourse platform input race) : ¬ Failed race := by
  rintro ⟨error, returned⟩
  have holds := course.2
  rw [returned] at holds
  exact holds

theorem OnCourse.returnsFinalStatus (course : OnCourse platform input race) :
    ReturnsFinalStatus race := by
  rcases race with ⟨service, stage⟩
  rcases course with ⟨-, holds⟩
  cases stage with
  | submitting => trivial
  | polling decision currentRung rungEnteredAt => trivial
  | escalating decision currentRung rungEnteredAt => trivial
  | returned outcome =>
      cases outcome with
      | error error => exact holds
      | ok result => exact holds

/-- A call on course stays on course, unless it escalates a plan that is decided: then
`Execute` fails. -/
theorem OnCourse.step (roundTrips : RoundTrips platform.digest) (live : move.Live)
    (course : OnCourse platform input race)
    (taken : raceStep platform activity input race move = some next) :
    (EscalatesPending race move → OnCourse platform input next) ∧
      (¬ EscalatesPending race move → Failed next) := by
  rcases race with ⟨service, stage⟩
  cases move with
  | recordDecision vote readings =>
      cases taken
      exact ⟨fun _ => course.recordDecision vote readings, fun unmet => absurd trivial unmet⟩
  | submit readings startedAt =>
      cases stage with
      | submitting =>
          cases taken
          rcases course with ⟨sound, policy, canonical, admitted⟩
          exact ⟨fun _ => onCourse_submitStage roundTrips sound admitted readings startedAt,
            fun unmet => absurd trivial unmet⟩
      | polling | escalating | returned => cases taken
  | poll cancelled now cancelledAsleep =>
      cases stage with
      | polling decision currentRung rungEnteredAt =>
          cases taken
          rcases live with ⟨rfl, rfl⟩
          rcases course with ⟨-, plan, watches⟩
          exact ⟨fun _ => watches.pollStage now, fun unmet => absurd trivial unmet⟩
      | submitting | escalating | returned => cases taken
  | escalate readings entered =>
      cases stage with
      | escalating decision currentRung rungEnteredAt =>
          cases taken
          rcases course with ⟨-, plan, watches⟩
          have present : service.plans decision.planID = some plan := watches.on.present
          have iff_pending : EscalatesPending ⟨service, .escalating decision currentRung
              rungEnteredAt⟩ (.escalate readings entered) ↔ plan.status = .pending := by
            unfold EscalatesPending
            simp only [getPlanStatus_eq_ok_iff, present, Option.some.injEq, exists_eq_left']
          rw [iff_pending]
          exact ⟨fun pending => watches.escalateStage pending readings entered,
            fun decided => failed_escalateStage present decided readings entered⟩
      | submitting | polling | returned => cases taken

/-- An activity that has failed stays so. -/
theorem Failed.step (failed : Failed race)
    (taken : raceStep platform activity input race move = some next) : Failed next := by
  rcases race with ⟨service, stage⟩
  rcases failed with ⟨error, returned⟩
  cases returned
  cases move with
  | recordDecision vote readings =>
      cases taken
      exact ⟨error, rfl⟩
  | submit | poll | escalate => cases taken

/-- In every run of the service and then of one `Execute` with a registered, valid policy
and a valid proposer among decisions of approvers: `Execute` has returned no error, and its
result carries the final status of the plan, if and only if it called `Escalate` only while
the plan was still pending. -/
theorem returnsFinalStatus_iff (platform : Platform) (roundTrips : RoundTrips platform.digest)
    (activity : Activity) (input : ActivityInput) (proposer : input.proposerKind.isValid)
    (canonical : Bytes) (encoded : platform.canonicalActionsJSON input.actions = .ok canonical)
    (past : List (Call × Readings)) (system : System)
    (reached : run (Approval.step platform) initialSystem past = some system) (policy : Policy)
    (registered : system.service.policies input.orgID = some policy)
    (valid : validate platform.quote (some policy) = none) (moves : List Move)
    (live : ∀ move ∈ moves, move.Live) (final : Race)
    (completed : run (raceStep platform activity input) ⟨system.service, .submitting⟩ moves =
      some final) :
    ReturnsFinalStatus final ↔
      Meets (raceStep platform activity input) EscalatesPending
        ⟨system.service, .submitting⟩ moves := by
  have start : OnCourse platform input ⟨system.service, .submitting⟩ :=
    ⟨laddersSound_of_run reached, policy, canonical, proposer, registered, valid, encoded⟩
  have alive : Meets (raceStep platform activity input) (fun _ move => move.Live)
      ⟨system.service, .submitting⟩ moves := meets_of_forall moves _ live
  have preserved : ∀ race (move : Move) next, move.Live →
      OnCourse platform input race ∨ Failed race →
      raceStep platform activity input race move = some next →
      OnCourse platform input next ∨ Failed next := by
    intro race move next live holds taken
    rcases holds with course | failed
    · by_cases guarded : EscalatesPending race move
      · exact Or.inl ((course.step roundTrips live taken).1 guarded)
      · exact Or.inr ((course.step roundTrips live taken).2 guarded)
    · exact Or.inr (failed.step taken)
  have either := invariant_of_meets preserved moves _ final alive (Or.inl start) completed
  have same : ReturnsFinalStatus final ↔ OnCourse platform input final := by
    constructor
    · intro faithful
      rcases either with course | ⟨error, returned⟩
      · exact course
      · unfold ReturnsFinalStatus at faithful
        rw [returned] at faithful
        exact faithful.elim
    · exact OnCourse.returnsFinalStatus
  rw [same]
  exact meets_iff_of_doomed
    (fun _ _ _ live guarded course taken => (course.step roundTrips live taken).1 guarded)
    (fun _ _ _ live unmet course taken => (course.step roundTrips live taken).2 unmet)
    (fun _ _ _ _ failed taken => failed.step taken) (fun _ course => course.not_failed)
    moves _ final alive start completed

end Runs

/-! ## An approval before the escalation -/

/-- The policy of two out of three is registered. -/
def twoOfThreeRegistered : List (Call × Readings) :=
  [(.registerPolicy (some twoOfThree), ⟨1, 1, 0⟩)]

def afterRegistered : System :=
  (run (step plainPlatform) initialSystem twoOfThreeRegistered).getD initialSystem

/-- A plan of an agent. -/
def agentInput : ActivityInput := ⟨2, none, 6, .agent, []⟩

/-- The moves of an activity that finds its plan pending after the deadline, with the given
moves of others before it escalates. -/
def lateEscalation (between : List Move) : List Move :=
  [.submit ⟨2, 2, 5⟩ 2, .poll false (4000 * 1000000000) false] ++ between ++
    [.escalate ⟨3, 3, 0⟩ 3]

theorem returnsFinalStatus_iff_denied :
    ∃ final, run (raceStep plainPlatform newActivity agentInput)
        ⟨afterRegistered.service, .submitting⟩
        (lateEscalation [] ++ [.poll false 4 false]) = some final ∧
      final.stage = .returned (.ok ⟨5, .autoDenied⟩) ∧ ReturnsFinalStatus final := by
  refine ⟨_, rfl, rfl, ?_⟩
  refine (returnsFinalStatus_iff plainPlatform (fun payload => ⟨_, rfl⟩) newActivity agentInput
    rfl _ rfl twoOfThreeRegistered afterRegistered rfl twoOfThree rfl (by decide)
    (lateEscalation [] ++ [.poll false 4 false]) ?_ _ rfl).mpr ?_
  · intro move member
    simp only [lateEscalation, List.append_nil, List.cons_append, List.nil_append,
      List.mem_cons, List.not_mem_nil, or_false] at member
    rcases member with rfl | rfl | rfl | rfl
    all_goals simp [Move.Live]
  · refine ⟨trivial, ?_⟩
    rintro _ ⟨⟩
    refine ⟨trivial, ?_⟩
    rintro _ ⟨⟩
    refine ⟨rfl, ?_⟩
    rintro _ ⟨⟩
    exact ⟨trivial, fun _ _ => trivial⟩

/-- Two members approve after the plan was found pending; the activity fails although its
plan is approved. -/
theorem approved_escalation_fails :
    validate plainPlatform.quote (some twoOfThree) = none ∧
      agentInput.proposerKind.isValid ∧
      ∃ final, run (raceStep plainPlatform newActivity agentInput)
          ⟨afterRegistered.service, .submitting⟩
          (lateEscalation [.recordDecision ⟨5, 11, true, "", 0⟩ ⟨3, 3, 0⟩,
            .recordDecision ⟨5, 12, true, "", 0⟩ ⟨3, 3, 0⟩]) = some final ∧
        getPlanStatus 5 final.service = .ok .approved ∧
        final.stage = .returned (.error (.wrapped "approval: escalate: "
          (.api .planAlreadyDecided "status=approved"))) ∧
        ¬ ReturnsFinalStatus final :=
  ⟨by decide, rfl, _, rfl, rfl, rfl, id⟩

end GitScale.Approval
