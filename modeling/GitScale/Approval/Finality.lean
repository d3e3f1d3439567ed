import GitScale.Approval.Calls

/-!
# Finality of decisions

`RecordDecision` and `Escalate` refuse a plan that is no longer pending.  `SubmitPlan`
writes its entry under the identifier that the caller gives, whatever is stored there.
-/

namespace GitScale.Approval

open Foundation

/-- Every plan that `GetPlanStatus` reports as decided keeps its status. -/
def KeepsDecided (earlier later : System) : Prop :=
  ∀ id status, getPlanStatus id earlier.service = .ok status → status ≠ .pending →
    getPlanStatus id later.service = .ok status

theorem getPlanStatus_eq_ok_iff {service : MemService} {id : UUID} {status : PlanStatus} :
    getPlanStatus id service = .ok status ↔
      ∃ plan, service.plans id = some plan ∧ plan.status = status := by
  unfold getPlanStatus
  cases service.plans id with
  | none => simp
  | some plan => simp

theorem KeepsDecided.refl (system : System) : KeepsDecided system system :=
  fun _ _ known _ => known

theorem KeepsDecided.trans (first second third : System) (early : KeepsDecided first second)
    (late : KeepsDecided second third) : KeepsDecided first third :=
  fun id status known decided => late id status (early id status known decided) decided

/-! ## One call -/

section Step

variable {earlier later : System}

theorem keepsDecided_of_same (same : later.service.plans = earlier.service.plans) :
    KeepsDecided earlier later := by
  intro id status known _
  rw [getPlanStatus_eq_ok_iff] at known ⊢
  rw [same]
  exact known

/-- A call that writes one entry keeps what is decided if and only if a decided entry in
that place had the same status. -/
theorem keepsDecided_update_iff {id : UUID} {entry : MemPlan}
    (written : later.service.plans =
      Function.update earlier.service.plans id (some entry)) :
    KeepsDecided earlier later ↔ ∀ old, earlier.service.plans id = some old →
      old.status ≠ .pending → entry.status = old.status := by
  constructor
  · intro keeps old present decided
    have kept := keeps id old.status (getPlanStatus_eq_ok_iff.mpr ⟨old, present, rfl⟩) decided
    rcases getPlanStatus_eq_ok_iff.mp kept with ⟨plan, found, status⟩
    rw [written, Function.update_self] at found
    cases found
    exact status
  · intro agrees other status known decided
    rcases getPlanStatus_eq_ok_iff.mp known with ⟨old, present, rfl⟩
    apply getPlanStatus_eq_ok_iff.mpr
    by_cases same : other = id
    · rw [same] at present ⊢
      exact ⟨entry, by rw [written, Function.update_self], agrees old present decided⟩
    · exact ⟨old, by rw [written, Function.update_of_ne same, present], rfl⟩

theorem keepsDecided_of_pending {id : UUID} {plan entry : MemPlan}
    (present : earlier.service.plans id = some plan) (pending : plan.status = .pending)
    (written : later.service.plans =
      Function.update earlier.service.plans id (some entry)) :
    KeepsDecided earlier later := by
  rw [keepsDecided_update_iff written]
  intro old found decided
  cases present.symm.trans found
  exact absurd pending decided

end Step

/-- No rule of the policy matches the plan. -/
def NoRuleMatches (platform : Platform) (policy : Policy) (plan : Plan) : Prop :=
  ∀ rule ∈ policy.rules,
    matchRule platform.pathMatch rule plan.actions plan.proposerKind = false

theorem noRuleMatches_iff {platform : Platform} {policy : Policy} {plan : Plan} :
    NoRuleMatches platform policy plan ↔
      (policy.rules.zipIdx.find? fun entry =>
        matchRule platform.pathMatch entry.1 plan.actions plan.proposerKind) = none := by
  rw [List.find?_eq_none]
  constructor
  · intro unmatched entry member
    have listed : entry.1 ∈ policy.rules :=
      List.mem_of_getElem? (List.mem_zipIdx_iff_getElem?.mp member)
    simp [unmatched entry.1 listed]
  · intro unmatched rule member
    rcases List.mem_iff_getElem?.mp member with ⟨index, located⟩
    simpa using unmatched (rule, index) (List.mem_zipIdx_iff_getElem?.mpr located)

theorem evaluate_status_eq_iff {platform : Platform} {policy : Policy} {plan : Plan}
    {status : PlanStatus} (decided : status ≠ .pending) :
    (evaluate platform policy plan).status = status ↔
      status = .autoApprovedNoRule ∧ NoRuleMatches platform policy plan := by
  unfold evaluate
  split
  · rename_i rule index found
    have matched : ¬ NoRuleMatches platform policy plan := by
      rw [noRuleMatches_iff, found]
      simp
    exact iff_of_false (fun equal => decided equal.symm) fun both => matched both.2
  · rename_i unmatched
    rw [← noRuleMatches_iff] at unmatched
    constructor
    · intro equal
      exact ⟨equal.symm, unmatched⟩
    · intro both
      exact both.1.symm

theorem entryOf_status (platform : Platform) (readings : Readings) (policy : Policy)
    (canonical : Bytes) (plan : Plan) :
    (entryOf platform readings policy canonical plan).status =
      (evaluate platform policy plan).status := by
  simp only [entryOf, submittedPlan, evaluate, stampedPlan]
  split <;> rfl

/-- The call does not submit a plan under the identifier of a decided one, unless that one
was admitted for want of a matching rule and so is the new one. -/
def ReopensNothing (platform : Platform) (system : System) (label : Call × Readings) :
    Prop :=
  match label.1 with
  | .submitPlan (some plan) =>
      ∀ policy canonical old, Admitted platform system.service plan policy canonical →
        system.service.plans (storedID label.2 plan) = some old → old.status ≠ .pending →
        old.status = .autoApprovedNoRule ∧ NoRuleMatches platform policy plan
  | _ => True

theorem submitPlan_keepsDecided_iff {platform : Platform} {readings : Readings}
    {earlier later : System} {plan : Option Plan} {result : Except ServiceError Decision}
    (returned : submitPlan platform readings plan earlier.service =
      (result, later.service)) :
    KeepsDecided earlier later ↔
      ReopensNothing platform earlier (.submitPlan plan, readings) := by
  -- the entry decides; the audit append only decides what the caller is told
  have stores : ∀ {given policy canonical},
      Admitted platform earlier.service given policy canonical →
      later.service.plans = Function.update earlier.service.plans (storedID readings given)
        (some (entryOf platform readings policy canonical given)) →
      (KeepsDecided earlier later ↔
        ReopensNothing platform earlier (.submitPlan (some given), readings)) := by
    intro given policy canonical admitted written
    rw [keepsDecided_update_iff written, entryOf_status]
    constructor
    · intro agrees other _ old admitted' present decided
      cases admitted.found.symm.trans admitted'.found
      exact (evaluate_status_eq_iff decided).mp (agrees old present decided)
    · intro reopens old present decided
      exact (evaluate_status_eq_iff decided).mpr
        (reopens policy canonical old admitted present decided)
  generalize after : later.service = next at returned stores
  cases submitPlan_submits returned with
  | refused plan error unmet notFound =>
      refine iff_of_true (keepsDecided_of_same (congrArg MemService.plans after)) ?_
      cases plan with
      | none => trivial
      | some given =>
          intro policy canonical old admitted
          exact absurd admitted (unmet given policy canonical rfl)
  | unaudited given policy canonical message admitted _ => exact stores admitted rfl
  | stored given policy canonical next admitted appended =>
      exact stores admitted (appendAuditLocked_plans appended)

/-- One call keeps what is decided if and only if it reopens nothing. -/
theorem keepsDecided_step_iff {platform : Platform} {earlier later : System}
    {label : Call × Readings} (taken : step platform earlier label = some later) :
    KeepsDecided earlier later ↔ ReopensNothing platform earlier label := by
  rcases label with ⟨call, readings⟩
  cases taken
  cases call with
  | registerPolicy policy =>
      refine iff_of_true (keepsDecided_of_same ?_) trivial
      simp only [serve, registerPolicy]
      split <;> rfl
  | submitPlan plan =>
      exact submitPlan_keepsDecided_iff (Prod.mk.eta (p := submitPlan platform readings plan
        earlier.service)).symm
  | recordDecision input =>
      refine iff_of_true ?_ trivial
      generalize returned : recordDecision platform readings input earlier.service = outcome
      rcases outcome with ⟨result, next⟩
      simp only [serve, returned]
      cases recordDecision_decides returned with
      | refused error other => exact keepsDecided_of_same rfl
      | expired plan present pending elapsed =>
          exact keepsDecided_of_pending present pending (audited_plans ..)
      | settled plan rung group present admits event recorded =>
          exact keepsDecided_of_pending present admits.pending (audited_plans ..)
  | escalate input =>
      refine iff_of_true ?_ trivial
      generalize returned : escalate platform readings input earlier.service = outcome
      rcases outcome with ⟨result, next⟩
      simp only [serve, returned]
      cases escalate_escalates returned with
      | refused error unmet => exact keepsDecided_of_same rfl
      | ignored plan rung text ready unknown => exact keepsDecided_of_same rfl
      | denied plan rung payload ready ends =>
          exact keepsDecided_of_pending ready.present ready.pending (audited_plans ..)
      | moved plan rung target payload ready leads =>
          exact keepsDecided_of_pending ready.present ready.pending (audited_plans ..)

/-! ## Runs -/

/-- In a run of the service decisions are final if and only if no submission reopens a
decided plan. -/
theorem decisionsFinal_iff_reopensNothing (platform : Platform)
    (schedule : List (Call × Readings)) :
    Onward (step platform) KeepsDecided initialSystem schedule ↔
      Meets (step platform) (ReopensNothing platform) initialSystem schedule :=
  onward_iff_meets KeepsDecided.refl KeepsDecided.trans
    (fun _ _ _ taken => keepsDecided_step_iff taken) (fun _ _ disabled => nomatch disabled)
    schedule initialSystem

/-- An approved plan is submitted again under its identifier. -/
def resubmission : List (Call × Readings) :=
  [(.registerPolicy (some twoOfThree), ⟨1, 1, 0⟩),
    (.submitPlan (some ⟨5, 2, none, 0, 6, .agent, [], [], 0⟩), ⟨2, 2, 0⟩),
    (.recordDecision ⟨5, 11, true, "", 0⟩, ⟨3, 3, 0⟩),
    (.recordDecision ⟨5, 12, true, "", 0⟩, ⟨4, 4, 0⟩),
    (.submitPlan (some ⟨5, 2, none, 0, 6, .agent, [], [], 0⟩), ⟨5, 5, 0⟩)]

theorem decisionReopened_resubmission :
    ¬ Onward (step plainPlatform) KeepsDecided initialSystem resubmission := by
  intro final
  have kept := final (resubmission.take 4) (resubmission.drop 4) [] _ _ rfl rfl rfl 5 .approved
    rfl (by decide)
  cases kept

end GitScale.Approval
