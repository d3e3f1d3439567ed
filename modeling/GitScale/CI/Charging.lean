import GitScale.CI.Teardown
import GitScale.Go.Float64

/-!
# What a job is charged for

The emission derives the metrics of a `ci.job_completed` event from the result that the workflow
has.  A run that fails, or whose end the workflow does not get, leaves it with the zero result, so
what the job consumed is not charged.
-/

namespace GitScale.CI

open Foundation Go

/-! ## Metrics -/

/-- The metrics of a `ci.job_completed` event. -/
structure Metrics where
  vcpuSeconds : Float64
  memoryMBSeconds : Float64
  egressKB : Int64
  deriving DecidableEq

/-- The seconds of a run. -/
def JobResult.durationSec (result : JobResult) : Float64 :=
  (Float64.ofInt64 result.durationMS).divConst 1000

/-- The metrics that are derived from a result. -/
def JobResult.metrics (result : JobResult) : Metrics where
  vcpuSeconds := result.durationSec
  memoryMBSeconds :=
    ((Float64.ofInt64 result.peakMemoryKB).divConst 1024).mul result.durationSec
  egressKB := result.bytesEgressed / 1024

/-- `CIJobCompletedInput`, the content of a `ci.job_completed` event. -/
structure CIJobCompletedInput where
  jobID : UUID
  principalID : UUID
  principalKind : String
  orgID : UUID
  repoID : UUID
  tier : String
  metrics : Metrics
  exitCode : Int
  deriving DecidableEq

/-- `EmitUsageEventActivity.Execute`: what it passes to `RecordCIJobCompleted`. -/
def emitUsageEvent (usage : UsageInput) : CIJobCompletedInput where
  jobID := usage.jobID
  principalID := usage.principalID
  principalKind := usage.principalKind
  orgID := usage.orgID
  repoID := usage.repoID
  tier := usage.tier
  metrics := usage.result.metrics
  exitCode := usage.result.exitCode

/-- The events that were recorded for the job. -/
def Job.recorded (job : Job) : List CIJobCompletedInput := job.emitted.map emitUsageEvent

/-! ## Runs of a job -/

/-- The single attempt of `RunJob`: what `Run` returns, and how the attempt ends for the
workflow. -/
structure RunAttempt where
  result : JobResult
  error : Option String
  fate : Fate
  deriving DecidableEq

/-- What the workflow meets. -/
def RunAttempt.answer (attempt : RunAttempt) : Except String JobResult :=
  match attempt.fate with
  | .timedOut => .error "activity StartToClose timeout"
  | .cancelled => .error "canceled"
  | .recorded =>
      match attempt.error with
      | some message => .error message
      | none => .ok attempt.result

/-- `Run` returned no error, and the workflow got its result. -/
def RunAttempt.Delivered (attempt : RunAttempt) : Prop :=
  attempt.error = none ∧ attempt.fate = .recorded

/-- Nothing was consumed that an event could show. -/
structure JobResult.Idle (result : JobResult) : Prop where
  durationMS : result.durationMS = 0
  peakMemoryKB : 0 ≤ result.peakMemoryKB.toInt
  sent : result.bytesEgressed.toInt < 1024
  received : -1024 < result.bytesEgressed.toInt

/-! ## Metrics of the zero result -/

theorem metrics_exitCode (result : JobResult) (exitCode : Int) :
    { result with exitCode := exitCode }.metrics = result.metrics := rfl

theorem divConst_zero (divisor : Nat) :
    (Float64.ofInt64 0).divConst divisor = Float64.zero := by
  have none : (Float64.ofInt64 0).bits = 0 := by simp [Float64.ofInt64, nearest_zero]
  rw [Float64.divConst, none, magnitude_zero, zero_div, nearest_zero]
  rfl

theorem memory_of_durationMS_zero {result : JobResult} (stopped : result.durationMS = 0) :
    result.metrics.memoryMBSeconds = ⟨decide (result.peakMemoryKB < 0), 0⟩ := by
  have duration : result.durationSec = Float64.zero := by
    rw [JobResult.durationSec, stopped, divConst_zero]
  simp [JobResult.metrics, duration, Float64.mul, Float64.zero, Float64.divConst, Float64.ofInt64,
    magnitude_zero, nearest_zero]

theorem durationSec_eq_zero_iff (result : JobResult) :
    result.durationSec = Float64.zero ↔ result.durationMS = 0 := by
  constructor
  · intro stopped
    exact (Float64.divConst_ofInt64_bits_eq_zero_iff (by norm_num) (by norm_num)).mp
      (congrArg Float64.bits stopped)
  · intro stopped
    rw [JobResult.durationSec, stopped, divConst_zero]

theorem egressKB_eq_zero_iff (result : JobResult) :
    result.metrics.egressKB = 0 ↔
      result.bytesEgressed.toInt < 1024 ∧ -1024 < result.bytesEgressed.toInt := by
  have kilobytes : result.metrics.egressKB.toInt = result.bytesEgressed.toInt.tdiv 1024 := by
    change (result.bytesEgressed / 1024).toInt = _
    rw [Int64.toInt_div_of_ne_right _ _ (by decide)]
    rfl
  rw [← Int64.toInt_inj, kilobytes]
  change result.bytesEgressed.toInt.tdiv 1024 = 0 ↔ _
  rcases Int.le_total 0 result.bytesEgressed.toInt with nonnegative | nonpositive
  · rw [Int.tdiv_eq_ediv_of_nonneg nonnegative]
    omega
  · rw [← Int.neg_neg result.bytesEgressed.toInt, Int.neg_tdiv,
      Int.tdiv_eq_ediv_of_nonneg (by omega)]
    omega

/-- A result has the metrics of the zero result exactly if nothing was consumed. -/
theorem metrics_eq_zero_iff (result : JobResult) :
    result.metrics = ⟨Float64.zero, Float64.zero, 0⟩ ↔ result.Idle := by
  have sign : decide (result.peakMemoryKB < 0) = false ↔ 0 ≤ result.peakMemoryKB.toInt := by
    rw [decide_eq_false_iff_not, Int64.lt_iff_toInt_lt, not_lt]
    rfl
  constructor
  · intro same
    have stopped := (durationSec_eq_zero_iff result).mp (congrArg Metrics.vcpuSeconds same)
    have memory := congrArg Metrics.memoryMBSeconds same
    rw [memory_of_durationMS_zero stopped] at memory
    have egress := (egressKB_eq_zero_iff result).mp (congrArg Metrics.egressKB same)
    exact ⟨stopped, sign.mp (congrArg Float64.negative memory), egress.1, egress.2⟩
  · intro idle
    have memory := memory_of_durationMS_zero idle.durationMS
    rw [sign.mpr idle.peakMemoryKB] at memory
    have duration := (durationSec_eq_zero_iff result).mpr idle.durationMS
    have egress := (egressKB_eq_zero_iff result).mpr ⟨idle.sent, idle.received⟩
    change (⟨result.durationSec, result.metrics.memoryMBSeconds, result.metrics.egressKB⟩ : Metrics) = _
    rw [memory, duration, egress]
    rfl

theorem metrics_zero : JobResult.zero.metrics = ⟨Float64.zero, Float64.zero, 0⟩ :=
  (metrics_eq_zero_iff JobResult.zero).mpr ⟨rfl, by decide, by decide, by decide⟩

/-! ## Whole runs -/

/-- The result that the workflow has after a run. -/
def RunAttempt.kept (attempt : RunAttempt) : JobResult :=
  match attempt.answer with
  | .ok result => result
  | .error _ => .zero

/-- It has the metrics of what `Run` returned exactly if that was delivered, or is nothing. -/
theorem kept_metrics_iff (attempt : RunAttempt) :
    attempt.kept.metrics = attempt.result.metrics ↔
      attempt.Delivered ∨ attempt.result.Idle := by
  by_cases delivered : attempt.Delivered
  · have answer : attempt.answer = .ok attempt.result := by
      rw [RunAttempt.answer, delivered.2, delivered.1]
    simp [RunAttempt.kept, answer, delivered]
  · have lost : attempt.kept = .zero := by
      unfold RunAttempt.kept RunAttempt.answer
      cases fate : attempt.fate with
      | timedOut => rfl
      | cancelled => rfl
      | recorded =>
          cases error : attempt.error with
          | some message => rfl
          | none => exact absurd ⟨error, fate⟩ delivered
    rw [lost, metrics_zero, eq_comm, metrics_eq_zero_iff]
    simp [delivered]

/-- The job is beyond its run, its result has these metrics, and so has all that was emitted. -/
structure Settled (metrics : Metrics) (job : Job) : Prop where
  beyond : (∃ attempts, job.phase = .tearingDown attempts) ∨
    (∃ attempts, job.phase = .emitting attempts) ∨ job.phase = .finished
  result : job.result.metrics = metrics
  emitted : ∀ usage ∈ job.emitted, usage.result.metrics = metrics

/-- Before the end of the run nothing is emitted. -/
def Unsettled (job : Job) : Prop :=
  ((∃ attempts, job.phase = .booting attempts) ∨ job.phase = .running) → job.emitted = []

variable (input : CIJobInput)

theorem retryBoot_emitted (job : Job) (attempts : Nat) :
    (job.retryBoot input attempts).emitted = job.emitted := by
  unfold Job.retryBoot
  split <;> rfl

theorem boot_emitted (job : Job) (attempts : Nat) (attempt : BootAttempt) :
    (job.boot input attempts attempt).emitted = job.emitted := by
  unfold Job.boot
  cases attempt.fate with
  | timedOut => exact retryBoot_emitted input _ attempts
  | cancelled => rfl
  | recorded =>
      simp only
      split
      · rfl
      · split
        · rfl
        · exact retryBoot_emitted input _ attempts

/-- What a teardown does with the result and the emissions. -/
theorem teardown_spec (job : Job) (attempts : Nat) (attempt : TeardownAttempt) :
    ((∃ others, (job.teardown attempts attempt).phase = .tearingDown others) ∨
        ∃ others, (job.teardown attempts attempt).phase = .emitting others) ∧
      (job.teardown attempts attempt).result.metrics = job.result.metrics ∧
      (job.teardown attempts attempt).emitted = job.emitted := by
  obtain ⟨others, passed⟩ : ∃ tornDown, (if attempt.reached then
      { job with tornDown := job.tornDown ++ (teardownVM job.handle.id attempt.answer).2 }
      else job) = { job with tornDown := tornDown } := by
    split
    · exact ⟨_, rfl⟩
    · exact ⟨_, rfl⟩
  unfold Job.teardown
  simp only [passed]
  split
  · refine ⟨.inr ⟨0, rfl⟩, ?_, rfl⟩
    simp only
    split
    · exact metrics_exitCode job.result (-2)
    · rfl
  · exact ⟨.inl ⟨_, rfl⟩, rfl, rfl⟩

theorem unsettled_start : Unsettled (start input) := fun _ => rfl

theorem unsettled_step {job next : Job} {event : Event} (unsettled : Unsettled job)
    (taken : step input job event = some next) : Unsettled next := by
  unfold step at taken
  split at taken
  · next attempts attempt booting =>
      cases taken
      intro _
      rw [boot_emitted]
      exact unsettled (.inl ⟨attempts, booting⟩)
  · cases taken
    simp [Unsettled]
  · next answer running =>
      cases taken
      unfold Unsettled Job.ran
      split <;> simp
  · next attempts attempt tearing =>
      cases taken
      obtain ⟨⟨_, phase⟩ | ⟨_, phase⟩, -⟩ := teardown_spec job attempts attempt <;>
        simp [Unsettled, phase]
  · next attempts error emitting =>
      cases taken
      unfold Unsettled Job.emit
      split
      · simp
      · split <;> simp
  all_goals first | (cases taken; exact unsettled) | cases taken

/-- The end of the run leaves the job with what was kept of the result. -/
theorem settled_ran {job : Job} (running : job.phase = .running) (unsettled : Unsettled job)
    (attempt : RunAttempt) : Settled attempt.kept.metrics (job.ran attempt.answer) := by
  have empty : job.emitted = [] := unsettled (.inr running)
  unfold RunAttempt.kept Job.ran runJob
  cases attempt.answer with
  | ok result => exact ⟨.inl ⟨0, rfl⟩, rfl, by simp [empty]⟩
  | error message => exact ⟨.inl ⟨0, rfl⟩, rfl, by simp [empty]⟩

/-- Later steps keep the metrics. -/
theorem settled_step {metrics : Metrics} {job next : Job} {event : Event}
    (settled : Settled metrics job) (taken : step input job event = some next) :
    Settled metrics next := by
  unfold step at taken
  split at taken
  · next booting =>
      rcases settled.beyond with ⟨_, phase⟩ | ⟨_, phase⟩ | phase <;>
        simp [booting] at phase
  · next booting =>
      rcases settled.beyond with ⟨_, phase⟩ | ⟨_, phase⟩ | phase <;>
        simp [booting] at phase
  · next running =>
      rcases settled.beyond with ⟨_, phase⟩ | ⟨_, phase⟩ | phase <;>
        simp [running] at phase
  · next attempts attempt tearing =>
      cases taken
      obtain ⟨phase, result, emitted⟩ := teardown_spec job attempts attempt
      refine ⟨phase.imp_right .inl, result.trans settled.result, ?_⟩
      rw [emitted]
      exact settled.emitted
  · next attempts error emitting =>
      cases taken
      unfold Job.emit
      split
      · refine ⟨.inr (.inr rfl), settled.result, ?_⟩
        intro usage member
        rcases List.mem_append.mp member with earlier | here
        · exact settled.emitted usage earlier
        · rw [List.mem_singleton.mp here]
          exact settled.result
      · split
        · exact ⟨.inr (.inl ⟨_, rfl⟩), settled.result, settled.emitted⟩
        · exact ⟨.inr (.inr rfl), settled.result, settled.emitted⟩
  all_goals first
    | (cases taken; exact ⟨settled.beyond, settled.result, settled.emitted⟩)
    | cases taken

theorem settled_of_run {schedule : List Event} {final : Job} {attempt : RunAttempt}
    (completed : run (step input) (start input) schedule = some final)
    (ran : .run attempt.answer ∈ schedule) : Settled attempt.kept.metrics final := by
  obtain ⟨front, rest, rfl⟩ := List.append_of_mem ran
  obtain ⟨reached, before, completed⟩ := run_append_iff.mp completed
  obtain ⟨next, taken, completed⟩ := run_cons_iff.mp completed
  have unsettled : Unsettled reached :=
    invariant_of_run (fun _ _ _ => unsettled_step input) front _ _ (unsettled_start input) before
  have settled : Settled attempt.kept.metrics next := by
    unfold step at taken
    cases phase : reached.phase with
    | running =>
        rw [phase] at taken
        cases taken
        exact settled_ran phase unsettled attempt
    | booting | tearingDown | emitting | finished =>
        rw [phase] at taken
        cases taken
  exact invariant_of_run (fun _ _ _ => settled_step input) rest _ _ settled completed

/-- Every event that is recorded for a job has the metrics of what `Run` returned exactly if the
run did not fail and its end got to the workflow, or there is nothing to charge. -/
theorem recorded_metrics_iff {schedule : List Event} {final : Job} {attempt : RunAttempt}
    (completed : run (step input) (start input) schedule = some final)
    (ran : .run attempt.answer ∈ schedule) :
    ∀ event ∈ final.recorded, event.metrics = attempt.result.metrics ↔
      attempt.Delivered ∨ attempt.result.Idle := by
  intro event member
  obtain ⟨usage, emitted, rfl⟩ := List.mem_map.mp member
  have settled := settled_of_run input completed ran
  have metrics : (emitUsageEvent usage).metrics = attempt.kept.metrics :=
    settled.emitted usage emitted
  rw [metrics, kept_metrics_iff]

/-- `Run` returns after a minute and two kilobytes. -/
def minuteRun (error : Option String) : RunAttempt :=
  ⟨⟨0, 60000, 0, 2048, 1024, ""⟩, error, .recorded⟩

def minuteSchedule (error : Option String) : List Event :=
  [.boot (allocating "vm-1" .recorded), .run (minuteRun error).answer,
    .teardown ⟨true, .done, true⟩, .emit none]

theorem recorded_metrics_iff_minute :
    ∃ final event, run (step agentJob) (start agentJob) (minuteSchedule none) = some final ∧
      event ∈ final.recorded ∧ event.metrics = (minuteRun none).result.metrics := by
  have outcome : (run (step agentJob) (start agentJob) (minuteSchedule none)).map
      (fun job => job.emitted.length) = some 1 := by
    decide
  cases reached : run (step agentJob) (start agentJob) (minuteSchedule none) with
  | none => simp [reached] at outcome
  | some final =>
      simp only [reached, Option.map_some, Option.some.injEq] at outcome
      obtain ⟨usage, single⟩ := List.length_eq_one_iff.mp outcome
      have member : emitUsageEvent usage ∈ final.recorded := by simp [Job.recorded, single]
      have exactly := recorded_metrics_iff agentJob reached (.tail _ (.head _)) _ member
      exact ⟨final, _, rfl, member, exactly.mpr (.inl ⟨rfl, rfl⟩)⟩

/-- With an error the same run is charged as if nothing had been consumed. -/
theorem failed_minute_uncharged :
    ¬ ∀ (input : CIJobInput) (schedule : List Event) (final : Job) (attempt : RunAttempt),
      run (step input) (start input) schedule = some final →
      .run attempt.answer ∈ schedule →
      ∀ event ∈ final.recorded, event.metrics = attempt.result.metrics := by
  intro always
  have outcome : (run (step agentJob) (start agentJob) (minuteSchedule (some "vsock"))).map
      (fun job => job.emitted.length) = some 1 := by
    decide
  cases reached : run (step agentJob) (start agentJob) (minuteSchedule (some "vsock")) with
  | none => simp [reached] at outcome
  | some final =>
      simp only [reached, Option.map_some, Option.some.injEq] at outcome
      obtain ⟨usage, single⟩ := List.length_eq_one_iff.mp outcome
      have emitted : usage ∈ final.emitted := by simp [single]
      have member : emitUsageEvent usage ∈ final.recorded := List.mem_map_of_mem emitted
      have ran : Event.run (minuteRun (some "vsock")).answer ∈ minuteSchedule (some "vsock") :=
        .tail _ (.head _)
      have charged := always agentJob _ final _ reached ran _ member
      have kept := (settled_of_run agentJob reached ran).emitted usage emitted
      rcases (kept_metrics_iff _).mp (kept.symm.trans charged) with delivered | idle
      · cases delivered.1
      · exact absurd idle.durationMS (by decide)

end GitScale.CI
