import GitScale.CI.Workflow

/-!
# Which VMs are torn down

The workflow tears down the VM whose handle it holds.  A VM that was allocated by an attempt
whose result it never got has no handle, so it stays.  The main result says for which runs
every VM of the job is torn down.
-/

namespace GitScale.CI

open Foundation

/-- Every VM that was allocated for the job was passed to `Teardown`. -/
def NoLeak (job : Job) : Prop := ∀ id ∈ job.allocated, id ∈ job.tornDown

/-- What is assumed of the surroundings: an allocated VM is a new one, and the teardown
succeeds within its attempts. -/
def Assumed (input : CIJobInput) (job : Job) : Event → Prop
  | .boot attempt => ∀ handle, allocates input attempt = some handle →
      handle.id ∉ job.allocated
  | .teardown attempt => ∀ attempts, job.phase = .tearingDown attempts →
      teardownAttempts ≤ attempts + 1 → attempt.succeeds job.handle.id = true
  | _ => True

/-- An attempt of the boot activity that allocates a VM has its result recorded, with an
id. -/
def HandleRecorded (input : CIJobInput) (_ : Job) : Event → Prop
  | .boot attempt => ∀ handle, allocates input attempt = some handle →
      attempt.fate = .recorded ∧ handle.id ≠ ""
  | _ => True

instance decidableNoLeak (job : Job) : Decidable (NoLeak job) :=
  inferInstanceAs (Decidable (∀ id ∈ job.allocated, id ∈ job.tornDown))

instance decidableAssumed (input : CIJobInput) (job : Job) :
    ∀ event, Decidable (Assumed input job event)
  | .boot attempt =>
      match got : allocates input attempt with
      | none => isTrue (by simp [Assumed, got])
      | some handle =>
          decidable_of_iff (handle.id ∉ job.allocated) (by simp [Assumed, got])
  | .teardown attempt =>
      match phase : job.phase with
      | .tearingDown attempts =>
          decidable_of_iff
            (teardownAttempts ≤ attempts + 1 → attempt.succeeds job.handle.id = true)
            (by simp [Assumed, phase])
      | .booting _ | .running | .emitting _ | .finished => isTrue (by simp [Assumed, phase])
  | .cancel | .run _ | .emit _ => isTrue trivial

instance decidableHandleRecorded (input : CIJobInput) (job : Job) :
    ∀ event, Decidable (HandleRecorded input job event)
  | .boot attempt =>
      match got : allocates input attempt with
      | none => isTrue (by simp [HandleRecorded, got])
      | some handle =>
          decidable_of_iff (attempt.fate = .recorded ∧ handle.id ≠ "")
            (by simp [HandleRecorded, got])
  | .teardown _ | .cancel | .run _ | .emit _ => isTrue trivial

variable (input : CIJobInput)

/-! ## What a step does -/

/-- The ids that an attempt of the teardown passes to the provisioner. -/
def TeardownAttempt.passed (attempt : TeardownAttempt) (vmID : String) : List String :=
  if attempt.reached then (teardownVM vmID attempt.answer).2 else []

/-- One constructor for each way a run goes on. -/
inductive Steps (job : Job) : Event → Job → Prop where
  | booted {attempts : Nat} {attempt : BootAttempt} {handle : MicroVMHandle}
      (booting : job.phase = .booting attempts) (fate : attempt.fate = .recorded)
      (got : allocates input attempt = some handle) :
      Steps job (.boot attempt) { job with
        phase := .running
        handle := handle
        allocated := job.allocated ++ [handle.id] }
  | unbooted {attempts : Nat} {attempt : BootAttempt} {phase : Phase} {cancelled : Bool}
      (booting : job.phase = .booting attempts)
      (lost : ∀ handle, allocates input attempt = some handle → attempt.fate ≠ .recorded)
      (onward : phase = .finished ∨ ∃ attempts, phase = .booting attempts) :
      Steps job (.boot attempt) { job with
        phase := phase
        cancelled := cancelled
        allocated := job.allocated ++ (allocates input attempt).toList.map MicroVMHandle.id }
  | stopped {attempts : Nat} (booting : job.phase = .booting attempts) :
      Steps job .cancel { job with phase := .finished, cancelled := true }
  | noted (beyond : job.phase = .running ∨ (∃ attempts, job.phase = .tearingDown attempts) ∨
      ∃ attempts, job.phase = .emitting attempts) :
      Steps job .cancel { job with cancelled := true }
  | ran {answer : Except String JobResult} {result : JobResult} {runErr : Option String}
      (running : job.phase = .running) :
      Steps job (.run answer) { job with
        phase := .tearingDown 0
        result := result
        runErr := runErr }
  | retried {attempts : Nat} {attempt : TeardownAttempt}
      (tearing : job.phase = .tearingDown attempts) :
      Steps job (.teardown attempt) { job with
        phase := .tearingDown (attempts + 1)
        tornDown := job.tornDown ++ attempt.passed job.handle.id }
  | tornDown {attempts : Nat} {attempt : TeardownAttempt} {result : JobResult}
      (tearing : job.phase = .tearingDown attempts)
      (done : attempt.succeeds job.handle.id = true ∨ teardownAttempts ≤ attempts + 1) :
      Steps job (.teardown attempt) { job with
        phase := .emitting 0
        result := result
        tornDown := job.tornDown ++ attempt.passed job.handle.id }
  | emitted {attempts : Nat} {error : Option String} {phase : Phase}
      {emissions : List UsageInput} (emitting : job.phase = .emitting attempts)
      (onward : phase = .finished ∨ ∃ attempts, phase = .emitting attempts) :
      Steps job (.emit error) { job with phase := phase, emitted := emissions }

theorem retryBoot_eq (job : Job) (attempts : Nat) :
    ∃ phase, (phase = .finished ∨ ∃ attempts, phase = Phase.booting attempts) ∧
      job.retryBoot input attempts = { job with phase := phase } := by
  unfold Job.retryBoot
  split
  · exact ⟨_, Or.inr ⟨_, rfl⟩, rfl⟩
  · exact ⟨_, Or.inl rfl, rfl⟩

theorem boot_steps {job : Job} {attempts : Nat} (booting : job.phase = .booting attempts)
    (attempt : BootAttempt) :
    Steps input job (.boot attempt) (job.boot input attempts attempt) := by
  -- An attempt that is not recorded, or that failed, leaves the workflow booting or ends it.
  obtain ⟨phase, onward, retried⟩ := retryBoot_eq input { job with
    allocated := job.allocated ++
      (allocates input attempt).toList.map MicroVMHandle.id } attempts
  unfold Job.boot
  cases fate : attempt.fate with
  | timedOut =>
      simp only [retried]
      exact .unbooted booting (by simp [fate]) onward
  | cancelled => exact .unbooted booting (by simp [fate]) (Or.inl rfl)
  | recorded =>
      cases outcome : bootActivity input attempt with
      | ok handle =>
          have got : allocates input attempt = some handle := by
            simp [allocates, outcome, Except.toOption]
          simp only [got, Option.toList_some, List.map_singleton]
          exact .booted booting fate got
      | error error =>
          have none_got : allocates input attempt = none := by
            simp [allocates, outcome, Except.toOption]
          simp only [retried]
          split
          · exact .unbooted booting (by simp [none_got]) (Or.inl rfl)
          · exact .unbooted booting (by simp [none_got]) onward

theorem teardown_steps {job : Job} {attempts : Nat}
    (tearing : job.phase = .tearingDown attempts) (attempt : TeardownAttempt) :
    Steps input job (.teardown attempt) (job.teardown attempts attempt) := by
  have passed : (if attempt.reached then
      { job with tornDown := job.tornDown ++ (teardownVM job.handle.id attempt.answer).2 }
      else job) = { job with tornDown := job.tornDown ++ attempt.passed job.handle.id } := by
    unfold TeardownAttempt.passed
    split
    · rfl
    · simp
  unfold Job.teardown
  simp only [passed]
  split
  · next done => exact .tornDown tearing (done.imp_right Nat.le_of_not_lt)
  · exact .retried tearing

theorem emit_steps {job : Job} {attempts : Nat} (emitting : job.phase = .emitting attempts)
    (error : Option String) :
    Steps input job (.emit error) (job.emit input attempts error) := by
  cases error with
  | none => exact .emitted emitting (Or.inl rfl)
  | some message =>
      simp only [Job.emit]
      split
      · exact .emitted emitting (Or.inr ⟨_, rfl⟩)
      · exact .emitted emitting (Or.inl rfl)

theorem ran_steps {job : Job} (running : job.phase = .running)
    (answer : Except String JobResult) : Steps input job (.run answer) (job.ran answer) := by
  cases answer with
  | error message => exact .ran running
  | ok result => exact .ran running

/-- Every step of a run is one of these. -/
theorem steps_of_step {job next : Job} {event : Event}
    (taken : step input job event = some next) : Steps input job event next := by
  unfold step at taken
  split at taken
  · next attempts attempt booting =>
      cases taken
      exact boot_steps input booting attempt
  · next booting =>
      cases taken
      exact .stopped booting
  · next answer running =>
      cases taken
      exact ran_steps input running answer
  · next attempts attempt tearing =>
      cases taken
      exact teardown_steps input tearing attempt
  · next attempts error emitting =>
      cases taken
      exact emit_steps input emitting error
  · next running =>
      cases taken
      exact .noted (Or.inl running)
  · next tearing =>
      cases taken
      exact .noted (Or.inr (Or.inl ⟨_, tearing⟩))
  · next emitting =>
      cases taken
      exact .noted (Or.inr (Or.inr ⟨_, emitting⟩))
  · cases taken

/-! ## VMs with a handle, and VMs without one -/

theorem eq_of_mem_passed {attempt : TeardownAttempt} {vmID id : String}
    (passed : id ∈ attempt.passed vmID) : id = vmID ∧ id ≠ "" := by
  unfold TeardownAttempt.passed teardownVM at passed
  split at passed
  · split at passed
    · cases passed
    · next named =>
        have same : id = vmID := by
          split at passed
          all_goals exact List.mem_singleton.mp passed
        exact ⟨same, same ▸ named⟩
  · cases passed

theorem mem_passed_of_succeeds {attempt : TeardownAttempt} {vmID : String}
    (succeeds : attempt.succeeds vmID = true) (named : vmID ≠ "") :
    vmID ∈ attempt.passed vmID := by
  have reached : attempt.reached = true := by
    simp only [TeardownAttempt.succeeds, Bool.and_eq_true] at succeeds
    exact succeeds.1.1
  unfold TeardownAttempt.passed teardownVM
  rw [if_pos reached, if_neg named]
  cases attempt.answer with
  | done => exact List.mem_singleton.mpr rfl
  | alreadyTorndown => exact List.mem_singleton.mpr rfl
  | notFound => exact List.mem_singleton.mpr rfl
  | failed message => exact List.mem_singleton.mpr rfl

/-- The workflow holds the handle of every VM of the job until it is torn down. -/
def Held (job : Job) : Prop :=
  match job.phase with
  | .booting _ => job.allocated = [] ∧ job.tornDown = []
  | .running | .tearingDown _ => job.allocated = [job.handle.id] ∧ job.handle.id ≠ ""
  | .emitting _ | .finished => NoLeak job

/-- The workflow can no longer tear down the VM. -/
structure Lost (id : String) (job : Job) : Prop where
  allocated : id ∈ job.allocated
  not_tornDown : id ∉ job.tornDown
  no_handle : (job.phase = .running ∨ ∃ attempts, job.phase = .tearingDown attempts) →
    id = "" ∨ job.handle.id ≠ id

/-- Some VM of the job is lost. -/
def Leaking (job : Job) : Prop := ∃ id, Lost id job

theorem held_start : Held (start input) := by
  by_cases valid : input.principalKind.isValid ∧ input.tier ≠ .unknown
  · simp only [Held, start, if_pos valid]
    exact ⟨trivial, trivial⟩
  · simp only [Held, start, if_neg valid, NoLeak]
    simp

variable {input}

theorem held_step {job next : Job} {event : Event} (assumed : Assumed input job event)
    (recorded : HandleRecorded input job event) (held : Held job)
    (taken : step input job event = some next) : Held next := by
  cases steps_of_step input taken with
  | booted booting fate got =>
      simp only [Held, booting] at held
      simp only [Held, held.1, List.nil_append, true_and]
      exact (recorded _ got).2
  | @unbooted _ attempt phase _ booting lost onward =>
      have none_got : allocates input attempt = none := by
        rw [Option.eq_none_iff_forall_ne_some]
        intro handle got
        exact lost handle got (recorded handle got).1
      simp only [Held, booting] at held
      rcases onward with rfl | ⟨attempts, rfl⟩
      · simp [Held, NoLeak, none_got, held.1]
      · simp [Held, none_got, held]
  | stopped booting =>
      simp only [Held, booting] at held
      simp [Held, NoLeak, held.1]
  | noted beyond => exact held
  | ran running =>
      simp only [Held, running] at held
      exact held
  | retried tearing =>
      simp only [Held, tearing] at held
      exact held
  | @tornDown attempts attempt _ tearing done =>
      simp only [Held, tearing] at held
      have succeeds : attempt.succeeds job.handle.id = true :=
        done.elim id (assumed attempts tearing)
      simp only [Held, NoLeak, held.1, List.forall_mem_singleton]
      exact List.mem_append_right _ (mem_passed_of_succeeds succeeds held.2)
  | emitted emitting onward =>
      simp only [Held, emitting] at held
      rcases onward with rfl | ⟨attempts, rfl⟩
      · exact held
      · exact held

/-- A VM whose handle was not recorded is lost as soon as it is allocated. -/
theorem leaking_of_unrecorded {job next : Job} {event : Event}
    (unrecorded : ¬ HandleRecorded input job event) (held : Held job)
    (taken : step input job event = some next) : Leaking next := by
  cases steps_of_step input taken with
  | @booted _ attempt handle booting fate got =>
      simp only [Held, booting] at held
      have unnamed : handle.id = "" := by
        by_contra named
        apply unrecorded
        intro other gotOther
        cases got.symm.trans gotOther
        exact ⟨fate, named⟩
      refine ⟨"", ?_, ?_, ?_⟩
      · simp [unnamed]
      · simp [held.2]
      · exact fun _ => Or.inl rfl
  | @unbooted _ attempt phase _ booting lost onward =>
      simp only [Held, booting] at held
      obtain ⟨handle, got⟩ : ∃ handle, allocates input attempt = some handle := by
        by_contra none_got
        apply unrecorded
        intro handle got
        exact absurd ⟨handle, got⟩ none_got
      refine ⟨handle.id, ?_, ?_, ?_⟩
      · simp [got]
      · simp [held.2]
      · intro later
        rcases onward with rfl | ⟨attempts, rfl⟩
        · simp at later
        · simp at later
  | stopped booting => exact absurd trivial unrecorded
  | noted beyond => exact absurd trivial unrecorded
  | ran running => exact absurd trivial unrecorded
  | retried tearing => exact absurd trivial unrecorded
  | tornDown tearing done => exact absurd trivial unrecorded
  | emitted emitting onward => exact absurd trivial unrecorded

theorem lost_step {id : String} {job next : Job} {event : Event}
    (assumed : Assumed input job event) (lost : Lost id job)
    (taken : step input job event = some next) : Lost id next := by
  -- An attempt of the teardown gets another id than the lost one.
  have not_passed : ∀ {attempts} {attempt : TeardownAttempt},
      job.phase = .tearingDown attempts →
        id ∉ job.tornDown ++ attempt.passed job.handle.id := by
    intro attempts attempt tearing passed
    rcases List.mem_append.mp passed with before | now
    · exact lost.not_tornDown before
    · rcases eq_of_mem_passed now with ⟨same, named⟩
      rcases lost.no_handle (Or.inr ⟨attempts, tearing⟩) with unnamed | other
      · exact named unnamed
      · exact other same.symm
  cases steps_of_step input taken with
  | @booted _ attempt handle booting fate got =>
      refine ⟨List.mem_append_left _ lost.allocated, lost.not_tornDown, ?_⟩
      intro _
      refine Or.inr ?_
      rintro rfl
      exact assumed handle got lost.allocated
  | unbooted booting _ onward =>
      refine ⟨List.mem_append_left _ lost.allocated, lost.not_tornDown, ?_⟩
      intro later
      rcases onward with rfl | ⟨attempts, rfl⟩
      · simp at later
      · simp at later
  | stopped booting =>
      refine ⟨lost.allocated, lost.not_tornDown, ?_⟩
      simp
  | noted beyond => exact ⟨lost.allocated, lost.not_tornDown, lost.no_handle⟩
  | ran running =>
      refine ⟨lost.allocated, lost.not_tornDown, ?_⟩
      intro _
      exact lost.no_handle (Or.inl running)
  | retried tearing =>
      refine ⟨lost.allocated, not_passed tearing, ?_⟩
      intro _
      exact lost.no_handle (Or.inr ⟨_, tearing⟩)
  | tornDown tearing done =>
      refine ⟨lost.allocated, not_passed tearing, ?_⟩
      simp
  | emitted emitting onward =>
      refine ⟨lost.allocated, lost.not_tornDown, ?_⟩
      intro later
      rcases onward with rfl | ⟨attempts, rfl⟩
      · simp at later
      · simp at later

/-- The workflow holds no handle of a lost VM. -/
theorem not_leaking_of_held {job : Job} (held : Held job) : ¬ Leaking job := by
  rintro ⟨id, lost⟩
  have allocated := lost.allocated
  -- Before the teardown the only VM is the one of the handle.
  have handle_only : (job.phase = .running ∨ ∃ attempts, job.phase = .tearingDown attempts) →
      ¬ (job.allocated = [job.handle.id] ∧ job.handle.id ≠ "") := by
    rintro before ⟨only, named⟩
    rw [only, List.mem_singleton] at allocated
    rcases lost.no_handle before with unnamed | other
    · exact named (allocated ▸ unnamed)
    · exact other allocated.symm
  cases phase : job.phase with
  | booting attempts =>
      simp only [Held, phase] at held
      simp [held.1] at allocated
  | running =>
      simp only [Held, phase] at held
      exact handle_only (Or.inl phase) held
  | tearingDown attempts =>
      simp only [Held, phase] at held
      exact handle_only (Or.inr ⟨attempts, phase⟩) held
  | emitting attempts =>
      simp only [Held, phase] at held
      exact lost.not_tornDown (held id allocated)
  | finished =>
      simp only [Held, phase] at held
      exact lost.not_tornDown (held id allocated)

/-! ## Whole runs -/

/-- A finished run has torn down every VM of its job if and only if the result of every
attempt that allocated one was recorded. -/
theorem noLeak_iff_handleRecorded (input : CIJobInput) (schedule : List Event) (final : Job)
    (assumed : Meets (step input) (Assumed input) (start input) schedule)
    (reached : run (step input) (start input) schedule = some final)
    (finished : final.phase = .finished) :
    NoLeak final ↔
      Meets (step input) (HandleRecorded input) (start input) schedule := by
  have held_final : Held final ↔ NoLeak final := by simp [Held, finished]
  have kept : ∀ job event next, Assumed input job event → HandleRecorded input job event →
      Held job → step input job event = some next → Held next := by
    intro job event next assumed recorded held taken
    exact held_step assumed recorded held taken
  have leaks : ∀ job event next, Assumed input job event → ¬ HandleRecorded input job event →
      Held job → step input job event = some next → Leaking next := by
    intro job event next _ unrecorded held taken
    exact leaking_of_unrecorded unrecorded held taken
  have stays : ∀ job event next, Assumed input job event → Leaking job →
      step input job event = some next → Leaking next := by
    rintro job event next assumed ⟨id, lost⟩ taken
    exact ⟨id, lost_step assumed lost taken⟩
  rw [← held_final]
  exact meets_iff_of_doomed kept leaks stays (fun _ held => not_leaking_of_held held) schedule
    (start input) final assumed (held_start input) reached

/-- A job of an agent, which boots a cold VM. -/
def agentJob : CIJobInput where
  jobID := 1
  principalID := 2
  principalKind := .agent
  orgID := 3
  repoID := 4
  annotations := []
  resource := ⟨2, 512, 60⟩

/-- An attempt in which the provisioner allocates the VM. -/
def allocating (id : String) (fate : Fate) : BootAttempt where
  quota := .account 100
  provision := .ok ⟨id⟩
  fate := fate

/-- What follows the boot when nothing goes wrong. -/
def afterBoot : List Event :=
  [.run (.ok JobResult.zero), .teardown ⟨true, .done, true⟩, .emit none]

/-- The first attempt fails before anything is allocated, and the job is cancelled while it
runs. -/
def retriedSchedule : List Event :=
  [.boot ⟨.failed "unavailable", .ok ⟨"vm-1"⟩, .recorded⟩,
    .boot (allocating "vm-2" .recorded), .cancel] ++ afterBoot

theorem noLeak_iff_handleRecorded_retried :
    ∃ final, run (step agentJob) (start agentJob) retriedSchedule = some final ∧
      final.allocated = ["vm-2"] ∧ NoLeak final := by
  have outcome : (run (step agentJob) (start agentJob) retriedSchedule).map
      (fun job => (job.phase, job.allocated)) = some (.finished, ["vm-2"]) := by
    decide
  cases reached : run (step agentJob) (start agentJob) retriedSchedule with
  | none => simp [reached] at outcome
  | some final =>
      simp only [reached, Option.map_some, Option.some.injEq, Prod.mk.injEq] at outcome
      have exactly := noLeak_iff_handleRecorded agentJob retriedSchedule final
        (by decide) reached outcome.1
      exact ⟨final, rfl, outcome.2, exactly.mpr (by decide)⟩

/-- The first attempt times out after the provisioner allocated a VM. -/
def timedOutSchedule : List Event :=
  [.boot (allocating "vm-1" .timedOut), .boot (allocating "vm-2" .recorded)] ++ afterBoot

theorem timedOut_leaks :
    ¬ ∀ (input : CIJobInput) (schedule : List Event) (final : Job),
      Meets (step input) (Assumed input) (start input) schedule →
      run (step input) (start input) schedule = some final →
      final.phase = .finished → NoLeak final := by
  intro always
  have outcome : (run (step agentJob) (start agentJob) timedOutSchedule).map
      (fun job => (job.phase, decide (NoLeak job))) = some (.finished, false) := by
    decide
  cases reached : run (step agentJob) (start agentJob) timedOutSchedule with
  | none => simp [reached] at outcome
  | some final =>
      simp only [reached, Option.map_some, Option.some.injEq, Prod.mk.injEq,
        decide_eq_false_iff_not] at outcome
      exact outcome.2 (always agentJob timedOutSchedule final (by decide) reached
        outcome.1)

end GitScale.CI
