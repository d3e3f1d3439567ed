import GitScale.Basic
import GitScale.Foundation.Transition

/-!
# The CI job workflow

`CIJobWorkflow` boots a microVM, runs the job in it, tears it down and emits a usage event.
Everything that touches the outside is an attempt of an activity.  A step of the run is the
end of one attempt, as the workflow sees it, or a cancellation: the provisioner may have
allocated a VM in an attempt whose result never reaches the workflow.
-/

namespace GitScale.CI

open Foundation

/-! ## Inputs -/

/-- `PrincipalKind`; the values without a name count as unknown. -/
inductive PrincipalKind where
  | unknown
  | human
  | agent
  | service
  deriving DecidableEq, Repr

/-- `PrincipalKind.String`. -/
def PrincipalKind.text : PrincipalKind → String
  | .human => "human"
  | .agent => "agent"
  | .service => "service"
  | .unknown => "unknown"

def PrincipalKind.isValid : PrincipalKind → Bool
  | .unknown => false
  | _ => true

/-- `Tier`. -/
inductive Tier where
  | unknown
  | hot
  | cold
  deriving DecidableEq, Repr

/-- `Tier.String`. -/
def Tier.text : Tier → String
  | .hot => "hot"
  | .cold => "cold"
  | .unknown => "unknown"

/-- `ResourceShape`, the fields that the quota check reads. -/
structure ResourceShape where
  vcpu : Int64
  memoryMB : Int64
  wallClockSeconds : Int64
  deriving DecidableEq

/-- `CIJobInput`, without what is only passed on to the VM. -/
structure CIJobInput where
  jobID : UUID
  principalID : UUID
  principalKind : PrincipalKind
  orgID : UUID
  repoID : UUID
  annotations : List (String × String)
  resource : ResourceShape
  deriving DecidableEq

/-- `assignTier`. -/
def assignTier (kind : PrincipalKind) (annotations : List (String × String)) : Tier :=
  if annotations.lookup "require-hot-pool" = some "true" then .hot
  else if kind = .agent then .cold
  else .hot

/-! ## Activities -/

/-- `MicroVMHandle`, of which the workflow uses the id.  The zero value has an empty one. -/
structure MicroVMHandle where
  id : String
  deriving DecidableEq, Repr

/-- `JobResult`. -/
structure JobResult where
  exitCode : Int
  durationMS : Int64
  bytesIngressed : Int64
  bytesEgressed : Int64
  peakMemoryKB : Int64
  logsObjectURI : String
  deriving DecidableEq

def JobResult.zero : JobResult := ⟨0, 0, 0, 0, 0, ""⟩

/-- The sentinel errors that the boot activities look for. -/
inductive BootSentinel where
  | quotaInsufficient
  | invalidShape
  deriving DecidableEq, Repr

/-- What the provisioner answers: a handle, or an error with the sentinel it wraps. -/
abbrev Provision := Except (Option BootSentinel × String) MicroVMHandle

/-- What `GetQuotaAccount` answers. -/
inductive QuotaAnswer where
  | account (computeMinutesPerMonthCap : Int64)
  | notFound
  | failed (message : String)
  deriving DecidableEq

/-- An error of a boot activity.  The two application errors are not retried. -/
inductive BootError where
  | quotaInsufficient (message : String)
  | invalidShape (message : String)
  | other (message : String)
  deriving DecidableEq, Repr

def BootError.nonRetryable : BootError → Bool
  | .quotaInsufficient _ => true
  | .invalidShape _ => true
  | .other _ => false

/-- `validateAgainstQuota`. -/
def validateAgainstQuota (shape : ResourceShape) (computeMinutesPerMonthCap : Int64) :
    Option BootSentinel :=
  if computeMinutesPerMonthCap ≤ 0 then some .quotaInsufficient
  else if shape.vcpu ≤ 0 ∨ shape.memoryMB ≤ 0 ∨ shape.wallClockSeconds ≤ 0 then
    some .invalidShape
  else if shape.vcpu * shape.wallClockSeconds > computeMinutesPerMonthCap * 60 / 5 then
    some .quotaInsufficient
  else none

/-- The body that the two boot activities share, with the name of the activity and of the
method that it calls. -/
def bootVM (activity method : String) (resource : ResourceShape) (quota : QuotaAnswer)
    (provision : Provision) : Except BootError MicroVMHandle :=
  match quota with
  | .notFound => .error (.quotaInsufficient (activity ++ ": quota account not found"))
  | .failed message => .error (.other (activity ++ ": GetQuotaAccount: " ++ message))
  | .account cap =>
      match validateAgainstQuota resource cap with
      | some .quotaInsufficient =>
          .error (.quotaInsufficient (activity ++ ": quota insufficient"))
      | some .invalidShape => .error (.invalidShape (activity ++ ": invalid resource shape"))
      | none =>
          match provision with
          | .error (some .quotaInsufficient, _) =>
              .error (.quotaInsufficient (activity ++ ": provisioner: quota insufficient"))
          | .error (some .invalidShape, _) =>
              .error (.invalidShape (activity ++ ": provisioner: invalid shape"))
          | .error (none, message) =>
              .error (.other (activity ++ ": provisioner." ++ method ++ ": " ++ message))
          | .ok handle => .ok handle

/-- `BootColdVMActivity.Execute`. -/
def bootColdVM : ResourceShape → QuotaAnswer → Provision → Except BootError MicroVMHandle :=
  bootVM "runner.BootColdVM" "BootCold"

/-- `LeaseHotVMActivity.Execute`. -/
def leaseHotVM : ResourceShape → QuotaAnswer → Provision → Except BootError MicroVMHandle :=
  bootVM "runner.LeaseHotVM" "LeaseHot"

/-- `RunJobActivity.Execute`; a failed run has no result. -/
def runJob (answer : Except String JobResult) : Except String JobResult :=
  match answer with
  | .error message => .error ("runner.RunJob: " ++ message)
  | .ok result => .ok result

/-- What `Teardown` answers. -/
inductive TeardownAnswer where
  | done
  | alreadyTorndown
  | notFound
  | failed (message : String)
  deriving DecidableEq, Repr

/-- `TeardownVMActivity.Execute`: its error, and the ids it passes to `Teardown`. -/
def teardownVM (vmID : String) (answer : TeardownAnswer) : Option String × List String :=
  if vmID = "" then (none, [])
  else
    match answer with
    | .done | .alreadyTorndown | .notFound => (none, [vmID])
    | .failed message => (some ("runner.TeardownVM: " ++ message), [vmID])

/-- `UsageInput`. -/
structure UsageInput where
  jobID : UUID
  principalID : UUID
  principalKind : String
  orgID : UUID
  repoID : UUID
  tier : String
  result : JobResult
  deriving DecidableEq

/-- The `MaximumAttempts` of `bootOptionsFor`. -/
def bootAttempts : Tier → Nat
  | .hot => 5
  | _ => 3

/-- The `MaximumAttempts` of `teardownOptions`. -/
def teardownAttempts : Nat := 5

/-- The `MaximumAttempts` of `emitOptions`. -/
def emitAttempts : Nat := 10

/-! ## Runs -/

/-- How an attempt of the boot activity ends for the workflow: with its result, with a
timeout, or with the cancellation of the workflow. -/
inductive Fate where
  | recorded
  | timedOut
  | cancelled
  deriving DecidableEq, Repr

/-- One attempt of the boot activity. -/
structure BootAttempt where
  quota : QuotaAnswer
  provision : Provision
  fate : Fate

/-- One attempt of the teardown activity; it may be lost before it gets to the provisioner
or before its result is recorded. -/
structure TeardownAttempt where
  reached : Bool
  answer : TeardownAnswer
  recorded : Bool
  deriving DecidableEq

/-- What happens next. -/
inductive Event where
  | boot (attempt : BootAttempt)
  | cancel
  | run (answer : Except String JobResult)
  | teardown (attempt : TeardownAttempt)
  | emit (error : Option String)

/-- Where the workflow is, with the attempts made so far. -/
inductive Phase where
  | booting (attempts : Nat)
  | running
  | tearingDown (attempts : Nat)
  | emitting (attempts : Nat)
  | finished
  deriving DecidableEq, Repr

/-- The variables of `CIJobWorkflow`, the VMs that the provisioner allocated for the job, the
ids that were passed to its `Teardown`, and the usage that was emitted. -/
structure Job where
  phase : Phase
  handle : MicroVMHandle
  result : JobResult
  runErr : Option String
  cancelled : Bool
  allocated : List String
  tornDown : List String
  emitted : List UsageInput
  deriving DecidableEq

variable (input : CIJobInput)

/-- The tier of the job. -/
def CIJobInput.tier : Tier := assignTier input.principalKind input.annotations

/-- The workflow when it starts.  An invalid principal kind ends it at once, and so would a
job without a tier. -/
def start : Job where
  phase :=
    if input.principalKind.isValid ∧ input.tier ≠ .unknown then .booting 0 else .finished
  handle := ⟨""⟩
  result := .zero
  runErr := none
  cancelled := false
  allocated := []
  tornDown := []
  emitted := []

/-- The boot activity of the tier; there is none without a tier. -/
def bootActivity (attempt : BootAttempt) : Except BootError MicroVMHandle :=
  match input.tier with
  | .cold => bootColdVM input.resource attempt.quota attempt.provision
  | .hot => leaseHotVM input.resource attempt.quota attempt.provision
  | .unknown => .error (.other "ci: assignTier produced TierUnknown")

/-- The VM that an attempt allocates: the activity returns a handle only after the
provisioner did. -/
def allocates (attempt : BootAttempt) : Option MicroVMHandle :=
  (bootActivity input attempt).toOption

/-- The boot activity is retried, or its last error ends the workflow. -/
def Job.retryBoot (job : Job) (attempts : Nat) : Job :=
  if attempts + 1 < bootAttempts input.tier then { job with phase := .booting (attempts + 1) }
  else { job with phase := .finished }

/-- One attempt of the boot activity. -/
def Job.boot (job : Job) (attempts : Nat) (attempt : BootAttempt) : Job :=
  let job := { job with
    allocated := job.allocated ++ (allocates input attempt).toList.map MicroVMHandle.id }
  match attempt.fate with
  | .timedOut => job.retryBoot input attempts
  | .cancelled => { job with phase := .finished, cancelled := true }
  | .recorded =>
      match bootActivity input attempt with
      | .ok handle => { job with phase := .running, handle := handle }
      | .error error =>
          if error.nonRetryable then { job with phase := .finished }
          else job.retryBoot input attempts

/-- The end of the single attempt of `RunJob`. -/
def Job.ran (job : Job) (answer : Except String JobResult) : Job :=
  match runJob answer with
  | .ok result => { job with phase := .tearingDown 0, result := result }
  | .error message =>
      { job with
        phase := .tearingDown 0
        runErr := some message
        result := { JobResult.zero with exitCode := -1 } }

/-- An attempt of the teardown succeeds. -/
def TeardownAttempt.succeeds (attempt : TeardownAttempt) (vmID : String) : Bool :=
  attempt.reached && attempt.recorded && (teardownVM vmID attempt.answer).1.isNone

/-- One attempt of the teardown activity, on the disconnected context.  Its last error is
ignored. -/
def Job.teardown (job : Job) (attempts : Nat) (attempt : TeardownAttempt) : Job :=
  let job :=
    if attempt.reached then
      { job with tornDown := job.tornDown ++ (teardownVM job.handle.id attempt.answer).2 }
    else job
  if attempt.succeeds job.handle.id ∨ ¬ attempts + 1 < teardownAttempts then
    { job with
      phase := .emitting 0
      result := if job.cancelled then { job.result with exitCode := -2 } else job.result }
  else { job with phase := .tearingDown (attempts + 1) }

/-- The input of the emission. -/
def Job.usage (job : Job) : UsageInput where
  jobID := input.jobID
  principalID := input.principalID
  principalKind := input.principalKind.text
  orgID := input.orgID
  repoID := input.repoID
  tier := input.tier.text
  result := job.result

/-- One attempt of the emission. -/
def Job.emit (job : Job) (attempts : Nat) (error : Option String) : Job :=
  match error with
  | none => { job with phase := .finished, emitted := job.emitted ++ [job.usage input] }
  | some _ =>
      if attempts + 1 < emitAttempts then { job with phase := .emitting (attempts + 1) }
      else { job with phase := .finished }

/-- One step of a run.  A cancellation while no boot attempt is under way ends the boot
phase; later it is only noted. -/
def step (job : Job) (event : Event) : Option Job :=
  match job.phase, event with
  | .booting attempts, .boot attempt => some (job.boot input attempts attempt)
  | .booting _, .cancel => some { job with phase := .finished, cancelled := true }
  | .running, .run answer => some (job.ran answer)
  | .tearingDown attempts, .teardown attempt => some (job.teardown attempts attempt)
  | .emitting attempts, .emit error => some (job.emit input attempts error)
  | .running, .cancel | .tearingDown _, .cancel | .emitting _, .cancel =>
      some { job with cancelled := true }
  | _, _ => none

end GitScale.CI
