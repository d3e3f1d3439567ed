import GitScale.Billing.ArchiveFormat
import GitScale.Foundation.Transition

/-!
# Archiving a month

`PartitionArchiveWorkflow` detaches the partition of a month, exports its rows to the data
lake and drops it.  An attempt of an activity that is given up keeps executing: an export
goes on with its next call, and a statement may take effect long after.  The runs of the
workflow for one month follow each other, the attempts of all of them overlap.  A step is
one call of one attempt, one decision of the workflow or something from outside.
-/

namespace GitScale.Billing

open Foundation

/-- The month and the bucket it goes to. -/
structure ArchiveTarget where
  year : Int
  month : Int
  bucket : String
  deriving DecidableEq, Repr

/-- `ExportResult`. -/
structure ExportResult where
  lakeURI : String
  rowCount : Nat
  bytesWritten : Nat
  sha256Hex : String
  deriving DecidableEq, Repr

/-- `ArchiveResult`. -/
structure ArchiveResult where
  partitionName : String
  lakeURI : String
  rowCount : Nat
  bytesWritten : Nat
  deriving DecidableEq, Repr

/-- Where the table of the month is; a concurrent detach that is cut off stays pending. -/
inductive Placement where
  | attached
  | pending
  | detached
  | dropped
  deriving DecidableEq, Repr

/-- How far an attempt of the export is.  The version stands for the key that `GetDEK`
returned. -/
inductive ExportStage where
  | begun
  | keyed (version : Nat)
  | scanned (version : Nat) (rows : List UsageEventRow)
  | uploaded (version : Nat) (ciphertext : Bytes) (rowCount : Nat)
  | described (version : Nat) (ciphertext : Bytes) (rowCount : Nat)
  | finished (result : ExportResult)
  | failed (error : String)
  deriving DecidableEq, Repr

/-- The statements that may take effect after their attempt was given up. -/
inductive Statement where
  | detach
  | drop
  deriving DecidableEq, Repr

/-- What the workflow waits for: an attempt, with the retries left after it. -/
inductive ArchivePhase where
  | idle (last : Option (Except String ArchiveResult))
  | detaching (retries : Nat)
  | exporting (attempt : Nat) (retries : Nat)
  | emitting (result : ExportResult) (retries : Nat)
  | registering (result : ExportResult) (retries : Nat)
  | dropping (result : ExportResult) (retries : Nat)

/-- An attempt and the version of its key. -/
structure Writer where
  attempt : Nat
  version : Nat
  deriving DecidableEq, Repr

/-- Who wrote each object last.  Nothing in the code keeps track of it. -/
structure Writers where
  parquet : Option Writer
  manifest : Option Writer
  checksum : Option Writer
  deriving DecidableEq, Repr

/-- The table, the data lake, the transit key, the attempts of the export so far, the
statements still under way and the workflow.  The rows of a dropped table are those it had. -/
structure ArchiveState where
  rows : List UsageEventRow
  placement : Placement
  objects : Objects
  keyVersion : Nat
  attempts : List ExportStage
  late : List Statement
  phase : ArchivePhase
  writers : Writers

def initialArchive : ArchiveState where
  rows := []
  placement := .attached
  objects := fun _ => none
  keyVersion := 1
  attempts := []
  late := []
  phase := .idle none
  writers := ⟨none, none, none⟩

/-- How an attempt of one statement ends.  A lost answer comes after the effect, a late
statement is still under way, and a detach may stop halfway. -/
inductive Ending where
  | ok
  | failed (message : String)
  | halfway (message : String)
  | lost (message : String)
  | late (message : String)
  deriving DecidableEq, Repr

/-- The random nonces of an attempt. -/
structure Nonces where
  nonce : Nat → Bytes
  length_nonce : ∀ index, (nonce index).length = 12

/-- The next call of an attempt of the export.  `cut` says that the row writer stopped after
so many bytes with an error that the encryption takes for the end of the file. -/
inductive ExportCall where
  | getDEK (fault : Option String)
  | scan (fault : Option String)
  | upload (nonces : Nonces) (cut : Option (Nat × String)) (effect : Effect)
  | putManifest (archiveTS : String) (effect : Effect)
  | putChecksum (effect : Effect)

inductive ArchiveLabel where
  | insert (row : UsageEventRow)
  | rotate
  | start
  | detach (ending : Ending)
  | advance (attempt : Nat) (call : ExportCall)
  | exported (timeout : Option String)
  | emit (fault : Option String)
  | register (fault : Option String)
  | drop (ending : Ending)
  | land (statement : Statement)

/-! ## The table -/

/-- `DetachUsageEventsPartition` and `DropUsageEventsPartition`. -/
def Statement.apply : Statement → Placement → Placement
  | .detach, .attached | .detach, .pending | .detach, .detached => .detached
  | .detach, .dropped => .dropped
  | .drop, _ => .dropped

/-- A statement that stopped halfway; a drop does not. -/
def Statement.applyHalfway : Statement → Placement → Placement
  | .detach, .attached => .pending
  | _, placement => placement

/-- What is left of an attempt of a statement. -/
def ArchiveState.issue (state : ArchiveState) (statement : Statement) (ending : Ending) :
    ArchiveState :=
  match ending with
  | .ok | .lost _ => { state with placement := statement.apply state.placement }
  | .failed _ => state
  | .halfway _ => { state with placement := statement.applyHalfway state.placement }
  | .late _ => { state with late := statement :: state.late }

/-- The error of an attempt. -/
def Ending.error? : Ending → Option String
  | .ok => none
  | .failed message | .halfway message | .lost message | .late message => some message

/-- `ORDER BY ts, id`. -/
def rowBefore (row row' : UsageEventRow) : Bool :=
  decide (row.ts < row'.ts) || (decide (row.ts = row'.ts) && decide (row.id ≤ row'.id))

/-- The rows that the cursor of `ScanPartitionRows` yields. -/
def scanPartitionRows (rows : List UsageEventRow) : List UsageEventRow :=
  rows.mergeSort rowBefore

/-! ## The export -/

section Export

variable (codec : Codec) (target : ArchiveTarget)

/-- The error of a scan. -/
def scanError (message : String) : String :=
  "export: scan rows: archiver: scan usage_events_" ++ Go.zeroPadded 4 target.year ++ "_" ++
    Go.zeroPadded 2 target.month ++ ": " ++ message

/-- The bytes that the encrypt loop makes of a file or of its beginning. -/
def sealed (version : Nat) (nonces : Nonces) (plaintext : Bytes) : Bytes :=
  encryptStream codec (codec.deriveDEK version target.year target.month)
    (partitionName target.year target.month) nonces.nonce plaintext

/-- The manifest of an attempt. -/
def exportManifest (version : Nat) (ciphertext : Bytes) (rowCount : Nat) (archiveTS : String) :
    ArchiveManifest where
  schemaVersion := 1
  sourcePartition := partitionName target.year target.month
  rowCount := rowCount
  bytesWritten := ciphertext.length
  kekHint := String.ofList (kekHint version)
  encFormat := encFormatV1
  archiveTS := archiveTS
  checksumAlg := "sha256"

/-- Whether the object is there afterwards. -/
def Effect.stores : Effect → Bool
  | .ok | .lost _ => true
  | .failed _ => false

/-- The error of a call of the object store. -/
def Effect.error? : Effect → Option String
  | .ok => none
  | .failed message | .lost message => some message

def ArchiveState.stage (state : ArchiveState) (attempt : Nat) (stage : ExportStage) :
    ArchiveState :=
  { state with attempts := state.attempts.set attempt stage }

def ArchiveState.storeParquet (state : ArchiveState) (writer : Writer) (effect : Effect)
    (body : Bytes) : ArchiveState :=
  if effect.stores then
    { state with
      objects := Function.update state.objects
        (archivedParquetKey target.year target.month) (some body)
      writers := { state.writers with parquet := some writer } }
  else state

def ArchiveState.storeManifest (state : ArchiveState) (writer : Writer) (effect : Effect)
    (manifest : ArchiveManifest) : ArchiveState :=
  if effect.stores then
    { state with
      objects := Function.update state.objects (manifestKey target.year target.month)
        (some (codec.marshalManifest manifest))
      writers := { state.writers with manifest := some writer } }
  else state

def ArchiveState.storeChecksum (state : ArchiveState) (writer : Writer) (effect : Effect)
    (sha256Hex : String) : ArchiveState :=
  if effect.stores then
    { state with
      objects := Function.update state.objects (checksumKey target.year target.month)
        (some (Go.utf8 sha256Hex))
      writers := { state.writers with checksum := some writer } }
  else state

/-- The attempt once `GetDEK` has answered. -/
def afterGetDEK (fault : Option String) (version : Nat) : ExportStage :=
  match fault, getDEK codec version target.year target.month with
  | some message, _ | none, .error message => .failed ("export: get dek: " ++ message)
  | none, .ok _ => .keyed version

/-- The attempt once `ScanPartitionRows` has answered, and the rows were read. -/
def afterScan (fault : Option String) (version : Nat) (placement : Placement)
    (rows : List UsageEventRow) : ExportStage :=
  match fault, placement with
  | some message, _ => .failed (scanError target message)
  | none, .dropped =>
      .failed (scanError target ("ERROR: relation \"" ++
        partitionName target.year target.month ++ "\" does not exist (SQLSTATE 42P01)"))
  | none, .attached | none, .pending | none, .detached =>
      .scanned version (scanPartitionRows rows)

/-- The attempt once `Upload` has answered. -/
def afterUpload (cut : Option (Nat × String)) (effect : Effect) (version : Nat)
    (ciphertext : Bytes) (rowCount : Nat) : ExportStage :=
  match effect.error?, cut with
  | some message, _ =>
      .failed ("export: upload: s3: upload " ++
        archivedParquetKey target.year target.month ++ ": " ++ message)
  | none, some (_, message) => .failed ("export: parquet write: " ++ message)
  | none, none => .uploaded version ciphertext rowCount

/-- One call of an attempt of `ExportActivity.Execute`. -/
def exportStep (attempt : Nat) (call : ExportCall) (state : ArchiveState) :
    Option ArchiveState :=
  match state.attempts[attempt]?, call with
  | some .begun, .getDEK fault =>
      some (state.stage attempt (afterGetDEK codec target fault state.keyVersion))
  | some (.keyed version), .scan fault =>
      some (state.stage attempt
        (afterScan target fault version state.placement state.rows))
  | some (.scanned version rows), .upload nonces cut effect =>
      let file := codec.writeParquet rows
      let sent := match cut with
        | none => file
        | some (length, _) => file.take length
      let ciphertext := sealed codec target version nonces sent
      some ((state.storeParquet target ⟨attempt, version⟩ effect ciphertext).stage attempt
        (afterUpload target cut effect version ciphertext rows.length))
  | some (.uploaded version ciphertext rowCount), .putManifest archiveTS effect =>
      some ((state.storeManifest codec target ⟨attempt, version⟩ effect
          (exportManifest target version ciphertext rowCount archiveTS)).stage attempt
        (match effect.error? with
          | some message =>
              .failed ("export: manifest: s3: put " ++ manifestKey target.year target.month ++
                ": " ++ message)
          | none => .described version ciphertext rowCount))
  | some (.described version ciphertext rowCount), .putChecksum effect =>
      let sha256Hex := Go.hexEncode (Go.sha256 ciphertext)
      some ((state.storeChecksum target ⟨attempt, version⟩ effect sha256Hex).stage attempt
        (match effect.error? with
          | some message =>
              .failed ("export: checksum: s3: put " ++ checksumKey target.year target.month ++
                ": " ++ message)
          | none =>
              .finished ⟨"s3://" ++ target.bucket ++ "/" ++
                archivedParquetKey target.year target.month, rowCount, ciphertext.length,
                sha256Hex⟩))
  | _, _ => none

end Export

/-! ## The workflow -/

section Workflow

variable (codec : Codec) (target : ArchiveTarget)

/-- The run returns an error. -/
def ArchiveState.fails (state : ArchiveState) (message : String) : ArchiveState :=
  { state with phase := .idle (some (.error message)) }

/-- The next attempt of the export. -/
def ArchiveState.beginExport (state : ArchiveState) (retries : Nat) : ArchiveState :=
  { state with
    attempts := state.attempts ++ [.begun]
    phase := .exporting state.attempts.length retries }

/-- After a failed attempt: another one, or the end of the run. -/
def ArchiveState.retry (state : ArchiveState) (retries : Nat)
    (again : ArchiveState → Nat → ArchiveState) (message : String) : ArchiveState :=
  match retries with
  | retries + 1 => again state retries
  | 0 => state.fails message

/-- The workflow learns how an attempt ended. -/
def ArchiveState.settle (state : ArchiveState) (error? : Option String) (retries : Nat)
    (done : ArchiveState) (again : ArchiveState → Nat → ArchiveState) (context : String) :
    ArchiveState :=
  match error? with
  | none => done
  | some message => state.retry retries again (context ++ message)

/-- The beginning of `PartitionArchiveWorkflow`. -/
def startArchive (state : ArchiveState) : ArchiveState :=
  if target.year < 2026 ∨ 2099 < target.year then
    state.fails ("archive: year " ++ toString target.year ++
      " out of supported range [2026, 2099]")
  else if target.month < 1 ∨ 12 < target.month then
    state.fails ("archive: month " ++ toString target.month ++ " out of range [1, 12]")
  else { state with phase := .detaching maximumRetries }

/-- An attempt of `DetachPartition`. -/
def detachStep (ending : Ending) (retries : Nat) (state : ArchiveState) : ArchiveState :=
  let issued := state.issue .detach ending
  issued.settle ending.error? retries (issued.beginExport maximumRetries)
    (fun state left => { state with phase := .detaching left }) "archive: detach: "

/-- The workflow learns how its attempt of the export ended, or gives it up. -/
def exportedStep (timeout : Option String) (attempt retries : Nat) (state : ArchiveState) :
    Option ArchiveState :=
  match timeout, state.attempts[attempt]? with
  | some message, _ | none, some (.failed message) =>
      some (state.retry retries ArchiveState.beginExport ("archive: export: " ++ message))
  | none, some (.finished result) =>
      some { state with phase := .emitting result maximumRetries }
  | none, _ => none

/-- An attempt of `EmitArchiveEvent`. -/
def emitStep (fault : Option String) (result : ExportResult) (retries : Nat)
    (state : ArchiveState) : ArchiveState :=
  state.settle fault retries { state with phase := .registering result maximumRetries }
    (fun state left => { state with phase := .emitting result left }) "archive: emit: "

/-- An attempt of `GlueRegister`. -/
def registerStep (fault : Option String) (result : ExportResult) (retries : Nat)
    (state : ArchiveState) : ArchiveState :=
  state.settle fault retries { state with phase := .dropping result maximumRetries }
    (fun state left => { state with phase := .registering result left })
    "archive: glue register: "

/-- An attempt of `DropPartition`. -/
def dropPartitionStep (ending : Ending) (result : ExportResult) (retries : Nat)
    (state : ArchiveState) : ArchiveState :=
  let issued := state.issue .drop ending
  issued.settle ending.error? retries
    { issued with
      phase := .idle (some (.ok ⟨partitionName target.year target.month, result.lakeURI,
        result.rowCount, result.bytesWritten⟩)) }
    (fun state left => { state with phase := .dropping result left })
    "archive: drop (data safe in object store): "

/-- One step of the month. -/
def archiveStep (state : ArchiveState) (label : ArchiveLabel) : Option ArchiveState :=
  match label, state.phase with
  | .insert row, _ =>
      match state.placement with
      | .attached | .pending => some { state with rows := row :: state.rows }
      | .detached | .dropped => none
  | .rotate, _ => some { state with keyVersion := state.keyVersion + 1 }
  | .start, .idle _ => some (startArchive target state)
  | .detach ending, .detaching retries => some (detachStep ending retries state)
  | .advance attempt call, _ => exportStep codec target attempt call state
  | .exported timeout, .exporting attempt retries => exportedStep timeout attempt retries state
  | .emit fault, .emitting result retries => some (emitStep fault result retries state)
  | .register fault, .registering result retries =>
      some (registerStep fault result retries state)
  | .drop ending, .dropping result retries =>
      some (dropPartitionStep target ending result retries state)
  | .land statement, _ =>
      if statement ∈ state.late then
        some { state with
          late := state.late.erase statement
          placement := statement.apply state.placement }
      else none
  | _, _ => none

end Workflow

end GitScale.Billing
