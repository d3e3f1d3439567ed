import GitScale.Go.Strconv
import GitScale.Outbox.System
import Mathlib.Data.List.Nodup

/-!
# Billing events without a source row

`RecordDEKDestroyed` and `RecordCIJobCompleted` write to the billing outbox and nowhere
else.  A call first looks for a row of its event type and aggregate in the table, which is
also the table that the drainers mark and the expirer deletes from.  Transactions are
serializable, so a call is one step.
-/

namespace GitScale.Billing

open Foundation

/-! ## Inputs -/

/-- `RecordDEKDestroyedInput`. -/
structure RecordDEKDestroyedInput where
  year : Int
  month : Int
  partitionName : String
  kekHint : String
  vaultKeyVersion : Int
  deriving DecidableEq, Repr

/-- `RecordCIJobCompletedInput`; a `float64` is given by its bits. -/
structure RecordCIJobCompletedInput where
  jobID : UUID
  principalID : UUID
  principalKind : String
  orgID : UUID
  repoID : UUID
  tier : String
  vcpuSeconds : UInt64
  memoryMBSeconds : UInt64
  egressKB : Int
  exitCode : Int
  deriving DecidableEq, Repr

/-- `value < 0` on a `float64`: neither a zero nor a NaN has a sign. -/
def float64Negative (bits : UInt64) : Bool :=
  let magnitude := bits &&& 0x7FFFFFFFFFFFFFFF
  bits ≠ magnitude && magnitude ≠ 0 && magnitude ≤ 0x7FF0000000000000

/-- `validateDEKDestroyedInput`. -/
def validateDEKDestroyedInput (input : RecordDEKDestroyedInput) : Option String :=
  if input.year < 2026 ∨ 2100 < input.year then some "billing: year out of range (2026..2100)"
  else if input.month < 1 ∨ 12 < input.month then some "billing: month out of range (1..12)"
  else if input.partitionName = "" then some "billing: partition_name is empty"
  else if input.kekHint = "" then some "billing: kek_hint is empty"
  else if input.vaultKeyVersion < 1 then some "billing: vault_key_version must be > 0"
  else none

/-- `validateCIJobInput`. -/
def validateCIJobInput (input : RecordCIJobCompletedInput) : Option String :=
  if input.jobID = UUID.nil then some "billing: job_id is empty"
  else if input.principalID = UUID.nil then some "billing: principal_id is empty"
  else if input.orgID = UUID.nil then some "billing: org_id is empty"
  else if input.principalKind ∉ ["human", "agent", "service"] then
    some "billing: principal_kind must be human|agent|service"
  else if input.tier ∉ ["hot", "cold"] then some "billing: tier must be hot|cold"
  else if float64Negative input.vcpuSeconds ∨ float64Negative input.memoryMBSeconds ∨
      input.egressKB < 0 then
    some "billing: vcpu_seconds / memory_mb_seconds / egress_kb must be >= 0"
  else none

/-! ## Calls -/

/-- A call and its input. -/
inductive Record where
  | dekDestroyed (input : RecordDEKDestroyedInput)
  | ciJobCompleted (input : RecordCIJobCompletedInput)
  deriving DecidableEq, Repr

/-- What a call writes besides its key: `PartitionDEKDestroyedPayload` and
`CIJobCompletedPayload`. -/
inductive EventPayload where
  | dekDestroyed (input : RecordDEKDestroyedInput) (destroyedAt : Time)
      (envelopeVersion : Nat)
  | ciJobCompleted (eventID : UUID) (input : RecordCIJobCompletedInput) (occurredAt : Time)
      (envelopeVersion : Nat)
  deriving DecidableEq, Repr

/-- The functions from elsewhere: `uuid.NewSHA1`, the string form of an identifier, and
`json.Marshal` on a payload. -/
structure Encoding where
  newSHA1 : UUID → List UInt8 → UUID
  uuidText : UUID → String
  marshal : EventPayload → String

def envelopeVersion : Nat := 1

/-- `dekDestroyedNamespace`. -/
def dekDestroyedNamespace : UUID := 0x0e1d2c3b4a5968778695a4b3c2d1e0f9#128

/-- `ciJobCompletedNamespace`. -/
def ciJobCompletedNamespace : UUID := 0x3f4e5d6c7b8a49988b7c6d5e4f3a2b1c#128

/-- The sixteen bytes of an identifier. -/
def uuidBytes (id : UUID) : List UInt8 :=
  (List.range 16).map fun index => UInt8.ofNat (id.toNat >>> (8 * (15 - index)))

variable (encoding : Encoding)

/-- `dekDestroyedAggregateID`. -/
def dekDestroyedAggregateID (input : RecordDEKDestroyedInput) : UUID :=
  let natural := Go.zeroPadded 4 input.year ++ "-" ++ Go.zeroPadded 2 input.month ++ "|" ++
    input.partitionName ++ "|" ++ input.kekHint
  encoding.newSHA1 dekDestroyedNamespace natural.toUTF8.toList

/-- `ciJobCompletedAggregateID`. -/
def ciJobCompletedAggregateID (jobID : UUID) : UUID :=
  encoding.newSHA1 ciJobCompletedNamespace (uuidBytes jobID)

def Record.validate : Record → Option String
  | .dekDestroyed input => validateDEKDestroyedInput input
  | .ciJobCompleted input => validateCIJobInput input

def Record.aggregateType : Record → String
  | .dekDestroyed _ => "partition_dek"
  | .ciJobCompleted _ => "ci_job"

/-- `EventTypePartitionDEKDestroyed` and `EventTypeCIJobCompleted`. -/
def Record.eventType : Record → String
  | .dekDestroyed _ => "billing.partition_dek_destroyed"
  | .ciJobCompleted _ => "ci.job_completed"

def Record.aggregateID : Record → UUID
  | .dekDestroyed input => dekDestroyedAggregateID encoding input
  | .ciJobCompleted input => ciJobCompletedAggregateID encoding input.jobID

/-- `newPartitionDEKDestroyedPayload` and `newCIJobCompletedPayload`. -/
def Record.payload (now : Time) : Record → EventPayload
  | .dekDestroyed input => .dekDestroyed input now envelopeVersion
  | .ciJobCompleted input =>
      .ciJobCompleted (ciJobCompletedAggregateID encoding input.jobID) input now
        envelopeVersion

/-- `RecordDEKDestroyedOutput` and `RecordCIJobCompletedOutput`. -/
structure RecordOutput where
  eventID : String
  created : Bool
  deriving DecidableEq, Repr

/-- What a call reads and draws: the clock of the service, the start of its transaction,
the `event_id` of a new row, how the transaction ends, and the error if it does not end
well. -/
structure RecordReadings where
  clock : Time
  startedAt : Time
  eventID : UUID
  outcome : Outbox.Outcome
  fault : String
  deriving DecidableEq, Repr

/-- The event type and the aggregate of a row. -/
def keyOf (row : Outbox.OutboxRow) : String × UUID := (row.eventType, row.aggregateID)

/-- The key that a call writes under. -/
def Record.key (record : Record) : String × UUID :=
  (record.eventType, record.aggregateID encoding)

/-- `HasOutboxEventForAggregate`. -/
def hasOutboxEventForAggregate (key : String × UUID) (table : List Outbox.Stored) : Bool :=
  table.any fun stored => keyOf stored.row = key

/-- The row that a call inserts. -/
def Record.row (record : Record) (readings : RecordReadings) (id : Nat) :
    Outbox.OutboxRow where
  id := id
  eventID := readings.eventID
  aggregateType := record.aggregateType
  aggregateID := record.aggregateID encoding
  eventType := record.eventType
  payload := encoding.marshal (record.payload encoding readings.clock)
  createdAt := readings.startedAt

/-- `RecordDEKDestroyed` and `RecordCIJobCompleted`: validate, then in one transaction look
for the key and write the row. -/
def Record.execute (record : Record) (readings : RecordReadings) (state : Outbox.State) :
    Except String RecordOutput × Outbox.State :=
  match record.validate with
  | some message => (.error message, state)
  | none =>
      let present := hasOutboxEventForAggregate (record.key encoding) state.table
      let row := record.row encoding readings state.nextID
      let written : Outbox.State :=
        if present then state
        else
          { state with
            nextID := state.nextID + 1
            table := state.table ++ [⟨row, none⟩]
            committed := state.committed ++ [row] }
      match readings.outcome with
      | .ok => (.ok ⟨encoding.uuidText (record.aggregateID encoding), !present⟩, written)
      | .failed => (.error readings.fault, state)
      | .lost => (.error readings.fault, written)

/-! ## Runs -/

/-- One step: a call, or a step of a drainer or an expirer of the billing outbox. -/
inductive EventLabel where
  | record (record : Record) (readings : RecordReadings)
  | drain (drainer : Nat) (action : Outbox.DrainAction)
  | expire (expirer : Nat) (action : Outbox.ExpireAction)
  deriving DecidableEq, Repr

def eventStep (deployment : Outbox.Deployment) (state : Outbox.State) :
    EventLabel → Option Outbox.State
  | .record record readings => some (record.execute encoding readings state).2
  | .drain drainer action => Outbox.drainStep deployment state drainer action
  | .expire expirer action => Outbox.expireStep deployment state expirer action

/-- No two rows that were ever created share their event type and aggregate. -/
def OneEventPerKey (state : Outbox.State) : Prop := (state.committed.map keyOf).Nodup

instance (state : Outbox.State) : Decidable (OneEventPerKey state) :=
  inferInstanceAs (Decidable (state.committed.map keyOf).Nodup)

/-- A call does not come after the row of an earlier call under its key was deleted: a key
that was written before is still found in the table. -/
def Anchored (state : Outbox.State) : EventLabel → Prop
  | .record record readings => record.validate = none → readings.outcome ≠ .failed →
      record.key encoding ∈ state.committed.map keyOf →
      record.key encoding ∈ state.table.map fun stored => keyOf stored.row
  | .drain _ _ | .expire _ _ => True

section Step

variable {encoding} {deployment : Outbox.Deployment} {state next : Outbox.State}

theorem hasOutboxEventForAggregate_iff {key : String × UUID} {table : List Outbox.Stored} :
    hasOutboxEventForAggregate key table = true ↔
      key ∈ table.map fun stored => keyOf stored.row := by
  simp [hasOutboxEventForAggregate]

theorem committed_drainStep {drainer : Nat} {action : Outbox.DrainAction}
    (taken : Outbox.drainStep deployment state drainer action = some next) :
    next.committed = state.committed := by
  cases Outbox.drainStep_cases taken <;> rfl

theorem committed_expireStep {expirer : Nat} {action : Outbox.ExpireAction}
    (taken : Outbox.expireStep deployment state expirer action = some next) :
    next.committed = state.committed := by
  rcases Outbox.expireStep_cases taken with ⟨table, expirers, rfl, -⟩
  rfl

/-- A call creates a key if it is valid, commits and does not find the key. -/
theorem committed_execute (record : Record) (readings : RecordReadings)
    (state : Outbox.State) :
    (record.execute encoding readings state).2.committed.map keyOf =
      if record.validate = none ∧ readings.outcome ≠ .failed ∧
          record.key encoding ∉ state.table.map (fun stored => keyOf stored.row) then
        state.committed.map keyOf ++ [record.key encoding]
      else state.committed.map keyOf := by
  simp only [← hasOutboxEventForAggregate_iff]
  cases invalid : record.validate with
  | some message => simp [Record.execute, invalid]
  | none =>
      cases present : hasOutboxEventForAggregate (record.key encoding) state.table with
      | true =>
          cases outcome : readings.outcome with
          | ok | failed | lost => simp [Record.execute, invalid, present, outcome]
      | false =>
          have row : keyOf (record.row encoding readings state.nextID) =
              record.key encoding := rfl
          cases outcome : readings.outcome with
          | ok | failed | lost => simp [Record.execute, invalid, present, outcome, row]

/-- A step keeps the keys distinct exactly when it is anchored. -/
theorem oneEventPerKey_step_iff {label : EventLabel} (one : OneEventPerKey state)
    (taken : eventStep encoding deployment state label = some next) :
    OneEventPerKey next ↔ Anchored encoding state label := by
  cases label with
  | drain drainer action =>
      rw [OneEventPerKey, committed_drainStep taken]
      exact iff_of_true one trivial
  | expire expirer action =>
      rw [OneEventPerKey, committed_expireStep taken]
      exact iff_of_true one trivial
  | record record readings =>
      cases taken
      rw [OneEventPerKey, committed_execute]
      split
      · rename_i written
        rcases written with ⟨valid, commits, absent⟩
        rw [← List.concat_eq_append, List.nodup_concat]
        constructor
        · rintro ⟨fresh, -⟩ _ _ earlier
          exact absurd earlier fresh
        · intro anchored
          exact ⟨fun earlier => absent (anchored valid commits earlier), one⟩
      · rename_i unwritten
        refine iff_of_true one ?_
        intro valid commits _
        by_contra absent
        exact unwritten ⟨valid, commits, absent⟩

end Step

/-- At most one row for each event type and aggregate is ever created exactly when no call
comes after the row of an earlier call under its key was deleted. -/
theorem oneEventPerKey_iff_anchored (encoding : Encoding) (deployment : Outbox.Deployment)
    (schedule : List EventLabel) :
    Throughout (eventStep encoding deployment) OneEventPerKey Outbox.initial schedule ↔
      Meets (eventStep encoding deployment) (Anchored encoding) Outbox.initial schedule := by
  apply throughout_iff_meets
  · intro state label next one taken
    exact oneEventPerKey_step_iff one taken
  · intro state label stuck
    cases label with
    | record record readings => cases stuck
    | drain drainer action => trivial
    | expire expirer action => trivial
  · exact List.nodup_nil

/-! ## Two months in a row -/

/-- The destruction of the key of one partition. -/
def mayDestroyed : Record :=
  .dekDestroyed ⟨2026, 5, "usage_events_2026_05", "platform-billing-v1", 1⟩

/-- `uuid.NewSHA1` on the natural key above. -/
def mayEncoding : Encoding where
  newSHA1 _ _ := 0x37efcdaec111579cabb959600d7d3e19#128
  uuidText _ := "37efcdae-c111-579c-abb9-59600d7d3e19"
  marshal _ := "\x7b\x7d"

/-- The key is destroyed, the event is published, the row is deleted a day later, and the
run of the next month comes across the same partition. -/
def recordedTwice : List EventLabel :=
  [.record mayDestroyed ⟨0, 0, 1, .ok, ""⟩,
    .drain 0 (.begin 1), .drain 0 .lock, .drain 0 .select, .drain 0 .publish,
    .drain 0 .update, .drain 0 (.commit .ok),
    .expire 0 .begin, .expire 0 (.batch 86400000000002 .ok),
    .record mayDestroyed ⟨2592000000000000, 2592000000000000, 2, .ok, ""⟩]

theorem recordedTwice_two_events :
    ¬ Throughout (eventStep mayEncoding Outbox.Deployment.default) OneEventPerKey
      Outbox.initial recordedTwice := by
  intro one
  have last := one recordedTwice [] _ (List.append_nil _).symm rfl
  exact absurd last (by decide)

end GitScale.Billing
