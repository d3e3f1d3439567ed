import GitScale.Billing.Events
import GitScale.Foundation.Visited
import GitScale.Go.UUID
import Mathlib.Data.List.Forall2

/-!
# Partition archives are recorded once

`RecordPartitionArchived` inserts a source row under its natural key and writes the outbox row in
the same transaction.  Unlike the events without a source row, the row that a retry looks for is
never deleted: however calls, retries, lost answers, drainers and expirers interleave, each
partition has one row, one event and one identifier.
-/

namespace GitScale.Billing

open Foundation Go

/-- `RecordPartitionArchivedInput`. -/
structure RecordPartitionArchivedInput where
  year : Int
  month : Int
  partitionName : String
  lakeURI : String
  rowCount : Int
  bytesWritten : Int
  deriving DecidableEq, Repr

/-- `store.PartitionArchive`, a row of `billing.partition_archives`. -/
structure PartitionArchiveRow where
  id : UUID
  year : Int
  month : Int
  partitionName : String
  lakeURI : String
  rowCount : Int
  bytesWritten : Int
  archivedAt : Time
  deriving DecidableEq, Repr

/-- `RecordPartitionArchivedOutput`. -/
structure RecordPartitionArchivedOutput where
  archiveID : String
  created : Bool
  deriving DecidableEq, Repr

/-- `validateInput`. -/
def validateInput (input : RecordPartitionArchivedInput) : Option String :=
  if input.year < 2026 ∨ 2100 < input.year then some "billing: year out of range (2026..2100)"
  else if input.month < 1 ∨ 12 < input.month then some "billing: month out of range (1..12)"
  else if input.partitionName = "" then some "billing: partition_name is empty"
  else if input.lakeURI = "" then some "billing: lake_uri is empty"
  else if input.rowCount < 0 ∨ input.bytesWritten < 0 then
    some "billing: row_count or bytes_written is negative"
  else none

/-- The columns of `UNIQUE (year, month, partition_name)`. -/
def RecordPartitionArchivedInput.key (input : RecordPartitionArchivedInput) : Int × Int × String :=
  (input.year, input.month, input.partitionName)

def PartitionArchiveRow.key (archive : PartitionArchiveRow) : Int × Int × String :=
  (archive.year, archive.month, archive.partitionName)

/-- `EventTypePartitionArchived`. -/
def partitionArchivedType : String := "billing.partition_archived"

/-- The row that the service wants to insert. -/
def candidateArchive (input : RecordPartitionArchivedInput) (id : UUID) (clock : Time) :
    PartitionArchiveRow where
  id := id
  year := input.year
  month := input.month
  partitionName := input.partitionName
  lakeURI := input.lakeURI
  rowCount := input.rowCount
  bytesWritten := input.bytesWritten
  archivedAt := clock

/-- A `TIMESTAMPTZ` keeps microseconds. -/
def timestamptz (instant : Time) : Time := instant / 1000 * 1000

/-- The error for an identifier that is taken. -/
def duplicateArchiveID : String :=
  "postgres: InsertPartitionArchiveIfAbsent: duplicate key value violates unique constraint " ++
    "\"partition_archives_pkey\""

/-- `InsertPartitionArchiveIfAbsent`: the identifier of the row under the natural key, and whether
it is new.  A row with that identifier under another key is an error. -/
def insertPartitionArchiveIfAbsent (candidate : PartitionArchiveRow)
    (archives : List PartitionArchiveRow) :
    Except String ((UUID × Bool) × List PartitionArchiveRow) :=
  match archives.find? fun archive => archive.key = candidate.key with
  | some existing => .ok ((existing.id, false), archives)
  | none =>
      if archives.any fun archive => archive.id = candidate.id then
        .error duplicateArchiveID
      else
        .ok ((candidate.id, true),
          archives ++ [{ candidate with archivedAt := timestamptz candidate.archivedAt }])

/-- The source rows, the billing outbox, and the answers that callers have seen. -/
structure Ledger where
  archives : List PartitionArchiveRow
  outbox : Outbox.State
  replies : List (RecordPartitionArchivedInput × RecordPartitionArchivedOutput)

/-- Empty tables. -/
def Ledger.initial : Ledger := ⟨[], Outbox.initial, []⟩

section Service

variable (encoding : Encoding) (marshal : PartitionArchiveRow → String)

/-- The outbox row of an archive; `marshal` encodes `newPartitionArchivedPayload`. -/
def archivedRow (readings : RecordReadings) (archive : PartitionArchiveRow) (id : Nat) :
    Outbox.OutboxRow where
  id := id
  eventID := readings.eventID
  aggregateType := "partition_archive"
  aggregateID := archive.id
  eventType := partitionArchivedType
  payload := marshal archive
  createdAt := readings.startedAt

/-- The transaction of `RecordPartitionArchived`, as it would commit. -/
def archiveTx (input : RecordPartitionArchivedInput) (freshID : UUID) (readings : RecordReadings)
    (ledger : Ledger) : Except String (RecordPartitionArchivedOutput × Ledger) :=
  let candidate := candidateArchive input freshID readings.clock
  match insertPartitionArchiveIfAbsent candidate ledger.archives with
  | .error message => .error message
  | .ok ((id, false), _) => .ok (⟨formatUUID id, false⟩, ledger)
  | .ok ((id, true), archives) =>
      let row := archivedRow marshal readings { candidate with id := id } ledger.outbox.nextID
      .ok (⟨formatUUID id, true⟩,
        { ledger with
          archives := archives
          outbox := { ledger.outbox with
            nextID := ledger.outbox.nextID + 1
            table := ledger.outbox.table ++ [⟨row, none⟩]
            committed := ledger.outbox.committed ++ [row] } })

/-- `PostgresService.RecordPartitionArchived`. -/
def recordPartitionArchived (input : RecordPartitionArchivedInput) (freshID : UUID)
    (readings : RecordReadings) (ledger : Ledger) :
    Except String RecordPartitionArchivedOutput × Ledger :=
  match validateInput input with
  | some message => (.error message, ledger)
  | none =>
      match archiveTx marshal input freshID readings ledger with
      | .error message => (.error message, ledger)
      | .ok (output, written) =>
          match readings.outcome with
          | .ok => (.ok output, written)
          | .failed => (.error readings.fault, ledger)
          | .lost => (.error readings.fault, written)

/-- One step: a call, or a step of the other events, drainers and expirers of the same outbox. -/
inductive LedgerLabel where
  | archive (input : RecordPartitionArchivedInput) (freshID : UUID) (readings : RecordReadings)
  | other (label : EventLabel)
  deriving DecidableEq, Repr

def ledgerStep (deployment : Outbox.Deployment) (ledger : Ledger) : LedgerLabel → Option Ledger
  | .archive input freshID readings =>
      let result := recordPartitionArchived marshal input freshID readings ledger
      match result.1 with
      | .ok output =>
          some { result.2 with replies := result.2.replies ++ [(input, output)] }
      | .error _ => some result.2
  | .other label =>
      (eventStep encoding deployment ledger.outbox label).map fun outbox =>
        { ledger with outbox := outbox }

/-! ## What a step does -/

/-- The effects of a step on the source rows, on the rows ever committed to the outbox, and on the
answers. -/
inductive LedgerEffect (marshal : PartitionArchiveRow → String) (ledger next : Ledger) : Prop where
  | quiet (archives : next.archives = ledger.archives) (replies : next.replies = ledger.replies)
      (committed : next.outbox.committed.filter (·.eventType = partitionArchivedType) =
        ledger.outbox.committed.filter (·.eventType = partitionArchivedType))
  | found (input : RecordPartitionArchivedInput) (existing : PartitionArchiveRow)
      (present : existing ∈ ledger.archives) (same : existing.key = input.key)
      (unchanged : next = { ledger with
        replies := ledger.replies ++ [(input, ⟨formatUUID existing.id, false⟩)] })
  | created (input : RecordPartitionArchivedInput) (id : UUID) (readings : RecordReadings)
      (number : Nat) (absent : input.key ∉ ledger.archives.map PartitionArchiveRow.key)
      (archives : next.archives = ledger.archives ++
        [{ candidateArchive input id readings.clock with
          archivedAt := timestamptz readings.clock }])
      (committed : next.outbox.committed = ledger.outbox.committed ++
        [archivedRow marshal readings (candidateArchive input id readings.clock) number])
      (replies : next.replies = ledger.replies ∨
        next.replies = ledger.replies ++ [(input, ⟨formatUUID id, true⟩)])

theorem Record.eventType_ne (record : Record) : record.eventType ≠ partitionArchivedType := by
  cases record with
  | dekDestroyed input =>
      show "billing.partition_dek_destroyed" ≠ "billing.partition_archived"
      decide
  | ciJobCompleted input =>
      show "ci.job_completed" ≠ "billing.partition_archived"
      decide

variable {encoding : Encoding} {marshal : PartitionArchiveRow → String}

/-- The other events never look like the event of an archive. -/
theorem filter_committed_execute (record : Record) (readings : RecordReadings)
    (state : Outbox.State) :
    (record.execute encoding readings state).2.committed.filter
        (·.eventType = partitionArchivedType) =
      state.committed.filter (·.eventType = partitionArchivedType) := by
  have row : (record.row encoding readings state.nextID).eventType ≠ partitionArchivedType :=
    record.eventType_ne
  unfold Record.execute
  cases record.validate with
  | some message => rfl
  | none =>
      cases hasOutboxEventForAggregate (record.key encoding) state.table with
      | true => cases readings.outcome <;> rfl
      | false =>
          cases readings.outcome with
          | failed => rfl
          | ok | lost => simp [List.filter_append, row]

/-- The ledger with a new source row and its event. -/
def Ledger.announced (ledger : Ledger) (marshal : PartitionArchiveRow → String)
    (input : RecordPartitionArchivedInput) (id : UUID) (readings : RecordReadings) : Ledger :=
  let candidate := candidateArchive input id readings.clock
  let row := archivedRow marshal readings candidate ledger.outbox.nextID
  { ledger with
    archives := ledger.archives ++ [{ candidate with archivedAt := timestamptz readings.clock }]
    outbox := { ledger.outbox with
      nextID := ledger.outbox.nextID + 1
      table := ledger.outbox.table ++ [⟨row, none⟩]
      committed := ledger.outbox.committed ++ [row] } }

theorem archiveTx_of_found {input : RecordPartitionArchivedInput} {ledger : Ledger}
    {existing : PartitionArchiveRow}
    (found : (ledger.archives.find? fun archive => archive.key = input.key) = some existing)
    (freshID : UUID) (readings : RecordReadings) :
    archiveTx marshal input freshID readings ledger =
      .ok (⟨formatUUID existing.id, false⟩, ledger) := by
  have insert : insertPartitionArchiveIfAbsent (candidateArchive input freshID readings.clock)
      ledger.archives = .ok ((existing.id, false), ledger.archives) := by
    rw [insertPartitionArchiveIfAbsent]
    exact found ▸ rfl
  rw [archiveTx, insert]

theorem archiveTx_of_absent {input : RecordPartitionArchivedInput} {ledger : Ledger}
    (absent : (ledger.archives.find? fun archive => archive.key = input.key) = none)
    {freshID : UUID} (unused : ∀ archive ∈ ledger.archives, archive.id ≠ freshID)
    (readings : RecordReadings) :
    archiveTx marshal input freshID readings ledger =
      .ok (⟨formatUUID freshID, true⟩, ledger.announced marshal input freshID readings) := by
  have fresh : ¬ (ledger.archives.any fun archive => archive.id = freshID) = true := by
    simpa using unused
  have insert : insertPartitionArchiveIfAbsent (candidateArchive input freshID readings.clock)
      ledger.archives = .ok ((freshID, true), ledger.archives ++
        [{ candidateArchive input freshID readings.clock with
          archivedAt := timestamptz readings.clock }]) := by
    rw [insertPartitionArchiveIfAbsent]
    have same : (ledger.archives.find? fun archive =>
        archive.key = (candidateArchive input freshID readings.clock).key) = none := absent
    rw [same]
    exact if_neg fresh
  rw [archiveTx, insert]
  rfl

/-- The transaction fails, finds the row of an earlier call, or writes a row and its event. -/
theorem archiveTx_cases (input : RecordPartitionArchivedInput) (freshID : UUID)
    (readings : RecordReadings) (ledger : Ledger) :
    (∃ message, archiveTx marshal input freshID readings ledger = .error message) ∨
    (∃ existing ∈ ledger.archives, existing.key = input.key ∧
      archiveTx marshal input freshID readings ledger =
        .ok (⟨formatUUID existing.id, false⟩, ledger)) ∨
    (input.key ∉ ledger.archives.map PartitionArchiveRow.key ∧
      archiveTx marshal input freshID readings ledger =
        .ok (⟨formatUUID freshID, true⟩, ledger.announced marshal input freshID readings)) := by
  cases found : ledger.archives.find? fun archive => archive.key = input.key with
  | some existing =>
      refine .inr (.inl ⟨existing, List.mem_of_find?_eq_some found, ?_, ?_⟩)
      · simpa using List.find?_some found
      · exact archiveTx_of_found found freshID readings
  | none =>
      have absent : input.key ∉ ledger.archives.map PartitionArchiveRow.key := by
        intro occurs
        rcases List.mem_map.mp occurs with ⟨archive, member, same⟩
        exact List.find?_eq_none.mp found archive member (by simpa using same)
      by_cases duplicate : ∃ archive ∈ ledger.archives, archive.id = freshID
      · refine .inl ⟨duplicateArchiveID, ?_⟩
        have taken : (ledger.archives.any fun archive => archive.id = freshID) = true := by
          simpa using duplicate
        have insert : insertPartitionArchiveIfAbsent
            (candidateArchive input freshID readings.clock) ledger.archives =
              .error duplicateArchiveID := by
          rw [insertPartitionArchiveIfAbsent]
          have same : (ledger.archives.find? fun archive =>
              archive.key = (candidateArchive input freshID readings.clock).key) = none := found
          rw [same]
          exact if_pos taken
        rw [archiveTx, insert]
      · refine .inr (.inr ⟨absent, archiveTx_of_absent found ?_ readings⟩)
        intro archive member same
        exact duplicate ⟨archive, member, same⟩

theorem effect_archive {deployment : Outbox.Deployment} {ledger next : Ledger}
    {input : RecordPartitionArchivedInput} {freshID : UUID} {readings : RecordReadings}
    (taken : ledgerStep encoding marshal deployment ledger (.archive input freshID readings) =
      some next) : LedgerEffect marshal ledger next := by
  rw [ledgerStep, recordPartitionArchived] at taken
  cases invalid : validateInput input with
  | some message =>
      rw [invalid] at taken
      rcases Option.some.inj taken with rfl
      exact .quiet rfl rfl rfl
  | none =>
      rw [invalid] at taken
      dsimp only at taken
      rcases archiveTx_cases input freshID readings ledger with
        ⟨message, fails⟩ | ⟨existing, present, same, finds⟩ | ⟨absent, creates⟩
      · rw [fails] at taken
        rcases Option.some.inj taken with rfl
        exact .quiet rfl rfl rfl
      · rw [finds] at taken
        cases outcome : readings.outcome with
        | ok =>
            simp only [outcome, Option.some.injEq] at taken
            exact .found input existing present same taken.symm
        | failed | lost =>
            simp only [outcome, Option.some.injEq] at taken
            subst taken
            exact .quiet rfl rfl rfl
      · rw [creates] at taken
        cases outcome : readings.outcome with
        | failed =>
            simp only [outcome, Option.some.injEq] at taken
            subst taken
            exact .quiet rfl rfl rfl
        | ok =>
            simp only [outcome, Option.some.injEq] at taken
            subst taken
            exact .created input freshID readings _ absent rfl rfl (.inr rfl)
        | lost =>
            simp only [outcome, Option.some.injEq] at taken
            subst taken
            exact .created input freshID readings _ absent rfl rfl (.inl rfl)

theorem effect_of_ledgerStep {deployment : Outbox.Deployment} {ledger next : Ledger}
    {label : LedgerLabel}
    (taken : ledgerStep encoding marshal deployment ledger label = some next) :
    LedgerEffect marshal ledger next := by
  cases label with
  | archive input freshID readings => exact effect_archive taken
  | other label =>
      rcases Option.map_eq_some_iff.mp taken with ⟨outbox, moved, rfl⟩
      refine .quiet rfl rfl ?_
      cases label with
      | record record readings =>
          rcases Option.some.inj moved with rfl
          exact filter_committed_execute record readings ledger.outbox
      | drain drainer action => rw [committed_drainStep moved]
      | expire expirer action => rw [committed_expireStep moved]

/-! ## Whole runs -/

/-- The outbox row says what the source row says, with the clock reading that the column rounds. -/
def Announces (marshal : PartitionArchiveRow → String) (archive : PartitionArchiveRow)
    (row : Outbox.OutboxRow) : Prop :=
  row.aggregateID = archive.id ∧ ∃ clock, archive.archivedAt = timestamptz clock ∧
    row.payload = marshal { archive with archivedAt := clock }

/-- What holds of the ledger at every point of a run. -/
structure RecordedOnce (marshal : PartitionArchiveRow → String) (ledger : Ledger) : Prop where
  keys : (ledger.archives.map PartitionArchiveRow.key).Nodup
  events : List.Forall₂ (Announces marshal) ledger.archives
    (ledger.outbox.committed.filter (·.eventType = partitionArchivedType))
  replies : ∀ reply ∈ ledger.replies, ∃ archive ∈ ledger.archives,
    archive.key = reply.1.key ∧ reply.2.archiveID = formatUUID archive.id
  created : ((ledger.replies.filter (·.2.created)).map (·.1.key)).Nodup

theorem recordedOnce_initial : RecordedOnce marshal Ledger.initial where
  keys := List.nodup_nil
  events := .nil
  replies := by simp [Ledger.initial]
  created := List.nodup_nil

theorem RecordedOnce.step {ledger next : Ledger} (once : RecordedOnce marshal ledger)
    (effect : LedgerEffect marshal ledger next) : RecordedOnce marshal next := by
  cases effect with
  | quiet archives replies committed =>
      refine ⟨?_, ?_, ?_, ?_⟩
      · rw [archives]
        exact once.keys
      · rw [archives, committed]
        exact once.events
      · rw [archives, replies]
        exact once.replies
      · rw [replies]
        exact once.created
  | found input existing present same unchanged =>
      subst unchanged
      refine ⟨once.keys, once.events, ?_, ?_⟩
      · intro reply member
        rcases List.mem_append.mp member with member | member
        · exact once.replies reply member
        · rcases List.mem_singleton.mp member with rfl
          exact ⟨existing, present, same, rfl⟩
      · simpa using once.created
  | created input id readings number absent archives committed replies =>
      have event : (archivedRow marshal readings (candidateArchive input id readings.clock)
          number).eventType = partitionArchivedType := rfl
      have fresh : input.key ∉ (ledger.replies.filter (·.2.created)).map (·.1.key) := by
        intro occurs
        rcases List.mem_map.mp occurs with ⟨reply, member, same⟩
        rcases once.replies reply (List.mem_filter.mp member).1 with ⟨archive, present, key, -⟩
        exact absent (List.mem_map.mpr ⟨archive, present, key.trans same⟩)
      refine ⟨?_, ?_, ?_, ?_⟩
      · rw [archives, List.map_append, List.map_singleton, ← List.concat_eq_append,
          List.nodup_concat]
        exact ⟨absent, once.keys⟩
      · rw [archives, committed, List.filter_append]
        apply List.rel_append once.events
        simp only [event, List.filter_cons, List.filter_nil, decide_true, if_true]
        exact .cons ⟨rfl, readings.clock, rfl, rfl⟩ .nil
      · have kept : ∀ reply ∈ ledger.replies, ∃ archive ∈ next.archives,
            archive.key = reply.1.key ∧ reply.2.archiveID = formatUUID archive.id := by
          intro reply member
          rcases once.replies reply member with ⟨archive, present, facts⟩
          exact ⟨archive, by rw [archives]; exact List.mem_append_left _ present, facts⟩
        intro reply member
        rcases replies with same | more
        · exact kept reply (same ▸ member)
        · rcases List.mem_append.mp (more ▸ member) with member | member
          · exact kept reply member
          · rcases List.mem_singleton.mp member with rfl
            let archive : PartitionArchiveRow := { candidateArchive input id readings.clock with
              archivedAt := timestamptz readings.clock }
            have present : archive ∈ next.archives := by
              rw [archives]
              exact List.mem_append_right _ List.mem_cons_self
            exact ⟨archive, present, rfl, rfl⟩
      · rcases replies with same | more
        · rw [same]
          exact once.created
        · rw [more, List.filter_append, List.map_append]
          simp only [List.filter_cons, List.filter_nil, if_true, List.map_cons, List.map_nil]
          rw [← List.concat_eq_append, List.nodup_concat]
          exact ⟨fresh, once.created⟩

theorem LedgerEffect.archives_prefix {ledger next : Ledger}
    (effect : LedgerEffect marshal ledger next) : ledger.archives <+: next.archives := by
  cases effect with
  | quiet archives replies committed => rw [archives]
  | found input existing present same unchanged => rw [unchanged]
  | created input id readings number absent archives committed replies =>
      rw [archives]
      exact List.prefix_append _ _

/-- The ledger is in order, and has kept every source row that it ever had. -/
def RecordedSince (marshal : PartitionArchiveRow → String) (seen : Ledger → Prop)
    (ledger : Ledger) : Prop :=
  RecordedOnce marshal ledger ∧ ∀ reached, seen reached → reached.archives <+: ledger.archives

/-- In every run, with any interleaving of calls, lost answers, drainers and expirers: each
partition has one source row, each source row has exactly one event and the event announces it,
every caller is told the identifier of that row, at most one is told that it created it, and no
source row is ever changed or removed. -/
theorem recordPartitionArchived_once (encoding : Encoding) (marshal : PartitionArchiveRow → String)
    (deployment : Outbox.Deployment) (schedule : List LedgerLabel) (final : Ledger)
    (completed : run (ledgerStep encoding marshal deployment) Ledger.initial schedule =
      some final) :
    RecordedSince marshal
      (Visited (ledgerStep encoding marshal deployment) Ledger.initial schedule) final := by
  have guarded : Meets (ledgerStep encoding marshal deployment) (fun _ _ => True) Ledger.initial
      schedule := meets_of_forall schedule Ledger.initial fun _ _ => trivial
  apply invariant_of_visited _ _ schedule final guarded completed
  · refine ⟨recordedOnce_initial, ?_⟩
    rintro reached rfl
    exact List.prefix_rfl
  · intro seen state label next _ _ holds taken
    have effect := effect_of_ledgerStep taken
    refine ⟨holds.1.step effect, ?_⟩
    rintro reached (earlier | rfl)
    · exact (holds.2 reached earlier).trans effect.archives_prefix
    · exact List.prefix_rfl

/-- The first answer is lost, the retry finds the row, the event is published and its outbox row
deleted, and a later retry still finds the source row. -/
def archivedAndRetried : List LedgerLabel :=
  let may : RecordPartitionArchivedInput :=
    ⟨2026, 5, "usage_events_2026_05", "s3://lake/2026/05", 10, 2048⟩
  [.archive may 7 ⟨1500, 0, 1, .lost, "connection reset"⟩, .archive may 8 ⟨2500, 1, 2, .ok, ""⟩,
    .other (.drain 0 (.begin 1)), .other (.drain 0 .lock), .other (.drain 0 .select),
    .other (.drain 0 .publish), .other (.drain 0 .update), .other (.drain 0 (.commit .ok)),
    .other (.expire 0 .begin), .other (.expire 0 (.batch 86400000000002 .ok)),
    .archive may 9 ⟨86400000000500, 3, 3, .ok, ""⟩]

theorem recordedSince_archivedAndRetried :
    ∃ final, run (ledgerStep mayEncoding PartitionArchiveRow.lakeURI Outbox.Deployment.default)
        Ledger.initial archivedAndRetried = some final ∧
      final.outbox.table = [] ∧ final.replies.map (·.2.created) = [false, false] ∧
      RecordedSince PartitionArchiveRow.lakeURI
        (Visited (ledgerStep mayEncoding PartitionArchiveRow.lakeURI Outbox.Deployment.default)
          Ledger.initial archivedAndRetried) final := by
  refine ⟨_, rfl, rfl, rfl, ?_⟩
  exact recordPartitionArchived_once mayEncoding PartitionArchiveRow.lakeURI
    Outbox.Deployment.default archivedAndRetried _ rfl

end Service

end GitScale.Billing
