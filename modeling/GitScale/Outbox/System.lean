import GitScale.Basic
import GitScale.Foundation.Transition
import Mathlib.Data.List.Sort
import Mathlib.Logic.Function.Basic

/-!
# One outbox table and everything that touches it

Producer transactions insert rows through `WriteOutbox`, any number of
`OutboxConsumer` replicas run `drainBatch`, and any number of `Expirer` runs
delete processed rows.  A label is one statement of one process, so a schedule is
an interleaving.  Statements are atomic, an aborted transaction has no effect, and
every statement may fail, lose its answer, or be cut off by a crash.
-/

namespace GitScale.Outbox

/-- `outbox.OutboxRow`.  `createdAt` is the column default `now()`, the start of
the inserting transaction, and `id` is a sequence value. -/
structure OutboxRow where
  id : Nat
  eventID : UUID
  aggregateType : String
  aggregateID : UUID
  eventType : String
  payload : String
  createdAt : Time
  deriving DecidableEq, Repr

/-- A committed row of the table, with its `processed_at` column. -/
structure Stored where
  row : OutboxRow
  processedAt : Option Time
  deriving DecidableEq, Repr

/-- `drainResult`. -/
inductive DrainResult where
  | ok
  | lockMissed
  | empty
  | publishError
  | updateError
  deriving DecidableEq, Repr

/-- Where a replica stands in `drainBatch`.  `now` is the start of its
transaction, and `idle` keeps the result of the last cycle. -/
inductive Phase where
  | idle (last : Option DrainResult)
  | began (now : Time)
  | locked (now : Time)
  | selected (now : Time) (batch : List OutboxRow)
  | published (now : Time) (batch : List OutboxRow)
  | updated (now : Time) (batch : List OutboxRow)
  deriving DecidableEq, Repr

namespace Phase

/-- The batch in the hands of the replica. -/
def batch : Phase → List OutboxRow
  | idle _ | began _ | locked _ => []
  | selected _ batch | published _ batch | updated _ batch => batch

/-- `PublishBatch` has returned nil for the batch. -/
def acked : Phase → Bool
  | published _ _ | updated _ _ => true
  | idle _ | began _ | locked _ | selected _ _ => false

/-- The select of the cycle has returned rows. -/
def taken : Phase → Bool
  | selected _ _ | published _ _ | updated _ _ => true
  | idle _ | began _ | locked _ => false

/-- The cycle has won the advisory lock. -/
def holds : Phase → Bool
  | locked _ | selected _ _ | published _ _ | updated _ _ => true
  | idle _ | began _ => false

end Phase

/-- A replica.  `alive` says that the server still holds its transaction open; a
replica whose session was lost finds out at its next statement. -/
structure Drainer where
  phase : Phase
  alive : Bool
  deriving DecidableEq, Repr

/-- An open producer transaction: its start and the rows it inserted. -/
structure Producing where
  startedAt : Time
  inserted : List OutboxRow
  deriving DecidableEq, Repr

/-- The arguments of `WriteOutbox`, with the event id drawn for the row. -/
structure Event where
  eventID : UUID
  aggregateType : String
  aggregateID : UUID
  eventType : String
  payload : String
  deriving DecidableEq, Repr

/-- Per-process settings, as `NewOutboxConsumer` and `NewExpirer` accept them. -/
structure Deployment where
  batchSize : Nat → Nat
  ttl : Nat → Time
  expireBatchSize : Nat → Nat
  batchSize_pos : ∀ drainer, 0 < batchSize drainer
  ttl_pos : ∀ expirer, 0 < ttl expirer
  expireBatchSize_pos : ∀ expirer, 0 < expireBatchSize expirer

/-- `defaultBatchSize` for every replica, and the defaults that `NewExpirer` fills
in: a day and ten thousand rows. -/
def Deployment.default : Deployment where
  batchSize _ := 100
  ttl _ := 86400000000000
  expireBatchSize _ := 10000
  batchSize_pos _ := by decide
  ttl_pos _ := by decide
  expireBatchSize_pos _ := by decide

/-- The database, the processes, and three logs: the rows in the order in which
their transactions committed, the messages in the order in which Kafka received
them, and the batches for which `PublishBatch` returned nil.  `expirers` holds
the running total of every `Expire` call in progress. -/
structure State where
  table : List Stored
  nextID : Nat
  advisory : Option Nat
  rowLocks : List (Nat × Nat)
  producers : Nat → Option Producing
  drainers : Nat → Drainer
  expirers : Nat → Option Nat
  committed : List OutboxRow
  kafka : List OutboxRow
  published : List (List OutboxRow)

/-- An empty table and no process at work. -/
def initial : State where
  table := []
  nextID := 1
  advisory := none
  rowLocks := []
  producers _ := none
  drainers _ := ⟨.idle none, false⟩
  expirers _ := none
  committed := []
  kafka := []
  published := []

/-- How a statement ends: with success, with an error and no effect, or with its
effect but an error in place of the answer. -/
inductive Outcome where
  | ok
  | failed
  | lost
  deriving DecidableEq, Repr

/-- The steps of a producer transaction. -/
inductive ProduceAction where
  | begin (now : Time)
  | insert (event : Event)
  | commit
  | abort
  deriving DecidableEq, Repr

/-- The statements of `drainBatch` and how they end.  A `PublishBatch` call that
returns an error may still have written some of its messages. -/
inductive DrainAction where
  | begin (now : Time)
  | lock
  | lockMissed
  | lockError
  | select
  | selectError
  | publish
  | publishError (written : List OutboxRow)
  | update
  | updateError
  | commit (outcome : Outcome)
  | crash
  | sessionLost
  deriving DecidableEq, Repr

/-- The steps of an `Expire` call. -/
inductive ExpireAction where
  | begin
  | batch (now : Time) (outcome : Outcome)
  | crash
  deriving DecidableEq, Repr

/-- One step of one process. -/
inductive Label where
  | produce (producer : Nat) (action : ProduceAction)
  | drain (drainer : Nat) (action : DrainAction)
  | expire (expirer : Nat) (action : ExpireAction)
  deriving DecidableEq, Repr

/-! ## Producers -/

/-- The row that an insert of `event` creates. -/
def rowOf (event : Event) (id : Nat) (createdAt : Time) : OutboxRow where
  id := id
  eventID := event.eventID
  aggregateType := event.aggregateType
  aggregateID := event.aggregateID
  eventType := event.eventType
  payload := event.payload
  createdAt := createdAt

/-- `WriteOutbox` inside an open transaction.  The sequence value is taken even if
the transaction later aborts. -/
def writeOutbox (state : State) (producer : Nat) (event : Event) : Option State :=
  match state.producers producer with
  | none => none
  | some transaction =>
      let row := rowOf event state.nextID transaction.startedAt
      some { state with
        nextID := state.nextID + 1
        producers := Function.update state.producers producer
          (some { transaction with inserted := transaction.inserted ++ [row] }) }

/-- The steps of a producer transaction. -/
def produceStep (state : State) (producer : Nat) : ProduceAction → Option State
  | .begin now =>
      match state.producers producer with
      | none =>
          some { state with
            producers := Function.update state.producers producer (some ⟨now, []⟩) }
      | some _ => none
  | .insert event => writeOutbox state producer event
  | .commit =>
      match state.producers producer with
      | none => none
      | some transaction =>
          some { state with
            table := state.table ++ transaction.inserted.map fun row => ⟨row, none⟩
            committed := state.committed ++ transaction.inserted
            producers := Function.update state.producers producer none }
  | .abort =>
      some { state with producers := Function.update state.producers producer none }

/-- Everything that one step of a producer can do. -/
inductive ProduceStep (state : State) (producer : Nat) :
    ProduceAction → State → Prop where
  | begin (now : Time) (idle : state.producers producer = none) :
      ProduceStep state producer (.begin now)
        { state with
          producers := Function.update state.producers producer (some ⟨now, []⟩) }
  | insert (event : Event) (transaction : Producing)
      (running : state.producers producer = some transaction) :
      ProduceStep state producer (.insert event)
        { state with
          nextID := state.nextID + 1
          producers := Function.update state.producers producer
            (some { transaction with
              inserted := transaction.inserted ++
                [rowOf event state.nextID transaction.startedAt] }) }
  | commit (transaction : Producing)
      (running : state.producers producer = some transaction) :
      ProduceStep state producer .commit
        { state with
          table := state.table ++ transaction.inserted.map fun row => ⟨row, none⟩
          committed := state.committed ++ transaction.inserted
          producers := Function.update state.producers producer none }
  | abort :
      ProduceStep state producer .abort
        { state with producers := Function.update state.producers producer none }

theorem produceStep_cases {state next : State} {producer : Nat} {action : ProduceAction}
    (taken : produceStep state producer action = some next) :
    ProduceStep state producer action next := by
  cases running : state.producers producer with
  | none =>
      cases action with
      | begin now =>
          simp only [produceStep, running, Option.some.injEq] at taken
          subst taken
          exact .begin now running
      | insert event => simp [produceStep, writeOutbox, running] at taken
      | commit => simp [produceStep, running] at taken
      | abort =>
          cases taken
          exact .abort
  | some transaction =>
      cases action with
      | begin now => simp [produceStep, running] at taken
      | insert event =>
          simp only [produceStep, writeOutbox, running, Option.some.injEq] at taken
          subst taken
          exact .insert event transaction running
      | commit =>
          simp only [produceStep, running, Option.some.injEq] at taken
          subst taken
          exact .commit transaction running
      | abort =>
          cases taken
          exact .abort

/-! ## Replicas -/

/-- The order of `ORDER BY created_at, id`. -/
def OutboxRow.Before (left right : OutboxRow) : Prop :=
  left.createdAt < right.createdAt ∨
    (left.createdAt = right.createdAt ∧ left.id ≤ right.id)

instance : DecidableRel OutboxRow.Before := fun left right =>
  inferInstanceAs (Decidable (left.createdAt < right.createdAt ∨
    (left.createdAt = right.createdAt ∧ left.id ≤ right.id)))

/-- The rows that `SELECT … WHERE processed_at IS NULL … FOR UPDATE SKIP LOCKED`
may take. -/
def candidates (state : State) : List OutboxRow :=
  (state.table.filter fun stored =>
    stored.processedAt.isNone &&
      !(state.rowLocks.map Prod.fst).contains stored.row.id).map Stored.row

/-- The batch that the select of `drainBatch` returns. -/
def selectBatch (limit : Nat) (state : State) : List OutboxRow :=
  ((candidates state).insertionSort OutboxRow.Before).take limit

/-- Move a replica to another phase of its open transaction. -/
def setPhase (state : State) (drainer : Nat) (phase : Phase) : State :=
  { state with
    drainers := Function.update state.drainers drainer
      ⟨phase, (state.drainers drainer).alive⟩ }

/-- The server drops every lock of a replica's transaction. -/
def unlock (state : State) (drainer : Nat) : State :=
  { state with
    advisory := if state.advisory = some drainer then none else state.advisory
    rowLocks := state.rowLocks.filter fun lock => lock.2 ≠ drainer }

/-- The replica's transaction is over and its cycle returns `result`. -/
def release (state : State) (drainer : Nat) (result : Option DrainResult) : State :=
  { unlock state drainer with
    drainers := Function.update state.drainers drainer ⟨.idle result, false⟩ }

/-- `UPDATE … SET processed_at = now() WHERE id = ANY(ids)`. -/
def markProcessed (now : Time) (batch : List OutboxRow) (table : List Stored) :
    List Stored :=
  table.map fun stored =>
    if (batch.map OutboxRow.id).contains stored.row.id then
      { stored with processedAt := some now }
    else stored

/-- The rows of one aggregate, in the order of the list. -/
def ofAggregate (aggregateID : UUID) (rows : List OutboxRow) : List OutboxRow :=
  rows.filter fun row => row.aggregateID = aggregateID

/-- What a failed `PublishBatch` may have written: messages of the batch, and for
each key, which names one partition, the first ones. -/
def partialWrite (written batch : List OutboxRow) : Bool :=
  (written.all fun row => batch.contains row) &&
    batch.all fun row =>
      (ofAggregate row.aggregateID written).isPrefixOf
        (ofAggregate row.aggregateID batch)

/-- The steps of `drainBatch`.  A replica whose session was lost cannot run a
statement, but it can still publish the batch in its hands. -/
def drainStep (deployment : Deployment) (state : State) (drainer : Nat) :
    DrainAction → Option State
  | .begin now =>
      match state.drainers drainer with
      | ⟨.idle _, _⟩ =>
          some { state with
            drainers := Function.update state.drainers drainer ⟨.began now, true⟩ }
      | _ => none
  | .lock =>
      match state.drainers drainer, state.advisory with
      | ⟨.began now, true⟩, none =>
          some { setPhase state drainer (.locked now) with advisory := some drainer }
      | _, _ => none
  | .lockMissed =>
      match state.drainers drainer with
      | ⟨.began _, _⟩ => some (release state drainer (some .lockMissed))
      | _ => none
  | .lockError =>
      match state.drainers drainer with
      | ⟨.began _, _⟩ => some (release state drainer (some .publishError))
      | _ => none
  | .select =>
      match state.drainers drainer with
      | ⟨.locked now, true⟩ =>
          let batch := selectBatch (deployment.batchSize drainer) state
          if batch.isEmpty then some (release state drainer (some .empty))
          else
            some { setPhase state drainer (.selected now batch) with
              rowLocks := state.rowLocks ++ batch.map fun row => (row.id, drainer) }
      | _ => none
  | .selectError =>
      match state.drainers drainer with
      | ⟨.locked _, _⟩ => some (release state drainer (some .publishError))
      | _ => none
  | .publish =>
      match state.drainers drainer with
      | ⟨.selected now batch, _⟩ =>
          some { setPhase state drainer (.published now batch) with
            kafka := state.kafka ++ batch
            published := state.published ++ [batch] }
      | _ => none
  | .publishError written =>
      match state.drainers drainer with
      | ⟨.selected _ batch, _⟩ =>
          if partialWrite written batch then
            some { release state drainer (some .publishError) with
              kafka := state.kafka ++ written }
          else none
      | _ => none
  | .update =>
      match state.drainers drainer with
      | ⟨.published now batch, true⟩ =>
          some (setPhase state drainer (.updated now batch))
      | _ => none
  | .updateError =>
      match state.drainers drainer with
      | ⟨.published _ _, _⟩ => some (release state drainer (some .updateError))
      | _ => none
  | .commit .failed =>
      match state.drainers drainer with
      | ⟨.updated _ _, _⟩ => some (release state drainer (some .updateError))
      | _ => none
  | .commit outcome =>
      match state.drainers drainer with
      | ⟨.updated now batch, true⟩ =>
          let result := if outcome = .ok then DrainResult.ok else .updateError
          some { release state drainer (some result) with
            table := markProcessed now batch state.table }
      | _ => none
  | .crash => some (release state drainer none)
  | .sessionLost =>
      some { unlock state drainer with
        drainers := Function.update state.drainers drainer
          ⟨(state.drainers drainer).phase, false⟩ }

/-- Everything that one step of `drainBatch` can do.  Errors, a missed lock, an
empty batch and a crash all end the cycle without an effect on the table. -/
inductive DrainStep (deployment : Deployment) (state : State) (drainer : Nat) :
    State → Prop where
  | begin (now : Time) (last : Option DrainResult) (alive : Bool)
      (replica : state.drainers drainer = ⟨.idle last, alive⟩) :
      DrainStep deployment state drainer
        { state with
          drainers := Function.update state.drainers drainer ⟨.began now, true⟩ }
  | lock (now : Time) (replica : state.drainers drainer = ⟨.began now, true⟩)
      (free : state.advisory = none) :
      DrainStep deployment state drainer
        { setPhase state drainer (.locked now) with advisory := some drainer }
  | release (result : Option DrainResult) :
      DrainStep deployment state drainer (release state drainer result)
  | select (now : Time) (replica : state.drainers drainer = ⟨.locked now, true⟩) :
      DrainStep deployment state drainer
        { setPhase state drainer
            (.selected now (selectBatch (deployment.batchSize drainer) state)) with
          rowLocks := state.rowLocks ++
            (selectBatch (deployment.batchSize drainer) state).map
              fun row => (row.id, drainer) }
  | publish (now : Time) (batch : List OutboxRow) (alive : Bool)
      (replica : state.drainers drainer = ⟨.selected now batch, alive⟩) :
      DrainStep deployment state drainer
        { setPhase state drainer (.published now batch) with
          kafka := state.kafka ++ batch
          published := state.published ++ [batch] }
  | publishError (now : Time) (batch written : List OutboxRow) (alive : Bool)
      (replica : state.drainers drainer = ⟨.selected now batch, alive⟩)
      (partially : partialWrite written batch) :
      DrainStep deployment state drainer
        { release state drainer (some .publishError) with
          kafka := state.kafka ++ written }
  | update (now : Time) (batch : List OutboxRow)
      (replica : state.drainers drainer = ⟨.published now batch, true⟩) :
      DrainStep deployment state drainer
        (setPhase state drainer (.updated now batch))
  | commit (now : Time) (batch : List OutboxRow) (result : DrainResult)
      (replica : state.drainers drainer = ⟨.updated now batch, true⟩) :
      DrainStep deployment state drainer
        { release state drainer (some result) with
          table := markProcessed now batch state.table }
  | sessionLost :
      DrainStep deployment state drainer
        { unlock state drainer with
          drainers := Function.update state.drainers drainer
            ⟨(state.drainers drainer).phase, false⟩ }

theorem drainStep_cases {deployment : Deployment} {state next : State} {drainer : Nat}
    {action : DrainAction}
    (taken : drainStep deployment state drainer action = some next) :
    DrainStep deployment state drainer next := by
  cases replica : state.drainers drainer with
  | mk phase alive =>
  cases action with
  | begin now =>
      simp only [drainStep, replica] at taken
      split at taken
      · rename_i last flag equal
        cases equal
        cases taken
        exact .begin now last alive replica
      · cases taken
  | lock =>
      simp only [drainStep, replica] at taken
      split at taken
      · rename_i now equal free
        cases equal
        cases taken
        exact .lock now replica free
      · cases taken
  | lockMissed | lockError | selectError | updateError =>
      simp only [drainStep, replica] at taken
      split at taken
      · cases taken
        exact .release _
      · cases taken
  | select =>
      simp only [drainStep, replica] at taken
      split at taken
      · rename_i now equal
        cases equal
        split at taken
        · cases taken
          exact .release _
        · cases taken
          exact .select now replica
      · cases taken
  | publish =>
      simp only [drainStep, replica] at taken
      split at taken
      · rename_i now batch flag equal
        cases equal
        cases taken
        exact .publish now batch alive replica
      · cases taken
  | publishError written =>
      simp only [drainStep, replica] at taken
      split at taken
      · rename_i now batch flag equal
        cases equal
        split at taken
        · rename_i partially
          cases taken
          exact .publishError now batch written alive replica partially
        · cases taken
      · cases taken
  | update =>
      simp only [drainStep, replica] at taken
      split at taken
      · rename_i now batch equal
        cases equal
        cases taken
        exact .update now batch replica
      · cases taken
  | commit outcome =>
      cases outcome with
      | failed =>
          simp only [drainStep, replica] at taken
          split at taken
          · cases taken
            exact .release _
          · cases taken
      | ok | lost =>
          simp only [drainStep, replica] at taken
          split at taken
          · rename_i now batch equal
            cases equal
            cases taken
            exact .commit now batch _ replica
          · cases taken
  | crash =>
      cases taken
      exact .release none
  | sessionLost =>
      cases taken
      exact .sessionLost

/-! ## Expirers -/

/-- `processed_at IS NOT NULL AND processed_at < now() - ttl`. -/
def expired (now ttl : Time) (stored : Stored) : Bool :=
  match stored.processedAt with
  | some processedAt => decide (processedAt < now - ttl)
  | none => false

/-- The ids that the `victims` query of `expireBatch` returns. -/
def victims (now ttl : Time) (limit : Nat) (table : List Stored) : List Nat :=
  (((table.filter (expired now ttl)).map fun stored => stored.row.id).insertionSort
    (· ≤ ·)).take limit

/-- The table after `expireBatch`. -/
def expireBatch (now ttl : Time) (limit : Nat) (table : List Stored) : List Stored :=
  table.filter fun stored => !(victims now ttl limit table).contains stored.row.id

/-- The steps of `Expire`, whose loop goes on while a full batch was deleted. -/
def expireStep (deployment : Deployment) (state : State) (expirer : Nat) :
    ExpireAction → Option State
  | .begin =>
      match state.expirers expirer with
      | none =>
          some { state with expirers := Function.update state.expirers expirer (some 0) }
      | some _ => none
  | .batch now outcome =>
      match state.expirers expirer with
      | none => none
      | some total =>
          let limit := deployment.expireBatchSize expirer
          let table := expireBatch now (deployment.ttl expirer) limit state.table
          let deleted := state.table.length - table.length
          match outcome with
          | .ok =>
              some { state with
                table := table
                expirers := Function.update state.expirers expirer
                  (if deleted < limit then none else some (total + deleted)) }
          | .failed =>
              some { state with
                expirers := Function.update state.expirers expirer none }
          | .lost =>
              some { state with
                table := table
                expirers := Function.update state.expirers expirer none }
  | .crash =>
      some { state with expirers := Function.update state.expirers expirer none }

/-- An expirer leaves everything but the table and its own total alone. -/
theorem expireStep_cases {deployment : Deployment} {state next : State} {expirer : Nat}
    {action : ExpireAction}
    (taken : expireStep deployment state expirer action = some next) :
    ∃ table expirers, next = { state with table := table, expirers := expirers } ∧
      (table = state.table ∨
        ∃ now, table = expireBatch now (deployment.ttl expirer)
          (deployment.expireBatchSize expirer) state.table) := by
  cases action with
  | begin =>
      simp only [expireStep] at taken
      split at taken
      · cases taken
        exact ⟨_, _, rfl, Or.inl rfl⟩
      · cases taken
  | batch now outcome =>
      simp only [expireStep] at taken
      split at taken
      · cases taken
      · cases outcome with
        | ok | lost =>
            cases taken
            exact ⟨_, _, rfl, Or.inr ⟨now, rfl⟩⟩
        | failed =>
            cases taken
            exact ⟨_, _, rfl, Or.inl rfl⟩
  | crash =>
      cases taken
      exact ⟨_, _, rfl, Or.inl rfl⟩

/-- One step of the system. -/
def step (deployment : Deployment) (state : State) : Label → Option State
  | .produce producer action => produceStep state producer action
  | .drain drainer action => drainStep deployment state drainer action
  | .expire expirer action => expireStep deployment state expirer action

end GitScale.Outbox
