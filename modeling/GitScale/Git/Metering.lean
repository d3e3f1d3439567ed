import GitScale.Basic
import GitScale.Go.Strconv
import Mathlib.Logic.Function.Basic

/-!
# Two-tier metering

`metering.Counter` is the boundary at which the Git proxy reports one completed
operation.  The production counter keeps a best-effort Redis total for throttling
(tier 1) and writes one outbox row that the billing reconciliation reads
(tier 2).  Only tier 2 may reject the operation.
-/

namespace GitScale.Git

/-- `gittypes.RepoRef`.  `agentID` is empty for a human operation. -/
structure RepoRef where
  repoID : String
  agentID : String
  deriving DecidableEq, Repr

/-- `gittypes.RefUpdate`. -/
structure RefUpdate where
  refName : String
  oldOID : String
  newOID : String
  deriving DecidableEq, Repr

/-- The arguments of one `Counter.Record` call. -/
structure Recording where
  ref : RepoRef
  op : String
  bytes : Int64
  packObjects : Int64
  refUpdates : Nat
  deriving DecidableEq, Repr

/-- `metering.Counter`, with the state behind the interface made explicit.  The
error is `none` when `Record` returns nil. -/
structure Counter (Meter : Type) where
  record : Meter → Recording → Option String × Meter

/-- `metering.OpReceivePack`. -/
def opReceivePack : String := "receive_pack"

/-- `metering.MeteringEvent`, the payload of the outbox row. -/
structure MeteringEvent where
  eventID : String
  agentID : String
  repoID : String
  operation : String
  bytesTransferred : Int64
  packObjects : Int64
  refUpdates : Nat
  occurredAt : Time
  envelopeVersion : Nat
  deriving DecidableEq, Repr

/-- A row of `git.git_outbox`. -/
structure OutboxRecord where
  aggregateType : String
  aggregateID : UUID
  eventType : String
  payload : MeteringEvent
  deriving DecidableEq, Repr

/-- What the two tiers hold: the Redis keys and the committed outbox rows. -/
structure Tiers where
  cache : String → Option String
  outbox : List OutboxRecord

/-- Everything one `TwoTierCounter.Record` call takes from its surroundings: the
clock, the identifiers it draws, and which of its calls fail.  `window` is the
clock reading formatted as an hour. -/
structure TwoTierCall where
  now : Time
  window : String
  eventID : String
  freshID : UUID
  getFails : Bool
  setFails : Bool
  transactError : Option String

/-- `metering.TwoTierCounter`.  A nil cache store disables tier 1, and
`parseUUID` stands for `uuid.Parse`. -/
structure TwoTierCounter where
  hasCache : Bool
  parseUUID : String → Option UUID

namespace TwoTierCounter

/-- The total a tier 1 key holds; unreadable values count as zero. -/
def enforcementTotal (call : TwoTierCall) (tiers : Tiers) (key : String) : Int64 :=
  if call.getFails then 0
  else
    match (tiers.cache key).bind fun text => Go.parseInt text.toList with
    | some value => Int64.ofInt value
    | none => 0

/-- `recordEnforcement`: read, add, write back, and drop every error. -/
def recordEnforcement (counter : TwoTierCounter) (call : TwoTierCall)
    (tiers : Tiers) (agentID : String) (bytes : Int64) : Tiers :=
  if !counter.hasCache || agentID.isEmpty then tiers
  else
    let key := "git:meter:" ++ agentID ++ ":" ++ call.window
    let updated := toString (enforcementTotal call tiers key + bytes).toInt
    if call.setFails then tiers
    else { tiers with cache := Function.update tiers.cache key (some updated) }

/-- `repoAggregateID`. -/
def repoAggregateID (counter : TwoTierCounter) (call : TwoTierCall)
    (repoID : String) : UUID :=
  (counter.parseUUID repoID).getD call.freshID

/-- The outbox row one call writes. -/
def outboxRecord (counter : TwoTierCounter) (call : TwoTierCall)
    (recording : Recording) : OutboxRecord where
  aggregateType := "repository"
  aggregateID := counter.repoAggregateID call recording.ref.repoID
  eventType := "git.metering"
  payload :=
    { eventID := call.eventID
      agentID := recording.ref.agentID
      repoID := recording.ref.repoID
      operation := recording.op
      bytesTransferred := recording.bytes
      packObjects := recording.packObjects
      refUpdates := recording.refUpdates
      occurredAt := call.now
      envelopeVersion := 1 }

/-- `TwoTierCounter.Record` under one choice of surroundings. -/
def counter (counter : TwoTierCounter) (call : TwoTierCall) : Counter Tiers where
  record tiers recording :=
    let tiers := counter.recordEnforcement call tiers recording.ref.agentID
      recording.bytes
    match call.transactError with
    | some message => (some ("metering: outbox write: " ++ message), tiers)
    | none =>
        (none, { tiers with
          outbox := tiers.outbox ++ [counter.outboxRecord call recording] })

@[simp] theorem recordEnforcement_outbox (counter : TwoTierCounter)
    (call : TwoTierCall) (tiers : Tiers) (agentID : String) (bytes : Int64) :
    (counter.recordEnforcement call tiers agentID bytes).outbox = tiers.outbox := by
  simp only [recordEnforcement]
  split
  · rfl
  · split <;> rfl

/-- A call that returns nil appends exactly its own row, and a call that returns
an error appends nothing.  Tier 1 has no part in the answer. -/
theorem record_outbox (counter : TwoTierCounter) (call : TwoTierCall)
    (tiers : Tiers) (recording : Recording) :
    ((counter.counter call).record tiers recording).2.outbox =
      if ((counter.counter call).record tiers recording).1 = none then
        tiers.outbox ++ [counter.outboxRecord call recording]
      else tiers.outbox := by
  cases failure : call.transactError with
  | none => simp [TwoTierCounter.counter, failure]
  | some message => simp [TwoTierCounter.counter, failure]

end TwoTierCounter

end GitScale.Git
