import GitScale.Basic
import GitScale.Go.Float64
import GitScale.Go.UUID
import Mathlib.Logic.Function.Basic

/-!
# Routing of issues

`Router.Route` scores a draft, maps the score to a verdict by the thresholds of the repository and
writes the issue, the decision and an outbox row in one transaction.  `Router.Release` is the
maintainer's way out of a hold.  The store is `StubStore`, whose transactions write nothing when
they fail.
-/

namespace GitScale.IssueNoise

open Go

/-! ## Verdicts -/

/-- `Verdict`. -/
inductive Verdict where
  | unknown
  | normal
  | lowQuality
  | duplicate
  | spam
  deriving DecidableEq, Repr

/-- `Verdict.String`. -/
def Verdict.text : Verdict → String
  | .normal => "normal"
  | .lowQuality => "low_quality"
  | .duplicate => "duplicate"
  | .spam => "spam"
  | .unknown => "unknown"

/-- `Signal`. -/
structure Signal where
  name : String
  weight : Float64
  detail : String
  deriving DecidableEq

/-- `Score`. -/
structure Score where
  spam : Float64
  lowQuality : Float64
  duplicate : Float64
  duplicateOf : Option UUID
  signals : List Signal
  scorerVersion : String
  deriving DecidableEq

/-- `Thresholds`. -/
structure Thresholds where
  spamFloor : Float64
  lowQualityFloor : Float64
  duplicateFloor : Float64
  holdTTL : Int
  deriving DecidableEq

/-- `DefaultThresholds`: floors of 0.7, 0.4 and 0.85, and fourteen days. -/
def defaultThresholds : Thresholds where
  spamFloor := ⟨false, 0x3FE6666666666666⟩
  lowQualityFloor := ⟨false, 0x3FD999999999999A⟩
  duplicateFloor := ⟨false, 0x3FEB333333333333⟩
  holdTTL := 14 * 24 * 3600 * 1000000000

/-- `Decide`. -/
def Score.decide (score : Score) (thresholds : Thresholds) : Verdict :=
  if thresholds.spamFloor.le score.spam then .spam
  else if thresholds.duplicateFloor.le score.duplicate then .duplicate
  else if thresholds.lowQualityFloor.le score.lowQuality then .lowQuality
  else .normal

/-- `IssueState`; the open state is the one of the standard queue. -/
inductive IssueState where
  | opened
  | held
  | autoClosedSpam
  | closed
  deriving DecidableEq, Repr

/-- `stateForVerdict`. -/
def stateForVerdict (verdict : Verdict) (enforce : Bool) : IssueState :=
  if ¬ enforce then .opened
  else
    match verdict with
    | .spam => .autoClosedSpam
    | .lowQuality | .duplicate => .held
    | .normal | .unknown => .opened

/-! ## The store -/

/-- `IssueDraft`. -/
structure IssueDraft where
  id : UUID
  repoID : UUID
  reporterID : UUID
  title : String
  body : String
  createdAt : Time
  deriving DecidableEq

/-- `Decision`. -/
structure Decision where
  decisionID : UUID
  issueID : UUID
  repoID : UUID
  reporterID : UUID
  verdict : Verdict
  scorerVersion : String
  scoreSpam : Float64
  scoreLQ : Float64
  scoreDup : Float64
  duplicateOf : Option UUID
  signals : List Signal
  decidedAt : Time
  decidedBy : String
  deriving DecidableEq

/-- `EnvelopeVersion`. -/
def envelopeVersion : Nat := 1

/-- `RoutingDecidedPayload`. -/
structure RoutingDecidedPayload where
  issueID : UUID
  repoID : UUID
  reporterID : UUID
  verdict : String
  scorerVersion : String
  scoreSpam : Float64
  scoreLQ : Float64
  scoreDup : Float64
  duplicateOf : Option UUID
  signals : List Signal
  decidedAt : Time
  decidedBy : String
  enforced : Bool
  envelopeV : Nat
  deriving DecidableEq

/-- `ReleasedPayload`. -/
structure ReleasedPayload where
  issueID : UUID
  repoID : UUID
  maintainerID : UUID
  releasedAt : Time
  envelopeV : Nat
  deriving DecidableEq

/-- The payloads of the two event types, `issue_noise.routing_decided` and
`issue_noise.released`. -/
inductive Payload where
  | routingDecided (payload : RoutingDecidedPayload)
  | released (payload : ReleasedPayload)
  deriving DecidableEq

/-- `StubOutboxRow`. -/
structure OutboxRow where
  aggregateID : UUID
  payload : Payload
  deriving DecidableEq

/-- `StubStore`: what is committed. -/
structure Store where
  issues : UUID → Option IssueState
  decisions : List Decision
  outbox : List OutboxRow

/-- `NewStubStore`. -/
def Store.empty : Store := ⟨fun _ => none, [], []⟩

/-- What a callback of `Transact` writes: the state of an issue, a decision and an outbox row. -/
structure Writes where
  issueID : UUID
  state : IssueState
  decision : Decision
  row : OutboxRow

/-- `Transact`: a callback that fails, or a commit that fails, writes nothing. -/
def Store.transact (store : Store) (writes : Writes) : Option String → Option String × Store
  | some failure => (some failure, store)
  | none =>
      (none,
        { issues := Function.update store.issues writes.issueID (some writes.state)
          decisions := store.decisions ++ [writes.decision]
          outbox := store.outbox ++ [writes.row] })

/-! ## Routes -/

/-- What a call of `Route` meets: the answers of the thresholds provider, of the scorer and of the
transaction, a new id and the time. -/
structure Surroundings where
  thresholds : Except String Thresholds
  score : Score × Option String
  txErr : Option String
  decisionID : UUID
  clock : Time

/-- `HoldExpiryParams`. -/
structure HoldExpiryParams where
  issueID : UUID
  repoID : UUID
  holdTTL : Int
  deriving DecidableEq

/-- `RouteResult`. -/
structure RouteResult where
  verdict : Verdict
  state : IssueState
  duplicateOf : Option UUID
  enforced : Bool
  deriving DecidableEq

/-- What a call of `Route` leaves behind: its result, the store, the calls of `StartHoldExpiry` and
the number of scorer errors. -/
structure Routed where
  result : Except String RouteResult
  store : Store
  started : List HoldExpiryParams
  scorerErrors : Nat

/-- `RuleScorerVersion`. -/
def ruleScorerVersion : String := "rule-v1"

/-- The score that a failed scorer is replaced by. -/
def Score.neutral : Score := ⟨.zero, .zero, .zero, none, [], ruleScorerVersion⟩

/-- The score that `Route` goes on with. -/
def scoreOf : Score × Option String → Score
  | (score, none) => score
  | (_, some _) => .neutral

section Route

variable (enforce : Bool) (draft : IssueDraft) (surroundings : Surroundings)

/-- The writes of `Route` for a score and a verdict. -/
def routeWrites (score : Score) (verdict : Verdict) : Writes where
  issueID := draft.id
  state := stateForVerdict verdict enforce
  decision :=
    { decisionID := surroundings.decisionID
      issueID := draft.id
      repoID := draft.repoID
      reporterID := draft.reporterID
      verdict := verdict
      scorerVersion := score.scorerVersion
      scoreSpam := score.spam
      scoreLQ := score.lowQuality
      scoreDup := score.duplicate
      duplicateOf := score.duplicateOf
      signals := score.signals
      decidedAt := surroundings.clock
      decidedBy := "auto" }
  row :=
    { aggregateID := draft.id
      payload := .routingDecided
        { issueID := draft.id
          repoID := draft.repoID
          reporterID := draft.reporterID
          verdict := verdict.text
          scorerVersion := score.scorerVersion
          scoreSpam := score.spam
          scoreLQ := score.lowQuality
          scoreDup := score.duplicate
          duplicateOf := score.duplicateOf
          signals := score.signals
          decidedAt := surroundings.clock
          decidedBy := "auto"
          enforced := enforce
          envelopeV := envelopeVersion } }

/-- `Router.Route`.  A failure of `StartHoldExpiry` is only logged. -/
def route (store : Store) : Routed :=
  match surroundings.thresholds with
  | .error message => ⟨.error ("router: load thresholds: " ++ message), store, [], 0⟩
  | .ok thresholds =>
      let score := scoreOf surroundings.score
      let scorerErrors := if surroundings.score.2.isSome then 1 else 0
      let verdict := score.decide thresholds
      let state := stateForVerdict verdict enforce
      match store.transact (routeWrites enforce draft surroundings score verdict)
          surroundings.txErr with
      | (some message, store) => ⟨.error ("router: tx: " ++ message), store, [], scorerErrors⟩
      | (none, store) =>
          { result := .ok ⟨verdict, state, score.duplicateOf, enforce⟩
            store := store
            started :=
              if state = .held then [⟨draft.id, draft.repoID, thresholds.holdTTL⟩] else []
            scorerErrors := scorerErrors }

end Route

/-! ## Releases -/

/-- A call of `Release`, with its new id, the time and the answer of the transaction. -/
structure ReleaseCall where
  issueID : UUID
  repoID : UUID
  maintainerID : UUID
  decisionID : UUID
  clock : Time
  txErr : Option String
  deriving DecidableEq

/-- The writes of `Release`; the issue is opened whatever its state is. -/
def ReleaseCall.writes (call : ReleaseCall) : Writes where
  issueID := call.issueID
  state := .opened
  decision :=
    { decisionID := call.decisionID
      issueID := call.issueID
      repoID := call.repoID
      reporterID := UUID.nil
      verdict := .normal
      scorerVersion := "manual"
      scoreSpam := .zero
      scoreLQ := .zero
      scoreDup := .zero
      duplicateOf := none
      signals := []
      decidedAt := call.clock
      decidedBy := "maintainer:" ++ formatUUID call.maintainerID }
  row :=
    { aggregateID := call.issueID
      payload := .released
        { issueID := call.issueID
          repoID := call.repoID
          maintainerID := call.maintainerID
          releasedAt := call.clock
          envelopeV := envelopeVersion } }

/-- The transaction of `Router.Release`. -/
def Store.release (store : Store) (call : ReleaseCall) : Option String × Store :=
  store.transact call.writes call.txErr

end GitScale.IssueNoise
