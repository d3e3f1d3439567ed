import GitScale.Git.Metering
import Mathlib.Data.List.Basic

/-!
# Pushing through the Gitaly proxy

`GitalyProxy.ReceivePack` runs the pre-receive hook, resolves and dials the file
server, streams the header and the body, half-closes the stream, and then records
one metering event.  Every collaborator is a parameter and every one of its calls
may fail.  The order of the last two steps decides whether a rejected push can
still have been handed to Gitaly.
-/

namespace GitScale.Git

abbrev Bytes := List UInt8

/-- `receivePackChunkSize`, one mebibyte. -/
def receivePackChunkSize : Nat := 1048576

/-- `locator.FileServerAddr`. -/
structure FileServerAddr where
  addr : String
  replicaSetID : String
  deriving DecidableEq, Repr

/-- Errors of `RepoLocator.Resolve`: `ErrRepoNotFound` or anything else. -/
inductive LocatorError where
  | repoNotFound
  | other (message : String)
  deriving DecidableEq, Repr

/-- The gRPC codes that the proxy chooses itself. -/
inductive Code where
  | permissionDenied
  | notFound
  | unavailable
  deriving DecidableEq, Repr

/-- An error of the proxy: a status built with `status.Errorf`, or a wrapped
cause built with `fmt.Errorf`. -/
inductive RPCError where
  | status (code : Code) (message : String)
  | wrapped (message : String)
  deriving DecidableEq, Repr

/-- The first request of a `PostReceivePack` stream. -/
structure Header where
  storageName : String
  relativePath : String
  glID : String
  glRepository : String
  deriving DecidableEq, Repr

/-- What Gitaly sees on the stream, in order. -/
inductive Frame where
  | header (request : Header)
  | data (chunk : Bytes)
  | halfClose
  deriving DecidableEq, Repr

/-- The request body as successive results of `Read`: every read but the last
returns a nil error, and the last one returns `io.EOF` (`ending = none`) or some
other error.  A read may return no bytes, and it never overruns the buffer. -/
structure Body where
  reads : List Bytes
  last : Bytes
  ending : Option String
  bounded : ∀ chunk ∈ reads ++ [last], chunk.length ≤ receivePackChunkSize

/-- The reads that return bytes. -/
def nonempty (reads : List Bytes) : List Bytes :=
  reads.filter fun chunk => !chunk.isEmpty

namespace Body

/-- The bytes of the body. -/
def content (body : Body) : Bytes := body.reads.flatten ++ body.last

/-- The reads that become data frames. -/
def chunks (body : Body) : List Bytes := nonempty (body.reads ++ [body.last])

end Body

/-- The injected collaborators.  `send index` is the outcome of the `Send` that
follows `index` delivered frames.  A failed `Send` or `CloseSend` aborts the
stream, so its frame is not delivered. -/
structure GitalyProxy (Meter : Type) where
  preReceive : RepoRef → List RefUpdate → Option String
  locate : String → Except LocatorError FileServerAddr
  conn : String → Option String
  postReceivePack : Option String
  send : Nat → Option String
  closeSend : Option String
  meter : Counter Meter

/-- What a push has done so far: the frames delivered to Gitaly, the bytes
forwarded, the recordings that the counter accepted, and the counter's state. -/
structure Push (Meter : Type) where
  sent : List Frame
  totalBytes : Int64
  recorded : List Recording
  meter : Meter

namespace GitalyProxy

variable {Meter : Type}

/-- `resolve`. -/
def resolve (proxy : GitalyProxy Meter) (repoID : String) :
    Except RPCError FileServerAddr :=
  match proxy.locate repoID with
  | .ok addr => .ok addr
  | .error .repoNotFound =>
      .error (.status .notFound ("git: repo " ++ repoID ++ " not found"))
  | .error (.other message) => .error (.wrapped ("git: locator: " ++ message))

/-- `dial`. -/
def dial (proxy : GitalyProxy Meter) (addr : String) : Option RPCError :=
  (proxy.conn addr).map fun message =>
    .status .unavailable ("git: gitaly unavailable: " ++ message)

/-- The header that `ReceivePack` sends for a repository at `addr`. -/
def headerOf (addr : FileServerAddr) (ref : RepoRef) : Header where
  storageName := addr.replicaSetID
  relativePath := ref.repoID ++ ".git"
  glID := ref.agentID
  glRepository := ref.repoID

/-- One `stream.Send`; `context` is the text that a failure is wrapped with. -/
def sendFrame (proxy : GitalyProxy Meter) (context : String) (frame : Frame)
    (push : Push Meter) : Option RPCError × Push Meter :=
  match proxy.send push.sent.length with
  | some message => (some (.wrapped (context ++ message)), push)
  | none => (none, { push with sent := push.sent ++ [frame] })

/-- The part of one `forwardChunks` iteration that handles the bytes read. -/
def forwardChunk (proxy : GitalyProxy Meter) (chunk : Bytes)
    (push : Push Meter) : Option RPCError × Push Meter :=
  if chunk.isEmpty then (none, push)
  else
    match proxy.sendFrame "git: receive_pack data: " (.data chunk) push with
    | (some failure, push) => (some failure, push)
    | (none, push) =>
        (none, { push with
          totalBytes := push.totalBytes + Int64.ofNat chunk.length })

/-- The reads that return a nil error. -/
def forwardReads (proxy : GitalyProxy Meter) :
    List Bytes → Push Meter → Option RPCError × Push Meter
  | [], push => (none, push)
  | chunk :: rest, push =>
      match proxy.forwardChunk chunk push with
      | (some failure, push) => (some failure, push)
      | (none, push) => proxy.forwardReads rest push

/-- `forwardChunks`: the last read hands over its bytes before its error is
looked at. -/
def forwardChunks (proxy : GitalyProxy Meter) (body : Body)
    (push : Push Meter) : Option RPCError × Push Meter :=
  match proxy.forwardReads (body.reads ++ [body.last]) push with
  | (some failure, push) => (some failure, push)
  | (none, push) =>
      (body.ending.map fun message => .wrapped ("git: receive_pack body: " ++ message),
        push)

/-- The tail of `ReceivePack` after the body: half-close, then meter. -/
def finish (proxy : GitalyProxy Meter) (ref : RepoRef) (updates : List RefUpdate)
    (push : Push Meter) : Option RPCError × Push Meter :=
  match proxy.closeSend with
  | some message => (some (.wrapped ("git: receive_pack close-send: " ++ message)), push)
  | none =>
      let push := { push with sent := push.sent ++ [Frame.halfClose] }
      let recording : Recording :=
        { ref := ref
          op := opReceivePack
          bytes := push.totalBytes
          packObjects := 0
          refUpdates := updates.length }
      match proxy.meter.record push.meter recording with
      | (some message, meter) =>
          (some (.wrapped ("git: receive_pack metering: " ++ message)),
            { push with meter := meter })
      | (none, meter) =>
          (none, { push with recorded := push.recorded ++ [recording], meter := meter })

/-- The stream part of `ReceivePack`, once the file server is dialled. -/
def stream (proxy : GitalyProxy Meter) (addr : FileServerAddr) (ref : RepoRef)
    (updates : List RefUpdate) (body : Body) (push : Push Meter) :
    Option RPCError × Push Meter :=
  match proxy.postReceivePack with
  | some message => (some (.wrapped ("git: receive_pack open: " ++ message)), push)
  | none =>
      match proxy.sendFrame "git: receive_pack header: "
          (.header (headerOf addr ref)) push with
      | (some failure, push) => (some failure, push)
      | (none, push) =>
          match proxy.forwardChunks body push with
          | (some failure, push) => (some failure, push)
          | (none, push) => proxy.finish ref updates push

/-- `GitalyProxy.ReceivePack`: the error it returns, if any, and the effects of
the push. -/
def receivePack (proxy : GitalyProxy Meter) (ref : RepoRef)
    (updates : List RefUpdate) (body : Body) (meter : Meter) :
    Option RPCError × Push Meter :=
  let push : Push Meter := ⟨[], 0, [], meter⟩
  match proxy.preReceive ref updates with
  | some message =>
      (some (.status .permissionDenied ("git: pre-receive hook: " ++ message)), push)
  | none =>
      match proxy.resolve ref.repoID with
      | .error failure => (some failure, push)
      | .ok addr =>
          match proxy.dial addr.addr with
          | some failure => (some failure, push)
          | none => proxy.stream addr ref updates body push

/-! ## What a push must guarantee -/

/-- Gitaly was handed a complete push: the header for this repository, then
exactly the bytes of the body in order, then the half-close. -/
def HandedOver (proxy : GitalyProxy Meter) (ref : RepoRef) (body : Body)
    (sent : List Frame) : Prop :=
  ∃ (addr : FileServerAddr) (chunks : List Bytes),
    proxy.locate ref.repoID = .ok addr ∧
    sent = .header (headerOf addr ref) :: chunks.map .data ++ [.halfClose] ∧
    chunks.flatten = body.content

/-- Exactly one recording was accepted, and it carries the size of the body. -/
def MeteredOnce (body : Body) (recorded : List Recording) : Prop :=
  ∃ recording, recorded = [recording] ∧ recording.op = opReceivePack ∧
    recording.bytes.toInt = body.content.length

/-- An error means that no complete push was handed over, and nil means that one
was, together with its metering event. -/
def AllOrNothing (proxy : GitalyProxy Meter) (ref : RepoRef) (body : Body) :
    Option RPCError × Push Meter → Prop
  | (some _, push) => ¬ HandedOver proxy ref body push.sent
  | (none, push) => HandedOver proxy ref body push.sent ∧ MeteredOnce body push.recorded

/-- Every step before metering succeeds. -/
def Delivers (proxy : GitalyProxy Meter) (ref : RepoRef)
    (updates : List RefUpdate) (body : Body) : Prop :=
  proxy.preReceive ref updates = none ∧
    (∃ addr, proxy.locate ref.repoID = .ok addr ∧ proxy.conn addr.addr = none) ∧
    proxy.postReceivePack = none ∧
    (∀ index ≤ body.chunks.length, proxy.send index = none) ∧
    body.ending = none ∧ proxy.closeSend = none

/-- The recording that a delivered push submits to the counter. -/
def recordingOf (ref : RepoRef) (updates : List RefUpdate) (body : Body) :
    Recording where
  ref := ref
  op := opReceivePack
  bytes := Int64.ofNat body.content.length
  packObjects := 0
  refUpdates := updates.length

/-! ## Forwarding the body -/

theorem flatten_nonempty (reads : List Bytes) :
    (nonempty reads).flatten = reads.flatten := by
  induction reads with
  | nil => rfl
  | cons chunk rest inductionHypothesis =>
      cases chunk with
      | nil => simpa [nonempty] using inductionHypothesis
      | cons byte bytes => simpa [nonempty] using inductionHypothesis

/-- When the stream accepts every nonempty read, all of them are delivered in
order and counted. -/
theorem forwardReads_of_accepted (proxy : GitalyProxy Meter) (reads : List Bytes)
    (push : Push Meter)
    (accepted : ∀ index < (nonempty reads).length,
      proxy.send (push.sent.length + index) = none) :
    proxy.forwardReads reads push =
      (none, { push with
        sent := push.sent ++ (nonempty reads).map .data
        totalBytes := push.totalBytes + Int64.ofNat reads.flatten.length }) := by
  induction reads generalizing push with
  | nil => simp [forwardReads, nonempty]
  | cons chunk rest inductionHypothesis =>
      cases chunk with
      | nil =>
          have skipped := inductionHypothesis push accepted
          simpa [forwardReads, forwardChunk, nonempty] using skipped
      | cons byte bytes =>
          have first : proxy.send push.sent.length = none :=
            accepted 0 (by simp [nonempty])
          have step : proxy.forwardChunk (byte :: bytes) push =
              (none, { push with
                sent := push.sent ++ [.data (byte :: bytes)]
                totalBytes := push.totalBytes +
                  Int64.ofNat (byte :: bytes).length }) := by
            simp [forwardChunk, sendFrame, first]
          have continued := inductionHypothesis
            { push with
              sent := push.sent ++ [.data (byte :: bytes)]
              totalBytes := push.totalBytes + Int64.ofNat (byte :: bytes).length }
            (by
              intro index bound
              have shifted := accepted (index + 1) (by
                simpa [nonempty] using bound)
              simpa [Nat.add_assoc, Nat.add_comm 1 index] using shifted)
          rw [forwardReads, step]
          simp only [continued]
          simp [nonempty, Int64.add_assoc, Int64.ofNat_add, Int64.add_comm 1]

/-- Forwarding that returns nil had every nonempty read accepted. -/
theorem accepted_of_forwardReads (proxy : GitalyProxy Meter) (reads : List Bytes)
    (push : Push Meter) (returned : (proxy.forwardReads reads push).1 = none) :
    ∀ index < (nonempty reads).length,
      proxy.send (push.sent.length + index) = none := by
  induction reads generalizing push with
  | nil => simp [nonempty]
  | cons chunk rest inductionHypothesis =>
      cases chunk with
      | nil =>
          have skipped := inductionHypothesis push (by
            simpa [forwardReads, forwardChunk] using returned)
          simpa [nonempty] using skipped
      | cons byte bytes =>
          cases outcome : proxy.send push.sent.length with
          | some message =>
              simp [forwardReads, forwardChunk, sendFrame, outcome] at returned
          | none =>
              simp only [forwardReads, forwardChunk, sendFrame, outcome,
                List.isEmpty_cons, Bool.false_eq_true, ↓reduceIte] at returned
              intro index bound
              cases index with
              | zero => exact outcome
              | succ index =>
                  have later := inductionHypothesis _ returned index (by
                    simpa [nonempty] using bound)
                  simpa [Nat.add_assoc, Nat.add_comm 1 index] using later

/-- Forwarding never half-closes the stream. -/
theorem forwardReads_halfClose (proxy : GitalyProxy Meter) (reads : List Bytes)
    (push : Push Meter) (closed : .halfClose ∈ (proxy.forwardReads reads push).2.sent) :
    .halfClose ∈ push.sent := by
  induction reads generalizing push with
  | nil => exact closed
  | cons chunk rest inductionHypothesis =>
      cases chunk with
      | nil =>
          exact inductionHypothesis push (by
            simpa [forwardReads, forwardChunk] using closed)
      | cons byte bytes =>
          cases outcome : proxy.send push.sent.length with
          | some message =>
              simpa [forwardReads, forwardChunk, sendFrame, outcome] using closed
          | none =>
              simp only [forwardReads, forwardChunk, sendFrame, outcome,
                List.isEmpty_cons, Bool.false_eq_true, ↓reduceIte] at closed
              simpa using inductionHypothesis _ closed

/-- Forwarding leaves the counter alone. -/
theorem forwardReads_meter (proxy : GitalyProxy Meter) (reads : List Bytes)
    (push : Push Meter) : (proxy.forwardReads reads push).2.meter = push.meter := by
  induction reads generalizing push with
  | nil => rfl
  | cons chunk rest inductionHypothesis =>
      cases chunk with
      | nil => simpa [forwardReads, forwardChunk] using inductionHypothesis push
      | cons byte bytes =>
          cases outcome : proxy.send push.sent.length with
          | some message => simp [forwardReads, forwardChunk, sendFrame, outcome]
          | none =>
              simp only [forwardReads, forwardChunk, sendFrame, outcome,
                List.isEmpty_cons, Bool.false_eq_true, ↓reduceIte]
              rw [inductionHypothesis]

/-! ## The whole push -/

theorem Body.flatten_chunks (body : Body) : body.chunks.flatten = body.content := by
  simp [Body.chunks, Body.content, flatten_nonempty]

/-- A push whose steps before metering all succeed hands Gitaly the complete push
and then answers with whatever the counter says. -/
theorem receivePack_of_delivers (proxy : GitalyProxy Meter) (ref : RepoRef)
    (updates : List RefUpdate) (body : Body) (meter : Meter)
    (delivers : Delivers proxy ref updates body) {answer : Option String} {next : Meter}
    (outcome : proxy.meter.record meter (recordingOf ref updates body) =
      (answer, next)) :
    ∃ addr, proxy.locate ref.repoID = .ok addr ∧
      proxy.receivePack ref updates body meter =
        (answer.map fun message =>
            .wrapped ("git: receive_pack metering: " ++ message),
          { sent := .header (headerOf addr ref) ::
              body.chunks.map .data ++ [.halfClose]
            totalBytes := Int64.ofNat body.content.length
            recorded := if answer = none then [recordingOf ref updates body] else []
            meter := next }) := by
  rcases delivers with ⟨hook, ⟨addr, located, dialled⟩, opened, accepted, ended, closed⟩
  refine ⟨addr, located, ?_⟩
  have header : proxy.send 0 = none := accepted 0 (Nat.zero_le _)
  have forwarded := forwardReads_of_accepted proxy (body.reads ++ [body.last])
    ⟨[.header (headerOf addr ref)], 0, [], meter⟩ (by
      intro index bound
      exact accepted _ (by
        simpa [Body.chunks, Nat.add_comm 1 index] using Nat.succ_le_of_lt bound))
  have size : (body.reads ++ [body.last]).flatten.length = body.content.length := by
    simp [Body.content]
  rw [size, Int64.zero_add] at forwarded
  simp only [recordingOf] at outcome
  cases answer with
  | none =>
      simp [receivePack, hook, resolve, located, dial, dialled, stream, opened,
        sendFrame, header, forwardChunks, forwarded, ended, finish, closed, outcome,
        recordingOf, Body.chunks]
  | some message =>
      simp [receivePack, hook, resolve, located, dial, dialled, stream, opened,
        sendFrame, header, forwardChunks, forwarded, ended, finish, closed, outcome,
        Body.chunks]

/-- A push in which a step before metering fails returns an error, the stream is
never half-closed, and the counter is not called. -/
theorem receivePack_of_not_delivers (proxy : GitalyProxy Meter) (ref : RepoRef)
    (updates : List RefUpdate) (body : Body) (meter : Meter)
    (stops : ¬ Delivers proxy ref updates body) :
    (proxy.receivePack ref updates body meter).1 ≠ none ∧
      .halfClose ∉ (proxy.receivePack ref updates body meter).2.sent ∧
      (proxy.receivePack ref updates body meter).2.meter = meter := by
  cases hook : proxy.preReceive ref updates with
  | some message => simp [receivePack, hook]
  | none =>
  cases located : proxy.locate ref.repoID with
  | error failure => cases failure <;> simp [receivePack, hook, resolve, located]
  | ok addr =>
  cases dialled : proxy.conn addr.addr with
  | some message => simp [receivePack, hook, resolve, located, dial, dialled]
  | none =>
  cases opened : proxy.postReceivePack with
  | some message =>
      simp [receivePack, hook, resolve, located, dial, dialled, stream, opened]
  | none =>
  cases header : proxy.send 0 with
  | some message =>
      simp [receivePack, hook, resolve, located, dial, dialled, stream, opened,
        sendFrame, header]
  | none =>
  have unclosed := forwardReads_halfClose proxy (body.reads ++ [body.last])
    ⟨[.header (headerOf addr ref)], 0, [], meter⟩
  have accepted := accepted_of_forwardReads proxy (body.reads ++ [body.last])
    ⟨[.header (headerOf addr ref)], 0, [], meter⟩
  have unmetered := forwardReads_meter proxy (body.reads ++ [body.last])
    ⟨[.header (headerOf addr ref)], 0, [], meter⟩
  cases forwarded : proxy.forwardReads (body.reads ++ [body.last])
      ⟨[.header (headerOf addr ref)], 0, [], meter⟩ with
  | mk failure push =>
  rw [forwarded] at unclosed accepted unmetered
  have untouched : .halfClose ∉ push.sent ∧ push.meter = meter :=
    ⟨by simpa using unclosed, unmetered⟩
  cases failure with
  | some failure =>
      simpa [receivePack, hook, resolve, located, dial, dialled, stream, opened,
        sendFrame, header, forwardChunks, forwarded] using untouched
  | none =>
  cases ended : body.ending with
  | some message =>
      simpa [receivePack, hook, resolve, located, dial, dialled, stream, opened,
        sendFrame, header, forwardChunks, forwarded, ended] using untouched
  | none =>
  cases closed : proxy.closeSend with
  | some message =>
      simpa [receivePack, hook, resolve, located, dial, dialled, stream, opened,
        sendFrame, header, forwardChunks, forwarded, ended, finish, closed] using untouched
  | none =>
      refine absurd ⟨hook, ⟨addr, located, dialled⟩, opened, ?_, ended, closed⟩ stops
      intro index bound
      cases index with
      | zero => exact header
      | succ index =>
          have later := accepted rfl index bound
          simpa [Nat.add_comm 1 index] using later

theorem not_handedOver_of_not_mem {proxy : GitalyProxy Meter} {ref : RepoRef}
    {body : Body} {sent : List Frame} (unclosed : .halfClose ∉ sent) :
    ¬ HandedOver proxy ref body sent := by
  rintro ⟨addr, chunks, -, rfl, -⟩
  simp at unclosed

/-- The recording carries the size of the body when that size is an `int64`. -/
theorem meteredOnce_iff (ref : RepoRef) (updates : List RefUpdate) (body : Body) :
    MeteredOnce body [recordingOf ref updates body] ↔ body.content.length < 2 ^ 63 := by
  constructor
  · rintro ⟨recording, equal, -, size⟩
    cases equal
    have bound := (recordingOf ref updates body).bytes.toInt_lt
    omega
  · intro fits
    exact ⟨_, rfl, rfl, Int64.toInt_ofNat_of_lt fits⟩

/-- A push is all-or-nothing exactly when, if every step before metering succeeds,
the counter accepts the recording and the size of the body is a 64-bit integer. -/
theorem receivePack_allOrNothing_iff (proxy : GitalyProxy Meter) (ref : RepoRef)
    (updates : List RefUpdate) (body : Body) (meter : Meter) :
    AllOrNothing proxy ref body (proxy.receivePack ref updates body meter) ↔
      (Delivers proxy ref updates body →
        (proxy.meter.record meter (recordingOf ref updates body)).1 = none ∧
          body.content.length < 2 ^ 63) := by
  by_cases delivers : Delivers proxy ref updates body
  · cases outcome : proxy.meter.record meter (recordingOf ref updates body) with
    | mk answer next =>
        obtain ⟨addr, located, returned⟩ :=
          receivePack_of_delivers proxy ref updates body meter delivers outcome
        have handedOver : HandedOver proxy ref body
            (.header (headerOf addr ref) :: body.chunks.map .data ++ [.halfClose]) :=
          ⟨addr, body.chunks, located, rfl, Body.flatten_chunks body⟩
        rw [returned]
        cases answer with
        | none =>
            have metered := meteredOnce_iff ref updates body
            simp only [Option.map_none, AllOrNothing, ↓reduceIte]
            simp only [handedOver, metered, delivers, true_and, true_implies]
        | some message =>
            simp only [Option.map_some, AllOrNothing]
            simp only [handedOver, delivers, not_true_eq_false, true_implies,
              reduceCtorEq, false_and]
  · obtain ⟨failed, unclosed, -⟩ :=
      receivePack_of_not_delivers proxy ref updates body meter delivers
    cases returned : proxy.receivePack ref updates body meter with
    | mk failure push =>
        rw [returned] at failed unclosed
        cases failure with
        | none => exact absurd rfl failed
        | some failure =>
            have notHandedOver : ¬ HandedOver proxy ref body push.sent :=
              not_handedOver_of_not_mem unclosed
            simp only [AllOrNothing, notHandedOver, not_false_eq_true, delivers,
              false_implies]

/-- A proxy whose collaborators all succeed, except that the counter rejects every
recording. -/
def meterDown : GitalyProxy Unit where
  preReceive _ _ := none
  locate _ := .ok ⟨"gitaly-0:8075", "default"⟩
  conn _ := none
  postReceivePack := none
  send _ := none
  closeSend := none
  meter := ⟨fun meter _ => (some "metering: outbox write: connection refused", meter)⟩

/-- A two-byte body that arrives in one read. -/
def smallBody : Body where
  reads := []
  last := [0x30, 0x30]
  ending := none
  bounded := by simp [receivePackChunkSize]

/-- With the counter down, the push is rejected after Gitaly was handed all of
it. -/
theorem receivePack_meterDown :
    ¬ AllOrNothing meterDown ⟨"r", "a"⟩ smallBody
      (meterDown.receivePack ⟨"r", "a"⟩ [] smallBody ()) := by
  simp only [AllOrNothing]
  intro rejected
  exact rejected ⟨_, [[0x30, 0x30]], rfl, rfl, rfl⟩

/-- Against the two-tier counter, a push that returns nil leaves exactly one new
outbox row, and a push that returns an error leaves none. -/
theorem receivePack_outbox (proxy : GitalyProxy Tiers) (counter : TwoTierCounter)
    (call : TwoTierCall) (wired : proxy.meter = counter.counter call) (ref : RepoRef)
    (updates : List RefUpdate) (body : Body) (tiers : Tiers) :
    (proxy.receivePack ref updates body tiers).2.meter.outbox =
      if (proxy.receivePack ref updates body tiers).1 = none then
        tiers.outbox ++ [counter.outboxRecord call (recordingOf ref updates body)]
      else tiers.outbox := by
  by_cases delivers : Delivers proxy ref updates body
  · have rows := counter.record_outbox call tiers (recordingOf ref updates body)
    rw [← wired] at rows
    cases outcome : proxy.meter.record tiers (recordingOf ref updates body) with
    | mk answer next =>
        obtain ⟨addr, -, returned⟩ :=
          receivePack_of_delivers proxy ref updates body tiers delivers outcome
        rw [outcome] at rows
        rw [returned]
        simpa only [Option.map_eq_none_iff] using rows
  · obtain ⟨failed, -, unmetered⟩ :=
      receivePack_of_not_delivers proxy ref updates body tiers delivers
    rw [if_neg failed, unmetered]

end GitalyProxy

end GitScale.Git
