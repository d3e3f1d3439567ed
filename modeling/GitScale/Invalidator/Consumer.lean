import GitScale.Basic
import GitScale.Foundation.History
import GitScale.Foundation.Transition

/-!
# The identity cache invalidator

`Consumer.Run` fetches messages of one partition, deletes the cached identity of
every affected principal, marks the event, and commits the offset.  The reader
behaves like kafka-go: successive fetches return successive offsets whether or not
earlier ones were committed, and a restarted consumer resumes at the committed
offset.  A label is one call of the loop body, and every call may fail, lose its
answer, or be cut off by a crash.
-/

namespace GitScale.Invalidator

/-- The part of `EventEnvelope` that the consumer reads. -/
structure Envelope where
  eventID : String
  eventType : String
  payload : String
  deriving DecidableEq, Repr

/-- `UnmarshalEnvelope` and the dispatch table; a handler returns nothing when it
cannot decode the payload. -/
structure Config where
  unmarshalEnvelope : String → Option Envelope
  handlers : String → Option (Envelope → Option (List UUID))

/-- The event types of `DefaultHandlers`. -/
def eventTypes : List String :=
  ["user.disabled", "agent.revoked", "principal.permissions_changed",
    "org.member_removed", "user.deleted", "agent.deleted"]

/-- `DefaultHandlers`, where `affectedPrincipals` decodes `affected_principal_ids`
of a payload. -/
def defaultHandlers (affectedPrincipals : String → Option (List UUID))
    (eventType : String) : Option (Envelope → Option (List UUID)) :=
  if eventType ∈ eventTypes then some fun envelope => affectedPrincipals envelope.payload
  else none

/-- How a call ends: with success, with an error and no effect, or with its effect
but an error in place of the answer. -/
inductive Outcome where
  | ok
  | failed
  | lost
  deriving DecidableEq, Repr

/-- Where the loop of `Run` stands.  The offset is that of the message in hand. -/
inductive Phase where
  | ready
  | fetched (offset : Nat)
  | deleting (offset : Nat) (eventID : String) (affected : List UUID)
  | marking (offset : Nat) (eventID : String)
  | committing (offset : Nat)
  deriving DecidableEq, Repr

/-- One execution of `Run`: the next offset of the reader, the phase, and the
offsets that a failed `Seen` or `Delete` has left behind. -/
structure Session where
  next : Nat
  phase : Phase
  skipped : List Nat
  deriving DecidableEq, Repr

/-- What happened, oldest first. -/
inductive Event where
  | fetched (offset : Nat)
  | deleted (principalID : UUID)
  | marked (eventID : String)
  deriving DecidableEq, Repr

/-- The committed offset (where a restarted consumer resumes), the markers that
have not expired, the running session if there is one, and the history. -/
structure State where
  committed : Nat
  marks : List String
  session : Option Session
  history : List Event
  deriving DecidableEq, Repr

/-- Nothing consumed yet. -/
def initial : State where
  committed := 0
  marks := []
  session := none
  history := []

/-- The steps of the consumer and of its surroundings. -/
inductive Label where
  | start
  | fetch
  | reject
  | dedupe
  | dedupeError
  | delete (outcome : Outcome)
  | mark (outcome : Outcome)
  | commit (outcome : Outcome)
  | stop
  | expire (eventID : String)
  deriving DecidableEq, Repr

/-- Let the loop go on in another phase. -/
def setPhase (state : State) (session : Session) (phase : Phase) : State :=
  { state with session := some { session with phase := phase } }

/-- The loop goes on to the next message without a commit. -/
def skip (state : State) (session : Session) (offset : Nat) : State :=
  { state with
    session := some { session with
      phase := .ready, skipped := session.skipped ++ [offset] } }

/-- What `processOnce` does once the deduper has answered that the event is not
marked: an unknown event type and a payload that does not decode are committed. -/
def dispatch (config : Config) (envelope : Envelope) (offset : Nat) : Phase :=
  match config.handlers envelope.eventType with
  | none => .committing offset
  | some affected =>
      match affected envelope with
      | none => .committing offset
      | some principals => .deleting offset envelope.eventID principals

/-- One step.  `log` holds the values of the partition by offset. -/
def step (config : Config) (log : List String) (state : State) (label : Label) :
    Option State :=
  match label, state.session with
  | .start, none => some { state with session := some ⟨state.committed, .ready, []⟩ }
  | .fetch, some ⟨next, .ready, skipped⟩ =>
      if next < log.length then
        some { state with
          session := some ⟨next + 1, .fetched next, skipped⟩
          history := state.history ++ [.fetched next] }
      else none
  | .reject, some session =>
      match session.phase with
      | .fetched offset =>
          match (log[offset]?).bind config.unmarshalEnvelope with
          | none => some (setPhase state session (.committing offset))
          | some _ => none
      | _ => none
  | .dedupe, some session =>
      match session.phase with
      | .fetched offset =>
          match (log[offset]?).bind config.unmarshalEnvelope with
          | none => none
          | some envelope =>
              if envelope.eventID ∈ state.marks then
                some (setPhase state session (.committing offset))
              else some (setPhase state session (dispatch config envelope offset))
      | _ => none
  | .dedupeError, some session =>
      match session.phase with
      | .fetched offset =>
          match (log[offset]?).bind config.unmarshalEnvelope with
          | none => none
          | some _ => some (skip state session offset)
      | _ => none
  | .delete outcome, some session =>
      match session.phase with
      | .deleting offset eventID (principalID :: rest) =>
          let deleted := { state with history := state.history ++ [.deleted principalID] }
          match outcome with
          | .ok => some (setPhase deleted session (.deleting offset eventID rest))
          | .failed => some (skip state session offset)
          | .lost => some (skip deleted session offset)
      | .deleting offset eventID [] =>
          some (setPhase state session (.marking offset eventID))
      | _ => none
  | .mark outcome, some session =>
      match session.phase with
      | .marking offset eventID =>
          let marked := { state with
            marks := eventID :: state.marks
            history := state.history ++ [.marked eventID] }
          match outcome with
          | .ok => some (setPhase marked session (.committing offset))
          | .failed => some (setPhase state session .ready)
          | .lost => some (setPhase marked session .ready)
      | _ => none
  | .commit outcome, some session =>
      match session.phase with
      | .committing offset =>
          let committed := { state with committed := offset + 1 }
          match outcome with
          | .ok => some (setPhase committed session .ready)
          | .failed => some { state with session := none }
          | .lost => some { committed with session := none }
      | _ => none
  | .stop, some _ => some { state with session := none }
  | .expire eventID, _ =>
      some { state with marks := state.marks.filter fun mark => mark ≠ eventID }
  | _, _ => none

/-! ## At-least-once invalidation -/

/-- The message at `offset` is well formed, its event type is handled, and it
affects `principals`. -/
def Affects (config : Config) (log : List String) (offset : Nat) (eventID : String)
    (principals : List UUID) : Prop :=
  ∃ envelope affected, (log[offset]?).bind config.unmarshalEnvelope = some envelope ∧
    config.handlers envelope.eventType = some affected ∧
    affected envelope = some principals ∧ envelope.eventID = eventID

/-- Every principal that the message affects was deleted from the cache after the
message was first fetched, or its event has been marked. -/
def Invalidated (config : Config) (log : List String) (history : List Event)
    (offset : Nat) : Prop :=
  ∀ eventID principals, Affects config log offset eventID principals →
    (∀ principalID ∈ principals,
      .deleted principalID ∈ Foundation.since (.fetched offset) history) ∨
    .marked eventID ∈ history

/-- A commit takes effect only in a session that has left no message behind. -/
def CommitsClean (state : State) : Label → Prop
  | .commit .ok | .commit .lost =>
      match state.session with
      | none => True
      | some session => session.skipped = []
  | _ => True

instance (state : State) (label : Label) : Decidable (CommitsClean state label) :=
  match label with
  | .commit .ok | .commit .lost =>
      match running : state.session with
      | none => isTrue (by simp [CommitsClean, running])
      | some session =>
          decidable_of_iff (session.skipped = []) (by simp [CommitsClean, running])
  | .commit .failed | .start | .fetch | .reject | .dedupe | .dedupeError | .delete _
  | .mark _ | .stop | .expire _ => isTrue trivial

namespace Phase

/-- The message whose deletions are not all done. -/
def pending : Phase → Option Nat
  | fetched offset | deleting offset _ _ => some offset
  | ready | marking _ _ | committing _ => none

/-- The message in hand. -/
def offset : Phase → Option Nat
  | fetched offset | deleting offset _ _ | marking offset _ | committing offset =>
      some offset
  | ready => none

end Phase

variable {config : Config} {log : List String}

theorem Invalidated.grow {history : List Event} {offset : Nat}
    (invalidated : Invalidated config log history offset) (grown : List Event) :
    Invalidated config log (history ++ grown) offset := by
  intro eventID principals affects
  rcases invalidated eventID principals affects with deleted | marked
  · apply Or.inl
    intro principalID membership
    exact Foundation.mem_since_append (deleted principalID membership) grown
  · exact Or.inr (List.mem_append_left _ marked)

/-- The invariant of a running session. -/
structure SessionSound (config : Config) (log : List String) (history : List Event)
    (committed : Nat) (session : Session) : Prop where
  resumed : committed ≤ session.next
  inHand : ∀ offset, session.phase.offset = some offset → offset < session.next
  passed : ∀ offset < session.next, session.phase.pending ≠ some offset →
    Invalidated config log history offset ∨ offset ∈ session.skipped
  begun : ∀ offset, session.phase.pending = some offset → .fetched offset ∈ history
  progress : ∀ offset eventID rest, session.phase = .deleting offset eventID rest →
    ∀ otherID principals, Affects config log offset otherID principals →
      ∀ principalID ∈ principals, principalID ∈ rest ∨
        .deleted principalID ∈ Foundation.since (.fetched offset) history

/-- The invariant of the consumer. -/
structure Sound (config : Config) (log : List String) (state : State) : Prop where
  committed : ∀ offset < state.committed, Invalidated config log state.history offset
  marks : ∀ eventID ∈ state.marks, .marked eventID ∈ state.history
  session : ∀ session, state.session = some session →
    SessionSound config log state.history state.committed session

theorem sound_initial : Sound config log initial where
  committed := by simp [initial]
  marks := by simp [initial]
  session := by simp [initial]

theorem SessionSound.grow {history : List Event} {committed : Nat} {session : Session}
    (sound : SessionSound config log history committed session) (grown : List Event) :
    SessionSound config log (history ++ grown) committed session where
  resumed := sound.resumed
  inHand := sound.inHand
  passed offset below elsewhere :=
    (sound.passed offset below elsewhere).imp_left fun invalidated =>
      invalidated.grow grown
  begun offset pending := List.mem_append_left _ (sound.begun offset pending)
  progress offset eventID rest phase otherID principals affects principalID membership :=
    (sound.progress offset eventID rest phase otherID principals affects principalID
      membership).imp_right fun deleted => Foundation.mem_since_append deleted grown

/-- More history keeps everything that was established. -/
theorem Sound.grow {state : State} (sound : Sound config log state)
    (grown : List Event) (marks : List String)
    (marked : ∀ eventID ∈ marks, eventID ∈ state.marks ∨ .marked eventID ∈ grown) :
    Sound config log { state with
      marks := marks, history := state.history ++ grown } where
  committed offset below := (sound.committed offset below).grow grown
  marks eventID membership := by
    rcases marked eventID membership with old | new
    · exact List.mem_append_left _ (sound.marks eventID old)
    · exact List.mem_append_right _ new
  session session running := (sound.session session running).grow grown

/-- Ending the session, or moving it on to a phase whose facts are known. -/
theorem Sound.setSession {state : State} (sound : Sound config log state)
    (session : Option Session)
    (kept : ∀ running, session = some running →
      SessionSound config log state.history state.committed running) :
    Sound config log { state with session := session } where
  committed := sound.committed
  marks := sound.marks
  session := kept

/-- The loop turns to the next message; the one in hand may be left behind. -/
theorem SessionSound.skip {history : List Event} {committed : Nat} {session : Session}
    (sound : SessionSound config log history committed session) {offset : Nat}
    (pending : session.phase.pending = some offset) :
    SessionSound config log history committed
      { session with phase := .ready, skipped := session.skipped ++ [offset] } where
  resumed := sound.resumed
  inHand := by simp [Phase.offset]
  passed other below _ := by
    by_cases same : other = offset
    · exact Or.inr (by simp [same])
    · have elsewhere : session.phase.pending ≠ some other := by
        rw [pending]
        simpa using fun equal => same equal.symm
      exact (sound.passed other below elsewhere).imp_right (List.mem_append_left _)
  begun := by simp [Phase.pending]
  progress := by simp

/-- The message in hand is settled, and the loop moves on with it or past it. -/
theorem SessionSound.settle {history : List Event} {committed : Nat} {session : Session}
    (sound : SessionSound config log history committed session) (phase : Phase)
    (settled : ∀ offset, session.phase.pending = some offset →
      Invalidated config log history offset)
    (done : phase.pending = none)
    (same : ∀ offset, phase.offset = some offset → session.phase.offset = some offset) :
    SessionSound config log history committed { session with phase := phase } where
  resumed := sound.resumed
  inHand offset inHand := sound.inHand offset (same offset inHand)
  passed offset below _ := by
    by_cases elsewhere : session.phase.pending = some offset
    · exact Or.inl (settled offset elsewhere)
    · exact sound.passed offset below elsewhere
  begun := by simp [done]
  progress offset eventID rest equal := by
    have pending : phase.pending = some offset := congrArg Phase.pending equal
    rw [done] at pending
    cases pending

/-- The reader hands over the next message. -/
theorem SessionSound.fetch {history : List Event} {committed next : Nat}
    {skipped : List Nat}
    (sound : SessionSound config log history committed ⟨next, .ready, skipped⟩) :
    SessionSound config log (history ++ [.fetched next]) committed
      ⟨next + 1, .fetched next, skipped⟩ where
  resumed := Nat.le_succ_of_le sound.resumed
  inHand offset inHand := by
    simp only [Phase.offset, Option.some.injEq] at inHand
    rw [inHand]
    exact Nat.lt_succ_self offset
  passed offset below elsewhere := by
    have earlier : offset < next := by
      simp only [Phase.pending, ne_eq, Option.some.injEq] at elsewhere
      exact Nat.lt_of_le_of_ne (Nat.le_of_lt_succ below) fun same => elsewhere same.symm
    exact (sound.passed offset earlier (by simp [Phase.pending])).imp_left
      fun invalidated => invalidated.grow _
  begun offset pending := by
    simp only [Phase.pending, Option.some.injEq] at pending
    simp [pending]
  progress := by simp

/-- A message that affects nobody needs no invalidation. -/
theorem invalidated_of_not_affects {history : List Event} {offset : Nat}
    (harmless : ∀ eventID principals, ¬ Affects config log offset eventID principals) :
    Invalidated config log history offset := by
  intro eventID principals affects
  exact absurd affects (harmless eventID principals)

/-- After the deduper's answer, the message is settled or its deletions begin. -/
theorem SessionSound.dispatch {history : List Event} {committed : Nat}
    {session : Session} (sound : SessionSound config log history committed session)
    {offset : Nat} (phase : session.phase = .fetched offset) {envelope : Envelope}
    (decoded : (log[offset]?).bind config.unmarshalEnvelope = some envelope) :
    SessionSound config log history committed
      { session with phase := dispatch config envelope offset } := by
  have settle : (∀ eventID principals, ¬ Affects config log offset eventID principals) →
      SessionSound config log history committed
        { session with phase := .committing offset } := by
    intro harmless
    apply sound.settle
    · intro other pending
      rw [phase] at pending
      cases pending
      exact invalidated_of_not_affects harmless
    · rfl
    · intro other inHand
      rw [phase]
      exact inHand
  cases handler : config.handlers envelope.eventType with
  | none =>
      have chosen : Invalidator.dispatch config envelope offset = .committing offset := by
        simp [Invalidator.dispatch, handler]
      rw [chosen]
      apply settle
      rintro eventID principals ⟨other, affected, found, handled, -⟩
      rw [decoded, Option.some.injEq] at found
      rw [← found, handler] at handled
      cases handled
  | some affected =>
      cases decodes : affected envelope with
      | none =>
          have chosen : Invalidator.dispatch config envelope offset =
              .committing offset := by
            simp [Invalidator.dispatch, handler, decodes]
          rw [chosen]
          apply settle
          rintro eventID principals ⟨other, otherHandler, found, handled, payload, -⟩
          rw [decoded, Option.some.injEq] at found
          rw [← found, handler, Option.some.injEq] at handled
          rw [← found, ← handled, decodes] at payload
          cases payload
      | some principals =>
          have chosen : Invalidator.dispatch config envelope offset =
              .deleting offset envelope.eventID principals := by
            simp [Invalidator.dispatch, handler, decodes]
          rw [chosen]
          constructor
          · exact sound.resumed
          · intro other inHand
            apply sound.inHand
            rw [phase]
            exact inHand
          · intro other below elsewhere
            apply sound.passed other below
            rw [phase]
            exact elsewhere
          · intro other pending
            apply sound.begun
            rw [phase]
            exact pending
          · intro other eventID rest equal otherID otherPrincipals affects principalID
              membership
            simp only [Phase.deleting.injEq] at equal
            obtain ⟨rfl, rfl, rfl⟩ := equal
            obtain ⟨otherEnvelope, otherHandler, found, handled, payload, -⟩ := affects
            rw [decoded, Option.some.injEq] at found
            rw [← found, handler, Option.some.injEq] at handled
            rw [← found, ← handled, decodes, Option.some.injEq] at payload
            exact Or.inl (payload ▸ membership)

/-- One more principal is deleted. -/
theorem SessionSound.delete {history : List Event} {committed : Nat} {session : Session}
    (sound : SessionSound config log history committed session) {offset : Nat}
    {eventID : String} {principalID : UUID} {rest : List UUID}
    (phase : session.phase = .deleting offset eventID (principalID :: rest)) :
    SessionSound config log (history ++ [.deleted principalID]) committed
      { session with phase := .deleting offset eventID rest } := by
  have begun : .fetched offset ∈ history := by
    apply sound.begun
    rw [phase]
    rfl
  have grown := sound.grow [.deleted principalID]
  constructor
  · exact sound.resumed
  · intro other inHand
    apply sound.inHand
    rw [phase]
    exact inHand
  · intro other below elsewhere
    apply grown.passed other below
    rw [phase]
    exact elsewhere
  · intro other pending
    apply grown.begun
    rw [phase]
    exact pending
  · intro other otherEvent remaining equal otherID principals affects candidate membership
    simp only [Phase.deleting.injEq] at equal
    obtain ⟨rfl, rfl, rfl⟩ := equal
    rcases grown.progress offset eventID _ phase otherID principals affects candidate
      membership with left | done
    · rcases List.mem_cons.mp left with same | later
      · rw [same]
        exact Or.inr (Foundation.mem_since_of_mem begun (List.mem_singleton_self _))
      · exact Or.inl later
    · exact Or.inr done

/-- When no deletion is left, the message is settled. -/
theorem SessionSound.invalidated {history : List Event} {committed : Nat}
    {session : Session} (sound : SessionSound config log history committed session)
    {offset : Nat} {eventID : String}
    (phase : session.phase = .deleting offset eventID []) :
    Invalidated config log history offset := by
  intro otherID principals affects
  apply Or.inl
  intro principalID membership
  rcases sound.progress offset eventID [] phase otherID principals affects principalID
    membership with left | done
  · exact absurd left List.not_mem_nil
  · exact done

/-- A commit in a clean session commits only settled messages. -/
theorem Sound.commit {state : State} (sound : Sound config log state) {session : Session}
    (running : state.session = some session) {offset : Nat}
    (phase : session.phase = .committing offset) (clean : session.skipped = []) :
    Sound config log { state with committed := offset + 1 } := by
  have inSession := sound.session session running
  have bound : offset < session.next := by
    apply inSession.inHand
    rw [phase]
    rfl
  constructor
  · intro other below
    have passed := inSession.passed other
      (Nat.lt_of_lt_of_le below (Nat.succ_le_of_lt bound)) (by simp [phase, Phase.pending])
    rcases passed with invalidated | left
    · exact invalidated
    · rw [clean] at left
      exact absurd left List.not_mem_nil
  · exact sound.marks
  · intro other equal
    rw [running, Option.some.injEq] at equal
    subst equal
    exact ⟨bound, inSession.inHand, inSession.passed, inSession.begun,
      inSession.progress⟩

/-- Markers expire on their own. -/
theorem Sound.expire {state : State} (sound : Sound config log state)
    (eventID : String) :
    Sound config log { state with
      marks := state.marks.filter fun mark => mark ≠ eventID } := by
  have grown := sound.grow [] (state.marks.filter fun mark => mark ≠ eventID)
    (fun other membership => Or.inl (List.mem_of_mem_filter membership))
  rwa [List.append_nil] at grown

/-- The steps that begin with a message just fetched. -/
theorem Sound.stepFetched {state next : State} {label : Label}
    (sound : Sound config log state) {session : Session}
    (running : state.session = some session)
    (label_eq : label = .reject ∨ label = .dedupe ∨ label = .dedupeError)
    (taken : step config log state label = some next) : Sound config log next := by
  have inSession := sound.session session running
  cases phase : session.phase with
  | ready | deleting | marking | committing =>
      rcases label_eq with rfl | rfl | rfl <;> simp [step, running, phase] at taken
  | fetched offset =>
      cases decoded : (log[offset]?).bind config.unmarshalEnvelope with
      | none =>
          rcases label_eq with rfl | rfl | rfl
          · simp only [step, running, phase, decoded, Option.some.injEq] at taken
            subst taken
            apply sound.setSession
            rintro _ ⟨⟩
            apply inSession.settle
            · intro other pending
              rw [phase] at pending
              cases pending
              apply invalidated_of_not_affects
              rintro eventID principals ⟨envelope, affected, found, -⟩
              rw [decoded] at found
              cases found
            · rfl
            · intro other inHand
              rw [phase]
              exact inHand
          · simp [step, running, phase, decoded] at taken
          · simp [step, running, phase, decoded] at taken
      | some envelope =>
          rcases label_eq with rfl | rfl | rfl
          · simp [step, running, phase, decoded] at taken
          · simp only [step, running, phase, decoded] at taken
            split at taken
            · rename_i seen
              cases taken
              apply sound.setSession
              rintro _ ⟨⟩
              apply inSession.settle
              · intro other pending
                rw [phase] at pending
                cases pending
                rintro eventID principals ⟨found, affected, decodes, -, -, rfl⟩
                rw [decoded, Option.some.injEq] at decodes
                rw [← decodes]
                exact Or.inr (sound.marks _ seen)
              · rfl
              · intro other inHand
                rw [phase]
                exact inHand
            · cases taken
              apply sound.setSession
              rintro _ ⟨⟩
              exact inSession.dispatch phase decoded
          · simp only [step, running, phase, decoded, Option.some.injEq] at taken
            subst taken
            apply sound.setSession
            rintro _ ⟨⟩
            apply inSession.skip
            rw [phase]
            rfl

/-- A `Delete` call, or the end of the deletions. -/
theorem Sound.stepDelete {state next : State} {outcome : Outcome}
    (sound : Sound config log state) {session : Session}
    (running : state.session = some session)
    (taken : step config log state (.delete outcome) = some next) :
    Sound config log next := by
  have inSession := sound.session session running
  cases phase : session.phase with
  | ready | fetched | marking | committing => simp [step, running, phase] at taken
  | deleting offset eventID affected =>
      cases affected with
      | nil =>
          simp only [step, running, phase, Option.some.injEq] at taken
          subst taken
          apply sound.setSession
          rintro _ ⟨⟩
          apply inSession.settle
          · intro other pending
            rw [phase] at pending
            cases pending
            exact inSession.invalidated phase
          · rfl
          · intro other inHand
            rw [phase]
            exact inHand
      | cons principalID rest =>
          have pending : session.phase.pending = some offset := by
            rw [phase]
            rfl
          have grown := sound.grow [.deleted principalID] state.marks
            (fun _ membership => Or.inl membership)
          cases outcome with
          | ok =>
              simp only [step, running, phase, Option.some.injEq] at taken
              subst taken
              apply grown.setSession
              rintro _ ⟨⟩
              exact inSession.delete phase
          | failed =>
              simp only [step, running, phase, Option.some.injEq] at taken
              subst taken
              apply sound.setSession
              rintro _ ⟨⟩
              exact inSession.skip pending
          | lost =>
              simp only [step, running, phase, Option.some.injEq] at taken
              subst taken
              apply grown.setSession
              rintro _ ⟨⟩
              exact (inSession.grow _).skip pending

theorem Sound.stepMark {state next : State} {outcome : Outcome}
    (sound : Sound config log state) {session : Session}
    (running : state.session = some session)
    (taken : step config log state (.mark outcome) = some next) :
    Sound config log next := by
  have inSession := sound.session session running
  cases phase : session.phase with
  | ready | fetched | deleting | committing => simp [step, running, phase] at taken
  | marking offset eventID =>
      have settled : ∀ other, session.phase.pending = some other →
          Invalidated config log state.history other := by
        simp [phase, Phase.pending]
      have grown := sound.grow [.marked eventID] (eventID :: state.marks) (by
        intro other membership
        rcases List.mem_cons.mp membership with same | old
        · exact Or.inr (by simp [same])
        · exact Or.inl old)
      cases outcome with
      | ok =>
          simp only [step, running, phase, Option.some.injEq] at taken
          subst taken
          apply grown.setSession
          rintro _ ⟨⟩
          apply (inSession.grow _).settle
          · simp [phase, Phase.pending]
          · rfl
          · intro other inHand
            rw [phase]
            exact inHand
      | failed =>
          simp only [step, running, phase, Option.some.injEq] at taken
          subst taken
          apply sound.setSession
          rintro _ ⟨⟩
          exact inSession.settle .ready settled rfl (by simp [Phase.offset])
      | lost =>
          simp only [step, running, phase, Option.some.injEq] at taken
          subst taken
          apply grown.setSession
          rintro _ ⟨⟩
          apply (inSession.grow _).settle
          · simp [phase, Phase.pending]
          · rfl
          · simp [Phase.offset]

theorem Sound.stepCommit {state next : State} {outcome : Outcome}
    (sound : Sound config log state) {session : Session}
    (running : state.session = some session)
    (guarded : CommitsClean state (.commit outcome))
    (taken : step config log state (.commit outcome) = some next) :
    Sound config log next := by
  cases phase : session.phase with
  | ready | fetched | deleting | marking => simp [step, running, phase] at taken
  | committing offset =>
      cases outcome with
      | failed =>
          simp only [step, running, phase, Option.some.injEq] at taken
          subst taken
          exact sound.setSession none (by simp)
      | lost =>
          simp only [CommitsClean, running] at guarded
          simp only [step, running, phase, Option.some.injEq] at taken
          subst taken
          exact (sound.commit running phase guarded).setSession none (by simp)
      | ok =>
          simp only [CommitsClean, running] at guarded
          simp only [step, running, phase, Option.some.injEq] at taken
          subst taken
          have committed := sound.commit running phase guarded
          apply committed.setSession
          rintro _ ⟨⟩
          apply (committed.session session running).settle
          · simp [phase, Phase.pending]
          · rfl
          · simp [Phase.offset]

theorem Sound.step {state next : State} {label : Label} (sound : Sound config log state)
    (guarded : CommitsClean state label)
    (taken : step config log state label = some next) : Sound config log next := by
  cases running : state.session with
  | none =>
      cases label with
      | start =>
          simp only [Invalidator.step, running, Option.some.injEq] at taken
          subst taken
          apply sound.setSession
          rintro session ⟨⟩
          refine ⟨Nat.le_refl _, by simp [Phase.offset], ?_, by simp [Phase.pending],
            by simp⟩
          intro offset below _
          exact Or.inl (sound.committed offset below)
      | expire eventID =>
          simp only [Invalidator.step, Option.some.injEq] at taken
          subst taken
          exact sound.expire eventID
      | fetch | reject | dedupe | dedupeError | stop =>
          simp [Invalidator.step, running] at taken
      | delete outcome | mark outcome | commit outcome =>
          simp [Invalidator.step, running] at taken
  | some session =>
      cases label with
      | start => simp [Invalidator.step, running] at taken
      | expire eventID =>
          simp only [Invalidator.step, Option.some.injEq] at taken
          subst taken
          exact sound.expire eventID
      | stop =>
          simp only [Invalidator.step, running, Option.some.injEq] at taken
          subst taken
          exact sound.setSession none (by simp)
      | fetch =>
          obtain ⟨reading, phase, skipped⟩ := session
          cases phase with
          | ready =>
              simp only [Invalidator.step, running] at taken
              split at taken
              · cases taken
                have grown := sound.grow [.fetched reading] state.marks
                  (fun _ membership => Or.inl membership)
                apply grown.setSession
                rintro _ ⟨⟩
                exact (sound.session _ running).fetch
              · cases taken
          | fetched | deleting | marking | committing =>
              simp [Invalidator.step, running] at taken
      | reject => exact sound.stepFetched running (Or.inl rfl) taken
      | dedupe => exact sound.stepFetched running (Or.inr (Or.inl rfl)) taken
      | dedupeError => exact sound.stepFetched running (Or.inr (Or.inr rfl)) taken
      | delete outcome => exact sound.stepDelete running taken
      | mark outcome => exact sound.stepMark running taken
      | commit outcome => exact sound.stepCommit running guarded taken

/-- In every run whose commits are clean, every committed message has been
invalidated or was marked. -/
theorem invalidated_of_run (config : Config) (log : List String) (schedule : List Label)
    (final : State)
    (guarded : Foundation.Meets (step config log) CommitsClean initial schedule)
    (reached : Foundation.run (step config log) initial schedule = some final) :
    ∀ offset < final.committed, Invalidated config log final.history offset :=
  (Foundation.invariant_of_meets
    (fun _ _ _ guarded sound taken => Sound.step sound guarded taken)
    schedule initial final guarded sound_initial reached).committed

/-- The payload that affects the principal with the given last digit. -/
def payloadText (digit : String) : String :=
  "\x7b\"affected_principal_ids\":[\"00000000-0000-0000-0000-00000000000" ++ digit ++
    "\"]\x7d"

/-- A `user.disabled` message, with the fields that the consumer reads. -/
def messageText (digit : String) : String :=
  "\x7b\"event_id\":\"e" ++ digit ++ "\",\"event_type\":\"user.disabled\"," ++
    "\"payload\":" ++ payloadText digit ++ "\x7d"

/-- The decoders on the messages for the principals 7 and 8. -/
def twoMessages : Config where
  unmarshalEnvelope value :=
    if value = messageText "7" then some ⟨"e7", "user.disabled", payloadText "7"⟩
    else if value = messageText "8" then some ⟨"e8", "user.disabled", payloadText "8"⟩
    else none
  handlers := defaultHandlers fun payload =>
    if payload = payloadText "7" then some [7]
    else if payload = payloadText "8" then some [8]
    else none

/-- The first delete fails, and a restarted consumer fetches the message again. -/
def retriedByRestart : List Label :=
  [.start, .fetch, .dedupe, .delete .failed, .stop,
    .start, .fetch, .dedupe, .delete .ok, .delete .ok, .mark .ok, .commit .ok]

theorem invalidated_retriedByRestart :
    ∃ final, Foundation.run (step twoMessages [messageText "7", messageText "8"]) initial
        retriedByRestart = some final ∧ final.committed = 1 ∧
      ∀ offset < final.committed,
        Invalidated twoMessages [messageText "7", messageText "8"] final.history offset :=
  ⟨_, by decide, rfl, invalidated_of_run twoMessages [messageText "7", messageText "8"]
    retriedByRestart ⟨1, ["e7"], some ⟨1, .ready, []⟩,
      [.fetched 0, .fetched 0, .deleted 7, .marked "e7"]⟩ (by decide) (by decide)⟩

/-- The delete for the first message fails, the loop goes on, and the commit of the
second message passes the first. -/
def passedOver : List Label :=
  [.start, .fetch, .dedupe, .delete .failed,
    .fetch, .dedupe, .delete .ok, .delete .ok, .mark .ok, .commit .ok]

theorem notInvalidated_passedOver :
    ∃ final, Foundation.run (step twoMessages [messageText "7", messageText "8"]) initial
        passedOver = some final ∧ 0 < final.committed ∧
      ¬ Invalidated twoMessages [messageText "7", messageText "8"] final.history 0 := by
  refine ⟨⟨2, ["e8"], some ⟨2, .ready, [0]⟩,
    [.fetched 0, .fetched 1, .deleted 8, .marked "e8"]⟩, by decide, by decide, ?_⟩
  intro invalidated
  have affects : Affects twoMessages [messageText "7", messageText "8"] 0 "e7" [7] :=
    ⟨⟨"e7", "user.disabled", payloadText "7"⟩, _, by decide, rfl, by decide, rfl⟩
  rcases invalidated "e7" [7] affects with deleted | marked
  · exact absurd (deleted 7 (by decide)) (by decide)
  · exact absurd marked (by decide)

end GitScale.Invalidator
