import GitScale.Identity.Atomicity
import GitScale.Invalidator.Envelope

/-!
# From a revocation to the cache

A call that takes rights away from a principal commits an event, the event is published, and the
invalidator deletes the cached identity.  The three components are put together: the runs of the
identity service, the messages of the partition, and the runs of the consumer.
-/

namespace GitScale.Invalidator

open Approval Foundation Go GraphQL
open Identity (Store Environment Attempt TxM OutboxEvent writeOutbox writeOutboxTx serve)

/-! ## What a call leaves in the outbox -/

section Outbox

variable {relation : Store → Store → Prop}

/-- The relation admits a statement that leaves the outbox alone, and a row written to it. -/
structure Admits (relation : Store → Store → Prop) : Prop where
  silent : ∀ before after, after.outbox = before.outbox → relation before after
  written : ∀ event before value after, writeOutbox event before = .ok (value, after) →
    relation before after

/-- The statement leaves the outbox alone. -/
def Silent (effect : Store → Identity.Outcome Unit) : Prop :=
  ∀ before value after, effect before = .ok (value, after) → after.outbox = before.outbox

theorem Admits.keeps_write [IsTrans Store relation] (admits : Admits relation) (attempt : Attempt)
    {operation aggregateType eventType : String} {aggregateID : UUID}
    {effect : Store → Identity.Outcome Unit} {payload : Identity.Payload} (silent : Silent effect) :
    Script.Keeps relation (do
      Identity.exec operation effect
      writeOutboxTx attempt aggregateType aggregateID eventType payload) := by
  apply Script.Keeps.bind
  · exact Identity.keeps_exec fun before value after executed =>
      admits.silent before after (silent before value after executed)
  · intro _
    exact Identity.keeps_exec fun before value after executed =>
      admits.written _ before value after executed

theorem Admits.keeps_guarded [Std.Refl relation] [IsTrans Store relation]
    (admits : Admits relation) (attempt : Attempt) {α : Type}
    {lookup operation aggregateType eventType : String} {aggregateID : UUID}
    {read : Store → Option α} {missing : Identity.ServiceError}
    {effect : α → Store → Identity.Outcome Unit} {payload : α → Identity.Payload}
    (silent : ∀ row, Silent (effect row)) :
    Script.Keeps relation (do
      let row ← Identity.require lookup read missing
      Identity.exec operation (effect row)
      writeOutboxTx attempt aggregateType aggregateID eventType (payload row)) := by
  apply Script.Keeps.bind
  · exact Identity.keeps_require _ _ _
  · intro row
    exact admits.keeps_write attempt (silent row)

theorem silent_setAgentReputationScore (id : UUID) (score : Option Rat) (now : Time) :
    Silent (Identity.setAgentReputationScore id score now) := by
  intro before value after executed
  unfold Identity.setAgentReputationScore at executed
  split at executed
  · cases executed
    rfl
  · split at executed
    · split at executed
      · cases executed
        rfl
      · cases executed
    · cases executed

theorem silent_addOrgMember (orgID userID : UUID) (role : String) (now : Time) :
    Silent (Identity.addOrgMember orgID userID role now) := by
  intro before value after executed
  rcases Identity.addOrgMember_ok executed with ⟨-, rfl⟩ | ⟨-, rfl⟩
  · rfl
  · rfl

/-- What every statement and every event keeps, every call keeps. -/
theorem Admits.serve [Std.Refl relation] [IsTrans Store relation] (admits : Admits relation)
    (toLower : String → String) (call : Identity.Call) (environment : Environment) (store : Store) :
    relation store (serve toLower call environment store).2 := by
  cases call with
  | createUser email plaintextCredential =>
      simp only [Identity.serve]
      split
      · exact Std.Refl.refl store
      · split
        · exact Std.Refl.refl store
        · split
          · exact Std.Refl.refl store
          · apply Identity.commitReply_keeps
            intro attempt
            apply admits.keeps_write attempt
            intro before value after executed
            rw [Identity.insertHumanUser_ok executed]
  | createAgent parentUserID displayName scope =>
      simp only [Identity.serve]
      split
      · exact Std.Refl.refl store
      · apply Identity.commitReply_keeps
        intro attempt
        apply admits.keeps_write attempt
        intro before value after executed
        rw [Identity.insertAgentIdentity_ok executed]
  | setAgentReputationScore agentID score =>
      simp only [Identity.serve]
      apply Identity.commitReply_keeps
      intro attempt
      cases Identity.clamp01 score with
      | none =>
          refine Script.Keeps.bind (Identity.keeps_require _ _ _) fun _ =>
            Script.Keeps.bind (Identity.keeps_exec ?_) fun _ => Script.keeps_fail _
          intro before value after executed
          exact admits.silent before after (silent_setAgentReputationScore _ _ _ _ _ _ executed)
      | some clamped =>
          exact admits.keeps_guarded attempt fun _ => silent_setAgentReputationScore _ _ _
  | disableUser | revokeAgent | updateAgentPermissions =>
      simp only [Identity.serve]
      apply Identity.commitReply_keeps
      intro attempt
      apply admits.keeps_guarded attempt
      intro _ before value after executed
      cases executed
      rfl
  | addOrgMember orgID userID role =>
      simp only [Identity.serve]
      split
      · exact Std.Refl.refl store
      · apply Identity.commitReply_keeps
        intro attempt
        exact admits.keeps_guarded attempt fun _ => silent_addOrgMember _ _ _ _
  | removeOrgMember orgID userID =>
      simp only [Identity.serve]
      apply Identity.commitReply_keeps
      intro attempt
      apply admits.keeps_write attempt
      intro before value after executed
      cases executed
      rfl
  | mintCloneToken principalID repoID =>
      simp only [Identity.serve]
      split
      · exact Std.Refl.refl store
      · apply Identity.commitReply_keeps
        intro attempt
        refine Script.Keeps.bind (Identity.keeps_exec ?_) fun _ =>
          Script.Keeps.bind (Identity.keeps_exec ?_) fun _ => Script.keeps_pure _
        · intro before value after executed
          apply admits.silent before after
          rw [Identity.insertCloneToken_ok executed]
        · intro before value after executed
          exact admits.written _ before value after executed

end Outbox

/-- Rows of the outbox are only added, and their ids stay distinct. -/
structure OutboxGrows (before after : Store) : Prop where
  rows : before.outbox <+: after.outbox
  distinct : (before.outbox.map (·.eventID)).Nodup → (after.outbox.map (·.eventID)).Nodup

instance : Std.Refl OutboxGrows where
  refl _ := ⟨List.prefix_rfl, id⟩

instance : IsTrans Store OutboxGrows where
  trans _ _ _ first second :=
    ⟨first.rows.trans second.rows, fun distinct => second.distinct (first.distinct distinct)⟩

theorem admits_outboxGrows : Admits OutboxGrows where
  silent before after same := by
    constructor
    · rw [same]
    · rw [same]
      exact id
  written event before value after written := by
    unfold writeOutbox at written
    split at written
    · cases written
    · rename_i unused
      cases written
      refine ⟨List.prefix_append _ _, ?_⟩
      intro distinct
      rw [List.map_append, List.map_singleton, List.nodup_append]
      refine ⟨distinct, List.nodup_singleton _, ?_⟩
      intro id member other single same
      rcases List.mem_map.mp member with ⟨row, inside, rfl⟩
      rw [List.mem_singleton.mp single] at same
      exact unused (List.any_eq_true.mpr ⟨row, inside, decide_eq_true same⟩)

/-! ## Revocations -/

/-- The principals whose rights a call changes. -/
def revokes : Identity.Call → List UUID
  | .disableUser id _ | .revokeAgent id _ | .updateAgentPermissions id _ => [id]
  | .removeOrgMember orgID userID => [userID, orgID]
  | _ => []

/-- A principal whose rights a call has changed, and the attempts of the call. -/
structure Revocation where
  principalID : UUID
  attempts : Nat → Identity.Attempt

/-- The identity tables, and the revocations of the calls that returned nil. -/
structure Revocations where
  store : Store
  revoked : List Revocation

/-- One call of the service. -/
def serveStep (toLower : String → String) (state : Revocations)
    (label : Identity.Call × Environment) : Option Revocations :=
  let outcome := serve toLower label.1 label.2 state.store
  some {
    store := outcome.2
    revoked :=
      match outcome.1 with
      | .ok _ => state.revoked ++ (revokes label.1).map fun id => ⟨id, label.2.attempts⟩
      | .error _ => state.revoked }

/-- An attempt of the call drew the id of the event, and the event names the principal. -/
def Revocation.Wrote (revocation : Revocation) (event : OutboxEvent) : Prop :=
  (∃ number, (revocation.attempts number).eventID = event.eventID) ∧
    ∃ ids, Announces event ids ∧ revocation.principalID ∈ ids

/-- There is an event for the revocation. -/
def Announced (store : Store) (revocation : Revocation) : Prop :=
  ∃ event ∈ store.outbox, revocation.Wrote event

theorem Announced.grow {before after : Store} {revocation : Revocation}
    (announced : Announced before revocation) (grows : OutboxGrows before after) :
    Announced after revocation := by
  rcases announced with ⟨event, inside, wrote⟩
  exact ⟨event, grows.rows.subset inside, wrote⟩

theorem announced_published {source : Store} {event : OutboxEvent} {revocation : Revocation}
    (wrote : revocation.Wrote event) : Announced (source.published event) revocation :=
  ⟨event, List.mem_append_right _ (List.mem_singleton_self event), wrote⟩

/-- A call that returned nil has left its event for every principal it concerns. -/
theorem announced_of_serve {toLower : String → String} {call : Identity.Call}
    {environment : Environment} {store after : Store} {reply : Identity.Reply}
    (returned : serve toLower call environment store = (.ok reply, after)) {id : UUID}
    (concerned : id ∈ revokes call) : Announced after ⟨id, environment.attempts⟩ := by
  cases call with
  | disableUser | revokeAgent | updateAgentPermissions =>
      rcases Identity.commitReply_ok returned with ⟨number, before, value, session, yields, rfl, -⟩
      rcases Identity.yields_requireWrite yields with ⟨_, source, -, -, published⟩
      rw [published]
      exact announced_published ⟨⟨number, rfl⟩, _, ⟨by simp [eventTypes], rfl⟩, concerned⟩
  | removeOrgMember orgID userID =>
      rcases Identity.commitReply_ok returned with ⟨number, before, value, session, yields, rfl, -⟩
      rcases Identity.yields_write yields with ⟨source, -, published⟩
      rw [published]
      exact announced_published ⟨⟨number, rfl⟩, _, ⟨by simp [eventTypes], rfl⟩, concerned⟩
  | createUser | createAgent | setAgentReputationScore | addOrgMember | mintCloneToken =>
      cases concerned

/-- What every run of the service keeps. -/
structure OutboxSound (state : Revocations) : Prop where
  announced : ∀ revocation ∈ state.revoked, Announced state.store revocation
  distinct : (state.store.outbox.map (·.eventID)).Nodup

theorem OutboxSound.step {toLower : String → String} {state next : Revocations}
    {label : Identity.Call × Environment} (sound : OutboxSound state)
    (taken : serveStep toLower state label = some next) : OutboxSound next := by
  have grows := admits_outboxGrows.serve toLower label.1 label.2 state.store
  unfold serveStep at taken
  rcases served : serve toLower label.1 label.2 state.store with ⟨result, after⟩
  simp only [served, Option.some.injEq] at taken grows
  subst taken
  refine ⟨?_, grows.distinct sound.distinct⟩
  intro revocation member
  cases result with
  | error failure => exact (sound.announced revocation member).grow grows
  | ok reply =>
      rcases List.mem_append.mp member with old | new
      · exact (sound.announced revocation old).grow grows
      · rcases List.mem_map.mp new with ⟨id, concerned, rfl⟩
        exact announced_of_serve served concerned

/-! ## Marked events -/

section Consumer

variable {config : Config} {log : List String} {history : List Event}

/-- A message affects one list of principals. -/
theorem Affects.unique {offset : Nat} {eventID eventID' : String}
    {principals principals' : List UUID}
    (affects : Affects config log offset eventID principals)
    (affects' : Affects config log offset eventID' principals') : principals = principals' := by
  rcases affects with ⟨envelope, affected, found, handled, decodes, -⟩
  rcases affects' with ⟨envelope', affected', found', handled', decodes', -⟩
  cases found.symm.trans found'
  cases handled.symm.trans handled'
  exact Option.some.inj (decodes.symm.trans decodes')

/-- Every principal that a message of the event affects was deleted from the cache after that
message was fetched. -/
def Deleted (config : Config) (log : List String) (history : List Event) (eventID : String)
    (offset : Nat) : Prop :=
  ∃ principals, Affects config log offset eventID principals ∧
    ∀ principalID ∈ principals, .deleted principalID ∈ since (.fetched offset) history

/-- The event that is being deleted for is that of the message in hand; the event that is being
marked has been deleted for. -/
def PhaseHonest (config : Config) (log : List String) (history : List Event) : Phase → Prop
  | .deleting offset eventID _ => ∃ principals, Affects config log offset eventID principals
  | .marking offset eventID => Deleted config log history eventID offset
  | .ready | .fetched _ | .committing _ => True

/-- Only events that were deleted for are marked. -/
structure Honest (config : Config) (log : List String) (state : State) : Prop where
  marked : ∀ eventID, .marked eventID ∈ state.history →
    ∃ offset, Deleted config log state.history eventID offset
  phase : ∀ session, state.session = some session →
    PhaseHonest config log state.history session.phase

theorem honest_initial : Honest config log initial where
  marked := by simp [initial]
  phase := by simp [initial]

theorem Deleted.grow {eventID : String} {offset : Nat}
    (deleted : Deleted config log history eventID offset) (grown : List Event) :
    Deleted config log (history ++ grown) eventID offset := by
  rcases deleted with ⟨principals, affects, all⟩
  refine ⟨principals, affects, ?_⟩
  intro principalID member
  exact mem_since_append (all principalID member) grown

/-- The history grows by events that are honest, and the session goes on. -/
theorem Honest.advance {state : State} (honest : Honest config log state) {grown : List Event}
    {marks : List String} {session : Session} {committed : Nat}
    (marked : ∀ eventID, .marked eventID ∈ grown →
      ∃ offset, Deleted config log state.history eventID offset)
    (phase : PhaseHonest config log (state.history ++ grown) session.phase) :
    Honest config log ⟨committed, marks, some session, state.history ++ grown⟩ where
  marked eventID member := by
    rcases List.mem_append.mp member with old | new
    · rcases honest.marked eventID old with ⟨offset, deleted⟩
      exact ⟨offset, deleted.grow grown⟩
    · rcases marked eventID new with ⟨offset, deleted⟩
      exact ⟨offset, deleted.grow grown⟩
  phase running same := by
    cases same
    exact phase

/-- The session goes on without a new event. -/
theorem Honest.withPhase {state : State} (honest : Honest config log state) {marks : List String}
    {session : Session} {committed : Nat}
    (phase : PhaseHonest config log state.history session.phase) :
    Honest config log ⟨committed, marks, some session, state.history⟩ where
  marked := honest.marked
  phase running same := by
    cases same
    exact phase

theorem Honest.withoutSession {state : State} (honest : Honest config log state)
    (marks : List String) (committed : Nat) :
    Honest config log ⟨committed, marks, none, state.history⟩ where
  marked := honest.marked
  phase := by simp

theorem Honest.withMarks {state : State} (honest : Honest config log state)
    (marks : List String) :
    Honest config log { state with marks := marks } where
  marked := honest.marked
  phase := honest.phase

/-- The deletions of a message are for the event of that message. -/
theorem phaseHonest_dispatch {envelope : Envelope} {offset : Nat}
    (decoded : (log[offset]?).bind config.unmarshalEnvelope = some envelope) :
    PhaseHonest config log history (dispatch config envelope offset) := by
  unfold dispatch
  split
  · trivial
  · rename_i affected handler
    split
    · trivial
    · rename_i principals decodes
      exact ⟨principals, envelope, affected, decoded, handler, decodes, rfl⟩

theorem Honest.stepFetched {state next : State} {label : Label}
    (honest : Honest config log state) {session : Session}
    (running : state.session = some session)
    (label_eq : label = .reject ∨ label = .dedupe ∨ label = .dedupeError)
    (taken : step config log state label = some next) : Honest config log next := by
  cases phase : session.phase with
  | ready | deleting | marking | committing =>
      rcases label_eq with rfl | rfl | rfl <;> simp [step, running, phase] at taken
  | fetched offset =>
      cases decoded : (log[offset]?).bind config.unmarshalEnvelope with
      | none =>
          rcases label_eq with rfl | rfl | rfl <;>
            simp only [step, running, phase, decoded, Option.some.injEq, reduceCtorEq] at taken
          subst taken
          exact honest.withPhase trivial
      | some envelope =>
          rcases label_eq with rfl | rfl | rfl
          · simp [step, running, phase, decoded] at taken
          · simp only [step, running, phase, decoded] at taken
            split at taken
            · cases taken
              exact honest.withPhase trivial
            · cases taken
              exact honest.withPhase (phaseHonest_dispatch decoded)
          · simp only [step, running, phase, decoded, Option.some.injEq] at taken
            subst taken
            exact honest.withPhase trivial

/-- Marking begins when every affected principal has been deleted. -/
theorem Honest.stepDelete {state next : State} {outcome : Outcome}
    (sound : Sound config log state) (honest : Honest config log state) {session : Session}
    (running : state.session = some session)
    (taken : step config log state (.delete outcome) = some next) : Honest config log next := by
  cases phase : session.phase with
  | ready | fetched | marking | committing => simp [step, running, phase] at taken
  | deleting offset eventID affected =>
      have current := honest.phase session running
      rw [phase] at current
      rcases current with ⟨principals, affects⟩
      cases affected with
      | nil =>
          simp only [step, running, phase, Option.some.injEq] at taken
          subst taken
          apply honest.withPhase
          refine ⟨principals, affects, ?_⟩
          intro principalID member
          rcases (sound.session session running).progress offset eventID [] phase eventID
            principals affects principalID member with left | done
          · cases left
          · exact done
      | cons principalID rest =>
          have unmarked : ∀ other : String, .marked other ∈ [Event.deleted principalID] →
              ∃ offset, Deleted config log state.history other offset := by
            simp
          cases outcome with
          | ok =>
              simp only [step, running, phase, Option.some.injEq] at taken
              subst taken
              exact honest.advance unmarked ⟨principals, affects⟩
          | failed =>
              simp only [step, running, phase, Option.some.injEq] at taken
              subst taken
              exact honest.withPhase trivial
          | lost =>
              simp only [step, running, phase, Option.some.injEq] at taken
              subst taken
              exact honest.advance unmarked trivial

theorem Honest.stepMark {state next : State} {outcome : Outcome}
    (honest : Honest config log state) {session : Session}
    (running : state.session = some session)
    (taken : step config log state (.mark outcome) = some next) : Honest config log next := by
  cases phase : session.phase with
  | ready | fetched | deleting | committing => simp [step, running, phase] at taken
  | marking offset eventID =>
      have current := honest.phase session running
      rw [phase] at current
      have marked : ∀ other, .marked other ∈ [Event.marked eventID] →
          ∃ offset, Deleted config log state.history other offset := by
        intro other member
        cases List.mem_singleton.mp member
        exact ⟨offset, current⟩
      cases outcome with
      | failed =>
          simp only [step, running, phase, Option.some.injEq] at taken
          subst taken
          exact honest.withPhase trivial
      | ok | lost =>
          simp only [step, running, phase, Option.some.injEq] at taken
          subst taken
          exact honest.advance marked trivial

theorem Honest.stepCommit {state next : State} {outcome : Outcome}
    (honest : Honest config log state) {session : Session}
    (running : state.session = some session)
    (taken : step config log state (.commit outcome) = some next) : Honest config log next := by
  cases phase : session.phase with
  | ready | fetched | deleting | marking => simp [step, running, phase] at taken
  | committing offset =>
      cases outcome with
      | ok =>
          simp only [step, running, phase, Option.some.injEq] at taken
          subst taken
          exact honest.withPhase trivial
      | failed | lost =>
          simp only [step, running, phase, Option.some.injEq] at taken
          subst taken
          exact honest.withoutSession _ _

theorem Honest.step {state next : State} {label : Label} (sound : Sound config log state)
    (honest : Honest config log state) (taken : step config log state label = some next) :
    Honest config log next := by
  cases running : state.session with
  | none =>
      cases label with
      | start =>
          simp only [Invalidator.step, running, Option.some.injEq] at taken
          subst taken
          exact honest.withPhase trivial
      | expire eventID =>
          simp only [Invalidator.step, Option.some.injEq] at taken
          subst taken
          exact honest.withMarks _
      | fetch | reject | dedupe | dedupeError | stop =>
          simp [Invalidator.step, running] at taken
      | delete outcome | mark outcome | commit outcome =>
          simp [Invalidator.step, running] at taken
  | some session =>
      cases label with
      | start => simp [Invalidator.step, running] at taken
      | expire eventID =>
          simp only [Invalidator.step, Option.some.injEq] at taken
          subst taken
          exact honest.withMarks _
      | stop =>
          simp only [Invalidator.step, running, Option.some.injEq] at taken
          subst taken
          exact honest.withoutSession _ _
      | fetch =>
          obtain ⟨reading, phase, skipped⟩ := session
          cases phase with
          | ready =>
              simp only [Invalidator.step, running] at taken
              split at taken
              · cases taken
                exact honest.advance (by simp) trivial
              · cases taken
          | fetched | deleting | marking | committing =>
              simp [Invalidator.step, running] at taken
      | reject => exact honest.stepFetched running (Or.inl rfl) taken
      | dedupe => exact honest.stepFetched running (Or.inr (Or.inl rfl)) taken
      | dedupeError => exact honest.stepFetched running (Or.inr (Or.inr rfl)) taken
      | delete outcome => exact Honest.stepDelete sound honest running taken
      | mark outcome => exact honest.stepMark running taken
      | commit outcome => exact honest.stepCommit running taken

/-- In every run whose commits are clean, the principals of a committed message were deleted
after a message of the same event was fetched. -/
theorem deleted_of_committed {schedule : List Label} {final : State}
    (guarded : Meets (step config log) CommitsClean initial schedule)
    (reached : run (step config log) initial schedule = some final) {offset : Nat}
    (committed : offset < final.committed) {eventID : String} {principals : List UUID}
    (affects : Affects config log offset eventID principals) :
    ∃ copy, Deleted config log final.history eventID copy := by
  have preserved : ∀ state label next, CommitsClean state label →
      (Sound config log state ∧ Honest config log state) →
      step config log state label = some next → Sound config log next ∧ Honest config log next := by
    intro state label next guarded both taken
    exact ⟨both.1.step guarded taken, Honest.step both.1 both.2 taken⟩
  have both := invariant_of_meets preserved schedule initial final guarded
    ⟨sound_initial, honest_initial⟩ reached
  rcases both.1.committed offset committed eventID principals affects with deleted | marked
  · exact ⟨offset, principals, affects, deleted⟩
  · exact both.2.marked eventID marked

end Consumer

/-! ## The three components together -/

/-- Every message of the partition is one that was published for a row of the outbox. -/
def Published (jsonb : Text → Option Text) (store : Store) (log : List String) : Prop :=
  ∀ offset < log.length, ∃ event ∈ store.outbox, Carries jsonb log offset event

/-- Whatever the calls and their faults, and whatever the consumer meets as long as its commits are
clean: when a call that changes the rights of a principal has returned nil, its event is in the
outbox, and once a message of that event is committed, the cached identity of the principal was
deleted after a message of that event was fetched. -/
theorem deleted_of_revoked {parseUUID : String → Option UUID} {parseTime : Text → Option Time}
    (reads : ReadsUUIDs parseUUID) {jsonb : Text → Option Text} (keeps : KeepsValues jsonb)
    {toLower : String → String} {tables : Store} (distinct : (tables.outbox.map (·.eventID)).Nodup)
    {calls : List (Identity.Call × Environment)} {identity : Revocations}
    (served : run (serveStep toLower) ⟨tables, []⟩ calls = some identity) {log : List String}
    (published : Published jsonb identity.store log) {schedule : List Label} {final : State}
    (guarded : Meets (step (productionConfig parseUUID parseTime) log) CommitsClean initial
      schedule)
    (reached : run (step (productionConfig parseUUID parseTime) log) initial schedule =
      some final) {revocation : Revocation} (revoked : revocation ∈ identity.revoked) :
    ∃ event ∈ identity.store.outbox, revocation.Wrote event ∧
      ∀ offset < final.committed, Carries jsonb log offset event →
        ∃ copy, Carries jsonb log copy event ∧
          .deleted revocation.principalID ∈ since (.fetched copy) final.history := by
  have initially : OutboxSound ⟨tables, []⟩ := ⟨by simp, distinct⟩
  have sound := invariant_of_run (fun _ _ _ sound taken => OutboxSound.step sound taken)
    calls ⟨tables, []⟩ identity initially served
  rcases sound.announced revocation revoked with ⟨event, inside, drawn, ids, announces, named⟩
  refine ⟨event, inside, ⟨drawn, ids, announces, named⟩, ?_⟩
  intro offset committed carries
  have affects := affects_of_carries parseTime reads keeps announces carries
  rcases deleted_of_committed guarded reached committed affects with
    ⟨copy, principals, affected, deleted⟩
  have inLog : copy < log.length := by
    rcases affected with ⟨envelope, handler, found, -⟩
    rcases Option.bind_eq_some_iff.mp found with ⟨value, there, -⟩
    exact (List.getElem?_eq_some_iff.mp there).1
  -- The copy carries a row of the outbox too, and the ids of the rows are distinct.
  rcases published copy inLog with ⟨other, insideOther, carriesOther⟩
  have same : event = other :=
    List.inj_on_of_nodup_map sound.distinct inside insideOther
      (formatUUID_injective (eventID_of_affects keeps carriesOther affected))
  subst same
  have affectsCopy := affects_of_carries parseTime reads keeps announces carriesOther
  exact ⟨copy, carriesOther, deleted _ (affected.unique affectsCopy ▸ named)⟩

/-! A user is created and disabled, and the message for it is handled without a fault. -/

def disabledCalls : List (Identity.Call × Environment) :=
  [(.createUser "ada@example.com" "secret", Identity.quietEnvironment 7 1),
    (.disableUser 7 "offboarded", Identity.quietEnvironment 0 2)]

/-- Empty tables. -/
def noRows : Store := ⟨[], [], [], [], [], []⟩

def disabledIdentity : Revocations :=
  (run (serveStep fun text => text) ⟨noRows, []⟩ disabledCalls).getD ⟨noRows, []⟩

def disabledEvent : OutboxEvent :=
  ⟨2, "human_user", 7, "user.disabled", .userDisabled 7 "offboarded" [7] 0, 0⟩

/-- The zero instant. -/
def zeroTime : JsonTree := .string (formatRFC3339 0)

def disabledMembers : List (String × JsonTree) :=
  [("user_id", jsonUUID 7), ("reason", jsonString "offboarded"),
    ("affected_principal_ids", jsonUUIDs [7]), ("disabled_at", zeroTime), versionMember]

/-- The column puts shorter keys first. -/
def columnMembers : List (String × JsonTree) :=
  [("reason", jsonString "offboarded"), ("user_id", jsonUUID 7), ("disabled_at", zeroTime),
    versionMember, ("affected_principal_ids", jsonUUIDs [7])]

/-- A `JSONB` column, on the payload of the event. -/
def disabledColumn (text : Text) : Option Text :=
  if text = compact (jsonObject disabledMembers) then some (columnText (jsonObject columnMembers))
  else none

theorem jsonTime_zero : jsonTime 0 = some zeroTime := if_pos (by decide)

theorem payloadMembers_disabledEvent :
    payloadMembers disabledEvent.payload = some disabledMembers := by
  simp only [disabledEvent, payloadMembers, jsonTime_zero, Option.map_some]
  rfl

theorem perm_columnMembers : disabledMembers.Perm columnMembers := by
  have last : ([("affected_principal_ids", jsonUUIDs [7])] ++
      [("disabled_at", zeroTime), versionMember]).Perm
        ([("disabled_at", zeroTime), versionMember] ++
          [("affected_principal_ids", jsonUUIDs [7])]) := List.perm_append_comm
  exact (List.Perm.swap _ _ _).trans ((last.cons _).cons _)

theorem marshals_columnMembers : Marshals (jsonObject columnMembers) :=
  marshals_of_perm perm_columnMembers (marshals_payloadMembers payloadMembers_disabledEvent)

theorem keepsValues_disabledColumn : KeepsValues disabledColumn := by
  intro text stored tree denotes column
  unfold disabledColumn at column
  split at column
  · rename_i same
    cases column
    have read := readJson_compact (marshals_payloadMembers payloadMembers_disabledEvent)
    rw [← same, readJson_of_denotes denotes, Option.some.injEq] at read
    subst read
    exact ⟨jsonObject columnMembers, denotes_columnText marshals_columnMembers,
      Normalised.of_perm perm_columnMembers
        (names_payloadMembers rfl payloadMembers_disabledEvent).distinct⟩
  · cases column

def disabledMessage : Text :=
  compact (jsonObject (envelopeMembers (envelopeOf disabledEvent [] 0)
    (Go.escapeTree (jsonObject columnMembers)) zeroTime zeroTime))

theorem messageValue_disabledEvent :
    messageValue disabledColumn 0 disabledEvent = some disabledMessage := by
  have column : (payloadValue disabledEvent.payload).bind disabledColumn =
      some (columnText (jsonObject columnMembers)) := by
    rw [payloadValue, payloadMembers_disabledEvent, Option.map_some, Option.bind_some,
      disabledColumn, if_pos rfl]
  have raw : marshalRaw (columnText (jsonObject columnMembers)) =
      some (Go.escapeTree (jsonObject columnMembers)) := by
    rw [marshalRaw, readJson_of_denotes (denotes_columnText marshals_columnMembers)]
    rfl
  have zero : jsonTime disabledEvent.createdAt = some zeroTime := jsonTime_zero
  rw [messageValue, column]
  simp only [Option.bind_eq_bind, Option.bind_some, marshalEnvelope, envelopeOf, raw, zero,
    jsonTime_zero]
  rfl

/-- A message that is fetched, deleted for, marked and committed. -/
def handled : List Label :=
  [.start, .fetch, .dedupe, .delete .ok, .delete .ok, .mark .ok, .commit .ok]

theorem run_handled {config : Config} {value eventID : String} {id : UUID}
    (affects : Affects config [value] 0 eventID [id]) :
    Meets (step config [value]) CommitsClean initial handled ∧
      run (step config [value]) initial handled = some ⟨1, [eventID], some ⟨1, .ready, []⟩,
        [.fetched 0, .deleted id, .marked eventID]⟩ := by
  rcases affects with ⟨envelope, affected, found, handler, decodes, rfl⟩
  have decoded : config.unmarshalEnvelope value = some envelope := found
  have dispatched : dispatch config envelope 0 = .deleting 0 envelope.eventID [id] := by
    rw [dispatch, handler]
    simp only [decodes]
  have deduped : step config [value] ⟨0, [], some ⟨1, .fetched 0, []⟩, [.fetched 0]⟩ .dedupe =
      some ⟨0, [], some ⟨1, .deleting 0 envelope.eventID [id], []⟩, [.fetched 0]⟩ := by
    simp [step, decoded, dispatched, setPhase]
  constructor
  · exact .cons trivial rfl (.cons trivial rfl (.cons trivial deduped (.cons trivial rfl
      (.cons trivial rfl (.cons trivial rfl (.cons rfl rfl trivial))))))
  · exact run_cons_iff.mpr ⟨_, rfl, run_cons_iff.mpr ⟨_, rfl, run_cons_iff.mpr ⟨_, deduped, rfl⟩⟩⟩

theorem deleted_of_revoked_disabledUser :
    ∃ event ∈ disabledIdentity.store.outbox,
      Revocation.Wrote ⟨7, fun _ => Identity.quietAttempt 2⟩ event ∧
      ∀ offset < 1, Carries disabledColumn [ofBytes disabledMessage] offset event →
        ∃ copy, Carries disabledColumn [ofBytes disabledMessage] copy event ∧
          Event.deleted 7 ∈ since (Event.fetched copy)
            [Event.fetched 0, Event.deleted 7, Event.marked (formatUUID 2)] := by
  have carries : Carries disabledColumn [ofBytes disabledMessage] 0 disabledEvent :=
    ⟨0, disabledMessage, messageValue_disabledEvent, rfl⟩
  have affects := affects_of_carries (fun _ => none) parseHyphenated_formatUUID
    keepsValues_disabledColumn ⟨by simp [disabledEvent, eventTypes], rfl⟩ carries
  have published : Published disabledColumn disabledIdentity.store [ofBytes disabledMessage] := by
    intro offset below
    have first : offset = 0 := Nat.lt_one_iff.mp below
    exact ⟨disabledEvent, by decide, first ▸ carries⟩
  have served : run (serveStep fun text => text) ⟨noRows, []⟩ disabledCalls =
      some disabledIdentity := rfl
  have distinct : (noRows.outbox.map (·.eventID)).Nodup := List.nodup_nil
  have revoked : ⟨7, fun _ => Identity.quietAttempt 2⟩ ∈ disabledIdentity.revoked :=
    List.mem_singleton_self _
  exact deleted_of_revoked parseHyphenated_formatUUID keepsValues_disabledColumn distinct served
    published (run_handled affects).1 (run_handled affects).2 revoked

end GitScale.Invalidator
