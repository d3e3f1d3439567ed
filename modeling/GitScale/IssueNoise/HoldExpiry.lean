import GitScale.Foundation.Transition
import GitScale.IssueNoise.Router

/-!
# Releases and the expiry of holds

A held issue leaves the hold in one of two ways: a maintainer releases it, or the workflow
`IssueHoldExpiryWorkflow` closes it when its time is over.  The transactions of `Route` and
`Release`, the start and the signal that follow them, and the workflow with its activity are
separate steps, in any order.
-/

namespace GitScale.IssueNoise

open Foundation

/-! ## The system -/

/-- Where the workflow of an issue is: not started, waiting with or without a release signal in
its channel, in its activity after some attempts, or at its end, with `AutoClosed` unless it
failed. -/
inductive Workflow where
  | absent
  | holding (signalled : Bool)
  | closing (attempts : Nat)
  | returned (autoClosed : Option Bool)
  deriving DecidableEq, Repr

/-- What ends the wait: the timer, the signal, or an error of the timer. -/
inductive Wake where
  | timer
  | signal
  | timerErr
  deriving DecidableEq, Repr

/-- How an attempt of the activity ends: it fails before its transaction, its result is lost, or
the workflow gets it. -/
inductive CloseAttempt where
  | failed
  | lost
  | recorded
  deriving DecidableEq, Repr

/-- One step of one of the parties. -/
inductive Event where
  | route (enforce : Bool) (draft : IssueDraft) (surroundings : Surroundings)
  | startHoldExpiry (id : UUID) (succeeds : Bool)
  | release (call : ReleaseCall)
  | signalRelease (id : UUID) (arrives : Bool)
  | wake (id : UUID) (cause : Wake)
  | autoClose (id : UUID) (attempt : CloseAttempt)

/-- The store, the issues passed to `Route`, the calls of `Route` and `Release` that have
committed and not yet gone on, the workflows, and the issues that a workflow closed. -/
structure System where
  store : Store
  routed : List UUID
  starts : List UUID
  signals : List UUID
  workflows : UUID → Workflow
  closings : List UUID

/-- The system before the first call. -/
def System.initial : System := ⟨.empty, [], [], [], fun _ => .absent, []⟩

/-- `AutoCloseResult`. -/
structure AutoCloseResult where
  autoClosed : Bool
  alreadyClosed : Bool
  deriving DecidableEq, Repr

/-- `AutoCloseIfStillHeld`, as `HeldIssueCloser` describes it. -/
def Store.autoCloseIfStillHeld (store : Store) (id : UUID) : AutoCloseResult × Store :=
  if store.issues id = some .held then
    (⟨true, false⟩, { store with issues := Function.update store.issues id (some .closed) })
  else (⟨false, true⟩, store)

namespace System

/-- The workflow of an issue goes on. -/
def setWorkflow (system : System) (id : UUID) (workflow : Workflow) : System :=
  { system with workflows := Function.update system.workflows id workflow }

/-- The activity is tried again, or its last error ends the workflow. -/
def retryClose (system : System) (id : UUID) (attempts : Nat) : System :=
  if attempts + 1 < maximumAttempts then system.setWorkflow id (.closing (attempts + 1))
  else system.setWorkflow id (.returned none)

/-- The transaction of an attempt of the activity. -/
def closeIssue (system : System) (id : UUID) : System :=
  let answer := system.store.autoCloseIfStillHeld id
  { system with
    store := answer.2
    closings := if answer.1.autoClosed then id :: system.closings else system.closings }

/-- One attempt of the activity. -/
def autoClose (system : System) (id : UUID) (attempts : Nat) : CloseAttempt → System
  | .failed => system.retryClose id attempts
  | .lost => (system.closeIssue id).retryClose id attempts
  | .recorded =>
      (system.closeIssue id).setWorkflow id
        (.returned (some (system.store.autoCloseIfStillHeld id).1.autoClosed))

/-- One step.  A workflow is started once for an issue, a signal that arrives is kept only while
the workflow waits, and the timer can win against a signal that has arrived. -/
def step (system : System) : Event → Option System
  | .route enforce draft surroundings =>
      let routed := route enforce draft surroundings system.store
      some { system with
        store := routed.store
        routed := draft.id :: system.routed
        starts := routed.started.map (·.issueID) ++ system.starts }
  | .startHoldExpiry id succeeds =>
      if id ∈ system.starts then
        let called := { system with starts := system.starts.erase id }
        if succeeds ∧ system.workflows id = .absent then
          some (called.setWorkflow id (.holding false))
        else some called
      else none
  | .release call =>
      match system.store.release call with
      | (some _, store) => some { system with store := store }
      | (none, store) =>
          some { system with store := store, signals := call.issueID :: system.signals }
  | .signalRelease id arrives =>
      if id ∈ system.signals then
        let called := { system with signals := system.signals.erase id }
        match arrives, system.workflows id with
        | true, .holding _ => some (called.setWorkflow id (.holding true))
        | _, _ => some called
      else none
  | .wake id cause =>
      match cause, system.workflows id with
      | .timer, .holding _ => some (system.setWorkflow id (.closing 0))
      | .signal, .holding true => some (system.setWorkflow id (.returned (some false)))
      | .timerErr, .holding _ => some (system.setWorkflow id (.returned none))
      | _, _ => none
  | .autoClose id attempt =>
      match system.workflows id with
      | .closing attempts => some (system.autoClose id attempts attempt)
      | _ => none

end System

/-! ## At most one way out -/

/-- A `Release` of the issue has committed. -/
def Store.Released (store : Store) (id : UUID) : Prop :=
  ∃ payload, ⟨id, .released payload⟩ ∈ store.outbox

/-- No issue was both released and closed by its workflow, and an issue whose workflow returned
that it closed it is closed. -/
structure Exclusive (system : System) : Prop where
  atMostOne : ∀ id ∈ system.closings, ¬ system.store.Released id
  stays : ∀ id, system.workflows id = .returned (some true) →
    system.store.issues id = some .closed ∧ ¬ system.store.Released id

/-- Each issue is passed to `Route` at most once. -/
def RoutesOnce (system : System) : Event → Prop
  | .route _ draft _ => draft.id ∉ system.routed
  | _ => True

/-- A release that commits is one of an issue that is there and not closed. -/
def ReleasesUnclosed (system : System) : Event → Prop
  | .release call => call.txErr = none →
      system.store.issues call.issueID ≠ none ∧
        system.store.issues call.issueID ≠ some .closed
  | _ => True

instance decidableRoutesOnce (system : System) : ∀ event, Decidable (RoutesOnce system event)
  | .route _ draft _ => inferInstanceAs (Decidable (draft.id ∉ system.routed))
  | .startHoldExpiry _ _ | .release _ | .signalRelease _ _ | .wake _ _ | .autoClose _ _ =>
      isTrue trivial

instance decidableReleasesUnclosed (system : System) :
    ∀ event, Decidable (ReleasesUnclosed system event)
  | .release call =>
      inferInstanceAs (Decidable (call.txErr = none →
        system.store.issues call.issueID ≠ none ∧
          system.store.issues call.issueID ≠ some .closed))
  | .route _ _ _ | .startHoldExpiry _ _ | .signalRelease _ _ | .wake _ _ | .autoClose _ _ =>
      isTrue trivial

/-! ## What the transactions write -/

section Store

variable {store : Store} {id : UUID}

/-- `Route` writes nothing, or a state of the issue and an outbox row that is no release. -/
theorem route_store (enforce : Bool) (draft : IssueDraft) (surroundings : Surroundings)
    (store : Store) :
    (route enforce draft surroundings store).store = store ∨
      ∃ state payload,
        (route enforce draft surroundings store).store.issues =
            Function.update store.issues draft.id (some state) ∧
          (route enforce draft surroundings store).store.outbox =
            store.outbox ++ [⟨draft.id, .routingDecided payload⟩] := by
  unfold route
  cases surroundings.thresholds with
  | error message => exact .inl rfl
  | ok thresholds =>
      cases surroundings.txErr with
      | some message => exact .inl rfl
      | none => exact .inr ⟨_, _, rfl, rfl⟩

/-- `Release` writes nothing, or the open state and a release in the outbox. -/
theorem release_store (store : Store) (call : ReleaseCall) :
    (∃ message, call.txErr = some message ∧ store.release call = (some message, store)) ∨
      call.txErr = none ∧ ∃ next payload, store.release call = (none, next) ∧
        next.issues = Function.update store.issues call.issueID (some .opened) ∧
        next.outbox = store.outbox ++ [⟨call.issueID, .released payload⟩] := by
  unfold Store.release
  cases call.txErr with
  | some message => exact .inl ⟨message, rfl, rfl⟩
  | none => exact .inr ⟨rfl, _, _, rfl, rfl, rfl⟩

theorem released_append_routingDecided {next : Store} {other : UUID}
    {payload : RoutingDecidedPayload}
    (outbox : next.outbox = store.outbox ++ [⟨other, .routingDecided payload⟩]) :
    next.Released id ↔ store.Released id := by
  simp [Store.Released, outbox]

theorem released_append_released {next : Store} {other : UUID} {payload : ReleasedPayload}
    (outbox : next.outbox = store.outbox ++ [⟨other, .released payload⟩]) :
    next.Released id ↔ store.Released id ∨ id = other := by
  constructor
  · rintro ⟨found, member⟩
    rw [outbox, List.mem_append] at member
    rcases member with earlier | here
    · exact .inl ⟨found, earlier⟩
    · exact .inr (congrArg OutboxRow.aggregateID (List.mem_singleton.mp here))
  · rintro (⟨found, member⟩ | rfl)
    · refine ⟨found, ?_⟩
      rw [outbox]
      exact List.mem_append_left _ member
    · refine ⟨payload, ?_⟩
      rw [outbox]
      exact List.mem_append_right _ (List.mem_singleton.mpr rfl)

end Store

/-! ## Guarded runs -/

/-- What holds while releases are only made of issues that are there and not closed. -/
structure Settles (system : System) : Prop where
  closings : ∀ id ∈ system.closings, system.store.issues id = some .closed
  reported : ∀ id, system.workflows id = .returned (some true) → id ∈ system.closings
  known : ∀ id, system.store.issues id ≠ none → id ∈ system.routed
  released : ∀ id, system.store.Released id → system.store.issues id = some .opened

theorem Settles.exclusive {system : System} (settles : Settles system) : Exclusive system := by
  have atMostOne : ∀ id ∈ system.closings, ¬ system.store.Released id := by
    intro id member released
    have closed := settles.closings id member
    rw [settles.released id released] at closed
    cases closed
  refine ⟨atMostOne, ?_⟩
  intro id returned
  have member := settles.reported id returned
  exact ⟨settles.closings id member, atMostOne id member⟩

theorem settles_initial : Settles System.initial := by
  constructor
  · intro id member
    cases member
  · intro id returned
    cases returned
  · intro id present
    exact absurd rfl present
  · rintro id ⟨payload, member⟩
    cases member

theorem setWorkflow_workflows (system : System) (id : UUID) (workflow : Workflow) :
    (system.setWorkflow id workflow).workflows = Function.update system.workflows id workflow := rfl

/-- The transaction of the activity on an issue that is held. -/
theorem closeIssue_of_held {system : System} {id : UUID}
    (held : system.store.issues id = some .held) :
    system.closeIssue id = { system with
      store :=
        { system.store with issues := Function.update system.store.issues id (some .closed) }
      closings := id :: system.closings } := by
  simp [System.closeIssue, Store.autoCloseIfStillHeld, held]

theorem closeIssue_of_not_held {system : System} {id : UUID}
    (other : system.store.issues id ≠ some .held) : system.closeIssue id = system := by
  simp [System.closeIssue, Store.autoCloseIfStillHeld, other]

/-- A workflow may go anywhere, but it returns that it closed an issue only after it did. -/
theorem Settles.setWorkflow {system : System} (settles : Settles system) {id : UUID}
    {workflow : Workflow} (closes : workflow = .returned (some true) → id ∈ system.closings) :
    Settles (system.setWorkflow id workflow) := by
  refine ⟨settles.closings, ?_, settles.known, settles.released⟩
  intro other returned
  by_cases same : other = id
  · subst same
    rw [setWorkflow_workflows, Function.update_self] at returned
    exact closes returned
  · rw [setWorkflow_workflows, Function.update_of_ne same] at returned
    exact settles.reported other returned

theorem Settles.retryClose {system : System} (settles : Settles system) (id : UUID)
    (attempts : Nat) : Settles (system.retryClose id attempts) := by
  unfold System.retryClose
  split
  · exact settles.setWorkflow (by simp)
  · exact settles.setWorkflow (by simp)

theorem Settles.route {system : System} (settles : Settles system) (enforce : Bool)
    (draft : IssueDraft) (surroundings : Surroundings) (starts : List UUID)
    (once : draft.id ∉ system.routed) :
    Settles { system with
      store := (route enforce draft surroundings system.store).store
      routed := draft.id :: system.routed
      starts := starts } := by
  have absent : system.store.issues draft.id = none := by
    by_contra present
    exact once (settles.known draft.id present)
  rcases route_store enforce draft surroundings system.store with
    same | ⟨state, payload, issues, outbox⟩
  · refine ⟨?_, settles.reported, ?_, ?_⟩
    · simpa only [same] using settles.closings
    · intro id present
      simp only [same] at present
      exact List.mem_cons_of_mem _ (settles.known id present)
    · simpa only [same] using settles.released
  · have other : ∀ id, system.store.issues id ≠ none → id ≠ draft.id := by
      rintro id present rfl
      exact present absent
    refine ⟨?_, settles.reported, ?_, ?_⟩
    · intro id member
      have closed := settles.closings id member
      rw [issues, Function.update_of_ne (other id (by simp [closed]))]
      exact closed
    · intro id present
      by_cases same : id = draft.id
      · exact same ▸ List.mem_cons_self
      · rw [issues, Function.update_of_ne same] at present
        exact List.mem_cons_of_mem _ (settles.known id present)
    · intro id released
      have opened := settles.released id ((released_append_routingDecided outbox).mp released)
      rw [issues, Function.update_of_ne (other id (by simp [opened]))]
      exact opened

theorem Settles.closeIssue {system : System} (settles : Settles system) (id : UUID) :
    Settles (system.closeIssue id) := by
  by_cases held : system.store.issues id = some .held
  · rw [closeIssue_of_held held]
    constructor
    · intro other member
      by_cases same : other = id
      · subst same
        exact Function.update_self ..
      · change Function.update system.store.issues id (some .closed) other = some .closed
        rw [Function.update_of_ne same]
        exact settles.closings other (List.mem_of_ne_of_mem same member)
    · intro other returned
      exact List.mem_cons_of_mem _ (settles.reported other returned)
    · intro other present
      by_cases same : other = id
      · subst same
        exact settles.known other (by simp [held])
      · change Function.update system.store.issues id (some .closed) other ≠ none at present
        rw [Function.update_of_ne same] at present
        exact settles.known other present
    · intro other released
      have opened := settles.released other released
      have different : other ≠ id := by
        rintro rfl
        rw [held] at opened
        cases opened
      change Function.update system.store.issues id (some .closed) other = some .opened
      rw [Function.update_of_ne different]
      exact opened
  · rw [closeIssue_of_not_held held]
    exact settles

theorem mem_closeIssue_closings {system : System} {id : UUID}
    (closed : (system.store.autoCloseIfStillHeld id).1.autoClosed = true) :
    id ∈ (system.closeIssue id).closings := by
  simp [System.closeIssue, closed]

theorem Settles.autoClose {system : System} (settles : Settles system) (id : UUID)
    (attempts : Nat) (attempt : CloseAttempt) : Settles (system.autoClose id attempts attempt) := by
  cases attempt with
  | failed => exact settles.retryClose id attempts
  | lost => exact (settles.closeIssue id).retryClose id attempts
  | recorded =>
      apply (settles.closeIssue id).setWorkflow
      intro returned
      apply mem_closeIssue_closings
      simpa using returned

theorem Settles.release {system : System} (settles : Settles system) {call : ReleaseCall}
    {store : Store} {payload : ReleasedPayload} (signals : List UUID)
    (present : system.store.issues call.issueID ≠ none)
    (unclosed : system.store.issues call.issueID ≠ some .closed)
    (issues : store.issues = Function.update system.store.issues call.issueID (some .opened))
    (outbox : store.outbox = system.store.outbox ++ [⟨call.issueID, .released payload⟩]) :
    Settles { system with store := store, signals := signals } := by
  refine ⟨?_, settles.reported, ?_, ?_⟩
  · intro id member
    have closed := settles.closings id member
    have different : id ≠ call.issueID := by
      rintro rfl
      exact unclosed closed
    rw [issues, Function.update_of_ne different]
    exact closed
  · intro id known
    by_cases same : id = call.issueID
    · subst same
      exact settles.known _ present
    · rw [issues, Function.update_of_ne same] at known
      exact settles.known id known
  · intro id released
    by_cases same : id = call.issueID
    · subst same
      rw [issues, Function.update_self]
    · rcases (released_append_released outbox).mp released with earlier | here
      · rw [issues, Function.update_of_ne same]
        exact settles.released id earlier
      · exact absurd here same

/-- One guarded step. -/
theorem settles_step {system next : System} {event : Event} (once : RoutesOnce system event)
    (unclosed : ReleasesUnclosed system event) (settles : Settles system)
    (taken : system.step event = some next) : Settles next := by
  cases event with
  | route enforce draft surroundings =>
      cases taken
      exact settles.route enforce draft surroundings _ once
  | startHoldExpiry id succeeds =>
      rw [System.step] at taken
      have called : Settles { system with starts := system.starts.erase id } :=
        ⟨settles.closings, settles.reported, settles.known, settles.released⟩
      split at taken
      · split at taken
        · cases taken
          exact called.setWorkflow (by simp)
        · cases taken
          exact called
      · cases taken
  | release call =>
      rw [System.step] at taken
      rcases release_store system.store call with
        ⟨message, -, failed⟩ | ⟨committing, store, payload, committed, issues, outbox⟩
      · rw [failed] at taken
        cases taken
        exact settles
      · rw [committed] at taken
        cases taken
        obtain ⟨present, open_⟩ := unclosed committing
        exact settles.release _ present open_ issues outbox
  | signalRelease id arrives =>
      rw [System.step] at taken
      have called : Settles { system with signals := system.signals.erase id } :=
        ⟨settles.closings, settles.reported, settles.known, settles.released⟩
      split at taken
      · simp only at taken
        split at taken
        · cases taken
          exact called.setWorkflow (by simp)
        · cases taken
          exact called
      · cases taken
  | wake id cause =>
      unfold System.step at taken
      simp only at taken
      split at taken
      · cases taken
        exact settles.setWorkflow (by simp)
      · cases taken
        exact settles.setWorkflow (by simp)
      · cases taken
        exact settles.setWorkflow (by simp)
      · cases taken
  | autoClose id attempt =>
      rw [System.step] at taken
      split at taken
      · cases taken
        exact settles.autoClose id _ attempt
      · cases taken

/-- As long as only issues are released that are there and not closed, releases and expired holds
exclude each other, in every state of every run. -/
theorem exclusive_of_releasesUnclosed (schedule : List Event)
    (once : Meets System.step RoutesOnce System.initial schedule)
    (unclosed : Meets System.step ReleasesUnclosed System.initial schedule) :
    Throughout System.step Exclusive System.initial schedule := by
  have both : Meets System.step
      (fun system event => RoutesOnce system event ∧ ReleasesUnclosed system event)
      System.initial schedule := once.and unclosed
  have settled : Throughout System.step Settles System.initial schedule :=
    throughout_of_meets
      (fun _ _ _ guards settles taken => settles_step guards.1 guards.2 settles taken)
      schedule System.initial both settles_initial
  intro front rest reached cut completed
  exact (settled front rest reached cut completed).exclusive

/-- A draft of low quality, which is held. -/
def routeHeld (id : UUID) : Event :=
  .route true ⟨id, 2, 3, "title", "body", 0⟩
    { thresholds := .ok defaultThresholds
      score := (⟨.zero, .one, .zero, none, [], ruleScorerVersion⟩, none)
      txErr := none
      decisionID := 7
      clock := 0 }

/-- A release by a maintainer. -/
def releaseOf (id : UUID) : Event := .release ⟨id, 2, 9, 8, 1, none⟩

/-- The hold of an issue expires. -/
def expiry (id : UUID) : List Event :=
  [.startHoldExpiry id true, .wake id .timer, .autoClose id .recorded]

/-- One hold expires; another issue is released before its workflow is started, and the signal is
lost. -/
def orderlySchedule : List Event :=
  [routeHeld 1, routeHeld 4] ++ expiry 1 ++ [releaseOf 4, .signalRelease 4 false] ++ expiry 4

theorem exclusive_of_releasesUnclosed_orderly :
    Throughout System.step Exclusive System.initial orderlySchedule ∧
      (run System.step System.initial orderlySchedule).map
        (fun system => (system.closings, system.store.issues 1, system.store.issues 4)) =
          some ([1], some .closed, some .opened) :=
  ⟨exclusive_of_releasesUnclosed orderlySchedule (by decide) (by decide), by decide⟩

/-- The release comes after the workflow closed the issue. -/
def lateRelease : List Event := [routeHeld 1] ++ expiry 1 ++ [releaseOf 1]

theorem late_release_opens_closed_issue :
    ¬ ∀ schedule, Meets System.step RoutesOnce System.initial schedule →
      Throughout System.step Exclusive System.initial schedule := by
  intro always
  have outcome : (run System.step System.initial lateRelease).map
      (fun system => (system.workflows 1, system.store.issues 1)) =
        some (.returned (some true), some .opened) := by
    decide
  cases completed : run System.step System.initial lateRelease with
  | none => simp [completed] at outcome
  | some final =>
      simp only [completed, Option.map_some, Option.some.injEq, Prod.mk.injEq] at outcome
      have exclusive := always lateRelease (by decide) lateRelease [] final (by simp) completed
      have closed := (exclusive.stays 1 outcome.1).1
      rw [outcome.2] at closed
      cases closed

end GitScale.IssueNoise
