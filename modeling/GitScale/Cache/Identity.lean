import GitScale.Basic
import GitScale.Foundation.History
import GitScale.Foundation.Transition
import Mathlib.Data.List.Basic
import Mathlib.Logic.Function.Basic

/-!
# The read-through identity cache

`GetIdentity` reads the cache, loads through a process-wide singleflight group on
a miss, and writes the result back.  These are separate steps, and they interleave
with identity mutations and with the `InvalidateIdentity` that follows each
mutation.  The model is about one principal, hence one cache key, and any number
of callers and processes.
-/

namespace GitScale.Cache

/-- `IdentityCacheEntry` without its version, which every write sets. -/
structure IdentityCacheEntry where
  principalID : String
  orgID : String
  roles : List String
  deriving DecidableEq, Repr

/-- `identityVersion`. -/
def identityVersion : Nat := 1

/-- A cached value as `decodeIdentity` reads it: the version of the header, and
the entry, or nothing for a cached miss. -/
structure Payload where
  version : Nat
  entry : Option IdentityCacheEntry
  deriving DecidableEq, Repr

/-- `decodeIdentity`; a version mismatch is an error, which the caller treats as a
miss. -/
def decodeIdentity (payload : Payload) : Option (Option IdentityCacheEntry) :=
  if payload.version = identityVersion then some payload.entry else none

/-- What one loader call found: the entry, or nil for an unknown principal.
`loadedAt` counts the mutations that had committed by then. -/
structure Load where
  entry : Option IdentityCacheEntry
  loadedAt : Nat
  deriving DecidableEq, Repr

/-- The value that `GetIdentity` writes back for a load. -/
def payloadOf (load : Load) : Payload := ⟨identityVersion, load.entry⟩

/-- Where a `GetIdentity` call stands. -/
inductive Phase where
  | idle
  | missed
  | waiting (flight : Nat)
  | loaded (load : Load)
  deriving DecidableEq, Repr

/-- A call in `identityGroup`: its identity, and the loader's answer once the
loader has read the database. -/
structure Flight where
  number : Nat
  answer : Option (Except String Load)

/-- What happened, oldest first. -/
inductive Event where
  | deleted (mutation : Nat)
  | wrote (caller : Nat) (load : Load)
  | returnedCached (caller : Nat) (load : Load)
  | returnedLoaded (caller : Nat) (load : Load)
  | failed (caller : Nat) (message : String)
  deriving DecidableEq, Repr

/-- The number of committed mutations, the cache, the flight of every process, the
callers, and the history.  Beside the cached value stands the number of mutations
that had committed when it was loaded. -/
structure State where
  mutations : Nat
  cache : Option (Payload × Nat)
  flights : Nat → Option Flight
  nextFlight : Nat
  callers : Nat → Phase
  history : List Event

/-- An empty cache and no call in progress. -/
def initial : State where
  mutations := 0
  cache := none
  flights _ := none
  nextFlight := 0
  callers _ := .idle
  history := []

/-- The steps of `GetIdentity` calls, of loaders, and of the surroundings. -/
inductive Label where
  | get (caller : Nat)
  | getError (caller : Nat) (message : String)
  | join (caller process : Nat)
  | read (process : Nat)
  | readError (process : Nat) (message : String)
  | complete (process : Nat)
  | set (caller : Nat)
  | setError (caller : Nat)
  | cancel (caller : Nat)
  | mutate
  | invalidate (mutation : Nat)
  | evict
  deriving DecidableEq, Repr

/-- The phase of a caller once its flight is over. -/
def land (flight : Flight) (answer : Except String Load) (phase : Phase) : Phase :=
  if phase = .waiting flight.number then
    match answer with
    | .ok load => .loaded load
    | .error _ => .idle
  else phase

/-- One step.  `content` is what a loader finds after a number of mutations. -/
def step (content : Nat → Option IdentityCacheEntry) (state : State) :
    Label → Option State
  | .get caller =>
      if state.callers caller = .idle then
        match state.cache with
        | some (payload, loadedAt) =>
            match decodeIdentity payload with
            | some entry =>
                some { state with
                  history := state.history ++ [.returnedCached caller ⟨entry, loadedAt⟩] }
            | none =>
                some { state with
                  callers := Function.update state.callers caller .missed }
        | none =>
            some { state with callers := Function.update state.callers caller .missed }
      else none
  | .getError caller message =>
      if state.callers caller = .idle then
        some { state with
          history := state.history ++ [.failed caller ("cache: get identity: " ++ message)] }
      else none
  | .join caller process =>
      if state.callers caller = .missed then
        match state.flights process with
        | some flight =>
            some { state with
              callers := Function.update state.callers caller (.waiting flight.number) }
        | none =>
            some { state with
              callers := Function.update state.callers caller (.waiting state.nextFlight)
              flights := Function.update state.flights process
                (some ⟨state.nextFlight, none⟩)
              nextFlight := state.nextFlight + 1 }
      else none
  | .read process =>
      match state.flights process with
      | some ⟨number, none⟩ =>
          some { state with
            flights := Function.update state.flights process
              (some ⟨number, some (.ok ⟨content state.mutations, state.mutations⟩)⟩) }
      | _ => none
  | .readError process message =>
      match state.flights process with
      | some ⟨number, none⟩ =>
          some { state with
            flights := Function.update state.flights process
              (some ⟨number, some (.error message)⟩) }
      | _ => none
  | .complete process =>
      match state.flights process with
      | some ⟨number, some answer⟩ =>
          some { state with
            flights := Function.update state.flights process none
            callers := fun caller =>
              land ⟨number, some answer⟩ answer (state.callers caller) }
      | _ => none
  | .set caller =>
      match state.callers caller with
      | .loaded load =>
          some { state with
            cache := some (payloadOf load, load.loadedAt)
            callers := Function.update state.callers caller .idle
            history := state.history ++ [.wrote caller load, .returnedLoaded caller load] }
      | _ => none
  | .setError caller =>
      match state.callers caller with
      | .loaded load =>
          some { state with
            callers := Function.update state.callers caller .idle
            history := state.history ++ [.returnedLoaded caller load] }
      | _ => none
  | .cancel caller =>
      some { state with callers := Function.update state.callers caller .idle }
  | .mutate => some { state with mutations := state.mutations + 1 }
  | .invalidate mutation =>
      if 1 ≤ mutation ∧ mutation ≤ state.mutations then
        some { state with
          cache := none
          history := state.history ++ [.deleted mutation] }
      else none
  | .evict => some { state with cache := none }

theorem decodeIdentity_payloadOf (load : Load) :
    decodeIdentity (payloadOf load) = some load.entry := rfl

/-! ## Freshness -/

/-- Once the delete that follows a mutation has completed, no call returns from
the cache what was loaded before the mutation. -/
def FreshAfterInvalidation (history : List Event) : Prop :=
  ∀ before after caller load mutation,
    history = before ++ .returnedCached caller load :: after →
      .deleted mutation ∈ before → mutation ≤ load.loadedAt

/-- A call returns from the cache what was loaded before a mutation only if, after
the delete that followed the mutation, some call wrote just that load back. -/
def StaleOnlyByLateWrite (history : List Event) : Prop :=
  ∀ before between after caller load mutation,
    history = before ++ .deleted mutation ::
        (between ++ .returnedCached caller load :: after) →
      load.loadedAt < mutation → ∃ writer, .wrote writer load ∈ between

/-- What one step can do to the cache and the history. -/
inductive Effect (state next : State) : Prop where
  | quiet (cache : next.cache = state.cache) (history : next.history = state.history)
  | evicted (cache : next.cache = none) (history : next.history = state.history)
  | invalidated (mutation : Nat) (cache : next.cache = none)
      (history : next.history = state.history ++ [.deleted mutation])
  | answered (event : Event) (cache : next.cache = state.cache)
      (history : next.history = state.history ++ [event])
      (uncached : ∀ caller load, event ≠ .returnedCached caller load)
      (kept : ∀ mutation, event ≠ .deleted mutation)
  | hit (caller : Nat) (payload : Payload) (entry : Option IdentityCacheEntry)
      (loadedAt : Nat) (present : state.cache = some (payload, loadedAt))
      (decoded : decodeIdentity payload = some entry) (cache : next.cache = state.cache)
      (history : next.history =
        state.history ++ [.returnedCached caller ⟨entry, loadedAt⟩])
  | written (caller : Nat) (load : Load)
      (cache : next.cache = some (payloadOf load, load.loadedAt))
      (history : next.history =
        state.history ++ [.wrote caller load, .returnedLoaded caller load])

theorem step_effect {content : Nat → Option IdentityCacheEntry} {state next : State}
    {label : Label} (taken : step content state label = some next) :
    Effect state next := by
  cases label with
  | get caller =>
      simp only [step] at taken
      split at taken
      · split at taken
        · rename_i payload loadedAt present
          split at taken
          · rename_i entry decoded
            cases taken
            exact .hit caller payload entry loadedAt present decoded rfl rfl
          · cases taken
            exact .quiet rfl rfl
        · cases taken
          exact .quiet rfl rfl
      · cases taken
  | getError caller message =>
      simp only [step] at taken
      split at taken
      · cases taken
        exact .answered _ rfl rfl (by simp) (by simp)
      · cases taken
  | join caller process =>
      simp only [step] at taken
      split at taken
      · split at taken
        · cases taken
          exact .quiet rfl rfl
        · cases taken
          exact .quiet rfl rfl
      · cases taken
  | read process | readError process message | complete process =>
      simp only [step] at taken
      split at taken
      · cases taken
        exact .quiet rfl rfl
      · cases taken
  | set caller =>
      simp only [step] at taken
      split at taken
      · rename_i load phase
        cases taken
        exact .written caller load rfl rfl
      · cases taken
  | setError caller =>
      simp only [step] at taken
      split at taken
      · cases taken
        exact .answered _ rfl rfl (by simp) (by simp)
      · cases taken
  | cancel caller | mutate =>
      cases taken
      exact .quiet rfl rfl
  | invalidate mutation =>
      simp only [step] at taken
      split at taken
      · cases taken
        exact .invalidated mutation rfl rfl
      · cases taken
  | evict =>
      cases taken
      exact .evicted rfl rfl

/-- The invariant: what the cache holds was written after every completed delete. -/
structure Explained (state : State) : Prop where
  cached : ∀ before between mutation payload loadedAt,
    state.history = before ++ .deleted mutation :: between →
      state.cache = some (payload, loadedAt) →
        ∃ writer load, payload = payloadOf load ∧ loadedAt = load.loadedAt ∧
          .wrote writer load ∈ between
  stale : StaleOnlyByLateWrite state.history

/-- A history in which the latest event is no return from the cache. -/
theorem StaleOnlyByLateWrite.concat {history : List Event}
    (stale : StaleOnlyByLateWrite history) {latest : Event}
    (uncached : ∀ caller load, latest ≠ .returnedCached caller load) :
    StaleOnlyByLateWrite (history ++ [latest]) := by
  intro before between after caller load mutation split old
  rcases Foundation.concat_eq_append_cons split with ⟨rest, earlier, later⟩ |
    ⟨-, -, nothing⟩
  · rcases Foundation.concat_eq_append_cons later.symm with ⟨tail, inner, -⟩ |
      ⟨-, equal, -⟩
    · exact stale before between tail caller load mutation (by rw [earlier, inner]) old
    · exact absurd equal.symm (uncached caller load)
  · exact absurd nothing (by simp)

/-- Another event leaves what the cache holds explained. -/
theorem Explained.grow {state next : State} (explained : Explained state)
    {latest : Event} (cache : next.cache = state.cache)
    (history : next.history = state.history ++ [latest])
    (kept : ∀ mutation, latest ≠ .deleted mutation)
    (stale : StaleOnlyByLateWrite next.history) : Explained next := by
  refine ⟨?_, stale⟩
  intro before between mutation payload loadedAt split present
  rw [history] at split
  rw [cache] at present
  rcases Foundation.concat_eq_append_cons split with ⟨rest, earlier, later⟩ |
    ⟨-, equal, -⟩
  · obtain ⟨writer, load, wrote, loaded, membership⟩ :=
      explained.cached before rest mutation payload loadedAt earlier present
    refine ⟨writer, load, wrote, loaded, ?_⟩
    rw [later]
    exact List.mem_append_left _ membership
  · exact absurd equal.symm (kept mutation)

theorem Explained.step {content : Nat → Option IdentityCacheEntry} {state next : State}
    {label : Label} (explained : Explained state)
    (taken : step content state label = some next) : Explained next := by
  cases step_effect taken with
  | quiet cache history =>
      constructor
      · rw [cache, history]
        exact explained.cached
      · rw [history]
        exact explained.stale
  | evicted cache history =>
      constructor
      · intro before between mutation payload loadedAt _ present
        rw [cache] at present
        cases present
      · rw [history]
        exact explained.stale
  | invalidated mutation cache history =>
      constructor
      · intro before between mutation payload loadedAt _ present
        rw [cache] at present
        cases present
      · rw [history]
        exact explained.stale.concat (by simp)
  | answered event cache history uncached kept =>
      apply explained.grow cache history kept
      rw [history]
      exact explained.stale.concat uncached
  | hit caller payload entry loadedAt present decoded cache history =>
      apply explained.grow cache history (by simp)
      rw [history]
      intro before between after returned load mutation split old
      rcases Foundation.concat_eq_append_cons split with ⟨rest, earlier, later⟩ |
        ⟨-, equal, -⟩
      · rcases Foundation.concat_eq_append_cons later.symm with ⟨tail, inner, -⟩ |
          ⟨same, equal, -⟩
        · exact explained.stale before between tail returned load mutation
            (by rw [earlier, inner]) old
        · obtain ⟨writer, source, wrote, loaded, membership⟩ :=
            explained.cached before rest mutation payload loadedAt earlier present
          rw [wrote, decodeIdentity_payloadOf, Option.some.injEq] at decoded
          cases equal
          subst loaded
          subst decoded
          exact ⟨writer, same ▸ membership⟩
      · cases equal
  | written caller load cache history =>
      have twice : next.history =
          (state.history ++ [.wrote caller load]) ++ [.returnedLoaded caller load] := by
        rw [history, List.append_assoc]
        rfl
      constructor
      · intro before between mutation payload loadedAt split present
        rw [cache] at present
        cases present
        rw [history] at split
        rcases Foundation.append_eq_append_cons split with ⟨rest, -, later⟩ |
          ⟨start, -, later⟩
        · refine ⟨caller, load, rfl, rfl, ?_⟩
          rw [later]
          simp
        · have impossible : Event.deleted mutation ∈
              [Event.wrote caller load, Event.returnedLoaded caller load] := by
            rw [later]
            simp
          simp at impossible
      · rw [twice]
        exact (explained.stale.concat (by simp)).concat (by simp)

/-- In every interleaving, only a write that comes after the delete can bring back
what was loaded before the mutation. -/
theorem staleOnlyByLateWrite_of_run (content : Nat → Option IdentityCacheEntry)
    (schedule : List Label) (final : State)
    (reached : Foundation.run (step content) initial schedule = some final) :
    StaleOnlyByLateWrite final.history := by
  have start : Explained initial := by
    constructor
    · intro before between mutation payload loadedAt _ present
      cases present
    · intro before between after caller load mutation split
      simp [initial] at split
  exact (Foundation.invariant_of_run
    (fun _ _ _ explained taken => Explained.step explained taken)
    schedule initial final start reached).stale

/-- The directory entry of a principal whose role is taken away by the first
mutation. -/
def demoted (mutations : Nat) : Option IdentityCacheEntry :=
  if mutations = 0 then some ⟨"p", "o", ["admin"]⟩ else some ⟨"p", "o", []⟩

/-- A call that loaded before the mutation writes back after the delete. -/
def lateWrite : List Label :=
  [.get 0, .join 0 0, .read 0, .complete 0, .mutate, .invalidate 1, .set 0, .get 1]

theorem staleOnlyByLateWrite_lateWrite :
    ∃ final, Foundation.run (step demoted) initial lateWrite = some final ∧
      .returnedCached 1 ⟨demoted 0, 0⟩ ∈ final.history ∧
        StaleOnlyByLateWrite final.history :=
  ⟨_, rfl, by decide, staleOnlyByLateWrite_of_run demoted lateWrite _ rfl⟩

theorem staleHit_lateWrite :
    ∃ final, Foundation.run (step demoted) initial lateWrite = some final ∧
      ¬ FreshAfterInvalidation final.history := by
  refine ⟨_, rfl, ?_⟩
  intro fresh
  have bound := fresh
    [.deleted 1, .wrote 0 ⟨demoted 0, 0⟩, .returnedLoaded 0 ⟨demoted 0, 0⟩] [] 1
    ⟨demoted 0, 0⟩ 1 rfl (by decide)
  exact absurd bound (by decide)

end GitScale.Cache
