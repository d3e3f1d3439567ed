import GitScale.Cache.RepoLocation
import GitScale.Foundation.Visited

/-!
# Where a repository lives

`CacheLocator` answers from the cache and falls through to `MetadataLocator`, whose answer it
writes back without any invalidation.  Lookups, loads shared through the singleflight group,
write-backs, direct writes of a location, evictions, and commits to the metadata store interleave.
An answer may be old, but it is one that the metadata store itself gave, and its age is bounded.
-/

namespace GitScale.Git.Locator

open Foundation Cache Go

/-- `FileServerAddr`. -/
structure FileServerAddr where
  replicaSetID : String
  homeRegion : String
  addr : String
  deriving DecidableEq, Repr

/-- The columns of a repository that a locator reads. -/
structure Placement where
  replicaSetID : String
  homeRegion : String
  deriving DecidableEq, Repr

/-- Why `Resolve` fails.  `cacheResolve` is the wrapper of `CacheLocator`. -/
inductive LocatorError where
  | invalidRepoID (repoID : String)
  | repoNotFound
  | metadataLookup (message : String)
  | cacheGet (message : String)
  | cacheResolve (cause : LocatorError)
  deriving DecidableEq, Repr

/-- The address of a replica set. -/
def fileServerAddr (replicaSetID homeRegion : String) : FileServerAddr :=
  ⟨replicaSetID, homeRegion, replicaSetID ++ ":8075"⟩

/-- `MetadataLocator.Resolve`; `lookup` is `GetByID`. -/
def metadataResolve (parseUUID : String → Option UUID)
    (lookup : UUID → Except String (Option Placement)) (repoID : String) :
    Except LocatorError FileServerAddr :=
  match parseUUID repoID with
  | none => .error (.invalidRepoID repoID)
  | some id =>
      match lookup id with
      | .error message => .error (.metadataLookup message)
      | .ok none => .error .repoNotFound
      | .ok (some placement) => .ok (fileServerAddr placement.replicaSetID placement.homeRegion)

/-- The loader that `CacheLocator.Resolve` hands to `GetRepoLocation`. -/
def loadLocation (parseUUID : String → Option UUID)
    (lookup : UUID → Except String (Option Placement)) (id : UUID) :
    Except LocatorError (Option RepoLocation) :=
  match metadataResolve parseUUID lookup (formatUUID id) with
  | .error .repoNotFound => .ok none
  | .error cause => .error cause
  | .ok address => .ok (some ⟨0, address.replicaSetID, address.homeRegion, ""⟩)

/-- What `CacheLocator.Resolve` makes of the location. -/
def locationAnswer : Option RepoLocation → Except LocatorError FileServerAddr
  | none => .error .repoNotFound
  | some location => .ok (fileServerAddr location.replicaSetID location.homeRegion)

/-- A finished load, with the instant at which the metadata store was read. -/
structure LocationLoad where
  location : Option RepoLocation
  loadedAt : Time
  deriving DecidableEq, Repr

/-- A call in `repoLocationGroup`, and the loader's answer once it is there. -/
structure LocationFlight where
  number : Nat
  answer : Option (Except LocatorError LocationLoad)

/-- Where a `Resolve` call stands. -/
inductive ResolvePhase where
  | idle
  | missed (repoID : String) (id : UUID)
  | waiting (repoID : String) (id : UUID) (process flight : Nat)
  | landed (repoID : String) (id : UUID) (answer : Except LocatorError LocationLoad)

/-- What a `Resolve` call returned, and when. -/
structure Resolved where
  caller : Nat
  repoID : String
  instant : Time
  answer : Except LocatorError FileServerAddr
  deriving DecidableEq

/-- The clock, the metadata store, the cache, the loads in flight by process and key, the callers
and the answers so far. -/
structure Locating where
  clock : Time
  metadata : UUID → Option Placement
  store : MemoryStore
  flights : Nat → UUID → Option LocationFlight
  nextFlight : Nat
  callers : Nat → ResolvePhase
  answers : List Resolved

/-- An empty cache over a metadata store. -/
def Locating.start (clock : Time) (metadata : UUID → Option Placement) : Locating where
  clock := clock
  metadata := metadata
  store := MemoryStore.new
  flights _ _ := none
  nextFlight := 0
  callers _ := .idle
  answers := []

/-- The steps of calls and loaders, and of their surroundings.  `prime` is a call of
`SetRepoLocation`; `lost` says that the write to the cache failed. -/
inductive LocatorStep where
  | tick (duration : Nat)
  | commit (id : UUID) (placement : Option Placement)
  | call (caller : Nat) (repoID : String) (getError : Option String)
  | join (caller process : Nat)
  | read (process : Nat) (id : UUID) (lookupError : Option String)
  | complete (process : Nat) (id : UUID)
  | finish (caller : Nat) (lost : Bool)
  | prime (id : UUID) (location : RepoLocation) (lost : Bool)
  | evict (key : String)

/-- Record an answer. -/
def Locating.answer (state : Locating) (caller : Nat) (repoID : String)
    (answer : Except LocatorError FileServerAddr) : Locating :=
  { state with
    callers := Function.update state.callers caller .idle
    answers := state.answers ++ [⟨caller, repoID, state.clock, answer⟩] }

/-- The callers of a flight get its answer. -/
def landIn (process : Nat) (id : UUID) (number : Nat) (answer : Except LocatorError LocationLoad) :
    ResolvePhase → ResolvePhase
  | .waiting repoID id' process' flight =>
      if id' = id ∧ process' = process ∧ flight = number then .landed repoID id answer
      else .waiting repoID id' process' flight
  | phase => phase

/-- One step of the locators. -/
def locatorStep (parseUUID : String → Option UUID) (state : Locating) :
    LocatorStep → Option Locating
  | .tick duration => some { state with clock := state.clock + duration }
  | .commit id placement =>
      some { state with metadata := Function.update state.metadata id placement }
  | .call caller repoID getError =>
      match state.callers caller with
      | .idle =>
          match parseUUID repoID with
          | none => some (state.answer caller repoID (.error (.invalidRepoID repoID)))
          | some id =>
              match getError with
              | some message =>
                  some (state.answer caller repoID (.error (.cacheResolve (.cacheGet message))))
              | none =>
                  let got := state.store.get state.clock (repoLocationKey id)
                  let state := { state with store := got.2 }
                  match got.1.bind decodeRepoLocation with
                  | some location => some (state.answer caller repoID (locationAnswer location))
                  | none =>
                      some { state with
                        callers := Function.update state.callers caller (.missed repoID id) }
      | _ => none
  | .join caller process =>
      match state.callers caller with
      | .missed repoID id =>
          match state.flights process id with
          | some flight =>
              some { state with
                callers := Function.update state.callers caller
                  (.waiting repoID id process flight.number) }
          | none =>
              some { state with
                callers := Function.update state.callers caller
                  (.waiting repoID id process state.nextFlight)
                flights := Function.update state.flights process
                  (Function.update (state.flights process) id (some ⟨state.nextFlight, none⟩))
                nextFlight := state.nextFlight + 1 }
      | _ => none
  | .read process id lookupError =>
      match state.flights process id with
      | some ⟨number, none⟩ =>
          let lookup (id : UUID) : Except String (Option Placement) :=
            match lookupError with
            | some message => .error message
            | none => .ok (state.metadata id)
          let answer := (loadLocation parseUUID lookup id).map fun location =>
            (⟨location, state.clock⟩ : LocationLoad)
          some { state with
            flights := Function.update state.flights process
              (Function.update (state.flights process) id (some ⟨number, some answer⟩)) }
      | _ => none
  | .complete process id =>
      match state.flights process id with
      | some ⟨number, some answer⟩ =>
          some { state with
            flights := Function.update state.flights process
              (Function.update (state.flights process) id none)
            callers := fun caller => landIn process id number answer (state.callers caller) }
      | _ => none
  | .finish caller lost =>
      match state.callers caller with
      | .landed repoID _ (.error cause) =>
          some (state.answer caller repoID (.error (.cacheResolve cause)))
      | .landed repoID id (.ok load) =>
          let written := state.store.set state.clock (repoLocationKey id)
            (payloadBytes load.location) (payloadTTL load.location)
          let state := { state with store := if lost then state.store else written }
          some (state.answer caller repoID (locationAnswer load.location))
      | _ => none
  | .prime id location lost =>
      let written := state.store.set state.clock (repoLocationKey id)
        (payloadBytes (some location)) (payloadTTL (some location))
      some { state with store := if lost then state.store else written }
  | .evict key => some { state with store := state.store.delete key }

/-! ## Answers have a source -/

/-- The placements of a state as `GetByID` returns them. -/
def Locating.lookup (state : Locating) (id : UUID) : Except String (Option Placement) :=
  .ok (state.metadata id)

/-- How long the cache keeps an answer; other failures are not cached. -/
def keptFor : Except LocatorError FileServerAddr → Option Time
  | .ok _ => some repoLocationTTL
  | .error .repoNotFound => some repoLocationNotFoundTTL
  | .error _ => none

section Staleness

variable (parseUUID : String → Option UUID) (delay : Time)

/-- A load says what the metadata store said in one of the states. -/
def Sourced (seen : Locating → Prop) (id : UUID) (load : LocationLoad) : Prop :=
  ∃ reached, seen reached ∧ reached.clock = load.loadedAt ∧
    locationAnswer load.location = locationAnswer ((reached.metadata id).map fun placement =>
      ⟨0, placement.replicaSetID, placement.homeRegion, ""⟩)

/-- `MetadataLocator` would have given this answer in one of the states, not too long ago. -/
def Grounded (seen : Locating → Prop) (resolved : Resolved) : Prop :=
  ∀ ttl ∈ keptFor resolved.answer, ∃ reached, seen reached ∧
    resolved.instant - (ttl + delay) ≤ reached.clock ∧ reached.clock ≤ resolved.instant ∧
    metadataResolve parseUUID reached.lookup resolved.repoID = resolved.answer

/-- Loads are written back within the delay, and a location that is written directly is that of
the metadata store. -/
def Prompt (state : Locating) : LocatorStep → Prop
  | .finish caller _ =>
      ∀ repoID id load, state.callers caller = .landed repoID id (.ok load) →
        state.clock ≤ load.loadedAt + delay
  | .prime id location _ =>
      state.metadata id = some ⟨location.replicaSetID, location.homeRegion⟩
  | _ => True

instance decidablePrompt (state : Locating) : ∀ label, Decidable (Prompt delay state label)
  | .finish caller _ =>
      match at_caller : state.callers caller with
      | .landed _ _ (.ok load) =>
          decidable_of_iff (state.clock ≤ load.loadedAt + delay) (by simp [Prompt, at_caller])
      | .landed _ _ (.error _) | .idle | .missed _ _ | .waiting _ _ _ _ =>
          isTrue (by simp [Prompt, at_caller])
  | .prime id location _ =>
      inferInstanceAs (Decidable
        (state.metadata id = some ⟨location.replicaSetID, location.homeRegion⟩))
  | .tick _ | .commit _ _ | .call _ _ _ | .join _ _ | .read _ _ _ | .complete _ _ | .evict _ =>
      isTrue trivial

/-- The repository that a call is about. -/
def ResolvePhase.target : ResolvePhase → Option (String × UUID)
  | .idle => none
  | .missed repoID id => some (repoID, id)
  | .waiting repoID id _ _ => some (repoID, id)
  | .landed repoID id _ => some (repoID, id)

/-- What holds between the steps: the cache, the flights and the calls hold loads that saw the
metadata store, and an entry expires in time. -/
structure Traced (seen : Locating → Prop) (state : Locating) : Prop where
  cached : ∀ id entry, state.store.entries (repoLocationKey id) = some entry →
    ∃ load, entry.value = payloadBytes load.location ∧ Sourced seen id load ∧
      load.loadedAt ≤ state.clock ∧
      entry.expiresAt ≤ load.loadedAt + delay + payloadTTL load.location
  flying : ∀ process id number load,
    state.flights process id = some ⟨number, some (.ok load)⟩ →
      Sourced seen id load ∧ load.loadedAt ≤ state.clock
  landed : ∀ caller repoID id load, state.callers caller = .landed repoID id (.ok load) →
    Sourced seen id load ∧ load.loadedAt ≤ state.clock
  named : ∀ caller repoID id, (state.callers caller).target = some (repoID, id) →
    parseUUID repoID = some id
  grounded : ∀ resolved ∈ state.answers, Grounded parseUUID delay seen resolved

variable {parseUUID delay} {seen : Locating → Prop} {state : Locating}

theorem Sourced.mono {seen' : Locating → Prop} (more : ∀ reached, seen reached → seen' reached)
    {id : UUID} {load : LocationLoad} (sourced : Sourced seen id load) : Sourced seen' id load := by
  rcases sourced with ⟨reached, at_reached, source⟩
  exact ⟨reached, more reached at_reached, source⟩

theorem Grounded.mono {seen' : Locating → Prop} (more : ∀ reached, seen reached → seen' reached)
    {resolved : Resolved} (grounded : Grounded parseUUID delay seen resolved) :
    Grounded parseUUID delay seen' resolved := by
  intro ttl kept
  rcases grounded ttl kept with ⟨reached, at_reached, source⟩
  exact ⟨reached, more reached at_reached, source⟩

theorem Traced.mono {seen' : Locating → Prop} (more : ∀ reached, seen reached → seen' reached)
    (traced : Traced parseUUID delay seen state) : Traced parseUUID delay seen' state where
  cached := by
    intro id entry held
    rcases traced.cached id entry held with ⟨load, value, sourced, bounds⟩
    exact ⟨load, value, sourced.mono more, bounds⟩
  flying := by
    intro process id number load flight
    rcases traced.flying process id number load flight with ⟨sourced, bound⟩
    exact ⟨sourced.mono more, bound⟩
  landed := by
    intro caller repoID id load phase
    rcases traced.landed caller repoID id load phase with ⟨sourced, bound⟩
    exact ⟨sourced.mono more, bound⟩
  named := traced.named
  grounded := fun resolved member => (traced.grounded resolved member).mono more

theorem traced_start (clock : Time) (metadata : UUID → Option Placement)
    (seen : Locating → Prop) : Traced parseUUID delay seen (.start clock metadata) where
  cached := by simp [Locating.start, MemoryStore.new]
  flying := by simp [Locating.start]
  landed := by simp [Locating.start]
  named := by simp [Locating.start, ResolvePhase.target]
  grounded := by simp [Locating.start]

/-- Entries that go away, or stay, leave the trace. -/
theorem Traced.with_store (traced : Traced parseUUID delay seen state) {store : MemoryStore}
    (kept : ∀ key entry, store.entries key = some entry → state.store.entries key = some entry) :
    Traced parseUUID delay seen { state with store } :=
  ⟨fun id entry held => traced.cached id entry (kept _ entry held), traced.flying, traced.landed,
    traced.named, traced.grounded⟩

/-- Giving an answer that has a source. -/
theorem Traced.answer (traced : Traced parseUUID delay seen state) {caller : Nat}
    {repoID : String} {answer : Except LocatorError FileServerAddr}
    (good : Grounded parseUUID delay seen ⟨caller, repoID, state.clock, answer⟩) :
    Traced parseUUID delay seen (state.answer caller repoID answer) where
  cached := traced.cached
  flying := traced.flying
  landed := by
    intro other repoID id load phase
    by_cases same : other = caller
    · simp [Locating.answer, same] at phase
    · exact traced.landed other repoID id load
        (by simpa [Locating.answer, Function.update_of_ne same] using phase)
  named := by
    intro other repoID id target
    by_cases same : other = caller
    · simp [Locating.answer, same, ResolvePhase.target] at target
    · exact traced.named other repoID id
        (by simpa [Locating.answer, Function.update_of_ne same] using target)
  grounded := by
    intro resolved member
    rcases List.mem_append.mp member with member | member
    · exact traced.grounded resolved member
    · rcases List.mem_singleton.mp member with rfl
      exact good

/-- A call that moves on without a load in hand. -/
theorem Traced.with_phase (traced : Traced parseUUID delay seen state) {caller : Nat}
    {phase : ResolvePhase} (waits : ∀ repoID id load, phase ≠ .landed repoID id (.ok load))
    (named : ∀ repoID id, phase.target = some (repoID, id) → parseUUID repoID = some id) :
    Traced parseUUID delay seen
      { state with callers := Function.update state.callers caller phase } where
  cached := traced.cached
  flying := traced.flying
  landed := by
    intro other repoID id load at_other
    by_cases same : other = caller
    · subst same
      exact absurd (by simpa using at_other) (waits repoID id load)
    · exact traced.landed other repoID id load (by simpa [Function.update_of_ne same] using at_other)
  named := by
    intro other repoID id target
    by_cases same : other = caller
    · subst same
      exact named repoID id (by simpa using target)
    · exact traced.named other repoID id (by simpa [Function.update_of_ne same] using target)
  grounded := traced.grounded

theorem keptFor_locationAnswer (location : Option RepoLocation) :
    keptFor (locationAnswer location) = some (payloadTTL location) := by
  cases location <;> rfl

/-- The version of a payload has no part in the answer. -/
theorem locationAnswer_map (location : Option RepoLocation) (version : Int) :
    locationAnswer (location.map fun location => { location with version }) =
      locationAnswer location := by
  cases location <;> rfl

/-- What a load says is what `MetadataLocator` says in the state that it saw. -/
theorem metadataResolve_of_source {reached : Locating} {repoID : String} {id : UUID}
    (parsed : parseUUID repoID = some id) :
    metadataResolve parseUUID reached.lookup repoID =
      locationAnswer ((reached.metadata id).map fun placement =>
        ⟨0, placement.replicaSetID, placement.homeRegion, ""⟩) := by
  rw [metadataResolve, parsed]
  dsimp only [Locating.lookup]
  cases reached.metadata id <;> rfl

/-- The loader returns what it sees. -/
theorem loadLocation_ok (reads : ReadsUUIDs parseUUID) (metadata : UUID → Option Placement)
    (id : UUID) :
    loadLocation parseUUID (fun id => .ok (metadata id)) id =
      .ok ((metadata id).map fun placement =>
        ⟨0, placement.replicaSetID, placement.homeRegion, ""⟩) := by
  rw [loadLocation, metadataResolve, reads id]
  dsimp only
  cases metadata id <;> rfl

theorem loadLocation_error (reads : ReadsUUIDs parseUUID) (message : String) (id : UUID) :
    loadLocation parseUUID (fun _ => .error message) id = .error (.metadataLookup message) := by
  rw [loadLocation, metadataResolve, reads id]

theorem sub_le_of_le_add {now loadedAt delay ttl : Int} (young : now ≤ loadedAt + delay + ttl) :
    now - (ttl + delay) ≤ loadedAt := by
  omega

/-- A load that is not too old grounds the answer given from it. -/
theorem Sourced.grounded {id : UUID} {load : LocationLoad} (sourced : Sourced seen id load)
    {caller : Nat} {repoID : String} {now : Time} (parsed : parseUUID repoID = some id)
    (past : load.loadedAt ≤ now) (young : now ≤ load.loadedAt + delay + payloadTTL load.location) :
    Grounded parseUUID delay seen ⟨caller, repoID, now, locationAnswer load.location⟩ := by
  intro ttl kept
  rw [keptFor_locationAnswer, Option.mem_some_iff] at kept
  subst kept
  rcases sourced with ⟨reached, at_reached, instant, source⟩
  refine ⟨reached, at_reached, ?_, ?_, ?_⟩
  · rw [instant]
    exact sub_le_of_le_add young
  · rw [instant]
    exact past
  · rw [metadataResolve_of_source parsed, ← source]

theorem grounded_of_keptFor_none {resolved : Resolved} (none : keptFor resolved.answer = none) :
    Grounded parseUUID delay seen resolved := by
  intro ttl kept
  rw [none] at kept
  cases kept

/-- A lookup answers from the cache, or misses. -/
theorem Traced.call (traced : Traced parseUUID delay seen state) {caller : Nat} {repoID : String}
    {getError : Option String} {next : Locating}
    (taken : locatorStep parseUUID state (.call caller repoID getError) = some next) :
    Traced parseUUID delay seen next := by
  cases phase : state.callers caller with
  | idle =>
      simp only [locatorStep, phase] at taken
      cases parsed : parseUUID repoID with
      | none =>
          simp only [parsed, Option.some.injEq] at taken
          subst taken
          exact traced.answer (grounded_of_keptFor_none rfl)
      | some id =>
          cases getError with
          | some message =>
              simp only [parsed, Option.some.injEq] at taken
              subst taken
              exact traced.answer (grounded_of_keptFor_none rfl)
          | none =>
              have read : Traced parseUUID delay seen
                  { state with store := (state.store.get state.clock (repoLocationKey id)).2 } :=
                traced.with_store fun _ _ => MemoryStore.entries_of_get
              simp only [parsed] at taken
              cases decoded : (state.store.get state.clock (repoLocationKey id)).1.bind
                  decodeRepoLocation with
              | none =>
                  simp only [decoded, Option.some.injEq] at taken
                  subst taken
                  apply read.with_phase
                  · rintro _ _ _ ⟨⟩
                  · rintro _ _ ⟨⟩
                    exact parsed
              | some location =>
                  simp only [decoded, Option.some.injEq] at taken
                  subst taken
                  apply read.answer
                  rcases Option.bind_eq_some_iff.mp decoded with ⟨value, got, decoded⟩
                  rw [MemoryStore.get_fst, Option.map_eq_some_iff] at got
                  rcases got with ⟨entry, fresh, rfl⟩
                  rcases Option.filter_eq_some_iff.mp fresh with ⟨held, fresh⟩
                  rcases traced.cached id entry held with
                    ⟨load, value, sourced, past, expires⟩
                  rw [value, decodeRepoLocation_payloadBytes, Option.some.injEq] at decoded
                  subst decoded
                  rw [locationAnswer_map]
                  apply sourced.grounded parsed past
                  have unexpired : state.clock ≤ entry.expiresAt := by simpa using fresh
                  exact unexpired.trans expires
  | missed | waiting | landed => simp [locatorStep, phase] at taken

theorem payloadTTL_nonneg (location : Option RepoLocation) : 0 ≤ payloadTTL location := by
  cases location with
  | none =>
      show 0 ≤ repoLocationNotFoundTTL
      decide
  | some location =>
      show 0 ≤ repoLocationTTL
      decide

/-- A load that is written to the cache, or not. -/
theorem Traced.write (traced : Traced parseUUID delay seen state) {id : UUID}
    {load : LocationLoad} (sourced : Sourced seen id load) (past : load.loadedAt ≤ state.clock)
    (young : state.clock ≤ load.loadedAt + delay) (lost : Bool) :
    Traced parseUUID delay seen { state with
      store := if lost then state.store else
        state.store.set state.clock (repoLocationKey id) (payloadBytes load.location)
          (payloadTTL load.location) } := by
  refine ⟨?_, traced.flying, traced.landed, traced.named, traced.grounded⟩
  intro other entry held
  cases lost with
  | true => exact traced.cached other entry held
  | false =>
      rcases MemoryStore.entries_of_set held with before | ⟨same, rfl⟩
      · exact traced.cached other entry before
      · rcases repoLocationKey_injective same with rfl
        exact ⟨load, rfl, sourced, past, Int.add_le_add_right young _⟩

/-- A load that is written back, or not, and returned. -/
theorem Traced.finish (traced : Traced parseUUID delay seen state) {caller : Nat} {lost : Bool}
    {next : Locating} (prompt : Prompt delay state (.finish caller lost))
    (taken : locatorStep parseUUID state (.finish caller lost) = some next) :
    Traced parseUUID delay seen next := by
  cases phase : state.callers caller with
  | landed repoID id answer =>
      have parsed : parseUUID repoID = some id :=
        traced.named caller repoID id (by rw [phase]; rfl)
      cases answer with
      | error cause =>
          simp only [locatorStep, phase, Option.some.injEq] at taken
          subst taken
          exact traced.answer (grounded_of_keptFor_none rfl)
      | ok load =>
          simp only [locatorStep, phase, Option.some.injEq] at taken
          subst taken
          rcases traced.landed caller repoID id load phase with ⟨sourced, past⟩
          have young : state.clock ≤ load.loadedAt + delay := prompt repoID id load phase
          have positive := payloadTTL_nonneg load.location
          apply (traced.write sourced past young lost).answer
          apply sourced.grounded parsed past
          exact Int.le_trans young (Int.le_add_of_nonneg_right positive)
  | idle | missed | waiting => simp [locatorStep, phase] at taken

/-- A flight starts, and its first caller waits for it. -/
theorem Traced.join (traced : Traced parseUUID delay seen state) {caller process : Nat}
    {next : Locating} (taken : locatorStep parseUUID state (.join caller process) = some next) :
    Traced parseUUID delay seen next := by
  cases phase : state.callers caller with
  | missed repoID id =>
      have parsed : parseUUID repoID = some id :=
        traced.named caller repoID id (by rw [phase]; rfl)
      have waits (flight : Nat) : Traced parseUUID delay seen { state with
          callers := Function.update state.callers caller (.waiting repoID id process flight) } := by
        apply traced.with_phase
        · rintro _ _ _ ⟨⟩
        · rintro _ _ ⟨⟩
          exact parsed
      cases flight : state.flights process id with
      | some flight' =>
          simp only [locatorStep, phase, flight, Option.some.injEq] at taken
          subst taken
          exact waits flight'.number
      | none =>
          simp only [locatorStep, phase, flight, Option.some.injEq] at taken
          subst taken
          have waiting := waits state.nextFlight
          refine ⟨waiting.cached, ?_, waiting.landed, waiting.named, waiting.grounded⟩
          intro process' id' number load at_flight
          by_cases same : process' = process
          · subst same
            by_cases same' : id' = id
            · subst same'
              simp at at_flight
            · exact traced.flying process' id' number load
                (by simpa [Function.update_of_ne same'] using at_flight)
          · exact traced.flying process' id' number load
              (by simpa [Function.update_of_ne same] using at_flight)
  | idle | waiting | landed => simp [locatorStep, phase] at taken

/-- The loader reads the metadata store as it is now. -/
theorem Traced.read (reads : ReadsUUIDs parseUUID) (traced : Traced parseUUID delay seen state)
    (now : seen state) {process : Nat} {id : UUID} {lookupError : Option String} {next : Locating}
    (taken : locatorStep parseUUID state (.read process id lookupError) = some next) :
    Traced parseUUID delay seen next := by
  have flown {answer : Except LocatorError LocationLoad} {number : Nat}
      (sourced : ∀ load, answer = .ok load → Sourced seen id load ∧ load.loadedAt ≤ state.clock) :
      Traced parseUUID delay seen { state with
        flights := Function.update state.flights process
          (Function.update (state.flights process) id (some ⟨number, some answer⟩)) } := by
    refine ⟨traced.cached, ?_, traced.landed, traced.named, traced.grounded⟩
    intro process' id' number' load at_flight
    by_cases same : process' = process
    · subst same
      by_cases same' : id' = id
      · subst same'
        have equal : answer = .ok load := by simp at at_flight; exact at_flight.2
        exact sourced load equal
      · exact traced.flying process' id' number' load
          (by simpa [Function.update_of_ne same'] using at_flight)
    · exact traced.flying process' id' number' load
        (by simpa [Function.update_of_ne same] using at_flight)
  cases flight : state.flights process id with
  | none => simp [locatorStep, flight] at taken
  | some current =>
      rcases current with ⟨number, answer⟩
      cases answer with
      | some answer => simp [locatorStep, flight] at taken
      | none =>
          simp only [locatorStep, flight, Option.some.injEq] at taken
          subst taken
          apply flown
          intro load loaded
          cases lookupError with
          | some message =>
              rw [loadLocation_error reads] at loaded
              cases loaded
          | none =>
              rw [loadLocation_ok reads] at loaded
              cases loaded
              exact ⟨⟨state, now, rfl, rfl⟩, Int.le_refl _⟩

/-- A flight lands, and its callers have the load in hand. -/
theorem Traced.complete (traced : Traced parseUUID delay seen state) {process : Nat} {id : UUID}
    {next : Locating} (taken : locatorStep parseUUID state (.complete process id) = some next) :
    Traced parseUUID delay seen next := by
  cases flight : state.flights process id with
  | none => simp [locatorStep, flight] at taken
  | some current =>
      rcases current with ⟨number, answer⟩
      cases answer with
      | none => simp [locatorStep, flight] at taken
      | some answer =>
          simp only [locatorStep, flight, Option.some.injEq] at taken
          subst taken
          refine ⟨traced.cached, ?_, ?_, ?_, traced.grounded⟩
          · intro process' id' number' load at_flight
            by_cases same : process' = process
            · subst same
              by_cases same' : id' = id
              · subst same'
                simp at at_flight
              · exact traced.flying process' id' number' load
                  (by simpa [Function.update_of_ne same'] using at_flight)
            · exact traced.flying process' id' number' load
                (by simpa [Function.update_of_ne same] using at_flight)
          · intro caller repoID id' load phase
            cases before : state.callers caller with
            | idle | missed => simp [before, landIn] at phase
            | landed _ _ _ =>
                simp only [before, landIn] at phase
                exact traced.landed caller repoID id' load (before.trans phase)
            | waiting repoID' id'' process' flight' =>
                simp only [before, landIn] at phase
                split at phase
                · cases phase
                  exact traced.flying process _ number load flight
                · cases phase
          · intro caller repoID id' target
            apply traced.named caller repoID id'
            cases before : state.callers caller with
            | idle | missed | landed => simpa [before, landIn] using target
            | waiting repoID' id'' process' flight' =>
                simp only [before, landIn] at target
                split at target
                · rename_i same
                  rw [ResolvePhase.target, same.1]
                  exact target
                · exact target

theorem Traced.step (reads : ReadsUUIDs parseUUID) (later : 0 ≤ delay) {label : LocatorStep}
    {next : Locating} (prompt : Prompt delay state label) (now : seen state)
    (traced : Traced parseUUID delay seen state)
    (taken : locatorStep parseUUID state label = some next) :
    Traced parseUUID delay seen next := by
  cases label with
  | tick duration =>
      rcases Option.some.inj taken with rfl
      have still (instant : Time) (past : instant ≤ state.clock) :
          instant ≤ state.clock + duration :=
        Int.le_trans past (Int.le_add_of_nonneg_right (Int.natCast_nonneg duration))
      refine ⟨?_, ?_, ?_, traced.named, traced.grounded⟩
      · intro id entry held
        rcases traced.cached id entry held with ⟨load, value, sourced, past, expires⟩
        exact ⟨load, value, sourced, still _ past, expires⟩
      · intro process id number load flight
        rcases traced.flying process id number load flight with ⟨sourced, past⟩
        exact ⟨sourced, still _ past⟩
      · intro caller repoID id load phase
        rcases traced.landed caller repoID id load phase with ⟨sourced, past⟩
        exact ⟨sourced, still _ past⟩
  | commit id placement =>
      rcases Option.some.inj taken with rfl
      exact ⟨traced.cached, traced.flying, traced.landed, traced.named, traced.grounded⟩
  | call caller repoID getError => exact traced.call taken
  | join caller process => exact traced.join taken
  | read process id lookupError => exact traced.read reads now taken
  | complete process id => exact traced.complete taken
  | finish caller lost => exact traced.finish prompt taken
  | prime id location lost =>
      rcases Option.some.inj taken with rfl
      let load : LocationLoad := ⟨some location, state.clock⟩
      have sourced : Sourced seen id load := by
        refine ⟨state, now, rfl, ?_⟩
        rw [prompt]
        rfl
      exact traced.write sourced (Int.le_refl _) (Int.le_add_of_nonneg_right later) lost
  | evict key =>
      rcases Option.some.inj taken with rfl
      exact traced.with_store fun _ _ => MemoryStore.entries_of_delete

/-- When loads are written back within `delay`, every address that `CacheLocator` returns is the
one that `MetadataLocator` would have returned at most ten minutes and the delay earlier, and
every unknown repository was unknown at most thirty seconds and the delay earlier.  What the cache
holds for a repository is read back as it was written. -/
theorem resolve_bounded_staleness (reads : ReadsUUIDs parseUUID) (later : 0 ≤ delay)
    {clock : Time} {metadata : UUID → Option Placement} {schedule : List LocatorStep}
    {final : Locating}
    (prompt : Meets (locatorStep parseUUID) (Prompt delay) (.start clock metadata) schedule)
    (completed : run (locatorStep parseUUID) (.start clock metadata) schedule = some final) :
    (∀ resolved ∈ final.answers, ∀ ttl, keptFor resolved.answer = some ttl →
      ∃ reached, Visited (locatorStep parseUUID) (.start clock metadata) schedule reached ∧
        resolved.instant - (ttl + delay) ≤ reached.clock ∧ reached.clock ≤ resolved.instant ∧
        metadataResolve parseUUID reached.lookup resolved.repoID = resolved.answer) ∧
    ∀ id entry, final.store.entries (repoLocationKey id) = some entry →
      ∃ location, entry.value = payloadBytes location ∧
        decodeRepoLocation entry.value =
          some (location.map fun location => { location with version := repoLocationVersion }) := by
  have traced : Traced parseUUID delay
      (Visited (locatorStep parseUUID) (.start clock metadata) schedule) final := by
    apply invariant_of_visited (traced_start clock metadata _) _ schedule final prompt completed
    intro seen state label next guarded now traced taken
    exact (traced.step reads later guarded now taken).mono fun reached before => .inl before
  constructor
  · intro resolved answered ttl kept
    exact traced.grounded resolved answered ttl kept
  · intro id entry held
    rcases traced.cached id entry held with ⟨load, value, -⟩
    refine ⟨load.location, value, ?_⟩
    rw [value]
    exact decodeRepoLocation_payloadBytes load.location

end Staleness

/-- Two lookups that share a load, the repository's move right after it, and a lookup that finds
the new place, which was written directly. -/
def missThenMove : List LocatorStep :=
  [.call 0 (formatUUID 1) none, .call 1 (formatUUID 1) none, .join 0 0, .join 1 0,
    .read 0 1 none, .complete 0 1, .finish 0 false, .tick 3, .finish 1 true,
    .commit 1 (some ⟨"replica-2", "eu-west-1"⟩),
    .prime 1 ⟨0, "replica-2", "eu-west-1", "readers"⟩ false, .call 2 (formatUUID 1) none]

theorem resolve_missThenMove :
    ∃ final, run (locatorStep parseHyphenated)
        (.start 5 fun _ => some ⟨"replica-1", "us-east-1"⟩) missThenMove = some final ∧
      ∃ reached, Visited (locatorStep parseHyphenated)
          (.start 5 fun _ => some ⟨"replica-1", "us-east-1"⟩) missThenMove reached ∧
        8 - (repoLocationTTL + 3) ≤ reached.clock ∧ reached.clock ≤ 8 ∧
        metadataResolve parseHyphenated reached.lookup (formatUUID 1) =
          .ok (fileServerAddr "replica-2" "eu-west-1") := by
  have prompt : Meets (locatorStep parseHyphenated) (Prompt 3)
      (.start 5 fun _ => some ⟨"replica-1", "us-east-1"⟩) missThenMove := by
    decide +kernel
  have finished : ∃ final ∈ run (locatorStep parseHyphenated)
      (.start 5 fun _ => some ⟨"replica-1", "us-east-1"⟩) missThenMove,
      ⟨2, formatUUID 1, 8, .ok (fileServerAddr "replica-2" "eu-west-1")⟩ ∈ final.answers := by
    decide +kernel
  rcases finished with ⟨final, completed, answered⟩
  exact ⟨final, completed, (resolve_bounded_staleness parseHyphenated_formatUUID (by decide) prompt
    completed).1 _ answered _ rfl⟩

end GitScale.Git.Locator
