import GitScale.Basic
import GitScale.Foundation.Transition
import GitScale.Go.Text
import Mathlib.Logic.Function.Basic

/-!
# Persisted queries and their cache

A persisted query is registered once under its hash and never changes.  `PostgresStore` keeps the
rows; `CachedStore` reads through a cache, fills it after a miss and primes it after a write.
Every access to the database and to the cache is a step of its own, the steps of any number of
calls interleave, and each may fail, before or after it took effect.
-/

namespace GitScale.GraphQL.Persisted

open Foundation Go

/-- The errors of a `Store`: its sentinels, and what the database reports. -/
inductive StoreError where
  | notFound
  | hashConflict
  | other (message : String)
  deriving DecidableEq, Repr

/-- A row of `graphql.persisted_queries`. -/
structure Row where
  query : Text
  registeredBy : UUID
  deriving DecidableEq

/-- The table, by its primary key. -/
abbrev Rows := Text → Option Row

/-- The query that the table holds for a hash. -/
def held (rows : Rows) (hash : Text) : Option Text := (rows hash).map (·.query)

/-- How an access to the database or to the cache goes wrong. -/
inductive Fault where
  | none
  | before (message : String)
  | after (message : String)
  deriving DecidableEq, Repr

/-- The error that the caller sees. -/
def Fault.error : Fault → Option String
  | .none => Option.none
  | .before message => some message
  | .after message => some message

/-- The access has its effect, reported or not. -/
def Fault.effective : Fault → Bool
  | .before _ => false
  | _ => true

/-! ## The table -/

/-- `PostgresStore.Get`. -/
def selectQuery (rows : Rows) (hash : Text) (fault : Fault) : Except StoreError Text :=
  match fault.error with
  | some message => .error (.other message)
  | none =>
      match rows hash with
      | none => .error .notFound
      | some row => .ok row.query

/-- `INSERT … ON CONFLICT (hash) DO NOTHING`, with the number of rows it wrote. -/
def insertRow (rows : Rows) (hash : Text) (row : Row) : Nat × Rows :=
  match rows hash with
  | some _ => (0, rows)
  | none => (1, Function.update rows hash (some row))

/-- The insert of `PostgresStore.Put` as far as it takes effect. -/
def writeRow (rows : Rows) (hash : Text) (row : Row) (fault : Fault) : Nat × Rows :=
  if fault.effective then insertRow rows hash row else (0, rows)

/-! ## Calls -/

/-- `cacheKeyPrefix`. -/
def cacheKeyPrefix : Text := "graphql:persisted:".toList.map byte

/-- The cache key of a hash. -/
def cacheKey (hash : Text) : Text := cacheKeyPrefix ++ hash

/-- Where a call of `CachedStore` stands: what it does next, or what it returned.  A `Put` that
has returned also shows what `Inner.Put` returned to it. -/
inductive Phase where
  | idle
  | lookup (hash : Text)
  | load (hash : Text)
  | backfill (hash query : Text)
  | got (hash : Text) (result : Except StoreError Text)
  | insert (hash query : Text) (registeredBy : UUID)
  | verify (hash query : Text)
  | prime (hash query : Text)
  | put (hash query : Text) (inner result : Option StoreError)

/-- The table, the cache and the calls, by their numbers. -/
structure State where
  rows : Rows
  cache : Text → Option Text
  calls : Nat → Phase

/-- `CachedStore.Put` after `Inner.Put`. -/
def afterInnerPut (cached : Bool) (hash query : Text) (inner : Option StoreError) : Phase :=
  match inner with
  | some error => .put hash query (some error) (some error)
  | none => if cached then .prime hash query else .put hash query none none

/-- `Cache.Set`. -/
def setCache (cache : Text → Option Text) (hash query : Text) (fault : Fault) :
    Text → Option Text :=
  if fault.effective then Function.update cache (cacheKey hash) (some query) else cache

/-- The next step of a call; `cached` says whether there is a cache. -/
def advance (cached : Bool) (fault : Fault) (rows : Rows) (cache : Text → Option Text) :
    Phase → Option (Phase × Rows × (Text → Option Text))
  | .lookup hash =>
      match fault.error, cache (cacheKey hash) with
      | none, some query => some (.got hash (.ok query), rows, cache)
      | _, _ => some (.load hash, rows, cache)
  | .load hash =>
      match selectQuery rows hash fault with
      | .error error => some (.got hash (.error error), rows, cache)
      | .ok query =>
          if cached then some (.backfill hash query, rows, cache)
          else some (.got hash (.ok query), rows, cache)
  | .backfill hash query =>
      some (.got hash (.ok query), rows, setCache cache hash query fault)
  | .insert hash query registeredBy =>
      let written := writeRow rows hash ⟨query, registeredBy⟩ fault
      match fault.error with
      | some message =>
          some (afterInnerPut cached hash query (some (.other message)), written.2, cache)
      | none =>
          if written.1 = 1 then some (afterInnerPut cached hash query none, written.2, cache)
          else some (.verify hash query, written.2, cache)
  | .verify hash query =>
      match selectQuery rows hash fault with
      | .error error => some (afterInnerPut cached hash query (some error), rows, cache)
      | .ok existing =>
          if existing ≠ query then
            some (afterInnerPut cached hash query (some .hashConflict), rows, cache)
          else some (afterInnerPut cached hash query none, rows, cache)
  | .prime hash query =>
      some (.put hash query none none, rows, setCache cache hash query fault)
  | _ => none

/-- What happens next: a call begins or takes a step, the cache loses an entry, or another user
of the cache writes one of its own. -/
inductive Label where
  | get (call : Nat) (hash : Text)
  | put (call : Nat) (hash query : Text) (registeredBy : UUID)
  | advance (call : Nat) (fault : Fault)
  | evict (key : Text)
  | foreign (key value : Text)

def step (cached : Bool) (state : State) : Label → Option State
  | .get call hash =>
      match state.calls call with
      | .idle => some { state with
          calls := Function.update state.calls call (if cached then .lookup hash else .load hash) }
      | _ => none
  | .put call hash query registeredBy =>
      match state.calls call with
      | .idle => some { state with
          calls := Function.update state.calls call (.insert hash query registeredBy) }
      | _ => none
  | .advance call fault =>
      match advance cached fault state.rows state.cache (state.calls call) with
      | none => none
      | some (phase, rows, cache) =>
          some ⟨rows, cache, Function.update state.calls call phase⟩
  | .evict key => some { state with cache := Function.update state.cache key none }
  | .foreign key value =>
      if cacheKeyPrefix.isPrefixOf key then none
      else some { state with cache := Function.update state.cache key (some value) }

/-- A table with an empty cache and no call. -/
def initial (rows : Rows) : State := ⟨rows, fun _ => none, fun _ => .idle⟩

/-! ## Rows do not change -/

/-- Every row of `before` is still there. -/
def Grows (before after : Rows) : Prop :=
  ∀ hash query, held before hash = some query → held after hash = some query

theorem Grows.refl (rows : Rows) : Grows rows rows := fun _ _ found => found

theorem grows_insertRow (rows : Rows) (hash : Text) (row : Row) :
    Grows rows (insertRow rows hash row).2 := by
  intro other query found
  unfold insertRow
  cases present : rows hash with
  | some existing => exact found
  | none =>
      by_cases same : other = hash
      · rw [same, held, present] at found
        cases found
      · unfold held
        dsimp only
        rw [Function.update_of_ne same]
        exact found

/-- A row that was written is the row of its hash. -/
theorem held_insertRow {rows : Rows} {hash : Text} {row : Row}
    (written : (insertRow rows hash row).1 = 1) :
    held (insertRow rows hash row).2 hash = some row.query := by
  unfold insertRow at written ⊢
  cases present : rows hash with
  | some existing =>
      rw [present] at written
      cases written
  | none =>
      unfold held
      dsimp only
      rw [Function.update_self, Option.map_some]

theorem grows_writeRow (rows : Rows) (hash : Text) (row : Row) (fault : Fault) :
    Grows rows (writeRow rows hash row fault).2 := by
  unfold writeRow
  split
  · exact grows_insertRow rows hash row
  · exact .refl rows

theorem held_writeRow {rows : Rows} {hash : Text} {row : Row} {fault : Fault}
    (written : (writeRow rows hash row fault).1 = 1) :
    held (writeRow rows hash row fault).2 hash = some row.query := by
  unfold writeRow at written ⊢
  split at written
  · rename_i effective
    rw [if_pos effective]
    exact held_insertRow written
  · cases written

theorem held_of_selectQuery {rows : Rows} {hash query : Text} {fault : Fault}
    (selected : selectQuery rows hash fault = .ok query) : held rows hash = some query := by
  unfold selectQuery at selected
  split at selected
  · cases selected
  · unfold held
    cases present : rows hash with
    | none =>
        rw [present] at selected
        cases selected
    | some row =>
        rw [present] at selected
        cases selected
        rfl

/-- `PostgresStore.Get` does not report a conflict. -/
theorem selectQuery_ne_hashConflict (rows : Rows) (hash : Text) (fault : Fault) :
    selectQuery rows hash fault ≠ .error .hashConflict := by
  unfold selectQuery
  split
  · nofun
  · split <;> nofun

/-! ## The invariant -/

/-- What the cache has for a hash is the query of its row. -/
def Mirrors (rows : Rows) (cache : Text → Option Text) : Prop :=
  ∀ hash query, cache (cacheKey hash) = some query → held rows hash = some query

/-- How a `Put` that returned stands to the table. -/
structure PutSound (rows : Rows) (hash query : Text) (inner result : Option StoreError) :
    Prop where
  transparent : result = inner
  stored : inner = none → held rows hash = some query
  conflict : inner = some .hashConflict → ∃ other, held rows hash = some other ∧ other ≠ query

/-- The queries that a call carries and returns are those of the table. -/
def PhaseSound (rows : Rows) : Phase → Prop
  | .backfill hash query => held rows hash = some query
  | .prime hash query => held rows hash = some query
  | .got hash (.ok query) => held rows hash = some query
  | .put hash query inner result => PutSound rows hash query inner result
  | _ => True

structure Sound (state : State) : Prop where
  mirrors : Mirrors state.rows state.cache
  calls : ∀ call, PhaseSound state.rows (state.calls call)

section Steps

variable {rows after : Rows} {cache : Text → Option Text}

theorem Mirrors.mono (mirrors : Mirrors rows cache) (grows : Grows rows after) :
    Mirrors after cache :=
  fun hash query found => grows hash query (mirrors hash query found)

theorem PhaseSound.mono {phase : Phase} (sound : PhaseSound rows phase)
    (grows : Grows rows after) : PhaseSound after phase := by
  cases phase with
  | idle | lookup | load | insert | verify => trivial
  | backfill hash query => exact grows hash query sound
  | prime hash query => exact grows hash query sound
  | got hash result =>
      cases result with
      | error error => trivial
      | ok query => exact grows hash query sound
  | put hash query inner result =>
      refine ⟨sound.transparent, fun accepted => grows hash query (sound.stored accepted), ?_⟩
      intro conflict
      rcases sound.conflict conflict with ⟨other, found, differs⟩
      exact ⟨other, grows hash other found, differs⟩

theorem cacheKey_inj {first second : Text} (same : cacheKey first = cacheKey second) :
    first = second :=
  List.append_cancel_left same

/-- The cache is written with queries of the table only. -/
theorem Mirrors.setCache {hash query : Text} (mirrors : Mirrors rows cache)
    (found : held rows hash = some query) (fault : Fault) :
    Mirrors rows (Persisted.setCache cache hash query fault) := by
  unfold Persisted.setCache
  split
  · intro other value written
    by_cases same : other = hash
    · rw [same, Function.update_self] at written
      cases written
      rw [same]
      exact found
    · rw [Function.update_of_ne (fun equal => same (cacheKey_inj equal))] at written
      exact mirrors other value written
  · exact mirrors

theorem Mirrors.forget (mirrors : Mirrors rows cache) (key : Text) :
    Mirrors rows (Function.update cache key none) := by
  intro hash query found
  rw [Function.update_apply] at found
  split at found
  · cases found
  · exact mirrors hash query found

theorem Mirrors.foreign (mirrors : Mirrors rows cache) {key : Text}
    (outside : ¬ cacheKeyPrefix.isPrefixOf key = true) (value : Text) :
    Mirrors rows (Function.update cache key (some value)) := by
  intro hash query found
  rw [Function.update_apply] at found
  split at found
  · rename_i same
    refine absurd ?_ outside
    rw [← same, List.isPrefixOf_iff_prefix]
    exact List.prefix_append cacheKeyPrefix hash
  · exact mirrors hash query found

theorem phaseSound_afterInnerPut (cached : Bool) {hash query : Text}
    {inner : Option StoreError} (stored : inner = none → held rows hash = some query)
    (conflict : inner = some .hashConflict → ∃ other, held rows hash = some other ∧ other ≠ query) :
    PhaseSound rows (afterInnerPut cached hash query inner) := by
  cases inner with
  | some error => exact ⟨rfl, nofun, conflict⟩
  | none =>
      unfold afterInnerPut
      split
      · rename_i absent
        cases absent
      · split
        · exact stored rfl
        · exact ⟨rfl, fun _ => stored rfl, nofun⟩

/-- One step of a call. -/
theorem advance_sound {cached : Bool} {fault : Fault} {phase next : Phase}
    {nextCache : Text → Option Text} (mirrors : Mirrors rows cache)
    (sound : PhaseSound rows phase)
    (taken : advance cached fault rows cache phase = some (next, after, nextCache)) :
    Grows rows after ∧ Mirrors after nextCache ∧ PhaseSound after next := by
  cases phase with
  | idle | got | put => cases taken
  | lookup hash =>
      dsimp only [advance] at taken
      split at taken
      · rename_i query _ hit
        cases taken
        exact ⟨.refl rows, mirrors, mirrors hash query hit⟩
      · cases taken
        exact ⟨.refl rows, mirrors, trivial⟩
  | load hash =>
      dsimp only [advance] at taken
      split at taken
      · cases taken
        exact ⟨.refl rows, mirrors, trivial⟩
      · rename_i query selected
        have found := held_of_selectQuery selected
        split at taken
        · cases taken
          exact ⟨.refl rows, mirrors, found⟩
        · cases taken
          exact ⟨.refl rows, mirrors, found⟩
  | backfill hash query =>
      cases taken
      exact ⟨.refl rows, mirrors.setCache sound fault, sound⟩
  | prime hash query =>
      cases taken
      exact ⟨.refl rows, mirrors.setCache sound fault, rfl, fun _ => sound, nofun⟩
  | insert hash query registeredBy =>
      dsimp only [advance] at taken
      have grows := grows_writeRow rows hash ⟨query, registeredBy⟩ fault
      split at taken
      · cases taken
        exact ⟨grows, mirrors.mono grows, phaseSound_afterInnerPut cached nofun nofun⟩
      · split at taken
        · rename_i written
          cases taken
          exact ⟨grows, mirrors.mono grows,
            phaseSound_afterInnerPut cached (fun _ => held_writeRow written) nofun⟩
        · cases taken
          exact ⟨grows, mirrors.mono grows, trivial⟩
  | verify hash query =>
      dsimp only [advance] at taken
      split at taken
      · rename_i error selected
        cases taken
        refine ⟨.refl rows, mirrors, phaseSound_afterInnerPut cached nofun ?_⟩
        intro conflict
        cases conflict
        exact absurd selected (selectQuery_ne_hashConflict rows hash fault)
      · rename_i existing selected
        have found := held_of_selectQuery selected
        split at taken
        · rename_i differs
          cases taken
          exact ⟨.refl rows, mirrors,
            phaseSound_afterInnerPut cached nofun fun _ => ⟨existing, found, differs⟩⟩
        · rename_i same
          cases taken
          refine ⟨.refl rows, mirrors, phaseSound_afterInnerPut cached ?_ nofun⟩
          intro _
          rw [← not_not.mp same]
          exact found

end Steps

/-! ## Runs -/

/-- A call goes to another phase. -/
theorem Sound.proceed {state : State} (sound : Sound state) {call : Nat} {phase : Phase}
    (known : PhaseSound state.rows phase) :
    Sound { state with calls := Function.update state.calls call phase } := by
  refine ⟨sound.mirrors, ?_⟩
  intro other
  dsimp only
  rw [Function.update_apply]
  split
  · exact known
  · exact sound.calls other

theorem Sound.step {cached : Bool} {state next : State} {label : Label} (sound : Sound state)
    (taken : Persisted.step cached state label = some next) : Sound next := by
  cases label with
  | get call hash =>
      dsimp only [Persisted.step] at taken
      split at taken
      · cases taken
        apply sound.proceed
        split <;> trivial
      · cases taken
  | put call hash query registeredBy =>
      dsimp only [Persisted.step] at taken
      split at taken
      · cases taken
        exact sound.proceed trivial
      · cases taken
  | advance call fault =>
      dsimp only [Persisted.step] at taken
      split at taken
      · cases taken
      · rename_i phase rows cache advanced
        cases taken
        obtain ⟨grows, mirrors, known⟩ := advance_sound sound.mirrors (sound.calls call) advanced
        have kept : Sound ⟨rows, cache, state.calls⟩ :=
          ⟨mirrors, fun other => (sound.calls other).mono grows⟩
        exact kept.proceed known
  | evict key =>
      cases taken
      exact ⟨sound.mirrors.forget key, sound.calls⟩
  | foreign key value =>
      dsimp only [Persisted.step] at taken
      split at taken
      · cases taken
      · rename_i outside
        cases taken
        exact ⟨sound.mirrors.foreign outside value, sound.calls⟩

theorem sound_initial (rows : Rows) : Sound (initial rows) where
  mirrors := nofun
  calls := fun _ => trivial

/-- Every run, with or without a cache: a `Get` that returned a query returned the one that the
table holds for its hash, and a `Put` returned what `Inner.Put` returned, which is nil only if the
table holds the query and the conflict only if it holds another. -/
theorem cachedStore_transparent (cached : Bool) (rows : Rows) (schedule : List Label)
    (final : State) (reached : run (step cached) (initial rows) schedule = some final) :
    (∀ call hash query, final.calls call = .got hash (.ok query) →
        held final.rows hash = some query) ∧
      ∀ call hash query inner result, final.calls call = .put hash query inner result →
        (result = none ↔ inner = none) ∧
          (inner = none → held final.rows hash = some query) ∧
          (inner = some .hashConflict →
            ∃ other, held final.rows hash = some other ∧ other ≠ query) := by
  have sound : Sound final :=
    invariant_of_run (fun _ _ _ sound taken => sound.step taken) schedule (initial rows) final
      (sound_initial rows) reached
  constructor
  · intro call hash query returned
    have known := sound.calls call
    rw [returned] at known
    exact known
  · intro call hash query inner result returned
    have known := sound.calls call
    rw [returned] at known
    exact ⟨by rw [known.transparent], known.stored, known.conflict⟩

/-- Two clients register different queries under one hash; the first insert is applied and its
answer is lost.  A third call reads the row, loses the cache write, and a fourth one reads what
the second `Put` found. -/
def racingPuts : List Label :=
  [.put 0 [1] [10] 7, .put 1 [1] [20] 8, .put 2 [1] [10] 9, .advance 0 (.after "reset"),
    .advance 1 .none, .advance 2 .none, .advance 1 .none, .advance 2 .none,
    .get 3 [1], .advance 3 .none, .advance 2 .none, .advance 3 .none,
    .advance 3 (.before "timeout"), .get 4 [1], .advance 4 .none]

def afterRacingPuts : State :=
  (run (step true) (initial fun _ => none) racingPuts).getD (initial fun _ => none)

theorem cachedStore_transparent_racingPuts :
    run (step true) (initial fun _ => none) racingPuts = some afterRacingPuts ∧
      afterRacingPuts.calls 1 = .put [1] [20] (some .hashConflict) (some .hashConflict) ∧
      afterRacingPuts.calls 2 = .put [1] [10] none none ∧
      afterRacingPuts.calls 4 = .got [1] (.ok [10]) ∧
      held afterRacingPuts.rows [1] = some [10] := by
  refine ⟨rfl, rfl, rfl, rfl, ?_⟩
  exact (cachedStore_transparent true (fun _ => none) racingPuts afterRacingPuts rfl).1 4 [1]
    [10] rfl

end GitScale.GraphQL.Persisted
