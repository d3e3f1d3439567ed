import GitScale.Foundation.Service
import GitScale.Go.Text
import GitScale.Redis.Keyspace
import Mathlib.Order.ConditionallyCompleteLattice.Basic
import Mathlib.Data.Int.ConditionallyCompleteOrder

/-!
# The two cache stores

`MemoryStore` keeps its entries in a map and drops an expired one when `Get` or `MGet` meets it;
`redisStore` leaves the expiry to the server.  Both are behind the interface `CacheStore`, and
they answer alike.
-/

namespace GitScale.Cache

open Foundation Go Redis

/-- One call of a `CacheStore` other than `Ping`, which reads no key. -/
inductive Operation where
  | get (key : String)
  | mget (keys : List String)
  | set (key : String) (value : Text) (ttl : Time)
  | delete (key : String)
  | compareAndSwap (key : String) (expected replacement : Text) (ttl : Time)
  deriving DecidableEq, Repr

/-- A call and the instant of the clock that it reads. -/
structure StoreCall where
  now : Time
  operation : Operation
  deriving DecidableEq, Repr

/-- What a call returns; a miss is the nil slice, with `ErrNotFound` from `Get`.  An error has its
words, the key that the verb `%q` prints after them, if there is one, and its cause. -/
inductive StoreAnswer where
  | found (value : Option Text)
  | slots (values : List (Option Text))
  | done
  | swapped (success : Bool)
  | failed (words : String) (key : Option String) (cause : String)
  deriving DecidableEq, Repr

/-! ## In process -/

/-- `memEntry`. -/
structure MemEntry where
  value : Text
  expiresAt : Time
  deriving DecidableEq, Repr

/-- `MemoryStore`, less its mutex and its clock. -/
structure MemoryStore where
  entries : String → Option MemEntry

namespace MemoryStore

/-- `NewMemoryStore`. -/
def new : MemoryStore := ⟨fun _ => none⟩

def insert (store : MemoryStore) (key : String) (entry : MemEntry) : MemoryStore :=
  ⟨Function.update store.entries key (some entry)⟩

/-- `MemoryStore.Delete`. -/
def delete (store : MemoryStore) (key : String) : MemoryStore :=
  ⟨Function.update store.entries key none⟩

/-- `MemoryStore.Get`, and one iteration of `MGet`. -/
def get (store : MemoryStore) (now : Time) (key : String) : Option Text × MemoryStore :=
  match store.entries key with
  | none => (none, store.delete key)
  | some entry =>
      if now > entry.expiresAt then (none, store.delete key) else (some entry.value, store)

/-- `MemoryStore.MGet`. -/
def mget (store : MemoryStore) (now : Time) : List String → List (Option Text) × MemoryStore
  | [] => ([], store)
  | key :: rest =>
      let slot := store.get now key
      let slots := slot.2.mget now rest
      (slot.1 :: slots.1, slots.2)

/-- `MemoryStore.Set`. -/
def set (store : MemoryStore) (now : Time) (key : String) (value : Text) (ttl : Time) :
    MemoryStore :=
  store.insert key ⟨value, now + ttl⟩

/-- The current value that `CompareAndSwap` compares; it is empty for an absent key. -/
def current (store : MemoryStore) (now : Time) (key : String) : Text :=
  match store.entries key with
  | some entry => if ¬ now > entry.expiresAt then entry.value else []
  | none => []

/-- `MemoryStore.CompareAndSwap`. -/
def compareAndSwap (store : MemoryStore) (now : Time) (key : String)
    (expected replacement : Text) (ttl : Time) : Bool × MemoryStore :=
  if store.current now key ≠ expected then (false, store)
  else (true, store.insert key ⟨replacement, now + ttl⟩)

def serve (store : MemoryStore) (call : StoreCall) : StoreAnswer × MemoryStore :=
  match call.operation with
  | .get key =>
      let got := store.get call.now key
      (.found got.1, got.2)
  | .mget keys =>
      let got := store.mget call.now keys
      (.slots got.1, got.2)
  | .set key value ttl => (.done, store.set call.now key value ttl)
  | .delete key => (.done, store.delete key)
  | .compareAndSwap key expected replacement ttl =>
      let swapped := store.compareAndSwap call.now key expected replacement ttl
      (.swapped swapped.1, swapped.2)

end MemoryStore

/-! ## In Redis -/

/-- `time.Duration.Milliseconds`. -/
def milliseconds (duration : Time) : Int := duration.tdiv 1000000

/-- The option of `SET` that the client sends for a time to live: seconds when it has no
fraction of a second, milliseconds otherwise, and none when it is not positive. -/
inductive SetOption where
  | px (milliseconds : Int)
  | ex (seconds : Int)
  | keepTTL
  | persistent
  deriving DecidableEq, Repr

/-- How the client picks the option. -/
def setOption (ttl : Time) : SetOption :=
  if ttl > 0 then
    if ttl < 1000000000 ∨ ttl % 1000000000 ≠ 0 then
      .px (if ttl < 1000000 then 1 else milliseconds ttl)
    else .ex (ttl / 1000000000)
  else if ttl = -1 then .keepTTL
  else .persistent

/-- The deadline that `SET` gives a key at an instant in milliseconds. -/
def SetOption.deadline (now : Int) (held : Option (Stored Text)) : SetOption → Option Int
  | .px duration => some (now + duration)
  | .ex duration => some (now + duration * 1000)
  | .keepTTL => held.bind Stored.deadline
  | .persistent => none

/-- `redisStore`: the keys of its server. -/
structure RedisStore where
  keys : Keyspace Text

namespace RedisStore

/-- `NewRedisStore` on an empty server. -/
def new : RedisStore := ⟨fun _ => none⟩

/-- The reply of `cas.lua`. -/
def cas (store : RedisStore) (now : Int) (key : String) (expected replacement : Text)
    (ttlMs : Int) : Except String Int × RedisStore :=
  let current := (store.keys.read strictly now key).getD []
  if current ≠ expected then (.ok 0, store)
  else if ttlMs ≤ 0 then (.error "ERR invalid expire time in 'set' command", store)
  else (.ok 1, ⟨store.keys.write key ⟨replacement, some (now + ttlMs)⟩⟩)

/-- The methods of `redisStore`, for a connection that does not fail. -/
def serve (store : RedisStore) (call : StoreCall) : StoreAnswer × RedisStore :=
  let now := call.now.unixMilli
  match call.operation with
  | .get key => (.found (store.keys.read strictly now key), store)
  | .mget keys =>
      if keys.isEmpty then
        (.failed "cache: mget" none "ERR wrong number of arguments for 'mget' command", store)
      else (.slots (keys.map (store.keys.read strictly now)), store)
  | .set key value ttl =>
      let held := (store.keys key).filter fun stored => !stored.lapsed strictly now
      (.done, ⟨store.keys.write key ⟨value, (setOption ttl).deadline now held⟩⟩)
  | .delete key => (.done, ⟨store.keys.delete key⟩)
  | .compareAndSwap key expected replacement ttl =>
      match store.cas now key expected replacement (milliseconds ttl) with
      | (.error message, store) => (.failed "cache: cas" (some key) message, store)
      | (.ok reply, store) => (.swapped (reply = 1), store)

end RedisStore

/-! ## The two stores agree -/

/-- The time to live that a call passes. -/
def Operation.ttl : Operation → Option Time
  | .set _ _ ttl => some ttl
  | .compareAndSwap _ _ _ ttl => some ttl
  | _ => none

/-- What is asked of a call: whole milliseconds, times to live that are positive, and a key for
`MGet`. -/
structure WholeMs (call : StoreCall) : Prop where
  now : call.now = call.now.unixMilli * 1000000
  keys : call.operation ≠ .mget []
  ttl : ∀ ttl ∈ call.operation.ttl, 0 < ttl ∧ ttl = milliseconds ttl * 1000000

/-- From an instant on the stores show the same value for every key. -/
def SameValues (now : Time) (memory : MemoryStore) (redis : RedisStore) : Prop :=
  ∀ key later, now ≤ later → later = later.unixMilli * 1000000 →
    (memory.get later key).1 = redis.keys.read strictly later.unixMilli key

section Agreement

variable {now later : Time} {key other : String}

/-- An entry shows until its deadline has passed. -/
theorem MemoryStore.get_fst (store : MemoryStore) :
    (store.get now key).1 =
      ((store.entries key).filter fun entry => now ≤ entry.expiresAt).map MemEntry.value := by
  unfold get
  cases store.entries key with
  | none => rfl
  | some entry =>
      rcases lt_or_ge entry.expiresAt now with passed | kept
      · simp [passed]
      · simp [kept, not_lt.mpr kept]

theorem MemoryStore.get_insert_self (store : MemoryStore) (entry : MemEntry) :
    ((store.insert key entry).get later key).1 =
      if later > entry.expiresAt then none else some entry.value := by
  rcases lt_or_ge entry.expiresAt later with passed | kept
  · simp [get_fst, insert, passed]
  · simp [get_fst, insert, kept, not_lt.mpr kept]

theorem MemoryStore.get_insert_of_ne (store : MemoryStore) (entry : MemEntry)
    (different : other ≠ key) :
    ((store.insert key entry).get later other).1 = (store.get later other).1 := by
  simp only [get_fst, insert, Function.update_of_ne different]

theorem MemoryStore.get_delete_self (store : MemoryStore) :
    ((store.delete key).get later key).1 = none := by
  simp [get_fst, delete]

theorem MemoryStore.get_delete_of_ne (store : MemoryStore) (different : other ≠ key) :
    ((store.delete key).get later other).1 = (store.get later other).1 := by
  simp only [get_fst, delete, Function.update_of_ne different]

/-- What `Get` drops had expired, so no later call can tell. -/
theorem MemoryStore.get_after_get (store : MemoryStore) (le : now ≤ later) :
    ((store.get now key).2.get later other).1 = (store.get later other).1 := by
  have dropped (gone : (store.get later key).1 = none) :
      ((store.delete key).get later other).1 = (store.get later other).1 := by
    by_cases same : other = key
    · rw [same, get_delete_self, gone]
    · exact get_delete_of_ne store same
  cases held : store.entries key with
  | none =>
      simp only [get, held]
      exact dropped (by simp [get, held])
  | some entry =>
      by_cases passed : now > entry.expiresAt
      · simp only [get, held, if_pos passed]
        exact dropped (by simp [get, held, lt_of_lt_of_le passed le])
      · have kept : (store.get now key).2 = store := by simp [get, held, passed]
        rw [kept]

/-- Deleting a key adds no entry. -/
theorem MemoryStore.entries_of_delete {store : MemoryStore} {entry : MemEntry}
    (held : (store.delete key).entries other = some entry) :
    store.entries other = some entry := by
  by_cases same : other = key
  · subst same
    simp [delete] at held
  · simpa [delete, Function.update_of_ne same] using held

/-- Neither does a read. -/
theorem MemoryStore.entries_of_get {store : MemoryStore} {entry : MemEntry}
    (held : (store.get now key).2.entries other = some entry) :
    store.entries other = some entry := by
  unfold get at held
  split at held
  · exact entries_of_delete held
  · split at held
    · exact entries_of_delete held
    · exact held

/-- A write adds the entry of its key. -/
theorem MemoryStore.entries_of_set {store : MemoryStore} {value : Text} {ttl : Time}
    {entry : MemEntry} (held : (store.set now key value ttl).entries other = some entry) :
    store.entries other = some entry ∨ other = key ∧ entry = ⟨value, now + ttl⟩ := by
  by_cases same : other = key
  · subst same
    refine .inr ⟨rfl, ?_⟩
    simpa [set, insert] using held.symm
  · refine .inl ?_
    simpa [set, insert, Function.update_of_ne same] using held

theorem MemoryStore.mget_eq (store : MemoryStore) (keys : List String) :
    (store.mget now keys).1 = keys.map fun key => (store.get now key).1 := by
  induction keys generalizing store with
  | nil => rfl
  | cons key rest inductionHypothesis =>
      simp only [mget, List.map_cons, inductionHypothesis, List.cons.injEq, true_and]
      apply List.map_congr_left
      intro other _
      exact get_after_get store (le_refl now)

theorem MemoryStore.get_after_mget (store : MemoryStore) (keys : List String)
    (le : now ≤ later) :
    ((store.mget now keys).2.get later other).1 = (store.get later other).1 := by
  induction keys generalizing store with
  | nil => rfl
  | cons key rest inductionHypothesis =>
      rw [mget, inductionHypothesis]
      exact get_after_get store le

theorem MemoryStore.current_eq (store : MemoryStore) :
    store.current now key = ((store.get now key).1).getD [] := by
  rw [get_fst]
  unfold current
  cases store.entries key with
  | none => rfl
  | some entry =>
      rcases lt_or_ge entry.expiresAt now with passed | kept
      · simp [Option.filter, passed, not_le.mpr passed]
      · simp [Option.filter, kept, not_lt.mpr kept]

theorem passed_iff {instant expiresAt instantMs deadline : Int}
    (wholeMs : instant = instantMs * 1000000) (due : expiresAt = deadline * 1000000) :
    instant > expiresAt ↔ deadline < instantMs := by
  omega

/-- A value written with the same deadline shows in both stores. -/
theorem SameValues.write {memory : MemoryStore} {redis : RedisStore}
    (same : SameValues now memory redis) (key : String) (value : Text) {ttl : Time}
    {deadline : Int} (due : now + ttl = deadline * 1000000) :
    SameValues now (memory.insert key ⟨value, now + ttl⟩)
      ⟨redis.keys.write key ⟨value, some deadline⟩⟩ := by
  intro other later le wholeMs
  by_cases this : other = key
  · subst this
    rw [MemoryStore.get_insert_self, Keyspace.read_of_some (Keyspace.write_self _ _ _)]
    simp [Stored.lapsed, strictly, passed_iff wholeMs due]
  · rw [MemoryStore.get_insert_of_ne _ _ this, same other later le wholeMs]
    simp only [Keyspace.read, Keyspace.write_of_ne _ _ this]

theorem SameValues.mono {memory : MemoryStore} {redis : RedisStore}
    (same : SameValues now memory redis) (le : now ≤ later) : SameValues later memory redis :=
  fun key instant later' => same key instant (le.trans later')

theorem SameValues.delete {memory : MemoryStore} {redis : RedisStore}
    (same : SameValues now memory redis) (key : String) :
    SameValues now (memory.delete key) ⟨redis.keys.delete key⟩ := by
  intro other later le wholeMs
  by_cases this : other = key
  · subst this
    rw [MemoryStore.get_delete_self]
    exact (Keyspace.read_of_none (Function.update_self _ _ _)).symm
  · rw [MemoryStore.get_delete_of_ne _ this, same other later le wholeMs]
    simp only [Keyspace.read, Keyspace.delete, Function.update_of_ne this]

/-- A positive number of whole milliseconds is at least one of them. -/
theorem not_lt_of_wholeMs {ttl duration : Int} (positive : 0 < ttl)
    (wholeMs : ttl = duration * 1000000) : ¬ ttl < 1000000 ∧ ¬ duration ≤ 0 := by
  omega

theorem wholeSeconds_mul {ttl duration : Int} (wholeMs : ttl = duration * 1000000)
    (wholeSeconds : ttl % 1000000000 = 0) : ttl / 1000000000 * 1000 = duration := by
  omega

/-- Whatever option the client picks, the deadline is the time to live after now. -/
theorem deadline_setOption {ttl : Time} (positive : 0 < ttl)
    (wholeMs : ttl = milliseconds ttl * 1000000) (nowMs : Int) (held : Option (Stored Text)) :
    (setOption ttl).deadline nowMs held = some (nowMs + milliseconds ttl) := by
  unfold setOption
  rw [if_pos positive]
  split
  · rw [if_neg (not_lt_of_wholeMs positive wholeMs).1]
    rfl
  · next whole =>
      have wholeSeconds : (ttl : Int) % 1000000000 = 0 := by
        by_contra fraction
        exact whole (Or.inr fraction)
      simp only [SetOption.deadline, wholeSeconds_mul wholeMs wholeSeconds]

/-- `CompareAndSwap` with a time to live that the server accepts. -/
theorem RedisStore.serve_swap (store : RedisStore) (key : String) (expected replacement : Text)
    {ttl : Time} (accepted : ¬ milliseconds ttl ≤ 0) :
    store.serve ⟨now, .compareAndSwap key expected replacement ttl⟩ =
      if (store.keys.read strictly now.unixMilli key).getD [] ≠ expected then
        (.swapped false, store)
      else
        (.swapped true,
          ⟨store.keys.write key
            ⟨replacement, some (now.unixMilli + milliseconds ttl)⟩⟩) := by
  by_cases different : (store.keys.read strictly now.unixMilli key).getD [] ≠ expected
  · simp [serve, cas, different]
  · simp only [serve, cas, if_neg accepted, if_neg different]
    rfl

/-- The two stores take the same step. -/
theorem sameValues_simulates :
    Simulates StoreCall.now WholeMs SameValues MemoryStore.serve RedisStore.serve := by
  have due {call : StoreCall} {ttl : Time} (wholeMs : WholeMs call)
      (whole : ttl = milliseconds ttl * 1000000) :
      call.now + ttl = (call.now.unixMilli + milliseconds ttl) * 1000000 := by
    rw [Int.add_mul, ← wholeMs.now, ← whole]
  constructor
  · intro now memory redis call same le wholeMs
    have reads (key : String) := same key call.now le wholeMs.now
    rcases call with ⟨instant, operation⟩
    cases operation with
    | get key => exact congrArg StoreAnswer.found (reads key)
    | mget keys =>
        have nonempty : keys.isEmpty = false := by
          rw [List.isEmpty_eq_false_iff]
          rintro rfl
          exact wholeMs.keys rfl
        simp only [MemoryStore.serve, RedisStore.serve, nonempty, MemoryStore.mget_eq]
        exact congrArg StoreAnswer.slots (List.map_congr_left fun key _ => reads key)
    | set key value ttl => rfl
    | delete key => rfl
    | compareAndSwap key expected replacement ttl =>
        obtain ⟨positive, whole⟩ := wholeMs.ttl ttl rfl
        rw [RedisStore.serve_swap _ _ _ _ (not_lt_of_wholeMs positive whole).2]
        simp only [MemoryStore.serve, MemoryStore.compareAndSwap, MemoryStore.current_eq,
          reads key]
        split <;> rfl
  · intro now memory redis call same le wholeMs
    have same := same.mono le
    have reads (key : String) := same key call.now (le_refl _) wholeMs.now
    rcases call with ⟨instant, operation⟩
    cases operation with
    | get key =>
        intro other later le wholeMs
        exact (MemoryStore.get_after_get memory le).trans (same other later le wholeMs)
    | mget keys =>
        have nonempty : keys.isEmpty = false := by
          rw [List.isEmpty_eq_false_iff]
          rintro rfl
          exact wholeMs.keys rfl
        intro other later le wholeMs
        simp only [MemoryStore.serve, RedisStore.serve, nonempty]
        exact (MemoryStore.get_after_mget memory keys le).trans (same other later le wholeMs)
    | set key value ttl =>
        obtain ⟨positive, whole⟩ := wholeMs.ttl ttl rfl
        simp only [MemoryStore.serve, RedisStore.serve, deadline_setOption positive whole]
        exact same.write key value (due wholeMs whole)
    | delete key => exact same.delete key
    | compareAndSwap key expected replacement ttl =>
        obtain ⟨positive, whole⟩ := wholeMs.ttl ttl rfl
        rw [RedisStore.serve_swap _ _ _ _ (not_lt_of_wholeMs positive whole).2]
        simp only [MemoryStore.serve, MemoryStore.compareAndSwap, MemoryStore.current_eq,
          reads key]
        split
        · exact same
        · exact same.write key replacement (due wholeMs whole)

end Agreement

/-- `redisStore` answers every call as `MemoryStore` does. -/
theorem redisStore_agrees (calls : List StoreCall) (wholeMs : ∀ call ∈ calls, WholeMs call)
    (ordered : (calls.map StoreCall.now).Pairwise (· ≤ ·)) :
    answers RedisStore.serve .new calls = answers MemoryStore.serve .new calls := by
  have empty (now : Time) : SameValues now .new .new := by
    intro key later _ _
    rfl
  exact (sameValues_simulates.answers_eq wholeMs ordered empty).symm

/-- A value expires between two calls, and an empty value passes for an absent one. -/
def expiringCalls : List StoreCall :=
  [⟨0, .set "identity:1" [1] 2000000⟩, ⟨2000000, .get "identity:1"⟩,
    ⟨3000000, .mget ["identity:1", "identity:1"]⟩,
    ⟨3000000, .compareAndSwap "identity:1" [] [] 1000000000⟩,
    ⟨4000000, .compareAndSwap "identity:1" [] [2] 1000000⟩, ⟨4000000, .delete "identity:1"⟩]

theorem redisStore_agrees_expiringCalls :
    answers RedisStore.serve .new expiringCalls = answers MemoryStore.serve .new expiringCalls := by
  refine redisStore_agrees expiringCalls ?_ (by decide)
  intro call membership
  simp only [expiringCalls, List.mem_cons, List.not_mem_nil, or_false] at membership
  rcases membership with rfl | rfl | rfl | rfl | rfl | rfl
  all_goals exact ⟨by decide, by decide, by decide⟩

end GitScale.Cache
