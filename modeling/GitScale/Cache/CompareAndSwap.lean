import GitScale.Cache.Stores

/-!
# The precondition of `CompareAndSwap`

An empty expected value is documented to mean that the key must be absent.  Both stores bring an
absent key to the empty value before they compare, so that a live key with an empty value passes
for an absent one.
-/

namespace GitScale.Cache

open Foundation Go Redis

/-- When a swap is due: on the expected value, or on no value if the expected one is empty. -/
def SwapDue (live : Option Text) (expected : Text) : Prop :=
  expected ≠ [] ∧ live = some expected ∨ expected = [] ∧ live = none

/-- The store answers whether the swap was due, and a swap that fails leaves the value and the
expiry of its key. -/
structure SwapsExactly {State Entry : Type} (serve : State → StoreCall → StoreAnswer × State)
    (live : State → Time → String → Option Text) (entry : State → String → Entry) (state : State)
    (now : Time) (key : String) (expected replacement : Text) (ttl : Time) : Prop where
  answers : ∃ success : Bool,
    (serve state ⟨now, .compareAndSwap key expected replacement ttl⟩).1 = .swapped success ∧
      (success = true ↔ SwapDue (live state now key) expected)
  unchanged :
    (serve state ⟨now, .compareAndSwap key expected replacement ttl⟩).1 = .swapped false →
      entry (serve state ⟨now, .compareAndSwap key expected replacement ttl⟩).2 key =
        entry state key

/-- The value that `Get` shows. -/
def MemoryStore.live (store : MemoryStore) (now : Time) (key : String) : Option Text :=
  (store.get now key).1

def RedisStore.live (store : RedisStore) (now : Time) (key : String) : Option Text :=
  store.keys.read strictly now.unixMilli key

section Swap

variable {live : Option Text} {expected : Text}

/-- The comparison of both stores is the documented one unless it meets a live empty value. -/
theorem getD_eq_iff_swapDue_iff :
    (live.getD [] = expected ↔ SwapDue live expected) ↔ ¬ (expected = [] ∧ live = some []) := by
  unfold SwapDue
  cases live with
  | none =>
      cases expected with
      | nil => simp
      | cons first rest => simp
  | some value =>
      cases expected with
      | nil => simp
      | cons first rest => simp

/-- A store that compares this way and writes nothing on a mismatch. -/
theorem swapsExactly_iff {State Entry : Type} {serve : State → StoreCall → StoreAnswer × State}
    {live : State → Time → String → Option Text} {entry : State → String → Entry} {state : State}
    {now : Time} {key : String} {expected replacement : Text} {ttl : Time} {swapped : State}
    (compares : serve state ⟨now, .compareAndSwap key expected replacement ttl⟩ =
      if (live state now key).getD [] ≠ expected then (.swapped false, state)
      else (.swapped true, swapped)) :
    SwapsExactly serve live entry state now key expected replacement ttl ↔
      ¬ (expected = [] ∧ live state now key = some []) := by
  rw [← getD_eq_iff_swapDue_iff]
  by_cases same : (live state now key).getD [] = expected
  · rw [if_neg (not_not.mpr same)] at compares
    constructor
    · intro exact
      obtain ⟨success, answer, due⟩ := exact.answers
      rw [compares] at answer
      cases answer
      exact iff_of_true same (due.mp rfl)
    · intro due
      refine ⟨⟨true, by rw [compares], iff_of_true rfl (due.mp same)⟩, ?_⟩
      rw [compares]
      intro failed
      cases failed
  · rw [if_pos same] at compares
    constructor
    · intro exact
      obtain ⟨success, answer, due⟩ := exact.answers
      rw [compares] at answer
      cases answer
      exact iff_of_false same fun isDue => Bool.false_ne_true (due.mpr isDue)
    · intro due
      refine ⟨⟨false, by rw [compares], iff_of_false Bool.false_ne_true (due.not.mp same)⟩, ?_⟩
      rw [compares]
      intro _
      rfl

end Swap

theorem milliseconds_pos {ttl : Int} (long : 1000000 ≤ ttl) : ¬ milliseconds ttl ≤ 0 := by
  rw [milliseconds, Int.tdiv_eq_ediv_of_nonneg (by omega)]
  omega

theorem MemoryStore.serve_swap (store : MemoryStore) (now : Time) (key : String)
    (expected replacement : Text) (ttl : Time) :
    store.serve ⟨now, .compareAndSwap key expected replacement ttl⟩ =
      if (store.live now key).getD [] ≠ expected then (.swapped false, store)
      else (.swapped true, store.insert key ⟨replacement, now + ttl⟩) := by
  by_cases different : (store.live now key).getD [] ≠ expected
  · rw [if_pos different]
    rw [live, ← current_eq] at different
    simp only [serve, compareAndSwap, if_pos different]
  · rw [if_neg different]
    rw [live, ← current_eq] at different
    simp only [serve, compareAndSwap, if_neg different]

theorem MemoryStore.swapsExactly_iff (store : MemoryStore) (now : Time) (key : String)
    (expected replacement : Text) (ttl : Time) :
    SwapsExactly serve live entries store now key expected replacement ttl ↔
      ¬ (expected = [] ∧ store.live now key = some []) :=
  Cache.swapsExactly_iff (store.serve_swap now key expected replacement ttl)

theorem RedisStore.swapsExactly_iff (store : RedisStore) (now : Time) (key : String)
    (expected replacement : Text) {ttl : Time} (long : 1000000 ≤ ttl) :
    SwapsExactly serve live keys store now key expected replacement ttl ↔
      ¬ (expected = [] ∧ store.live now key = some []) :=
  Cache.swapsExactly_iff (store.serve_swap key expected replacement (milliseconds_pos long))

/-! ## After every history -/

/-- After every history, and for every call with a time to live that Redis can represent, each
store meets the contract unless a swap that expects no value finds a live empty one. -/
theorem compareAndSwap_exact_iff (history : List StoreCall) (now : Time) (key : String)
    (expected replacement : Text) (ttl : Time) (long : 1000000 ≤ ttl) :
    let memory := finalState MemoryStore.serve .new history
    let redis := finalState RedisStore.serve .new history
    (SwapsExactly MemoryStore.serve MemoryStore.live MemoryStore.entries memory now key expected
        replacement ttl ↔
      ¬ (expected = [] ∧ memory.live now key = some [])) ∧
    (SwapsExactly RedisStore.serve RedisStore.live RedisStore.keys redis now key expected
        replacement ttl ↔
      ¬ (expected = [] ∧ redis.live now key = some [])) := by
  intro memory redis
  constructor
  · exact memory.swapsExactly_iff now key expected replacement ttl
  · exact redis.swapsExactly_iff now key expected replacement long

/-- A key set to the empty value, and a swap that expects another one. -/
theorem compareAndSwap_exact_iff_etag :
    SwapsExactly MemoryStore.serve MemoryStore.live MemoryStore.entries
        (finalState MemoryStore.serve .new [⟨0, .set "etag" [] 1000000000⟩]) 0 "etag" [1] [2]
        1000000 ∧
      SwapsExactly RedisStore.serve RedisStore.live RedisStore.keys
        (finalState RedisStore.serve .new [⟨0, .set "etag" [] 1000000000⟩]) 0 "etag" [1] [2]
        1000000 := by
  have exact_iff := compareAndSwap_exact_iff [⟨0, .set "etag" [] 1000000000⟩] 0 "etag" [1] [2]
    1000000 (by decide)
  exact ⟨exact_iff.1.mpr (by decide), exact_iff.2.mpr (by decide)⟩

/-- After the same history both stores swap for a caller that expects the key to be absent. -/
theorem empty_value_passes_for_absent :
    ¬ SwapsExactly MemoryStore.serve MemoryStore.live MemoryStore.entries
        (finalState MemoryStore.serve .new [⟨0, .set "etag" [] 1000000000⟩]) 0 "etag" [] [2]
        1000000 ∧
      ¬ SwapsExactly RedisStore.serve RedisStore.live RedisStore.keys
        (finalState RedisStore.serve .new [⟨0, .set "etag" [] 1000000000⟩]) 0 "etag" [] [2]
        1000000 := by
  constructor
  · intro swaps
    exact absurd ⟨rfl, by decide⟩ ((MemoryStore.swapsExactly_iff _ _ _ _ _ _).mp swaps)
  · intro swaps
    exact absurd ⟨rfl, by decide⟩ ((RedisStore.swapsExactly_iff _ _ _ _ _ (by decide)).mp swaps)

/-! ## Histories without empty values -/

/-- A call that stores no empty value. -/
def StoreCall.StoresValue (call : StoreCall) : Prop :=
  match call.operation with
  | .set _ value _ => value ≠ []
  | .compareAndSwap _ _ replacement _ => replacement ≠ []
  | _ => True

/-- No key holds an empty value. -/
def NoEmptyValue {Entry : Type} (value : Entry → Text) (entries : String → Option Entry) : Prop :=
  ∀ key, ∀ entry ∈ entries key, value entry ≠ []

section NoEmptyValue

variable {now : Time} {key : String}

theorem NoEmptyValue.update {Entry : Type} {value : Entry → Text}
    {entries : String → Option Entry} (noEmpty : NoEmptyValue value entries) (key : String)
    {slot : Option Entry} (nonempty : ∀ entry ∈ slot, value entry ≠ []) :
    NoEmptyValue value (Function.update entries key slot) := by
  intro other entry present
  by_cases same : other = key
  · rw [same, Function.update_self] at present
    exact nonempty entry present
  · rw [Function.update_of_ne same] at present
    exact noEmpty other entry present

theorem MemoryStore.noEmptyValue_insert {store : MemoryStore} {entry : MemEntry}
    (nonempty : entry.value ≠ []) (noEmpty : NoEmptyValue MemEntry.value store.entries) :
    NoEmptyValue MemEntry.value (store.insert key entry).entries :=
  noEmpty.update key fun _ present => Option.some.inj present ▸ nonempty

theorem MemoryStore.noEmptyValue_delete {store : MemoryStore}
    (noEmpty : NoEmptyValue MemEntry.value store.entries) :
    NoEmptyValue MemEntry.value (store.delete key).entries :=
  noEmpty.update key fun _ present => by cases present

theorem MemoryStore.noEmptyValue_get {store : MemoryStore}
    (noEmpty : NoEmptyValue MemEntry.value store.entries) :
    NoEmptyValue MemEntry.value (store.get now key).2.entries := by
  unfold MemoryStore.get
  split
  · exact noEmptyValue_delete noEmpty
  · split
    · exact noEmptyValue_delete noEmpty
    · exact noEmpty

theorem MemoryStore.noEmptyValue_mget {store : MemoryStore} {keys : List String}
    (noEmpty : NoEmptyValue MemEntry.value store.entries) :
    NoEmptyValue MemEntry.value (store.mget now keys).2.entries := by
  induction keys generalizing store with
  | nil => exact noEmpty
  | cons key rest inductionHypothesis => exact inductionHypothesis (noEmptyValue_get noEmpty)

theorem MemoryStore.noEmptyValue_serve (store : MemoryStore) (call : StoreCall)
    (stores : call.StoresValue) (noEmpty : NoEmptyValue MemEntry.value store.entries) :
    NoEmptyValue MemEntry.value (store.serve call).2.entries := by
  rcases call with ⟨now, operation⟩
  cases operation with
  | get key => exact noEmptyValue_get noEmpty
  | mget keys => exact noEmptyValue_mget noEmpty
  | set key value ttl => exact noEmptyValue_insert stores noEmpty
  | delete key => exact noEmptyValue_delete noEmpty
  | compareAndSwap key expected replacement ttl =>
      rw [serve_swap]
      split
      · exact noEmpty
      · exact noEmptyValue_insert stores noEmpty

theorem RedisStore.noEmptyValue_write {store : RedisStore} {stored : Stored Text}
    (nonempty : stored.value ≠ []) (noEmpty : NoEmptyValue Stored.value store.keys) :
    NoEmptyValue Stored.value (store.keys.write key stored) :=
  noEmpty.update key fun _ present => Option.some.inj present ▸ nonempty

theorem RedisStore.noEmptyValue_serve (store : RedisStore) (call : StoreCall)
    (stores : call.StoresValue) (noEmpty : NoEmptyValue Stored.value store.keys) :
    NoEmptyValue Stored.value (store.serve call).2.keys := by
  rcases call with ⟨now, operation⟩
  cases operation with
  | get key => exact noEmpty
  | mget keys =>
      unfold serve
      dsimp only
      split
      · exact noEmpty
      · exact noEmpty
  | set key value ttl => exact noEmptyValue_write stores noEmpty
  | delete key => exact noEmpty.update key fun _ present => by cases present
  | compareAndSwap key expected replacement ttl =>
      unfold serve cas
      dsimp only
      split
      · next replied =>
          split at replied
          · cases replied
          · split at replied
            · cases replied
              exact noEmpty
            · cases replied
      · next replied =>
          split at replied
          · cases replied
            exact noEmpty
          · split at replied
            · cases replied
            · cases replied
              exact noEmptyValue_write stores noEmpty

/-- In a history that stores no empty value both stores meet the contract on every call. -/
theorem swapsExactly_of_storesValue {history : List StoreCall}
    (stores : ∀ call ∈ history, call.StoresValue) (expected replacement : Text) {ttl : Time}
    (long : 1000000 ≤ ttl) :
    SwapsExactly MemoryStore.serve MemoryStore.live MemoryStore.entries
        (finalState MemoryStore.serve .new history) now key expected replacement ttl ∧
      SwapsExactly RedisStore.serve RedisStore.live RedisStore.keys
        (finalState RedisStore.serve .new history) now key expected replacement ttl := by
  have memory : NoEmptyValue MemEntry.value (finalState MemoryStore.serve .new history).entries :=
    finalState_induction (fun store : MemoryStore => NoEmptyValue MemEntry.value store.entries)
      MemoryStore.noEmptyValue_serve stores fun _ _ present => by cases present
  have redis : NoEmptyValue Stored.value (finalState RedisStore.serve .new history).keys :=
    finalState_induction (fun store : RedisStore => NoEmptyValue Stored.value store.keys)
      RedisStore.noEmptyValue_serve stores fun _ _ present => by cases present
  rw [MemoryStore.swapsExactly_iff, RedisStore.swapsExactly_iff _ _ _ _ _ long]
  constructor
  · rintro ⟨-, found⟩
    rw [MemoryStore.live, MemoryStore.get_fst, Option.map_eq_some_iff] at found
    obtain ⟨entry, kept, empty⟩ := found
    exact memory key entry (Option.eq_some_of_filter_eq_some kept) empty
  · rintro ⟨-, found⟩
    rw [RedisStore.live, Keyspace.read, Option.map_eq_some_iff] at found
    obtain ⟨stored, kept, empty⟩ := found
    exact redis key stored (Option.eq_some_of_filter_eq_some kept) empty

end NoEmptyValue

end GitScale.Cache
