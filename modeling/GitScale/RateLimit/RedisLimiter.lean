import GitScale.Foundation.Service
import GitScale.RateLimit.MemoryLimiter
import GitScale.Redis.Keyspace
import Mathlib.Data.Rat.Floor
import Mathlib.Data.Int.ConditionallyCompleteOrder
import Mathlib.Tactic.FieldSimp
import Mathlib.Tactic.Positivity

/-!
# The token bucket in Redis

`RedisLimiter.Take` runs the `token_bucket` script, which stores the bucket as a hash and lets
the key expire after twice the time of a full refill.  A bucket whose key has expired starts
again full, and the in-process bucket has refilled by then, so the two limiters agree.  Tokens
are exact rationals here.
-/

namespace GitScale.RateLimit

open Foundation Redis

/-- The fields of the hash. -/
structure BucketHash where
  tokens : ℚ
  lastMs : Int
  capacity : ℚ
  refill : ℚ
  deriving DecidableEq, Repr

/-- The conversion of a float to `int64`, which rounds towards zero; what it makes of a float
that is out of range depends on the machine. -/
def toInt64 (outOfRange : ℚ → Int) (value : ℚ) : Int :=
  if -2 ^ 63 ≤ value ∧ value < 2 ^ 63 then
    if 0 ≤ value then ⌊value⌋ else ⌈value⌉
  else outOfRange value

/-- The time to live that `Take` passes to the script. -/
def ttlMs (outOfRange : ℚ → Int) (capacity refillPerSec : ℚ) : Int :=
  let ttl :=
    if refillPerSec > 0 then toInt64 outOfRange (2 * (capacity / refillPerSec) * 1000) else 60000
  if ttl < 1000 then 1000 else ttl

/-- The reply of the script: the flag and the level. -/
structure ScriptReply where
  granted : Int
  remaining : ℚ
  deriving DecidableEq, Repr

/-- The level that the script computes from the fields of the hash. -/
def tokenBucketLevel (state : Option BucketHash) (capacity refill : ℚ) (nowMs : Int) : ℚ :=
  let tokens := (state.map BucketHash.tokens).getD capacity
  let lastMs := (state.map BucketHash.lastMs).getD nowMs
  min capacity (tokens + ((nowMs - lastMs : Int) : ℚ) / 1000 * refill)

/-- The script `token_bucket`. -/
def tokenBucket (expiry : Expiry) (buckets : Keyspace BucketHash) (key : String)
    (capacity refill : ℚ) (nowMs : Int) (n : ℚ) (ttl : Int) :
    ScriptReply × Keyspace BucketHash :=
  let level := tokenBucketLevel (buckets.read expiry nowMs key) capacity refill nowMs
  let reply : ScriptReply := if level ≥ n then ⟨1, level - n⟩ else ⟨0, level⟩
  (reply, buckets.write key ⟨⟨reply.remaining, nowMs, capacity, refill⟩, some (nowMs + ttl)⟩)

/-- `RedisLimiter`: the keys of its server. -/
structure RedisLimiter where
  buckets : Keyspace BucketHash

namespace RedisLimiter

/-- `NewRedisLimiter` on an empty server. -/
def new : RedisLimiter := ⟨fun _ => none⟩

/-- `RedisLimiter.Take`.  The errors of the connection are not modelled, and the script always
replies in the form that `Take` expects. -/
def take (expiry : Expiry) (outOfRange : ℚ → Int) (limiter : RedisLimiter) (call : TakeCall) :
    Answer × RedisLimiter :=
  let ran := tokenBucket expiry limiter.buckets call.key call.capacity call.refillPerSec
    call.now.unixMilli call.n (ttlMs outOfRange call.capacity call.refillPerSec)
  (⟨ran.1.granted = 1, ran.1.remaining⟩, ⟨ran.2⟩)

end RedisLimiter

/-! ## An expired bucket is full -/

/-- The floor of the time to live and its rounding leave enough time for a full refill. -/
theorem capacity_le_ttlMs_refill (outOfRange : ℚ → Int) {capacity refill : ℚ}
    (capacityPos : 0 < capacity) (refillPos : 0 < refill)
    (inRange : 2 * (capacity / refill) * 1000 < 2 ^ 63) :
    capacity ≤ (ttlMs outOfRange capacity refill : ℚ) / 1000 * refill := by
  have fill : 0 < capacity / refill := div_pos capacityPos refillPos
  have converted : toInt64 outOfRange (2 * (capacity / refill) * 1000) =
      ⌊2 * (capacity / refill) * 1000⌋ := by
    rw [toInt64, if_pos ⟨by linarith, inRange⟩, if_pos (by positivity)]
  have below := Int.sub_one_lt_floor (2 * (capacity / refill) * 1000)
  have enough : capacity / refill ≤ (ttlMs outOfRange capacity refill : ℚ) / 1000 := by
    simp only [ttlMs, if_pos refillPos, converted]
    split
    · next short =>
        have rounded : (⌊2 * (capacity / refill) * 1000⌋ : ℚ) < 1000 := by exact_mod_cast short
        push_cast
        linarith
    · next long =>
        have rounded : (1000 : ℚ) ≤ ⌊2 * (capacity / refill) * 1000⌋ := by
          exact_mod_cast not_lt.mp long
        linarith
  exact (div_le_iff₀ refillPos).mp enough

/-! ## The two limiters agree -/

/-- The calls are made at whole milliseconds and pass, for every key, one capacity and one
refill. -/
structure Steady (capacity refill : String → ℚ) (call : TakeCall) : Prop where
  capacity : call.capacity = capacity call.key
  refill : call.refillPerSec = refill call.key
  wholeMs : call.now = call.now.unixMilli * 1000000

/-- The bucket of a key in both limiters. -/
inductive SameBucket (outOfRange : ℚ → Int) (capacity refill : ℚ) (now : Time) :
    Option Bucket → Option (Stored BucketHash) → Prop where
  | unused : SameBucket outOfRange capacity refill now none none
  | used {tokens : ℚ} {lastMs : Int} (nonneg : 0 ≤ tokens) (past : lastMs * 1000000 ≤ now) :
      SameBucket outOfRange capacity refill now
        (some ⟨tokens, lastMs * 1000000, capacity, refill⟩)
        (some ⟨⟨tokens, lastMs, capacity, refill⟩,
          some (lastMs + ttlMs outOfRange capacity refill)⟩)

/-- The two limiters hold the same buckets. -/
def SameBuckets (outOfRange : ℚ → Int) (capacity refill : String → ℚ) (now : Time)
    (memory : MemoryLimiter) (redis : RedisLimiter) : Prop :=
  ∀ key, SameBucket outOfRange (capacity key) (refill key) now (memory.buckets key)
    (redis.buckets key)

section Level

variable {expiry : Expiry} {outOfRange : ℚ → Int} {now : Time} {call : TakeCall}

theorem SameBucket.later {capacity refill : ℚ} {held : Option Bucket}
    {stored : Option (Stored BucketHash)}
    (same : SameBucket outOfRange capacity refill now held stored) {later : Time}
    (le : now ≤ later) : SameBucket outOfRange capacity refill later held stored := by
  cases same with
  | unused => exact .unused
  | used nonneg past => exact .used nonneg (past.trans le)

/-- The refill of the in-process bucket, as the script writes it. -/
theorem refilled_eq_min (call : TakeCall) (bucket : Bucket) :
    call.refilled bucket =
      min call.capacity
        (bucket.tokens + seconds (call.now - bucket.lastAt) * call.refillPerSec) := by
  simp only [TakeCall.refilled]
  split
  · next above => exact (min_eq_left (le_of_lt above)).symm
  · next within => exact (min_eq_right (not_lt.mp within)).symm

theorem seconds_of_wholeMs (nowMs lastMs : Int) :
    seconds (nowMs * 1000000 - lastMs * 1000000) = ((nowMs - lastMs : Int) : ℚ) / 1000 := by
  simp only [seconds]
  push_cast
  ring

/-- A bucket that was left for its time to live is full again. -/
theorem refilled_of_lapsed {tokens : ℚ} {lastMs : Int} (nonneg : 0 ≤ tokens)
    (capacityPos : 0 < call.capacity) (refillPos : 0 < call.refillPerSec)
    (inRange : 2 * (call.capacity / call.refillPerSec) * 1000 < 2 ^ 63)
    (wholeMs : call.now = call.now.unixMilli * 1000000)
    (passed : lastMs + ttlMs outOfRange call.capacity call.refillPerSec ≤ call.now.unixMilli) :
    call.refilled ⟨tokens, lastMs * 1000000, call.capacity, call.refillPerSec⟩ =
      call.capacity := by
  rw [refilled_eq_min, min_eq_left]
  have full := capacity_le_ttlMs_refill outOfRange capacityPos refillPos inRange
  have elapsed : (ttlMs outOfRange call.capacity call.refillPerSec : ℚ) ≤
      ((call.now.unixMilli - lastMs : Int) : ℚ) := by
    exact_mod_cast le_sub_iff_add_le'.mpr passed
  calc
    call.capacity ≤ (ttlMs outOfRange call.capacity call.refillPerSec : ℚ) / 1000 *
        call.refillPerSec := full
    _ ≤ ((call.now.unixMilli - lastMs : Int) : ℚ) / 1000 * call.refillPerSec := by gcongr
    _ = seconds (call.now - lastMs * 1000000) * call.refillPerSec := by
      rw [← seconds_of_wholeMs, ← wholeMs]
    _ ≤ _ := le_add_of_nonneg_left nonneg

/-- Both limiters compute the same level for a call. -/
theorem tokenBucketLevel_eq_refilled {held : Option Bucket} {buckets : Keyspace BucketHash}
    (same : SameBucket outOfRange call.capacity call.refillPerSec now held (buckets call.key))
    (keeps : ∀ deadline instant, expiry deadline instant = true → deadline ≤ instant)
    (capacityPos : 0 < call.capacity) (refillPos : 0 < call.refillPerSec)
    (inRange : 2 * (call.capacity / call.refillPerSec) * 1000 < 2 ^ 63)
    (wholeMs : call.now = call.now.unixMilli * 1000000) :
    tokenBucketLevel (buckets.read expiry call.now.unixMilli call.key) call.capacity
        call.refillPerSec call.now.unixMilli =
      call.refilled (call.bucket held) := by
  generalize entry : buckets call.key = stored at same
  cases same with
  | unused =>
      rw [Keyspace.read_of_none entry, refilled_eq_min]
      simp [tokenBucketLevel, TakeCall.bucket, seconds]
  | @used tokens lastMs nonneg past =>
      rw [Keyspace.read_of_some entry]
      by_cases gone : Stored.lapsed expiry call.now.unixMilli
          ⟨(⟨tokens, lastMs, call.capacity, call.refillPerSec⟩ : BucketHash),
            some (lastMs + ttlMs outOfRange call.capacity call.refillPerSec)⟩
      · -- The key has expired: the script starts from a full bucket.
        have passed := keeps _ _ (by simpa [Stored.lapsed] using gone)
        rw [if_pos gone]
        refine Eq.trans ?_
          (refilled_of_lapsed nonneg capacityPos refillPos inRange wholeMs passed).symm
        simp [tokenBucketLevel]
      · rw [if_neg gone, refilled_eq_min]
        simp only [tokenBucketLevel, Option.map_some, Option.getD_some, TakeCall.bucket]
        rw [← seconds_of_wholeMs, ← wholeMs]

end Level

section Agreement

variable {expiry : Expiry} {outOfRange : ℚ → Int} {capacity refill : String → ℚ}

/-- The answer of the script and the level that it stores, from the level that it computes. -/
theorem RedisLimiter.take_eq (limiter : RedisLimiter) (call : TakeCall) {level : ℚ}
    (computed : tokenBucketLevel (limiter.buckets.read expiry call.now.unixMilli call.key)
      call.capacity call.refillPerSec call.now.unixMilli = level) :
    let left := if level < call.n then level else level - call.n
    limiter.take expiry outOfRange call =
      (⟨¬ level < call.n, left⟩,
        ⟨limiter.buckets.write call.key
          ⟨⟨left, call.now.unixMilli, call.capacity, call.refillPerSec⟩,
            some (call.now.unixMilli + ttlMs outOfRange call.capacity call.refillPerSec)⟩⟩) := by
  by_cases short : level < call.n
  · simp [take, tokenBucket, computed, short, not_le.mpr short]
  · simp [take, tokenBucket, computed, short, not_lt.mp short]

theorem MemoryLimiter.take_eq (limiter : MemoryLimiter) (call : TakeCall) :
    let level := call.refilled (call.bucket (limiter.buckets call.key))
    let left := if level < call.n then level else level - call.n
    limiter.take call =
      (⟨¬ level < call.n, left⟩,
        ⟨Function.update limiter.buckets call.key
          (some ⟨left, call.now, call.capacity, call.refillPerSec⟩)⟩) := by
  by_cases short : call.refilled (call.bucket (limiter.buckets call.key)) < call.n
  · simp [take, TakeCall.serve, short]
  · simp [take, TakeCall.serve, short]

/-- A bucket that is not negative does not become so when the clock does not go back. -/
theorem refilled_nonneg {call : TakeCall} {now : Time} {held : Option Bucket}
    {stored : Option (Stored BucketHash)}
    (same : SameBucket outOfRange call.capacity call.refillPerSec now held stored)
    (later : now ≤ call.now) (capacityPos : 0 < call.capacity)
    (refillPos : 0 < call.refillPerSec) : 0 ≤ call.refilled (call.bucket held) := by
  rw [refilled_eq_min, le_min_iff]
  refine ⟨le_of_lt capacityPos, ?_⟩
  cases same with
  | unused => simpa [TakeCall.bucket, seconds] using le_of_lt capacityPos
  | @used tokens lastMs nonneg past =>
      have elapsed : 0 ≤ seconds (call.now - lastMs * 1000000) := by
        have : (0 : ℚ) ≤ ((call.now - lastMs * 1000000 : Int) : ℚ) := by
          exact_mod_cast sub_nonneg.mpr (past.trans later)
        unfold seconds
        positivity
      exact add_nonneg nonneg (mul_nonneg elapsed (le_of_lt refillPos))

/-- What a call leaves is the same bucket in both limiters. -/
theorem SameBucket.left {call : TakeCall} {level : ℚ} (nonneg : 0 ≤ level)
    (wholeMs : call.now = call.now.unixMilli * 1000000) :
    let left := if level < call.n then level else level - call.n
    SameBucket outOfRange call.capacity call.refillPerSec call.now
      (some ⟨left, call.now, call.capacity, call.refillPerSec⟩)
      (some ⟨⟨left, call.now.unixMilli, call.capacity, call.refillPerSec⟩,
        some (call.now.unixMilli + ttlMs outOfRange call.capacity call.refillPerSec)⟩) := by
  intro left
  have nonneg : 0 ≤ left := by
    dsimp only [left]
    split
    · exact nonneg
    · next covered => exact sub_nonneg.mpr (not_lt.mp covered)
  have stored : SameBucket outOfRange call.capacity call.refillPerSec call.now
      (some ⟨left, call.now.unixMilli * 1000000, call.capacity, call.refillPerSec⟩) _ :=
    .used nonneg (le_of_eq wholeMs.symm)
  rw [← wholeMs] at stored
  exact stored

/-- The two limiters take the same step. -/
theorem sameBuckets_simulates
    (keeps : ∀ deadline now, expiry deadline now = true → deadline ≤ now)
    (capacityPos : ∀ key, 0 < capacity key) (refillPos : ∀ key, 0 < refill key)
    (inRange : ∀ key, 2 * (capacity key / refill key) * 1000 < 2 ^ 63) :
    Simulates TakeCall.now (Steady capacity refill) (SameBuckets outOfRange capacity refill)
      MemoryLimiter.take (RedisLimiter.take expiry outOfRange) := by
  have level : ∀ {now memory redis call}, SameBuckets outOfRange capacity refill now memory redis →
      Steady capacity refill call →
      tokenBucketLevel (redis.buckets.read expiry call.now.unixMilli call.key) call.capacity
          call.refillPerSec call.now.unixMilli =
        call.refilled (call.bucket (memory.buckets call.key)) := by
    intro now memory redis call same steady
    have bucket := same call.key
    rw [← steady.capacity, ← steady.refill] at bucket
    apply tokenBucketLevel_eq_refilled bucket keeps _ _ _ steady.wholeMs
    · exact steady.capacity ▸ capacityPos call.key
    · exact steady.refill ▸ refillPos call.key
    · rw [steady.capacity, steady.refill]
      exact inRange call.key
  constructor
  · intro now memory redis call same later steady
    rw [MemoryLimiter.take_eq, RedisLimiter.take_eq redis call (level same steady)]
  · intro now memory redis call same later steady key
    rw [MemoryLimiter.take_eq, RedisLimiter.take_eq redis call (level same steady)]
    by_cases this : key = call.key
    · subst this
      have bucket := same call.key
      rw [← steady.capacity, ← steady.refill] at bucket
      have nonneg := refilled_nonneg bucket later (steady.capacity ▸ capacityPos call.key)
        (steady.refill ▸ refillPos call.key)
      simp only [Function.update_self, Keyspace.write_self]
      rw [← steady.capacity, ← steady.refill]
      exact SameBucket.left nonneg steady.wholeMs
    · simp only [Function.update_of_ne this, Keyspace.write_of_ne _ _ this]
      exact (same key).later later

/-- `RedisLimiter` answers every call as `MemoryLimiter` does.  Nothing is asked of the expiry
but that no key is dropped before its time to live has passed. -/
theorem redisLimiter_agrees (capacity refill : String → ℚ) (capacityPos : ∀ key, 0 < capacity key)
    (refillPos : ∀ key, 0 < refill key)
    (inRange : ∀ key, 2 * (capacity key / refill key) * 1000 < 2 ^ 63) (expiry : Expiry)
    (keeps : ∀ deadline now, expiry deadline now = true → deadline ≤ now)
    (outOfRange : ℚ → Int) (calls : List TakeCall)
    (steady : ∀ call ∈ calls, Steady capacity refill call)
    (ordered : (calls.map TakeCall.now).Pairwise (· ≤ ·)) :
    answers (RedisLimiter.take expiry outOfRange) .new calls =
      answers MemoryLimiter.take .new calls := by
  have simulates : Simulates TakeCall.now (Steady capacity refill)
      (SameBuckets outOfRange capacity refill) MemoryLimiter.take
      (RedisLimiter.take expiry outOfRange) :=
    sameBuckets_simulates keeps capacityPos refillPos inRange
  exact (simulates.answers_eq steady ordered fun _ _ => .unused).symm

end Agreement

/-- Ten tokens at two a second, so the key lives for ten seconds: it is refilled in part for the
second call and has expired before the third. -/
def burstCalls : List TakeCall :=
  [⟨1000000, "rl:agent", 10, 2, 8⟩, ⟨3000000000, "rl:agent", 10, 2, 6⟩,
    ⟨20000000000, "rl:agent", 10, 2, 9⟩]

theorem redisLimiter_agrees_burstCalls :
    answers (RedisLimiter.take strictly fun _ => -2 ^ 63) .new burstCalls =
      answers MemoryLimiter.take .new burstCalls := by
  refine redisLimiter_agrees (fun _ => 10) (fun _ => 2) (by simp) (by simp) ?_ strictly ?_ _
    burstCalls ?_ ?_
  · norm_num
  · intro deadline now passed
    exact le_of_lt (of_decide_eq_true passed)
  · intro call membership
    simp only [burstCalls, List.mem_cons, List.not_mem_nil, or_false] at membership
    rcases membership with rfl | rfl | rfl
    all_goals exact ⟨rfl, rfl, rfl⟩
  · simp [burstCalls]

end GitScale.RateLimit
