import GitScale.RateLimit.RedisLimiter

/-!
# The quota of a bucket in Redis

What a bucket grants is covered by its capacity and the refill since the first call, provided that
the server does not drop the key while the bucket is still refilling: a dropped bucket starts
again full.  The time to live is twice the time of a full refill, but a fixed minute for a bucket
without refill, which never refills.
-/

namespace GitScale.RateLimit

open Redis

/-- A call on one bucket. -/
structure OnBucket (key : String) (capacity refill : ℚ) (call : TakeCall) : Prop where
  key : call.key = key
  capacity : call.capacity = capacity
  refill : call.refillPerSec = refill
  amount : 0 ≤ call.n

/-- Serve a sequence of calls and keep each with its answer. -/
def RedisLimiter.takes (expiry : Expiry) (outOfRange : ℚ → Int) (limiter : RedisLimiter) :
    List TakeCall → List (TakeCall × Answer)
  | [] => []
  | call :: rest =>
      (call, (limiter.take expiry outOfRange call).1) ::
        (limiter.take expiry outOfRange call).2.takes expiry outOfRange rest

/-- Whatever the calls on the bucket up to some call, they are granted no more than the capacity
and the refill of the time between the first and the last of them. -/
def KeepsQuota (outOfRange : ℚ → Int) (key : String) (capacity refill : ℚ) : Prop :=
  ∀ (first : TakeCall) (rest : List TakeCall),
    (∀ call ∈ first :: rest, OnBucket key capacity refill call) →
    ((first :: rest).map fun call => call.now.unixMilli).Pairwise (· ≤ ·) →
    granted (RedisLimiter.new.takes strictly outOfRange (first :: rest)) ≤
      capacity +
        refill * (((rest.getLastD first).now.unixMilli - first.now.unixMilli : Int) / 1000)

/-- The bucket refills, and the time of two full refills fits into an `int64` of milliseconds; if
it does not, what the machine makes of it has to leave time for one refill. -/
def RefillsInTime (outOfRange : ℚ → Int) (capacity refill : ℚ) : Prop :=
  0 < refill ∧ (2 * (capacity / refill) * 1000 < 2 ^ 63 ∨
    capacity ≤
      ((max 1000 (outOfRange (2 * (capacity / refill) * 1000)) + 1 : Int) : ℚ) / 1000 * refill)

section Bucket

variable {outOfRange : ℚ → Int} {key : String} {capacity refill : ℚ}

/-- A key lives for at least a second. -/
theorem le_ttlMs (outOfRange : ℚ → Int) (capacity refill : ℚ) :
    1000 ≤ ttlMs outOfRange capacity refill := by
  rw [ttlMs]
  generalize (if refill > 0 then toInt64 outOfRange (2 * (capacity / refill) * 1000)
    else 60000) = ttl
  split
  · exact le_refl _
  · next long => exact not_lt.mp long

theorem ttlMs_of_outOfRange (refillPos : 0 < refill)
    (beyond : ¬ 2 * (capacity / refill) * 1000 < 2 ^ 63) :
    ttlMs outOfRange capacity refill = max 1000 (outOfRange (2 * (capacity / refill) * 1000)) := by
  have converted : toInt64 outOfRange (2 * (capacity / refill) * 1000) =
      outOfRange (2 * (capacity / refill) * 1000) :=
    if_neg fun within => beyond within.2
  rw [ttlMs, if_pos refillPos, converted]
  rcases lt_or_ge (outOfRange (2 * (capacity / refill) * 1000)) 1000 with short | long
  · rw [if_pos short, max_eq_left (le_of_lt short)]
  · rw [if_neg (not_lt.mpr long), max_eq_right long]

/-- A key that the server has dropped belongs to a bucket that would be full by then. -/
theorem refillsInTime_iff (capacityPos : 0 < capacity) (refillNonneg : 0 ≤ refill) :
    RefillsInTime outOfRange capacity refill ↔
      capacity ≤ ((ttlMs outOfRange capacity refill + 1 : Int) : ℚ) / 1000 * refill := by
  constructor
  · rintro ⟨refillPos, fits | long⟩
    · have full := capacity_le_ttlMs_refill outOfRange capacityPos refillPos fits
      refine le_trans full ?_
      gcongr
      exact le_of_lt (Int.lt_succ _)
    · by_cases fits : 2 * (capacity / refill) * 1000 < 2 ^ 63
      · have full := capacity_le_ttlMs_refill outOfRange capacityPos refillPos fits
        refine le_trans full ?_
        gcongr
        exact le_of_lt (Int.lt_succ _)
      · rw [ttlMs_of_outOfRange refillPos fits]
        exact long
  · intro covered
    rcases eq_or_lt_of_le refillNonneg with rfl | refillPos
    · rw [mul_zero] at covered
      exact absurd covered (not_le.mpr capacityPos)
    · refine ⟨refillPos, ?_⟩
      by_cases fits : 2 * (capacity / refill) * 1000 < 2 ^ 63
      · exact .inl fits
      · rw [ttlMs_of_outOfRange refillPos fits] at covered
        exact .inr covered

/-! ## One call -/

/-- What the key holds after some calls: a level that is not negative and, with what has been
spent, covered by the capacity and the refill since the first call. -/
structure Charged (outOfRange : ℚ → Int) (capacity refill : ℚ) (firstMs : Int) (spent : ℚ)
    (tokens : ℚ) (lastMs : Int) (stored : Option (Stored BucketHash)) : Prop where
  stored_eq : stored = some ⟨⟨tokens, lastMs, capacity, refill⟩,
    some (lastMs + ttlMs outOfRange capacity refill)⟩
  nonneg : 0 ≤ tokens
  potential : spent + tokens ≤ capacity + refill * ((lastMs - firstMs : Int) / 1000)

/-- The level that the script computes, whether or not the key has been dropped. -/
theorem Charged.level_bounds {firstMs lastMs nowMs : Int} {spent tokens : ℚ}
    {buckets : Keyspace BucketHash}
    (charged : Charged outOfRange capacity refill firstMs spent tokens lastMs (buckets key))
    (capacityPos : 0 < capacity) (refillNonneg : 0 ≤ refill)
    (refills : RefillsInTime outOfRange capacity refill) (later : lastMs ≤ nowMs) :
    0 ≤ tokenBucketLevel (buckets.read strictly nowMs key) capacity refill nowMs ∧
      tokenBucketLevel (buckets.read strictly nowMs key) capacity refill nowMs ≤
        tokens + ((nowMs - lastMs : Int) : ℚ) / 1000 * refill := by
  have elapsed : (0 : ℚ) ≤ ((nowMs - lastMs : Int) : ℚ) / 1000 * refill := by
    have : (0 : ℚ) ≤ ((nowMs - lastMs : Int) : ℚ) := by exact_mod_cast sub_nonneg.mpr later
    positivity
  have nonneg := charged.nonneg
  rw [Keyspace.read_of_some charged.stored_eq]
  split
  · next gone =>
      -- The bucket starts again full, and would have refilled by now.
      have passed : lastMs + ttlMs outOfRange capacity refill < nowMs := by
        simpa [Stored.lapsed, strictly] using gone
      have waited : ((ttlMs outOfRange capacity refill + 1 : Int) : ℚ) ≤
          ((nowMs - lastMs : Int) : ℚ) := by
        exact_mod_cast (by omega : ttlMs outOfRange capacity refill + 1 ≤ nowMs - lastMs)
      have covered := (refillsInTime_iff capacityPos refillNonneg).mp refills
      have full : capacity ≤ ((nowMs - lastMs : Int) : ℚ) / 1000 * refill := by
        refine le_trans covered ?_
        gcongr
      simp only [tokenBucketLevel, Option.map_none, Option.getD_none, sub_self, Int.cast_zero,
        zero_div, zero_mul, add_zero, min_self]
      exact ⟨le_of_lt capacityPos, by linarith⟩
  · simp only [tokenBucketLevel, Option.map_some, Option.getD_some]
    exact ⟨le_min (le_of_lt capacityPos) (by linarith), min_le_right _ _⟩

/-- What a call leaves of a level, and what it grants of it. -/
theorem RedisLimiter.take_spec (outOfRange : ℚ → Int) (limiter : RedisLimiter) {call : TakeCall}
    (onBucket : OnBucket key capacity refill call) {level : ℚ} (nonneg : 0 ≤ level)
    (computed : tokenBucketLevel (limiter.buckets.read strictly call.now.unixMilli key)
      capacity refill call.now.unixMilli = level) :
    ((limiter.take strictly outOfRange call).1.granted = true ↔ call.n ≤ level) ∧
      ∃ left, 0 ≤ left ∧
        (if (limiter.take strictly outOfRange call).1.granted then call.n else 0) + left =
          level ∧
        (limiter.take strictly outOfRange call).2.buckets key =
          some ⟨⟨left, call.now.unixMilli, capacity, refill⟩,
            some (call.now.unixMilli + ttlMs outOfRange capacity refill)⟩ := by
  rcases onBucket with ⟨rfl, rfl, rfl, -⟩
  rw [RedisLimiter.take_eq limiter call computed]
  refine ⟨by simp, _, ?_, ?_, Keyspace.write_self _ _ _⟩
  · split
    · exact nonneg
    · next covered => exact sub_nonneg.mpr (not_lt.mp covered)
  · by_cases short : level < call.n
    · simp [short]
    · simp [short]

theorem Charged.take {firstMs lastMs : Int} {spent tokens : ℚ} {limiter : RedisLimiter}
    {call : TakeCall}
    (charged : Charged outOfRange capacity refill firstMs spent tokens lastMs
      (limiter.buckets key))
    (capacityPos : 0 < capacity) (refillNonneg : 0 ≤ refill)
    (refills : RefillsInTime outOfRange capacity refill)
    (onBucket : OnBucket key capacity refill call) (later : lastMs ≤ call.now.unixMilli) :
    ∃ left, Charged outOfRange capacity refill firstMs
      (spent + if (limiter.take strictly outOfRange call).1.granted then call.n else 0) left
      call.now.unixMilli ((limiter.take strictly outOfRange call).2.buckets key) := by
  obtain ⟨nonneg, atMost⟩ := charged.level_bounds capacityPos refillNonneg refills later
  obtain ⟨-, left, leftNonneg, level, stored⟩ := limiter.take_spec outOfRange onBucket nonneg rfl
  refine ⟨left, stored, leftNonneg, ?_⟩
  have potential := charged.potential
  push_cast at atMost potential ⊢
  linarith

/-! ## Every sequence of calls -/

theorem Charged.granted_le {firstMs : Int} {calls : List TakeCall} (capacityPos : 0 < capacity)
    (refillNonneg : 0 ≤ refill) (refills : RefillsInTime outOfRange capacity refill)
    (onBucket : ∀ call ∈ calls, OnBucket key capacity refill call) {previous : TakeCall}
    (ordered : ((previous :: calls).map fun call => call.now.unixMilli).Pairwise (· ≤ ·))
    {spent tokens : ℚ} {limiter : RedisLimiter}
    (charged : Charged outOfRange capacity refill firstMs spent tokens previous.now.unixMilli
      (limiter.buckets key)) :
    spent + granted (limiter.takes strictly outOfRange calls) ≤
      capacity +
        refill * (((calls.getLastD previous).now.unixMilli - firstMs : Int) / 1000) := by
  induction calls generalizing previous spent tokens limiter with
  | nil =>
      have potential := charged.potential
      have nonneg := charged.nonneg
      simp only [RedisLimiter.takes, granted_nil, List.getLastD_nil]
      linarith
  | cons call rest inductionHypothesis =>
      rw [List.map_cons, List.pairwise_cons] at ordered
      have later := ordered.1 call.now.unixMilli List.mem_cons_self
      obtain ⟨left, next⟩ := charged.take capacityPos refillNonneg refills
        (onBucket call List.mem_cons_self) later
      have bound := inductionHypothesis
        (fun call membership => onBucket call (List.mem_cons_of_mem _ membership)) ordered.2 next
      simp only [RedisLimiter.takes, granted_cons, List.getLastD_cons]
      linarith

/-- A bucket that no call has used is full. -/
theorem tokenBucketLevel_new (nowMs : Int) :
    tokenBucketLevel (RedisLimiter.new.buckets.read strictly nowMs key) capacity refill nowMs =
      capacity := by
  simp [Keyspace.read_of_none, RedisLimiter.new, tokenBucketLevel]

theorem keepsQuota_of_refillsInTime (capacityPos : 0 < capacity) (refillNonneg : 0 ≤ refill)
    (refills : RefillsInTime outOfRange capacity refill) :
    KeepsQuota outOfRange key capacity refill := by
  intro first rest onBucket ordered
  obtain ⟨-, left, nonneg, level, stored⟩ := RedisLimiter.new.take_spec outOfRange
    (onBucket first List.mem_cons_self) (le_of_lt capacityPos) (tokenBucketLevel_new _)
  have charged : Charged outOfRange capacity refill first.now.unixMilli
      (if (RedisLimiter.new.take strictly outOfRange first).1.granted then first.n else 0) left
      first.now.unixMilli ((RedisLimiter.new.take strictly outOfRange first).2.buckets key) :=
    ⟨stored, nonneg, by simp [level]⟩
  exact charged.granted_le capacityPos refillNonneg refills
    (fun call membership => onBucket call (List.mem_cons_of_mem _ membership)) ordered

end Bucket

/-! ## A key that is dropped too early -/

section Drain

variable (outOfRange : ℚ → Int) (key : String) {capacity refill : ℚ}

/-- A call for everything. -/
def drain (key : String) (capacity refill : ℚ) (nowMs : Int) : TakeCall :=
  ⟨nowMs * 1000000, key, capacity, refill, capacity⟩

theorem unixMilli_drain (nowMs : Int) : (drain key capacity refill nowMs).now.unixMilli = nowMs :=
  Int.mul_ediv_cancel _ (by decide)

/-- A bucket can be drained again as soon as the server has dropped its key. -/
theorem granted_drain_twice (capacityPos : 0 < capacity) :
    granted (RedisLimiter.new.takes strictly outOfRange
      [drain key capacity refill 0,
        drain key capacity refill (ttlMs outOfRange capacity refill + 1)]) =
      capacity + capacity := by
  have onBucket (nowMs : Int) :
      OnBucket key capacity refill (drain key capacity refill nowMs) :=
    ⟨rfl, rfl, rfl, le_of_lt capacityPos⟩
  obtain ⟨first, left, -, -, stored⟩ := RedisLimiter.new.take_spec outOfRange (onBucket 0)
    (le_of_lt capacityPos) (tokenBucketLevel_new _)
  rw [unixMilli_drain, zero_add] at stored
  have gone : Stored.lapsed strictly (ttlMs outOfRange capacity refill + 1)
      (⟨⟨left, 0, capacity, refill⟩, some (ttlMs outOfRange capacity refill)⟩ :
        Stored BucketHash) = true := by
    simp [Stored.lapsed, strictly]
  have level : tokenBucketLevel
      ((RedisLimiter.new.take strictly outOfRange
        (drain key capacity refill 0)).2.buckets.read strictly
        (drain key capacity refill (ttlMs outOfRange capacity refill + 1)).now.unixMilli key)
      capacity refill
      (drain key capacity refill (ttlMs outOfRange capacity refill + 1)).now.unixMilli =
      capacity := by
    rw [unixMilli_drain, Keyspace.read_of_some stored, if_pos gone]
    simp [tokenBucketLevel]
  have second := (RedisLimiter.take_spec outOfRange _ (onBucket _) (le_of_lt capacityPos) level).1
  simp only [RedisLimiter.takes, granted_cons, granted_nil, first.mpr (le_refl _),
    second.mpr (le_refl _), if_true, add_zero]
  rfl

theorem refillsInTime_of_keepsQuota (capacityPos : 0 < capacity) (refillNonneg : 0 ≤ refill)
    (keeps : KeepsQuota outOfRange key capacity refill) :
    RefillsInTime outOfRange capacity refill := by
  have bound := keeps (drain key capacity refill 0)
    [drain key capacity refill (ttlMs outOfRange capacity refill + 1)]
    (fun call member => ?_) ?_
  · rw [granted_drain_twice outOfRange key capacityPos] at bound
    simp only [List.getLastD_cons, List.getLastD_nil, unixMilli_drain, sub_zero] at bound
    rw [refillsInTime_iff capacityPos refillNonneg]
    linarith
  · simp only [List.mem_cons, List.not_mem_nil, or_false] at member
    rcases member with rfl | rfl
    all_goals exact ⟨rfl, rfl, rfl, le_of_lt capacityPos⟩
  · have long := le_ttlMs outOfRange capacity refill
    have later : 0 ≤ ttlMs outOfRange capacity refill + 1 := by omega
    simpa [unixMilli_drain] using later

/-- The quota holds for a bucket that refills, and only for such a one. -/
theorem keepsQuota_iff (capacityPos : 0 < capacity) (refillNonneg : 0 ≤ refill) :
    KeepsQuota outOfRange key capacity refill ↔ RefillsInTime outOfRange capacity refill :=
  ⟨refillsInTime_of_keepsQuota outOfRange key capacityPos refillNonneg,
    keepsQuota_of_refillsInTime capacityPos refillNonneg⟩

end Drain

/-- Ten tokens at two a second: two refills take ten seconds. -/
theorem keepsQuota_iff_agent :
    KeepsQuota (fun _ => -2 ^ 63) "rl:agent" 10 2 ∧ RefillsInTime (fun _ => -2 ^ 63) 10 2 := by
  have refills : RefillsInTime (fun _ => -2 ^ 63) 10 2 := ⟨by norm_num, .inl (by norm_num)⟩
  exact ⟨(keepsQuota_iff (fun _ => -2 ^ 63) "rl:agent" (by norm_num) (by norm_num)).mpr refills,
    refills⟩

/-- A bucket of one token without refill grants it again after a minute. -/
theorem minute_refills_nothing :
    ¬ ∀ (outOfRange : ℚ → Int) (key : String) (capacity refill : ℚ), 0 < capacity → 0 ≤ refill →
      KeepsQuota outOfRange key capacity refill := by
  intro always
  have keeps := always (fun _ => -2 ^ 63) "rl:agent" 1 0 (by norm_num) (le_refl _)
  have refills := refillsInTime_of_keepsQuota _ _ (by norm_num) (le_refl _) keeps
  exact lt_irrefl _ refills.1

end GitScale.RateLimit
