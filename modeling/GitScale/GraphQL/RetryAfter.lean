import GitScale.GraphQL.CostMeter

/-!
# The hint of a denied charge

A denied charge names the seconds after which to try again: the time in which an empty bucket
refills by the amount asked for.  The bucket holds no more than its capacity, so an amount above
the capacity is denied then as well.
-/

namespace GitScale.GraphQL.Cost

open RateLimit

/-- The tokens that `Charge` asks for. -/
def amount (tokens : Int64) : Int := (if tokens < 1 then 1 else tokens : Int64).toInt

/-- The level of the bucket of a caller at `now`, after the refill. -/
def levelAt (params : BucketParams) (caller : Caller) (now : Time) (limiter : MemoryLimiter) : ℚ :=
  let call := chargeCall params caller 1 now
  call.refilled (call.bucket (limiter.buckets caller.bucketKey))

/-- The charge is granted when it is made again at least `seconds` later, if nothing else
touched the bucket. -/
def RetryGranted (params : BucketParams) (caller : Caller) (tokens : Int64) (now : Time)
    (seconds : Int) (limiter : MemoryLimiter) : Prop :=
  ∀ (later : Time) (untouched : MemoryLimiter), now + seconds * 1000000000 ≤ later →
    untouched.buckets caller.bucketKey = limiter.buckets caller.bucketKey →
    (charge params caller tokens later untouched).1 = none

section Retry

variable {params : BucketParams} {caller : Caller} {tokens : Int64} {now : Time}
  {limiter : MemoryLimiter}

theorem amount_pos (tokens : Int64) : 0 < amount tokens := by
  unfold amount
  split
  · decide
  · rename_i enough
    have least := Int64.le_iff_toInt_le.mp (Int64.not_lt.mp enough)
    exact Int.lt_of_lt_of_le (by decide) least

/-- `Charge` grants what the level covers, and else leaves the refilled bucket. -/
theorem charge_spec (capacity : 0 < params.capacity caller.kind) (tokens : Int64) (now : Time)
    (limiter : MemoryLimiter) :
    ((amount tokens : ℚ) ≤ levelAt params caller now limiter →
        (charge params caller tokens now limiter).1 = none) ∧
      (¬ (amount tokens : ℚ) ≤ levelAt params caller now limiter →
        (charge params caller tokens now limiter).1 =
            some (retrySeconds (params.refill caller.kind)
              (if tokens < 1 then 1 else tokens)) ∧
          (charge params caller tokens now limiter).2.buckets caller.bucketKey =
            some ⟨levelAt params caller now limiter, now, params.capacity caller.kind,
              params.refill caller.kind⟩) := by
  obtain ⟨granted, bucket⟩ := take_bucket limiter (chargeCall params caller tokens now)
  have level : (chargeCall params caller tokens now).refilled
      ((chargeCall params caller tokens now).bucket
        (limiter.buckets (chargeCall params caller tokens now).key)) =
      levelAt params caller now limiter := rfl
  have asked : (chargeCall params caller tokens now).n = amount tokens := rfl
  rw [level, asked] at granted bucket
  unfold charge
  rw [if_neg (not_le.mpr capacity)]
  dsimp only
  rw [granted]
  constructor
  · intro covered
    rw [if_pos (decide_eq_true covered)]
  · intro short
    rw [if_neg (by simpa using short)]
    rw [if_neg short, sub_zero] at bucket
    exact ⟨rfl, bucket⟩

/-- The hint is the time of the refill, rounded up. -/
theorem retrySeconds_eq (refill : 0 < params.refill caller.kind) (tokens : Int64) :
    retrySeconds (params.refill caller.kind) (if tokens < 1 then 1 else tokens) =
      ⌈(amount tokens : ℚ) / params.refill caller.kind⌉ := by
  have positive : 0 < ⌈(amount tokens : ℚ) / params.refill caller.kind⌉ :=
    Int.ceil_pos.mpr (div_pos (Int.cast_pos.mpr (amount_pos tokens)) refill)
  unfold retrySeconds
  rw [if_neg (not_le.mpr refill)]
  exact if_neg (by unfold amount at positive; omega)

/-- The level of a bucket that nobody touched since `now`. -/
theorem levelAt_untouched {level : ℚ} (later : Time)
    (bucket : limiter.buckets caller.bucketKey =
      some ⟨level, now, params.capacity caller.kind, params.refill caller.kind⟩) :
    levelAt params caller later limiter =
      min (level + seconds (later - now) * params.refill caller.kind)
        (params.capacity caller.kind) := by
  unfold levelAt TakeCall.refilled TakeCall.bucket
  rw [bucket]
  dsimp only [Option.getD_some, chargeCall]
  rw [min_def]
  split
  · rename_i above
    rw [if_neg (not_le.mpr above)]
  · rename_i within
    rw [if_pos (not_lt.mp within)]

/-- A bucket that is not overdrawn makes up for the amount in the seconds of the hint. -/
theorem amount_le_refilled (refill : 0 < params.refill caller.kind)
    (level : 0 ≤ levelAt params caller now limiter) :
    (amount tokens : ℚ) ≤ levelAt params caller now limiter +
      ⌈(amount tokens : ℚ) / params.refill caller.kind⌉ * params.refill caller.kind := by
  have rounded := Int.le_ceil ((amount tokens : ℚ) / params.refill caller.kind)
  rw [div_le_iff₀ refill] at rounded
  linarith

/-- A denied charge can be made after the seconds that it names if and only if the capacity
holds its amount and the level at the denial is no further below zero than the rounding of the
seconds makes up for. -/
theorem retryGranted_iff_covered (params : BucketParams) (caller : Caller) (tokens : Int64) (now : Time)
    (limiter : MemoryLimiter) (capacity : 0 < params.capacity caller.kind)
    (refill : 0 < params.refill caller.kind) (retryAfter : Int)
    (denied : (charge params caller tokens now limiter).1 = some retryAfter) :
    RetryGranted params caller tokens now retryAfter
        (charge params caller tokens now limiter).2 ↔
      (amount tokens : ℚ) ≤ params.capacity caller.kind ∧
        (amount tokens : ℚ) ≤ levelAt params caller now limiter +
          ⌈(amount tokens : ℚ) / params.refill caller.kind⌉ * params.refill caller.kind := by
  have spec := charge_spec capacity tokens now limiter
  have short : ¬ (amount tokens : ℚ) ≤ levelAt params caller now limiter := by
    intro covered
    cases denied.symm.trans (spec.1 covered)
  obtain ⟨answered, bucket⟩ := spec.2 short
  have named : retryAfter = ⌈(amount tokens : ℚ) / params.refill caller.kind⌉ := by
    rw [retrySeconds_eq refill] at answered
    exact Option.some.inj (denied.symm.trans answered)
  rw [← named]
  constructor
  · intro granted
    have now_granted := granted (now + retryAfter * 1000000000)
      (charge params caller tokens now limiter).2 (le_refl _) rfl
    have elapsed : seconds (now + retryAfter * 1000000000 - now) = retryAfter := by
      simp [seconds]
    have level := levelAt_untouched (now + retryAfter * 1000000000) bucket
    rw [elapsed] at level
    have covered : (amount tokens : ℚ) ≤ levelAt params caller
        (now + retryAfter * 1000000000) (charge params caller tokens now limiter).2 := by
      by_contra uncovered
      have refused := ((charge_spec capacity tokens _ _).2 uncovered).1
      cases now_granted.symm.trans refused
    rw [level, le_min_iff] at covered
    exact ⟨covered.2, covered.1⟩
  · rintro ⟨holds, refills⟩ later untouched waited same
    apply (charge_spec capacity tokens later untouched).1
    rw [levelAt_untouched later (same.trans bucket), le_min_iff]
    refine ⟨refills.trans ?_, holds⟩
    have enough : (retryAfter : ℚ) ≤ seconds (later - now) := by
      unfold seconds
      rw [le_div_iff₀ (by norm_num)]
      exact_mod_cast Int.le_sub_left_of_add_le waited
    have more := mul_le_mul_of_nonneg_right enough refill.le
    linarith

end Retry

/-- The hint of a denied charge is sound if and only if the capacity holds the amount and the
bucket is not too far overdrawn.  A bucket is overdrawn only after its clock went back; for one
that is not, the capacity alone decides. -/
theorem retryAfter_sound_iff (params : BucketParams) (caller : Caller) (tokens : Int64)
    (now : Time) (limiter : MemoryLimiter) (capacity : 0 < params.capacity caller.kind)
    (refill : 0 < params.refill caller.kind) (retryAfter : Int)
    (denied : (charge params caller tokens now limiter).1 = some retryAfter) :
    (RetryGranted params caller tokens now retryAfter
          (charge params caller tokens now limiter).2 ↔
        (amount tokens : ℚ) ≤ params.capacity caller.kind ∧
          (amount tokens : ℚ) ≤ levelAt params caller now limiter +
            ⌈(amount tokens : ℚ) / params.refill caller.kind⌉ * params.refill caller.kind) ∧
      (0 ≤ levelAt params caller now limiter →
        (RetryGranted params caller tokens now retryAfter
            (charge params caller tokens now limiter).2 ↔
          (amount tokens : ℚ) ≤ params.capacity caller.kind)) := by
  have covered := retryGranted_iff_covered params caller tokens now limiter capacity refill
    retryAfter denied
  refine ⟨covered, ?_⟩
  intro level
  rw [covered]
  exact and_iff_left (amount_le_refilled refill level)

/-- Ten tokens that refill at two a second, of which one is left. -/
def oneOfTen : MemoryLimiter := ⟨fun _ => some ⟨1, 0, 10, 2⟩⟩

theorem retryAfter_sound_iff_oneOfTen :
    (charge ⟨10, 2, 10, 2⟩ ⟨.agent, 7⟩ 5 0 oneOfTen).1 = some 3 ∧
      RetryGranted ⟨10, 2, 10, 2⟩ ⟨.agent, 7⟩ 5 0 3
        (charge ⟨10, 2, 10, 2⟩ ⟨.agent, 7⟩ 5 0 oneOfTen).2 := by
  have denied : (charge ⟨10, 2, 10, 2⟩ ⟨.agent, 7⟩ 5 0 oneOfTen).1 = some 3 := by
    decide +kernel
  refine ⟨denied, ?_⟩
  exact ((retryAfter_sound_iff ⟨10, 2, 10, 2⟩ ⟨.agent, 7⟩ 5 0 oneOfTen (by decide) (by decide) 3
    denied).2 (by decide +kernel)).mpr (by decide +kernel)

/-- The query `{viewer{id}}`, which costs two tokens. -/
def viewerQuery (now : Time) : QueryRequest :=
  ⟨"\x7bviewer\x7bid\x7d\x7d".toUTF8.toList, "", [], false, now⟩

/-- A bucket of one token, which refills in a second: the query is accepted, it is told to come
back after two seconds, and the charge is denied then. -/
theorem retryAfter_beyondCapacity :
    ((viewerQuery 0).analysis .standard prober).error = none ∧
      (viewerQuery 0).tokens .standard prober = 2 ∧
      (charge ⟨1, 1, 1, 1⟩ prober 2 0 .new).1 = some 2 ∧
      ¬ RetryGranted ⟨1, 1, 1, 1⟩ prober 2 0 2 (charge ⟨1, 1, 1, 1⟩ prober 2 0 .new).2 := by
  have evaluated : ((viewerQuery 0).analysis .standard prober).error = none ∧
      (viewerQuery 0).tokens .standard prober = 2 ∧
      (charge ⟨1, 1, 1, 1⟩ prober 2 0 .new).1 = some 2 ∧
      (charge ⟨1, 1, 1, 1⟩ prober 2 2000000000 (charge ⟨1, 1, 1, 1⟩ prober 2 0 .new).2).1 =
        some 2 := by
    decide +kernel
  refine ⟨evaluated.1, evaluated.2.1, evaluated.2.2.1, ?_⟩
  intro granted
  have later := granted 2000000000 (charge ⟨1, 1, 1, 1⟩ prober 2 0 .new).2 (by decide) rfl
  exact nomatch evaluated.2.2.2.symm.trans later

end GitScale.GraphQL.Cost
