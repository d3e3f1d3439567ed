import Mathlib.Data.Int.Log
import Mathlib.Data.Rat.Floor
import Mathlib.Tactic.FieldSimp
import Mathlib.Tactic.Linarith
import Mathlib.Tactic.NormNum
import Mathlib.Tactic.Positivity
import Mathlib.Tactic.Ring

/-!
# Magnitudes of `float64`

A `float64` without its sign is given by its lower 63 bits, which grow with its value, and
rounding is to the nearest such value, to the even one of two that are equally near.
-/

namespace GitScale.Go

/-! ## Rounding to natural numbers -/

/-- The nearest natural number, and the even one of two. -/
def roundEven (value : Rat) : Nat :=
  if value - ⌊value⌋₊ < 1 / 2 ∨ (value - ⌊value⌋₊ = 1 / 2 ∧ ⌊value⌋₊ % 2 = 0) then ⌊value⌋₊
  else ⌊value⌋₊ + 1

@[simp] theorem roundEven_natCast (number : Nat) : roundEven (number : Rat) = number := by
  simp [roundEven]

theorem roundEven_eq_or (value : Rat) :
    roundEven value = ⌊value⌋₊ ∨ roundEven value = ⌊value⌋₊ + 1 := by
  unfold roundEven
  split_ifs
  · exact .inl rfl
  · exact .inr rfl

theorem le_roundEven {number : Nat} {value : Rat} (atLeast : (number : Rat) ≤ value) :
    number ≤ roundEven value := by
  have below : number ≤ ⌊value⌋₊ := Nat.le_floor atLeast
  rcases roundEven_eq_or value with same | same <;> omega

/-- An even number is missed only by what is more than half a unit below it. -/
theorem roundEven_lt_iff {number : Nat} {value : Rat} (nonnegative : 0 ≤ value)
    (even : number % 2 = 0) : roundEven value < number ↔ value < number - 1 / 2 := by
  have floor : (⌊value⌋₊ : Rat) ≤ value := Nat.floor_le nonnegative
  have ceiling : value < ⌊value⌋₊ + 1 := Nat.lt_floor_add_one value
  rcases Nat.lt_trichotomy (⌊value⌋₊ + 1) number with smaller | same | larger
  · -- Both neighbours are below the number.
    have gap : ((⌊value⌋₊ + 1 : Nat) : Rat) + 1 ≤ number := by exact_mod_cast smaller
    push_cast at gap
    have result : roundEven value < number := by
      rcases roundEven_eq_or value with same | same <;> omega
    constructor
    · intro _
      linarith
    · intro _
      exact result
  · have cast : (number : Rat) = ⌊value⌋₊ + 1 := by exact_mod_cast same.symm
    have odd : ¬ ⌊value⌋₊ % 2 = 0 := by omega
    unfold roundEven
    simp only [odd, and_false, or_false]
    split_ifs with near
    · constructor
      · intro _
        rw [cast]
        linarith
      · intro _
        omega
    · constructor
      · intro wrong
        omega
      · intro close
        rw [cast] at close
        exact absurd (by linarith) near
  · have gap : (number : Rat) ≤ ⌊value⌋₊ := by exact_mod_cast Nat.le_of_lt_succ larger
    constructor
    · intro wrong
      rcases roundEven_eq_or value with same | same <;> omega
    · intro wrong
      linarith

theorem roundEven_le {number : Nat} {value : Rat} (nonnegative : 0 ≤ value)
    (below : value < number) : roundEven value ≤ number := by
  have floor : ⌊value⌋₊ < number := (Nat.floor_lt nonnegative).mpr below
  rcases roundEven_eq_or value with same | same <;> omega

/-! ## Magnitudes -/

/-- The least bits that stand for no finite number. -/
def infinityBits : Nat := 2047 * 2 ^ 52

/-- The exponent field, counted from the first one of normal numbers; the smaller numbers
have the same spacing as these. -/
def binadeOf (bits : Nat) : Nat := bits / 2 ^ 52 - 1

/-- The distance of neighbours with the same exponent field. -/
def spacing (binade : Nat) : Rat := (2 : Rat) ^ ((binade : Int) - 1074)

/-- `math.Float64frombits` of bits without a sign. -/
def magnitude (bits : Nat) : Rat :=
  ((bits - binadeOf bits * 2 ^ 52 : Nat) : Rat) * spacing (binadeOf bits)

/-- The binade that a value lies in. -/
def binade (value : Rat) : Nat := (Int.log 2 value + 1022).toNat

/-- The bits of the nearest magnitude. -/
def nearest (value : Rat) : Nat :=
  if value = 0 then 0
  else binade value * 2 ^ 52 + roundEven (value / spacing (binade value))

theorem spacing_pos (binade : Nat) : 0 < spacing binade := zpow_pos (by norm_num) _

theorem magnitude_nonneg (bits : Nat) : 0 ≤ magnitude bits :=
  mul_nonneg (Nat.cast_nonneg _) (spacing_pos _).le

theorem pow_mul_spacing (exponent binade : Nat) :
    (2 : Rat) ^ exponent * spacing binade = (2 : Rat) ^ ((exponent : Int) + binade - 1074) := by
  rw [spacing, ← zpow_natCast, ← zpow_add₀ (by norm_num)]
  congr 1
  omega

/-- A value is below the end of its binade. -/
theorem lt_of_binade (value : Rat) : value < 2 ^ 53 * spacing (binade value) := by
  rw [pow_mul_spacing]
  refine (Int.lt_zpow_succ_log_self (b := 2) (by norm_num) value).trans_le ?_
  apply zpow_le_zpow_right₀ (by norm_num)
  unfold binade
  omega

/-- A value is at or above the start of its binade, if that is not the first one. -/
theorem le_of_binade {value : Rat} (positive : 0 < value) (later : 0 < binade value) :
    2 ^ 52 * spacing (binade value) ≤ value := by
  rw [pow_mul_spacing]
  refine le_trans ?_ (Int.zpow_log_le_self (b := 2) (by norm_num) positive)
  apply zpow_le_zpow_right₀ (by norm_num)
  unfold binade at later ⊢
  omega

/-- The binade of a number of units. -/
theorem binade_units {units exponent : Nat} (positive : 0 < units) (below : units < 2 ^ 53)
    (normal : exponent = 0 ∨ 2 ^ 52 ≤ units) :
    binade (units * spacing exponent) = exponent := by
  have step := spacing_pos exponent
  have value : (0 : Rat) < units * spacing exponent := by positivity
  have upper : (units : Rat) * spacing exponent < (2 : Rat) ^ ((exponent : Int) - 1021) := by
    have end53 := pow_mul_spacing 53 exponent
    have same : ((53 : Nat) : Int) + exponent - 1074 = (exponent : Int) - 1021 := by omega
    rw [same] at end53
    rw [← end53]
    exact mul_lt_mul_of_pos_right (by exact_mod_cast below) step
  have logUpper := (Int.lt_zpow_iff_log_lt (b := 2) (by norm_num) value).mp
    (by rwa [Nat.cast_ofNat])
  rcases normal with rfl | large
  · unfold binade
    omega
  · have lower : (2 : Rat) ^ ((exponent : Int) - 1022) ≤ units * spacing exponent := by
      have start := pow_mul_spacing 52 exponent
      have same : ((52 : Nat) : Int) + exponent - 1074 = (exponent : Int) - 1022 := by omega
      rw [same] at start
      rw [← start]
      exact mul_le_mul_of_nonneg_right (by exact_mod_cast large) step.le
    have logLower := (Int.zpow_le_iff_le_log (b := 2) (by norm_num) value).mp
      (by rwa [Nat.cast_ofNat])
    unfold binade
    omega

/-- Each magnitude is rounded to itself. -/
theorem nearest_magnitude (bits : Nat) : nearest (magnitude bits) = bits := by
  by_cases zero : bits = 0
  · subst zero
    simp [nearest, magnitude]
  · have step := spacing_pos (binadeOf bits)
    have positive : 0 < bits - binadeOf bits * 2 ^ 52 := by
      unfold binadeOf
      omega
    have below : bits - binadeOf bits * 2 ^ 52 < 2 ^ 53 := by
      unfold binadeOf
      omega
    have normal : binadeOf bits = 0 ∨ 2 ^ 52 ≤ bits - binadeOf bits * 2 ^ 52 := by
      unfold binadeOf
      omega
    have value : magnitude bits ≠ 0 := by
      unfold magnitude
      positivity
    rw [nearest, if_neg value, magnitude, binade_units positive below normal,
      mul_div_assoc, div_self step.ne', mul_one, roundEven_natCast]
    unfold binadeOf
    omega

/-- The least value out of range, half a spacing beyond the largest finite number. -/
def outOfRange : Rat := (2 ^ 54 - 1) * 2 ^ 970

theorem two_pow_add (exponent : Nat) :
    (2 : Rat) ^ (exponent + 970) = 2 ^ exponent * 2 ^ 970 := pow_add 2 exponent 970

/-- Before the last binade every value is in range and is rounded to a finite number: the end of
an earlier binade is at most the start of the last one. -/
theorem in_range_of_binade_lt {value : Rat} (nonnegative : 0 ≤ value)
    (smaller : binade value < 2045) :
    binade value * 2 ^ 52 + roundEven (value / spacing (binade value)) < infinityBits ∧
      value < outOfRange := by
  have unit : (0 : Rat) < 2 ^ 970 := by positivity
  have step := spacing_pos (binade value)
  have upper := lt_of_binade value
  have rounded : roundEven (value / spacing (binade value)) ≤ 2 ^ 53 := by
    apply roundEven_le (div_nonneg nonnegative step.le)
    rw [div_lt_iff₀ step]
    exact_mod_cast upper
  have bound : (2 : Rat) ^ 53 * spacing (binade value) ≤ 2 ^ (53 + 970) := by
    rw [pow_mul_spacing, ← zpow_natCast]
    apply zpow_le_zpow_right₀ (by norm_num)
    omega
  rw [two_pow_add] at bound
  rw [infinityBits, outOfRange]
  constructor
  · omega
  · generalize (2 : Rat) ^ 970 = power at unit bound ⊢
    linarith

/-- In the last binade a value is rounded to a finite number up to half a spacing beyond the
largest one. -/
theorem roundEven_lt_iff_of_last {value : Rat} (nonnegative : 0 ≤ value)
    (last : binade value = 2045) :
    roundEven (value / spacing (binade value)) < 2 ^ 53 ↔ value < outOfRange := by
  have unit : (0 : Rat) < 2 ^ 970 := by positivity
  have units : 0 ≤ value / spacing (binade value) :=
    div_nonneg nonnegative (spacing_pos (binade value)).le
  have size : spacing (binade value) = 2 ^ (1 + 970) := by
    rw [last, spacing, ← zpow_natCast]
    norm_num
  have even : (2 ^ 53 : Nat) % 2 = 0 := by norm_num
  have same : (((2 ^ 53 : Nat) : Rat) - 1 / 2) * (2 ^ 1 * 2 ^ 970) = outOfRange := by
    rw [outOfRange, ← mul_assoc]
    norm_num
  rw [roundEven_lt_iff units even, size, two_pow_add,
    div_lt_iff₀ (mul_pos (by norm_num) unit), same]

/-- After the last binade no value is in range and none is rounded to a finite number. -/
theorem out_of_range_of_lt_binade {value : Rat} (positive : 0 < value)
    (larger : 2045 < binade value) :
    infinityBits ≤ binade value * 2 ^ 52 + roundEven (value / spacing (binade value)) ∧
      outOfRange ≤ value := by
  have unit : (0 : Rat) < 2 ^ 970 := by positivity
  have step := spacing_pos (binade value)
  have lower := le_of_binade positive (by omega)
  have bound : (2 : Rat) ^ (54 + 970) ≤ 2 ^ 52 * spacing (binade value) := by
    rw [pow_mul_spacing, ← zpow_natCast]
    apply zpow_le_zpow_right₀ (by norm_num)
    omega
  have rounded : 2 ^ 52 ≤ roundEven (value / spacing (binade value)) := by
    apply le_roundEven
    rw [le_div_iff₀ step]
    exact_mod_cast lower
  rw [two_pow_add] at bound
  rw [infinityBits, outOfRange]
  constructor
  · omega
  · generalize (2 : Rat) ^ 970 = power at unit bound ⊢
    linarith

/-- The values that are rounded to a finite number. -/
theorem nearest_lt_infinityBits_iff {value : Rat} (nonnegative : 0 ≤ value) :
    nearest value < infinityBits ↔ value < outOfRange := by
  by_cases zero : value = 0
  · subst zero
    have range : (0 : Rat) < outOfRange := mul_pos (by norm_num) (by positivity)
    simp [nearest, infinityBits, range]
  have positive : 0 < value := lt_of_le_of_ne nonnegative (Ne.symm zero)
  rw [nearest, if_neg zero]
  rcases Nat.lt_trichotomy (binade value) 2045 with smaller | last | larger
  · have within := in_range_of_binade_lt nonnegative smaller
    exact iff_of_true within.1 within.2
  · rw [← roundEven_lt_iff_of_last nonnegative last, infinityBits]
    omega
  · have beyond := out_of_range_of_lt_binade positive larger
    exact iff_of_false (Nat.not_lt.mpr beyond.1) (not_lt.mpr beyond.2)

/-! ## Arithmetic -/

theorem nearest_zero : nearest 0 = 0 := by simp [nearest]

theorem magnitude_zero : magnitude 0 = 0 := by simp [magnitude]

/-- What is at least the least positive number is not rounded to zero. -/
theorem nearest_ne_zero {value : Rat} (atLeast : spacing 0 ≤ value) : nearest value ≠ 0 := by
  have step := spacing_pos 0
  have positive : value ≠ 0 := (lt_of_lt_of_le step atLeast).ne'
  rw [nearest, if_neg positive]
  intro zero
  have first : binade value = 0 := by omega
  have unit : ((1 : Nat) : Rat) ≤ value / spacing 0 := by
    rw [Nat.cast_one, one_le_div step]
    exact atLeast
  have rounded := le_roundEven unit
  rw [first] at zero
  omega

/-- What is beyond the first binade is rounded to a normal number. -/
theorem pow_le_nearest {value : Rat} (normal : 2 ^ 53 * spacing 0 ≤ value) :
    2 ^ 52 ≤ nearest value := by
  have step := spacing_pos 0
  have positive : value ≠ 0 := by
    intro zero
    rw [zero] at normal
    nlinarith
  have later : binade value ≠ 0 := by
    intro first
    have upper := lt_of_binade value
    rw [first] at upper
    exact absurd normal (not_le.mpr upper)
  rw [nearest, if_neg positive]
  have factor : 1 ≤ binade value := Nat.one_le_iff_ne_zero.mpr later
  omega

theorem le_magnitude {bits : Nat} (normal : 2 ^ 52 ≤ bits) : 2 ^ 52 * spacing 0 ≤ magnitude bits := by
  have significand : 2 ^ 52 ≤ bits - binadeOf bits * 2 ^ 52 := by
    unfold binadeOf
    omega
  have wider : spacing 0 ≤ spacing (binadeOf bits) := by
    apply zpow_le_zpow_right₀ (by norm_num)
    omega
  unfold magnitude
  apply mul_le_mul
  · exact_mod_cast significand
  · exact wider
  · exact (spacing_pos 0).le
  · exact Nat.cast_nonneg _

/-- A `float64`: its sign and its lower 63 bits. -/
structure Float64 where
  negative : Bool
  bits : Nat
  deriving DecidableEq, Repr

namespace Float64

def isNaN (number : Float64) : Bool := infinityBits < number.bits

/-- The place of a number among the others; both zeros have the same. -/
def rank (number : Float64) : Int := if number.negative then -number.bits else number.bits

/-- `first <= second`, which is false if one of them is no number. -/
def le (first second : Float64) : Bool :=
  !first.isNaN && !second.isNaN && first.rank ≤ second.rank

/-- `0.0`. -/
def zero : Float64 := ⟨false, 0⟩

/-- `float64(value)`. -/
def ofInt64 (value : Int64) : Float64 := ⟨decide (value < 0), nearest |(value.toInt : Rat)|⟩

/-- `1.0`. -/
def one : Float64 := ⟨false, 1023 * 2 ^ 52⟩

/-- The quotient of a finite number by a positive constant that a `float64` holds exactly. -/
def divConst (dividend : Float64) (divisor : Nat) : Float64 :=
  ⟨dividend.negative, nearest (magnitude dividend.bits / divisor)⟩

/-- The product of two finite numbers, if it is in range. -/
def mul (first second : Float64) : Float64 :=
  ⟨first.negative != second.negative, nearest (magnitude first.bits * magnitude second.bits)⟩

/-- Only zero becomes zero, also after a division. -/
theorem divConst_ofInt64_bits_eq_zero_iff {value : Int64} {divisor : Nat} (positive : 0 < divisor)
    (small : divisor ≤ 2 ^ 52) : ((ofInt64 value).divConst divisor).bits = 0 ↔ value = 0 := by
  constructor
  · intro vanishes
    by_contra nonzero
    have size : (1 : Rat) ≤ |(value.toInt : Rat)| := by
      have different : value.toInt ≠ 0 := fun same => nonzero (Int64.toInt_inj.mp same)
      exact_mod_cast Int.one_le_abs different
    have normal : 2 ^ 53 * spacing 0 ≤ |(value.toInt : Rat)| := by
      refine le_trans ?_ size
      rw [pow_mul_spacing]
      exact zpow_le_one_of_nonpos₀ (by norm_num) (by norm_num)
    have lower := le_magnitude (pow_le_nearest normal)
    have quotient : spacing 0 ≤ magnitude (nearest |(value.toInt : Rat)|) / divisor := by
      have cast : (0 : Rat) < divisor := by exact_mod_cast positive
      rw [le_div_iff₀ cast]
      have limit : (divisor : Rat) ≤ 2 ^ 52 := by exact_mod_cast small
      have step := spacing_pos 0
      nlinarith
    exact nearest_ne_zero quotient vanishes
  · rintro rfl
    have none : (ofInt64 0).bits = 0 := by simp [ofInt64, nearest_zero]
    rw [divConst, none, magnitude_zero, zero_div, nearest_zero]

end Float64

end GitScale.Go
