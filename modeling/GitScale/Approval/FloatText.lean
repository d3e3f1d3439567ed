import GitScale.Approval.Audit
import GitScale.Foundation.Encoding
import GitScale.Go.Float64
import GitScale.GraphQL.JsonSyntax
import Mathlib.Data.List.TakeWhile
import Mathlib.Data.Nat.Digits.Lemmas

/-!
# The texts of numbers

`encoding/json` writes a `float64` with the fewest digits that are read back as the same
number.  So the text of a number determines its bits, the sign of a zero included.
-/

namespace GitScale.Approval

open Foundation Go GraphQL

/-! ## The shortest digits -/

/-- The value of the last of `more + 1` digits. -/
def lastUnit (value : Rat) (more : Nat) : Rat := (10 : Rat) ^ (Int.log 10 value - more)

/-- `roundShortest` at one length: of the numbers with `more + 1` digits on both sides of a
`float64`, the one that is read back, and the nearer one if both are. -/
def candidate (bits more : Nat) : Option Nat :=
  let unit := lastUnit (magnitude bits) more
  let below := ⌊magnitude bits / unit⌋₊
  if nearest (below * unit) = bits then
    if nearest ((below + 1 : Nat) * unit) = bits then some (roundEven (magnitude bits / unit))
    else some below
  else if nearest ((below + 1 : Nat) * unit) = bits then some (below + 1)
  else none

theorem nearest_candidate {bits more digits : Nat} (found : candidate bits more = some digits) :
    nearest (digits * lastUnit (magnitude bits) more) = bits := by
  unfold candidate at found
  dsimp only at found
  split_ifs at found with below above above
  · cases found
    rcases roundEven_eq_or (magnitude bits / lastUnit (magnitude bits) more) with same | same
    · rwa [same]
    · rwa [same]
  · cases found
    exact below
  · cases found
    exact above

/-- A `float64` is a whole number of the least decimal units. -/
theorem exists_units (bits : Nat) :
    ∃ units : Nat, magnitude bits = units * (10 : Rat) ^ (-1074 : Int) := by
  refine ⟨(bits - binadeOf bits * 2 ^ 52) * 2 ^ binadeOf bits * 5 ^ 1074, ?_⟩
  have fives : (5 : Rat) ^ 1074 * (5 : Rat) ^ (-1074 : Int) = 1 := by
    rw [← zpow_natCast, ← zpow_add₀ (by norm_num)]
    rfl
  have tens : (10 : Rat) ^ (-1074 : Int) = 2 ^ (-1074 : Int) * 5 ^ (-1074 : Int) := by
    rw [← mul_zpow]
    norm_num
  have twos : spacing (binadeOf bits) = 2 ^ binadeOf bits * (2 : Rat) ^ (-1074 : Int) := by
    rw [spacing, ← zpow_natCast, ← zpow_add₀ (by norm_num)]
    rfl
  have units : (((bits - binadeOf bits * 2 ^ 52) * 2 ^ binadeOf bits * 5 ^ 1074 : Nat) : Rat) =
      ((bits - binadeOf bits * 2 ^ 52 : Nat) : Rat) * 2 ^ binadeOf bits * 5 ^ 1074 := by
    simp only [Nat.cast_mul, Nat.cast_pow, Nat.cast_ofNat]
  rw [magnitude, units, twos, tens]
  generalize (2 : Rat) ^ (-1074 : Int) = two
  generalize (5 : Rat) ^ (-1074 : Int) = five at fives ⊢
  generalize (5 : Rat) ^ 1074 = power at fives ⊢
  generalize ((bits - binadeOf bits * 2 ^ 52 : Nat) : Rat) = number
  calc number * (2 ^ binadeOf bits * two)
      = number * 2 ^ binadeOf bits * two * (power * five) := by rw [fives]; ring
    _ = number * 2 ^ binadeOf bits * power * (two * five) := by ring

theorem log_magnitude (bits : Nat) : -1074 ≤ Int.log 10 (magnitude bits) := by
  obtain ⟨units, value⟩ := exists_units bits
  by_cases zero : magnitude bits = 0
  · rw [zero, Int.log_zero_right]
    norm_num
  · have positive : 0 < magnitude bits := lt_of_le_of_ne (magnitude_nonneg bits) (Ne.symm zero)
    have some : 1 ≤ units := by
      apply Nat.one_le_iff_ne_zero.mpr
      intro none
      rw [value, none] at zero
      exact zero (by simp)
    apply (Int.zpow_le_iff_le_log (b := 10) (by norm_num) positive).mp
    rw [value, Nat.cast_ofNat]
    exact le_mul_of_one_le_left (zpow_nonneg (by norm_num) _) (by exact_mod_cast some)

/-- All digits of a `float64` are enough. -/
theorem exists_candidate (bits : Nat) : ∃ more, (candidate bits more).isSome := by
  obtain ⟨units, value⟩ := exists_units bits
  have lowest := log_magnitude bits
  refine ⟨(Int.log 10 (magnitude bits) + 1074).toNat, ?_⟩
  have unit : lastUnit (magnitude bits) (Int.log 10 (magnitude bits) + 1074).toNat =
      (10 : Rat) ^ (-1074 : Int) := by
    unfold lastUnit
    congr 1
    omega
  have positive : (0 : Rat) < 10 ^ (-1074 : Int) := zpow_pos (by norm_num) _
  have floor : ⌊magnitude bits / (10 : Rat) ^ (-1074 : Int)⌋₊ = units := by
    rw [value, mul_div_assoc, div_self positive.ne', mul_one, Nat.floor_natCast]
  unfold candidate
  dsimp only
  rw [unit, floor, ← value, nearest_magnitude, if_pos rfl]
  split_ifs <;> rfl

/-- The number of digits after the first. -/
def shortestLength (bits : Nat) : Nat := Nat.find (exists_candidate bits)

/-- The shortest digits, as a number. -/
def shortestDigits (bits : Nat) : Nat :=
  (candidate bits (shortestLength bits)).get (Nat.find_spec (exists_candidate bits))

/-- The value of the last of the shortest digits, as an exponent of ten. -/
def shortestExponent (bits : Nat) : Int :=
  Int.log 10 (magnitude bits) - shortestLength bits

theorem nearest_shortest (bits : Nat) :
    nearest (shortestDigits bits * (10 : Rat) ^ shortestExponent bits) = bits :=
  nearest_candidate (Option.some_get _).symm

/-! ## Digits as text -/

def digitText (digit : Nat) : UInt8 := UInt8.ofNat (48 + digit)

theorem digitText_spec {digit : Nat} (small : digit < 10) :
    (digitText digit).toNat - 48 = digit ∧ isDigit (digitText digit) = true ∧
      (digitText digit = byte '0' → digit = 0) := by
  have table : ∀ digit : Fin 10, (digitText digit).toNat - 48 = digit ∧
      isDigit (digitText digit) = true ∧ (digitText digit = byte '0' → digit.val = 0) := by
    decide
  exact table ⟨digit, small⟩

/-- Digits, the last one first, as a text. -/
def digitsText (digits : List Nat) : Text := digits.reverse.map digitText

theorem foldl_digits (digits : Text) (total : Nat) :
    digits.foldl (fun total digit => 10 * total + (digit.toNat - 48)) total =
      total * 10 ^ digits.length + digitsValue digits := by
  induction digits generalizing total with
  | nil => simp [digitsValue]
  | cons digit digits inductionHypothesis =>
      have value : digitsValue (digit :: digits) =
          (10 * 0 + (digit.toNat - 48)) * 10 ^ digits.length + digitsValue digits :=
        inductionHypothesis _
      rw [List.foldl_cons, inductionHypothesis, value, List.length_cons, pow_succ]
      ring

theorem digitsValue_append (front back : Text) :
    digitsValue (front ++ back) = digitsValue front * 10 ^ back.length + digitsValue back := by
  rw [digitsValue, List.foldl_append, foldl_digits]
  rfl

theorem digitsValue_digitsText {digits : List Nat} (small : ∀ digit ∈ digits, digit < 10) :
    digitsValue (digitsText digits) = Nat.ofDigits 10 digits := by
  induction digits with
  | nil => rfl
  | cons digit digits inductionHypothesis =>
      have first := digitText_spec (small digit List.mem_cons_self)
      have others := inductionHypothesis fun digit later =>
        small digit (List.mem_cons_of_mem _ later)
      have split : digitsText (digit :: digits) = digitsText digits ++ [digitText digit] := by
        simp [digitsText]
      have last : digitsValue [digitText digit] = digit := by
        simpa [digitsValue] using first.1
      rw [split, digitsValue_append, others, last, Nat.ofDigits_cons]
      simp
      ring

theorem all_isDigit_digitsText {digits : List Nat} (small : ∀ digit ∈ digits, digit < 10) :
    (digitsText digits).all isDigit = true := by
  rw [List.all_eq_true]
  intro value member
  simp only [digitsText, List.mem_map, List.mem_reverse] at member
  obtain ⟨digit, inside, rfl⟩ := member
  exact (digitText_spec (small digit inside)).2.1

theorem digitsValue_zeros (count : Nat) : digitsValue (List.replicate count (byte '0')) = 0 := by
  induction count with
  | zero => rfl
  | succ count inductionHypothesis => 
      rw [List.replicate_succ', digitsValue_append, inductionHypothesis]
      decide

/-- `decimalSlice`: digits without zeros at either end, and the place of the point, counted from the
first of them. -/
structure DecimalSlice where
  digits : Text
  point : Int

/-- The digits of a number without the zeros at the end, the last one first. -/
def significant (number : Nat) : List Nat := (Nat.digits 10 number).dropWhile (· = 0)

/-- `%e` and `%f` with the shortest digits. -/
def shortest (bits : Nat) : DecimalSlice where
  digits := digitsText (significant (shortestDigits bits))
  point := (Nat.digits 10 (shortestDigits bits)).length + shortestExponent bits

def DecimalSlice.value (slice : DecimalSlice) : Rat :=
  digitsValue slice.digits * (10 : Rat) ^ (slice.point - slice.digits.length)

theorem significant_small (number : Nat) : ∀ digit ∈ significant number, digit < 10 := by
  intro digit member
  exact Nat.digits_lt_base (by norm_num) ((List.dropWhile_sublist _).mem member)

/-- The zeros at the end are a power of ten. -/
theorem significant_value (number : Nat) :
    Nat.ofDigits 10 (significant number) *
      10 ^ ((Nat.digits 10 number).length - (significant number).length) = number := by
  have split := List.takeWhile_append_dropWhile (p := (· = 0)) (l := Nat.digits 10 number)
  have zeros : (Nat.digits 10 number).takeWhile (· = 0) =
      List.replicate ((Nat.digits 10 number).takeWhile (· = 0)).length 0 := by
    rw [List.eq_replicate_iff]
    refine ⟨rfl, ?_⟩
    intro digit member
    simpa using List.mem_takeWhile_imp member
  have lengths := congrArg List.length split
  rw [List.length_append] at lengths
  have count : (Nat.digits 10 number).length - (significant number).length =
      ((Nat.digits 10 number).takeWhile (· = 0)).length := by
    unfold significant
    omega
  rw [count]
  conv_rhs => rw [← Nat.ofDigits_digits 10 number, ← split, Nat.ofDigits_append]
  rw [zeros, Nat.ofDigits_replicate_zero, List.length_replicate, zero_add, mul_comm]
  rfl

theorem significant_length (number : Nat) :
    (significant number).length ≤ (Nat.digits 10 number).length :=
  (List.dropWhile_sublist _).length_le

/-- The first digit of a number is not zero. -/
theorem significant_first {number : Nat} (positive : number ≠ 0) :
    ∃ first others, digitsText (significant number) = first :: others ∧ first ≠ byte '0' := by
  have small := significant_small number
  have nonempty : significant number ≠ [] := by
    intro empty
    have value := significant_value number
    rw [empty, Nat.ofDigits_nil, zero_mul] at value
    exact positive value.symm
  have last : (significant number).getLast nonempty ≠ 0 := by
    have digits : Nat.digits 10 number ≠ [] := Nat.digits_ne_nil_iff_ne_zero.mpr positive
    have same : (significant number).getLast nonempty = (Nat.digits 10 number).getLast digits :=
      List.IsSuffix.getLast (List.dropWhile_suffix _) nonempty
    rw [same]
    exact Nat.getLast_digit_ne_zero 10 positive
  refine ⟨digitText ((significant number).getLast nonempty),
    (significant number).dropLast.reverse.map digitText, ?_, ?_⟩
  · unfold digitsText
    conv_lhs => rw [← List.dropLast_append_getLast nonempty]
    simp
  · intro zero
    exact last ((digitText_spec (small _ (List.getLast_mem nonempty))).2.2 zero)

theorem shortest_value (bits : Nat) :
    (shortest bits).value = shortestDigits bits * (10 : Rat) ^ shortestExponent bits := by
  have value := significant_value (shortestDigits bits)
  have lengths := significant_length (shortestDigits bits)
  have length : (digitsText (significant (shortestDigits bits))).length =
      (significant (shortestDigits bits)).length := by simp [digitsText]
  unfold DecimalSlice.value shortest
  dsimp only
  rw [length, digitsValue_digitsText (significant_small _)]
  conv_rhs => rw [← value]
  rw [Nat.cast_mul, Nat.cast_pow, Nat.cast_ofNat, mul_assoc, ← zpow_natCast,
    ← zpow_add₀ (by norm_num)]
  congr 2
  omega

/-! ## The format -/

/-- `fmtF` with as many digits after the point as there are. -/
def fmtF (negative : Bool) (slice : DecimalSlice) : Numeral where
  negative := negative
  integer :=
    if 0 < slice.point then
      slice.digits.take slice.point.toNat ++
        List.replicate (slice.point.toNat - slice.digits.length) (byte '0')
    else [byte '0']
  fraction := List.replicate (-slice.point).toNat (byte '0') ++ slice.digits.drop slice.point.toNat
  exponent := none

/-- The digits of an exponent, at least two. -/
def exponentDigits (size : Nat) : Text :=
  if size < 10 then [byte '0', digitText size] else digitsText (Nat.digits 10 size)

/-- `floatEncoder` takes `e-09` to `e-9`. -/
def cleanUp : Text → Text
  | [first, second] => if first = byte '0' then [second] else [first, second]
  | digits => digits

/-- `fmtE` with the exponent as `floatEncoder` leaves it. -/
def fmtE (negative : Bool) (slice : DecimalSlice) : Numeral where
  negative := negative
  integer := [slice.digits.headD (byte '0')]
  fraction := slice.digits.tail
  exponent :=
    let size := if slice.digits = [] then 0 else slice.point - 1
    some ⟨byte 'e', some (if size < 0 then byte '-' else byte '+'),
      cleanUp (exponentDigits size.natAbs)⟩

/-- `floatEncoder` on a finite number; `1e-6` and `1e21` are themselves `float64`. -/
def floatNumeral (negative : Bool) (bits : Nat) : Numeral :=
  if bits ≠ 0 ∧ (bits < nearest ((10 : Rat) ^ (-6 : Int)) ∨ nearest (10 ^ 21) ≤ bits) then
    fmtE negative (shortest bits)
  else fmtF negative (shortest bits)

/-! ## Reading numbers back -/

/-- The exponent that a number is written with. -/
def exponentOf (numeral : Numeral) : Int := numeral.exponent.elim 0 Exponent.value

/-- The digits before and after the point make up one number. -/
theorem abs_value (numeral : Numeral) :
    |numeral.value| = digitsValue (numeral.integer ++ numeral.fraction) *
      (10 : Rat) ^ (exponentOf numeral - numeral.fraction.length) := by
  have power : (0 : Rat) < 10 ^ numeral.fraction.length := by positivity
  have scale : (0 : Rat) < (10 : Rat) ^ exponentOf numeral := zpow_pos (by norm_num) _
  have size : (digitsValue numeral.integer : Rat) +
      digitsValue numeral.fraction / (10 : Rat) ^ numeral.fraction.length =
        digitsValue (numeral.integer ++ numeral.fraction) / 10 ^ numeral.fraction.length := by
    rw [digitsValue_append, Nat.cast_add, Nat.cast_mul, Nat.cast_pow, Nat.cast_ofNat, add_div,
      mul_div_cancel_right₀ _ power.ne']
  have sign : |numeral.value| = |((digitsValue numeral.integer : Rat) +
      digitsValue numeral.fraction / (10 : Rat) ^ numeral.fraction.length) *
        (10 : Rat) ^ exponentOf numeral| := by
    unfold Numeral.value
    dsimp only
    cases numeral.negative with
    | true =>
        rw [if_pos rfl, neg_mul, abs_neg]
        rfl
    | false => rfl
  rw [sign, size, abs_of_nonneg (by positivity), zpow_sub₀ (by norm_num), zpow_natCast]
  ring

theorem fmtF_value (negative : Bool) (slice : DecimalSlice) :
    |(fmtF negative slice).value| = slice.value := by
  rw [abs_value]
  obtain ⟨digits, point⟩ := slice
  unfold DecimalSlice.value
  by_cases positive : 0 < point
  · have noZeros : (-point).toNat = 0 := by omega
    by_cases longer : digits.length ≤ point.toNat
    · have parts : (fmtF negative ⟨digits, point⟩).integer ++
          (fmtF negative ⟨digits, point⟩).fraction =
            digits ++ List.replicate (point.toNat - digits.length) (byte '0') := by
        simp [fmtF, positive, noZeros, List.take_of_length_le longer,
          List.drop_eq_nil_of_le longer]
      have short : (fmtF negative ⟨digits, point⟩).fraction.length = 0 := by
        simp [fmtF, noZeros, List.drop_eq_nil_of_le longer]
      rw [parts, short, digitsValue_append, digitsValue_zeros, List.length_replicate, add_zero,
        Nat.cast_mul, Nat.cast_pow, Nat.cast_ofNat, mul_assoc, ← zpow_natCast,
        ← zpow_add₀ (by norm_num)]
      congr 2
      simp only [exponentOf, fmtF, Option.elim]
      omega
    · have parts : (fmtF negative ⟨digits, point⟩).integer ++
          (fmtF negative ⟨digits, point⟩).fraction = digits := by
        have noPadding : point.toNat - digits.length = 0 := by omega
        simp [fmtF, positive, noZeros, noPadding]
      have short : (fmtF negative ⟨digits, point⟩).fraction.length =
          digits.length - point.toNat := by
        simp [fmtF, noZeros]
      rw [parts, short]
      congr 2
      simp only [exponentOf, fmtF, Option.elim]
      omega
  · have parts : (fmtF negative ⟨digits, point⟩).integer ++
        (fmtF negative ⟨digits, point⟩).fraction =
          List.replicate ((-point).toNat + 1) (byte '0') ++ digits := by
      have noDigits : point.toNat = 0 := by omega
      simp [fmtF, positive, noDigits, List.replicate_succ]
    have length : (fmtF negative ⟨digits, point⟩).fraction.length =
        (-point).toNat + digits.length := by
      have noDigits : point.toNat = 0 := by omega
      simp [fmtF, noDigits]
    rw [parts, length, digitsValue_append, digitsValue_zeros, zero_mul, zero_add]
    congr 2
    simp only [exponentOf, fmtF, Option.elim]
    omega

theorem digitsValue_cleanUp (digits : Text) :
    digitsValue (cleanUp digits) = digitsValue digits := by
  unfold cleanUp
  split
  next first second =>
    split_ifs with zero
    · rw [zero]
      have skipped : digitsValue ([byte '0'] ++ [second]) = digitsValue [second] := by
        rw [digitsValue_append]
        exact Nat.zero_add _
      exact skipped.symm
    · rfl
  next => rfl

theorem digitsValue_exponentDigits (size : Nat) : digitsValue (exponentDigits size) = size := by
  unfold exponentDigits
  split_ifs with small
  · have value : digitsValue [byte '0', digitText size] = (digitText size).toNat - 48 :=
      Nat.zero_add _
    rw [value, (digitText_spec small).1]
  · have digits : ∀ digit ∈ Nat.digits 10 size, digit < 10 := fun digit member =>
      Nat.digits_lt_base (by norm_num) member
    rw [digitsValue_digitsText digits, Nat.ofDigits_digits]

theorem fmtE_value (negative : Bool) (slice : DecimalSlice) :
    |(fmtE negative slice).value| = slice.value := by
  rw [abs_value]
  obtain ⟨digits, point⟩ := slice
  unfold DecimalSlice.value
  cases digits with
  | nil =>
      have zero : digitsValue ((fmtE negative ⟨[], point⟩).integer ++
          (fmtE negative ⟨[], point⟩).fraction) = 0 := by
        cases negative <;> rfl
      rw [zero]
      simp [digitsValue]
  | cons first others =>
      have exponent : exponentOf (fmtE negative ⟨first :: others, point⟩) = point - 1 := by
        simp only [exponentOf, fmtE, Option.elim, Exponent.value, digitsValue_cleanUp,
          digitsValue_exponentDigits, List.cons_ne_nil, if_false]
        by_cases below : point - 1 < 0
        · rw [if_pos below, if_pos rfl]
          omega
        · have different : some (byte '+') ≠ some (byte '-') := by decide
          rw [if_neg below, if_neg different]
          omega
      rw [exponent]
      congr 2
      simp only [fmtE, List.tail_cons, List.length_cons]
      omega

/-! ## Valid numbers -/

/-- Digits of which the first is not a zero, unless it stands after the point. -/
structure DecimalSlice.Proper (slice : DecimalSlice) : Prop where
  digits : slice.digits.all isDigit = true
  first : 0 < slice.point → ∃ first others, slice.digits = first :: others ∧ first ≠ byte '0'

theorem shortest_proper (bits : Nat) : (shortest bits).Proper := by
  refine ⟨all_isDigit_digitsText (significant_small _), ?_⟩
  intro positive
  apply significant_first
  intro zero
  have rounded := nearest_shortest bits
  rw [zero, Nat.cast_zero, zero_mul] at rounded
  have noBits : bits = 0 := rounded.symm
  have point : (shortest bits).point = -(shortestLength bits : Int) := by
    have noLog : Int.log 10 (magnitude bits) = 0 := by
      rw [noBits]
      simp [magnitude]
    simp [shortest, zero, shortestExponent, noLog]
  omega

theorem isInteger_of_first {first : UInt8} {others : Text} (nonzero : first ≠ byte '0')
    (digits : (first :: others).all isDigit = true) : isInteger (first :: others) = true := by
  rw [List.all_cons, Bool.and_eq_true] at digits
  cases others with
  | nil => exact digits.1
  | cons second others =>
      simp [isInteger, digits.1, digits.2, nonzero]

theorem all_isDigit_zeros (count : Nat) :
    (List.replicate count (byte '0')).all isDigit = true := by
  rw [List.all_replicate]
  split_ifs <;> rfl

theorem all_isDigit_take {digits : Text} (all : digits.all isDigit = true) (count : Nat) :
    (digits.take count).all isDigit = true := by
  rw [List.all_eq_true] at all ⊢
  exact fun value member => all value (List.mem_of_mem_take member)

theorem all_isDigit_drop {digits : Text} (all : digits.all isDigit = true) (count : Nat) :
    (digits.drop count).all isDigit = true := by
  rw [List.all_eq_true] at all ⊢
  exact fun value member => all value (List.mem_of_mem_drop member)

theorem fmtF_valid (negative : Bool) {slice : DecimalSlice} (proper : slice.Proper) :
    (fmtF negative slice).valid = true := by
  have integer : isInteger (fmtF negative slice).integer = true := by
    by_cases positive : 0 < slice.point
    · obtain ⟨first, others, digits, nonzero⟩ := proper.first positive
      have length : slice.point.toNat = (slice.point.toNat - 1) + 1 := by omega
      have parts : (fmtF negative slice).integer = first :: (others.take (slice.point.toNat - 1) ++
          List.replicate (slice.point.toNat - slice.digits.length) (byte '0')) := by
        simp only [fmtF, if_pos positive]
        rw [length, digits]
        simp
      have all := all_isDigit_take proper.digits slice.point.toNat
      rw [digits, length, List.take_succ_cons, List.all_cons, Bool.and_eq_true] at all
      rw [parts]
      apply isInteger_of_first nonzero
      rw [List.all_cons, List.all_append, all.1, all.2, all_isDigit_zeros]
      rfl
    · simp only [fmtF, if_neg positive]
      decide
  have fraction : (fmtF negative slice).fraction.all isDigit = true := by
    rw [fmtF, List.all_append, all_isDigit_zeros, all_isDigit_drop proper.digits]
    rfl
  rw [Numeral.valid, integer, fraction]
  rfl

theorem exponentDigits_spec (size : Nat) :
    exponentDigits size ≠ [] ∧ (exponentDigits size).all isDigit = true := by
  unfold exponentDigits
  split_ifs with small
  · refine ⟨List.cons_ne_nil _ _, ?_⟩
    rw [List.all_cons, List.all_cons, (digitText_spec small).2.1]
    decide
  · refine ⟨?_, all_isDigit_digitsText fun digit member =>
      Nat.digits_lt_base (by norm_num) member⟩
    have digits : Nat.digits 10 size ≠ [] := Nat.digits_ne_nil_iff_ne_zero.mpr (by omega)
    simpa [digitsText] using digits

theorem cleanUp_spec {digits : Text} (nonempty : digits ≠ []) (all : digits.all isDigit = true) :
    cleanUp digits ≠ [] ∧ (cleanUp digits).all isDigit = true := by
  unfold cleanUp
  split
  next first second =>
    split_ifs
    · rw [List.all_cons, Bool.and_eq_true] at all
      exact ⟨List.cons_ne_nil _ _, all.2⟩
    · exact ⟨nonempty, all⟩
  next => exact ⟨nonempty, all⟩

theorem fmtE_valid (negative : Bool) {slice : DecimalSlice} (proper : slice.Proper) :
    (fmtE negative slice).valid = true := by
  have integer : isInteger (fmtE negative slice).integer = true := by
    have digits := proper.digits
    unfold fmtE
    cases shape : slice.digits with
    | nil => rfl
    | cons first others =>
        rw [shape, List.all_cons, Bool.and_eq_true] at digits
        exact digits.1
  have fraction : (fmtE negative slice).fraction.all isDigit = true := by
    rw [fmtE, ← List.drop_one]
    exact all_isDigit_drop proper.digits 1
  have exponent : (fmtE negative slice).exponent.all Exponent.valid = true := by
    unfold fmtE
    dsimp only
    generalize (if slice.digits = [] then 0 else slice.point - 1) = size
    obtain ⟨some, digits⟩ := exponentDigits_spec size.natAbs
    obtain ⟨nonempty, all⟩ := cleanUp_spec some digits
    have isSign : isSign (if size < 0 then byte '-' else byte '+') = true := by
      split_ifs <;> decide
    have letter : isExponentLetter (byte 'e') = true := by decide
    simp [Exponent.valid, isSign, letter, nonempty, all]
  rw [Numeral.valid, integer, fraction, exponent]
  rfl

theorem floatNumeral_valid (negative : Bool) (bits : Nat) :
    (floatNumeral negative bits).valid = true := by
  unfold floatNumeral
  split_ifs
  · exact fmtE_valid negative (shortest_proper bits)
  · exact fmtF_valid negative (shortest_proper bits)

theorem floatNumeral_negative (negative : Bool) (bits : Nat) :
    (floatNumeral negative bits).negative = negative := by
  unfold floatNumeral
  split_ifs <;> rfl

theorem nearest_floatNumeral (negative : Bool) (bits : Nat) :
    nearest |(floatNumeral negative bits).value| = bits := by
  have value : |(floatNumeral negative bits).value| = (shortest bits).value := by
    unfold floatNumeral
    split_ifs
    · exact fmtE_value negative (shortest bits)
    · exact fmtF_value negative (shortest bits)
  rw [value, shortest_value, nearest_shortest]

/-! ## Bits -/

/-- `math.Float64bits` of a sign and a magnitude. -/
def floatBits (negative : Bool) (bits : Nat) : UInt64 :=
  UInt64.ofNat (if negative then 2 ^ 63 + bits else bits)

/-- The bits of the number nearest to a text. -/
def nearestBits (numeral : Numeral) : UInt64 :=
  floatBits numeral.negative (nearest |numeral.value|)

/-- `readFloat` adds no further digits to an exponent that has reached 10000. -/
def cutExponent (digits : Text) : Nat :=
  digits.foldl (fun total digit => if total < 10000 then 10 * total + (digit.toNat - 48) else total)
    0

/-- The exponent that `readFloat` takes. -/
def readExponentOf (numeral : Numeral) : Int :=
  numeral.exponent.elim 0 fun exponent =>
    if exponent.sign = some (byte '-') then -(cutExponent exponent.digits : Int)
    else cutExponent exponent.digits

/-- The magnitude that `readFloat` takes a text for. -/
def readMagnitude (numeral : Numeral) : Rat :=
  digitsValue (numeral.integer ++ numeral.fraction) *
    (10 : Rat) ^ (readExponentOf numeral - numeral.fraction.length)

/-- The bits of what `strconv.ParseFloat` returns in range. -/
def parsedBits (numeral : Numeral) : UInt64 :=
  floatBits numeral.negative (nearest (readMagnitude numeral))

/-- `strconv.ParseFloat(text, 64)`, which fails out of range. -/
def parseFloat (numeral : Numeral) : Option UInt64 :=
  if nearest (readMagnitude numeral) < infinityBits then some (parsedBits numeral) else none

theorem readMagnitude_nonneg (numeral : Numeral) : 0 ≤ readMagnitude numeral :=
  mul_nonneg (Nat.cast_nonneg _) (zpow_nonneg (by norm_num) _)

theorem cutExponent_eq {digits : Text} (short : digitsValue digits < 10000) :
    cutExponent digits = digitsValue digits := by
  induction digits using List.reverseRecOn with
  | nil => rfl
  | append_singleton front last inductionHypothesis =>
      have value : digitsValue (front ++ [last]) = 10 * digitsValue front + (last.toNat - 48) := by
        rw [digitsValue, List.foldl_append]
        rfl
      have cut : cutExponent (front ++ [last]) = if cutExponent front < 10000 then
          10 * cutExponent front + (last.toNat - 48) else cutExponent front := by
        rw [cutExponent, List.foldl_append]
        rfl
      have smaller : digitsValue front < 10000 := by omega
      rw [cut, inductionHypothesis smaller, if_pos smaller, value]

/-- An exponent below 10000 is read as it is. -/
theorem readMagnitude_eq {numeral : Numeral}
    (short : ∀ exponent ∈ numeral.exponent, digitsValue exponent.digits < 10000) :
    readMagnitude numeral = |numeral.value| := by
  have exponents : readExponentOf numeral = exponentOf numeral := by
    unfold readExponentOf exponentOf
    cases shape : numeral.exponent with
    | none => rfl
    | some exponent =>
        simp only [Option.elim, Exponent.value, cutExponent_eq (short exponent shape)]
  rw [readMagnitude, abs_value, exponents]

/-- The sign and the magnitude of a `float64`. -/
def signOf (number : UInt64) : Bool := decide (2 ^ 63 ≤ number.toNat)

def magnitudeBits (number : UInt64) : Nat := number.toNat % 2 ^ 63

/-- What `json.Marshal` writes for a finite `float64`. -/
def numberNumeral (number : UInt64) : Numeral :=
  floatNumeral (signOf number) (magnitudeBits number)

/-- `json.Marshal` of a `float64`. -/
def marshalNumber (number : UInt64) : Except String Bytes :=
  if magnitudeBits number < infinityBits then .ok (numberNumeral number).text
  else
    .error ("json: unsupported value: " ++
      if infinityBits < magnitudeBits number then "NaN"
      else if signOf number then "-Inf" else "+Inf")

theorem floatBits_split (number : UInt64) :
    floatBits (signOf number) (magnitudeBits number) = number := by
  have small := number.toNat_lt
  apply UInt64.toNat_inj.mp
  unfold floatBits signOf magnitudeBits
  rw [UInt64.toNat_ofNat']
  by_cases negative : 2 ^ 63 ≤ number.toNat
  · simp only [negative, decide_true, if_true]
    omega
  · simp only [negative, decide_false, Bool.false_eq_true, if_false]
    omega

theorem magnitudeBits_floatBits {negative : Bool} {bits : Nat} (small : bits < 2 ^ 63) :
    magnitudeBits (floatBits negative bits) = bits := by
  unfold magnitudeBits floatBits
  rw [UInt64.toNat_ofNat']
  cases negative with
  | true =>
      rw [if_pos rfl]
      omega
  | false =>
      rw [if_neg (by decide)]
      omega

/-- A number is read back from its text. -/
theorem nearestBits_numberNumeral (number : UInt64) :
    nearestBits (numberNumeral number) = number := by
  rw [nearestBits, numberNumeral, floatNumeral_negative, nearest_floatNumeral, floatBits_split]

/-- A number that is read can be written. -/
theorem marshalNumber_of_parseFloat {numeral : Numeral} {number : UInt64}
    (parsed : parseFloat numeral = some number) :
    marshalNumber number = .ok (numberNumeral number).text := by
  unfold parseFloat at parsed
  split_ifs at parsed with finite
  cases parsed
  have small : nearest (readMagnitude numeral) < 2 ^ 63 := by
    unfold infinityBits at finite
    omega
  have bits : magnitudeBits (parsedBits numeral) = nearest (readMagnitude numeral) :=
    magnitudeBits_floatBits small
  rw [marshalNumber, bits, if_pos finite]

/-! ## The text of a number -/

/-- A text that no number is continued by. -/
def EndsNumber (rest : Text) : Prop := ∀ value ∈ rest.head?, endsNumber value = true

theorem EndsNumber.notDigit {rest : Text} (ends : EndsNumber rest) :
    ∀ value ∈ rest.head?, isDigit value = false :=
  fun value head => (endsNumber_spec (ends value head)).1

theorem readExponent_text {exponent : Exponent} (valid : exponent.valid = true) {rest : Text}
    (ends : EndsNumber rest) :
    readExponent (exponent.text ++ rest) = some (some exponent) := by
  obtain ⟨letter, sign, digits⟩ := exponent
  simp only [Exponent.valid, Bool.and_eq_true, Bool.not_eq_true', List.isEmpty_eq_false_iff]
    at valid
  obtain ⟨⟨⟨isLetter, signed⟩, nonempty⟩, all⟩ := valid
  have taken := takeWhile_append_of_stop all ends.notDigit
  have found : ((sign.toList ++ digits) ++ rest).head?.filter isSign = sign := by
    cases sign with
    | some value =>
        have marked : isSign value = true := signed
        simp [marked]
    | none =>
        obtain ⟨first, others, rfl⟩ := List.exists_cons_of_ne_nil nonempty
        rw [List.all_cons, Bool.and_eq_true] at all
        have unsigned : ∀ value, isDigit value = true → isSign value = false :=
          forall_byte (by decide)
        simp [unsigned first all.1]
  unfold Exponent.text
  rw [List.cons_append]
  simp only [readExponent, isLetter, if_true]
  rw [found, List.append_assoc, List.drop_left, taken]
  rw [if_neg (by simpa using nonempty)]

theorem readNumeral_text {numeral : Numeral} (valid : numeral.valid = true) {rest : Text}
    (ends : EndsNumber rest) : readNumeral (numeral.text ++ rest) = some numeral := by
  obtain ⟨negative, integer, fraction, exponent⟩ := numeral
  rw [Numeral.text, List.append_assoc]
  cases exponent with
  | none =>
      exact readNumeral_mantissa (stopsDigits_of_endsNumber ends) (readExponent_eq_none ends) valid
  | some exponent =>
      have validExponent : exponent.valid = true := by
        rw [Numeral.valid, Bool.and_eq_true] at valid
        exact valid.2
      have stop : StopsDigits (exponent.text ++ rest) := by
        intro value head
        cases head
        have isLetter : isExponentLetter exponent.letter = true := by
          simp only [Exponent.valid, Bool.and_eq_true] at validExponent
          exact validExponent.1.1.1
        have letters : ∀ value, isExponentLetter value = true →
            isDigit value = false ∧ value ≠ byte '.' := forall_byte (by decide)
        exact letters _ isLetter
      exact readNumeral_mantissa stop (readExponent_text validExponent ends) valid

/-- The number at the start of a text, and what comes after it. -/
def readNumber (text : Text) : Option (UInt64 × Text) :=
  (readNumeral text).map fun numeral => (nearestBits numeral, text.drop numeral.text.length)

theorem readNumber_text (number : UInt64) (rest : Text) (ends : EndsNumber rest) :
    readNumber ((numberNumeral number).text ++ rest) = some (number, rest) := by
  have read := readNumeral_text (floatNumeral_valid (signOf number) (magnitudeBits number)) ends
  rw [readNumber, numberNumeral, read, Option.map_some, List.drop_left]
  exact congrArg (fun number => some (number, rest)) (nearestBits_numberNumeral number)

/-- The text of a number determines its bits. -/
theorem delimits_numberText (number : UInt64) :
    Delimits EndsNumber (fun number => (numberNumeral number).text) number :=
  Delimits.of_read readNumber_text number

end GitScale.Approval
