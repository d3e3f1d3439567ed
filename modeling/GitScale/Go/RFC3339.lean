import GitScale.Go.Calendar
import GitScale.Go.Text
import Mathlib.Data.List.Basic
import Mathlib.Tactic.Ring

/-!
# Instants as texts

The layout `time.RFC3339Nano` for instants in UTC, as `Time.MarshalJSON` writes it, and
`parseRFC3339`, which `Time.UnmarshalJSON` reads it with.
-/

namespace GitScale.Go

/-! ## Decimal fields -/

def isDecimal (value : UInt8) : Bool := within (byte '0') (byte '9') value

/-- `appendInt` of a number that fits into the width. -/
def digitsText : Nat → Nat → Text
  | 0, _ => []
  | width + 1, value => UInt8.ofNat (48 + value / 10 ^ width % 10) :: digitsText width value

/-- The value of decimal digits. -/
def decimalValue (digits : Text) : Nat :=
  digits.foldl (fun value digit => value * 10 + (digit.toNat - 48)) 0

/-- `parseUint` of `parseRFC3339` for the bytes from `start` on. -/
def parseField (text : Text) (start width low high : Nat) : Option Nat :=
  let digits := (text.drop start).take width
  if digits.all isDecimal ∧ low ≤ decimalValue digits ∧ decimalValue digits ≤ high then
    some (decimalValue digits)
  else none

/-! ## Writing -/

/-- The nanoseconds within a day. -/
def nanosOfDay (instant : Time) : Nat := (instant % nanosPerDay).toNat

/-- `appendNano` for nine digits, whose last zeros are cut off. -/
def fractionOf (nanos : Nat) : Text :=
  match trimRight [byte '0'] (digitsText 9 nanos) with
  | [] => []
  | digits => byte '.' :: digits

/-- The layout, filled with the parts of an instant in UTC. -/
def layoutRFC3339 (year month day hours minutes seconds nanos : Nat) : Text :=
  digitsText 4 year ++ byte '-' :: (digitsText 2 month ++ byte '-' :: (digitsText 2 day ++
    byte 'T' :: (digitsText 2 hours ++ byte ':' :: (digitsText 2 minutes ++ byte ':' ::
    (digitsText 2 seconds ++ (fractionOf nanos ++ [byte 'Z']))))))

/-- `appendFormatRFC3339` in UTC, for a year of four digits. -/
def formatRFC3339 (instant : Time) : Text :=
  let date := dateOfTime instant
  let seconds := nanosOfDay instant / 1000000000
  layoutRFC3339 date.year.toNat date.month.toNat date.day.toNat (seconds / 3600)
    (seconds / 60 % 60) (seconds % 60) (nanosOfDay instant % 1000000000)

/-- `MarshalJSON` accepts only the years that the layout has room for. -/
def yearFits (instant : Time) : Bool :=
  0 ≤ (dateOfTime instant).year && (dateOfTime instant).year ≤ 9999

/-! ## Reading -/

/-- `daysIn`. -/
def daysIn (month year : Nat) : Nat :=
  (daysBeforeMonth (leapDay year) (month + 1) - daysBeforeMonth (leapDay year) month).toNat

/-- The fraction of a second and what follows it; digits after the ninth are dropped. -/
def readFraction : Text → Nat × Text
  | dot :: first :: rest =>
      if dot = byte '.' ∧ isDecimal first then
        let digits := ((first :: rest).takeWhile isDecimal).take 9
        (decimalValue digits * 10 ^ (9 - digits.length), (first :: rest).dropWhile isDecimal)
      else (0, dot :: first :: rest)
  | text => (0, text)

/-- The offset of a zone in seconds. -/
def readZone (text : Text) : Option Int :=
  if text = [byte 'Z'] then some 0
  else if text.length ≠ 6 then none
  else
    (parseField text 1 2 0 23).bind fun hours =>
      (parseField text 4 2 0 59).bind fun minutes =>
        if text[3]? = some (byte ':') then
          if text.head? = some (byte '+') then some ((hours * 60 + minutes) * 60 : Nat)
          else if text.head? = some (byte '-') then some (-((hours * 60 + minutes) * 60 : Nat))
          else none
        else none

/-- `time.Date` in UTC. -/
def instantOf (year month day hours minutes seconds nanos : Nat) : Time :=
  (firstOfMonth year month + (day - 1)) * nanosPerDay +
    ((hours * 3600 + minutes * 60 + seconds) * 1000000000 + nanos : Nat)

/-- `parseRFC3339`. -/
def parseRFC3339 (text : Text) : Option Time :=
  if text.length < 19 then none
  else
    (parseField text 0 4 0 9999).bind fun year =>
    (parseField text 5 2 1 12).bind fun month =>
    (parseField text 8 2 1 (daysIn month year)).bind fun day =>
    (parseField text 11 2 0 23).bind fun hours =>
    (parseField text 14 2 0 59).bind fun minutes =>
    (parseField text 17 2 0 59).bind fun seconds =>
      if text[4]? = some (byte '-') ∧ text[7]? = some (byte '-') ∧ text[10]? = some (byte 'T') ∧
          text[13]? = some (byte ':') ∧ text[16]? = some (byte ':') then
        (readZone (readFraction (text.drop 19)).2).map fun offset =>
          instantOf year month day hours minutes seconds (readFraction (text.drop 19)).1 -
            offset * 1000000000
      else none

example : ofBytes (formatRFC3339 (739759 * nanosPerDay + 45296007000000)) =
    "2026-05-24T12:34:56.007Z" := by decide

/-! ## Digits that are read back -/

theorem digit_toNat {digit : Nat} (small : digit < 10) :
    (UInt8.ofNat (48 + digit)).toNat = 48 + digit := by
  rw [UInt8.toNat_ofNat']
  exact Nat.mod_eq_of_lt (by omega)

theorem isDecimal_digit {digit : Nat} (small : digit < 10) :
    isDecimal (UInt8.ofNat (48 + digit)) = true := by
  have low : (byte '0').toNat = 48 := rfl
  have high : (byte '9').toNat = 57 := rfl
  simp only [isDecimal, within, Bool.and_eq_true, decide_eq_true_eq, UInt8.le_iff_toNat_le,
    digit_toNat small]
  omega

@[simp] theorem length_digitsText (width value : Nat) :
    (digitsText width value).length = width := by
  induction width with
  | zero => rfl
  | succ width inductionHypothesis => rw [digitsText, List.length_cons, inductionHypothesis]

theorem all_digitsText (width value : Nat) : (digitsText width value).all isDecimal = true := by
  induction width with
  | zero => rfl
  | succ width inductionHypothesis =>
      rw [digitsText, List.all_cons, inductionHypothesis,
        isDecimal_digit (Nat.mod_lt _ (by decide))]
      rfl

theorem foldl_digitsText (width value front : Nat) :
    (digitsText width value).foldl (fun value digit => value * 10 + (digit.toNat - 48)) front =
      front * 10 ^ width + value % 10 ^ width := by
  induction width generalizing front with
  | zero => simp [digitsText, Nat.mod_one]
  | succ width inductionHypothesis =>
      have digit := digit_toNat (Nat.mod_lt (value / 10 ^ width) (by decide : 0 < 10))
      rw [digitsText, List.foldl_cons, inductionHypothesis, digit, Nat.add_sub_cancel_left,
        Nat.pow_succ, Nat.mod_mul, Nat.add_mul]
      ring

theorem decimalValue_digitsText {width value : Nat} (fits : value < 10 ^ width) :
    decimalValue (digitsText width value) = value := by
  rw [decimalValue, foldl_digitsText, Nat.zero_mul, Nat.zero_add, Nat.mod_eq_of_lt fits]

/-- A field that holds the digits of a number in its bounds. -/
theorem parseField_of_digits {text : Text} {start width low high value : Nat}
    (digits : (text.drop start).take width = digitsText width value)
    (fits : value < 10 ^ width) (above : low ≤ value) (below : value ≤ high) :
    parseField text start width low high = some value := by
  simp only [parseField, digits, decimalValue_digitsText fits, all_digitsText, true_and]
  rw [if_pos ⟨above, below⟩]

/-! ## The fraction -/

theorem trimRight_append (cutset : List UInt8) (text : Text) :
    ∃ cut, text = trimRight cutset text ++ cut ∧ ∀ value ∈ cut, cutset.contains value = true := by
  refine ⟨(text.reverse.takeWhile (cutset.contains ·)).reverse, ?_, ?_⟩
  · rw [trimRight, ← List.reverse_append, List.takeWhile_append_dropWhile, List.reverse_reverse]
  · intro value member
    rw [List.mem_reverse] at member
    exact List.all_eq_true.mp List.all_takeWhile value member

theorem foldl_zeros {zeros : Text} (all : ∀ value ∈ zeros, [byte '0'].contains value = true)
    (front : Nat) :
    zeros.foldl (fun value digit => value * 10 + (digit.toNat - 48)) front =
      front * 10 ^ zeros.length := by
  induction zeros generalizing front with
  | nil => simp
  | cons zero zeros inductionHypothesis =>
      have here : zero = byte '0' := by
        simpa using all zero List.mem_cons_self
      have digit : (byte '0').toNat - 48 = 0 := rfl
      rw [List.foldl_cons, inductionHypothesis fun value later =>
          all value (List.mem_cons_of_mem _ later), here, digit, List.length_cons, Nat.pow_succ]
      ring

/-- The zeros that are cut off a fraction are put back by its scale. -/
theorem readFraction_fractionOf {nanos : Nat} (fits : nanos < 10 ^ 9) :
    readFraction (fractionOf nanos ++ [byte 'Z']) = (nanos, [byte 'Z']) := by
  obtain ⟨cut, whole, zeros⟩ := trimRight_append [byte '0'] (digitsText 9 nanos)
  have value := decimalValue_digitsText fits
  have decimal := all_digitsText 9 nanos
  have lengths := congrArg List.length whole
  rw [whole, decimalValue, List.foldl_append, foldl_zeros zeros] at value
  rw [whole, List.all_append, Bool.and_eq_true] at decimal
  rw [length_digitsText, List.length_append] at lengths
  unfold fractionOf
  cases digits : trimRight [byte '0'] (digitsText 9 nanos) with
  | nil =>
      rw [digits, List.foldl_nil, Nat.zero_mul] at value
      rw [← value]
      rfl
  | cons first rest =>
      rw [digits] at value decimal lengths
      have stop : ∀ value ∈ [byte 'Z'].head?, isDecimal value = false := by
        intro value member
        rw [← Option.some.inj member]
        rfl
      have firstDecimal : isDecimal first = true := by
        simpa using (List.all_eq_true.mp decimal.1 first List.mem_cons_self)
      have taken := takeWhile_append_of_stop decimal.1 stop
      have dropped := dropWhile_append_of_stop decimal.1 stop
      have short : (first :: rest).take 9 = first :: rest :=
        List.take_of_length_le (by omega)
      have scale : 9 - (first :: rest).length = cut.length := by omega
      simp only [List.cons_append] at taken dropped ⊢
      rw [readFraction, if_pos ⟨rfl, firstDecimal⟩, taken, dropped]
      simp only [short, scale]
      rw [← value]
      rfl

/-! ## Round trip -/

/-- The day of a date is one of its month. -/
theorem day_le_daysIn (days : Int) :
    (dateOf days).day ≤
      daysBeforeMonth (leapDay (dateOf days).year) ((dateOf days).month + 1) -
        daysBeforeMonth (leapDay (dateOf days).year) (dateOf days).month := by
  obtain ⟨inYear, counted, -, ends⟩ := dateOf_spec days
  rw [firstOfMonth_following inYear] at ends
  rw [firstOfMonth] at counted
  omega

/-- What `time.Date` makes of the parts of an instant is the instant. -/
theorem instantOf_parts {instant : Time} {year month day : Nat}
    (date : dateOfTime instant = ⟨year, month, day⟩) :
    instantOf year month day (nanosOfDay instant / 1000000000 / 3600)
        (nanosOfDay instant / 1000000000 / 60 % 60) (nanosOfDay instant / 1000000000 % 60)
        (nanosOfDay instant % 1000000000) = instant := by
  have counted := (dateOf_spec (instant / nanosPerDay)).2.1
  rw [dateOfTime] at date
  rw [date] at counted
  have positive : (0 : Int) < nanosPerDay := by decide
  have nonnegative := Int.emod_nonneg instant (Int.ne_of_gt positive)
  have split := Int.mul_ediv_add_emod instant nanosPerDay
  have clock : (nanosOfDay instant / 1000000000 / 3600 * 3600 +
      nanosOfDay instant / 1000000000 / 60 % 60 * 60 + nanosOfDay instant / 1000000000 % 60) *
        1000000000 + nanosOfDay instant % 1000000000 = nanosOfDay instant := by omega
  rw [instantOf, clock, counted, nanosOfDay, Int.toNat_of_nonneg nonnegative, Int.mul_comm]
  exact split

theorem parseRFC3339_layoutRFC3339 {year month day hours minutes seconds nanos : Nat}
    (yearFits : year ≤ 9999) (inYear : 1 ≤ month ∧ month ≤ 12)
    (inMonth : 1 ≤ day ∧ day ≤ daysIn month year) (twoDigits : day ≤ 31) (hour : hours ≤ 23)
    (minute : minutes ≤ 59) (second : seconds ≤ 59) (nano : nanos < 10 ^ 9) :
    parseRFC3339 (layoutRFC3339 year month day hours minutes seconds nanos) =
      some (instantOf year month day hours minutes seconds nanos) := by
  let text := layoutRFC3339 year month day hours minutes seconds nanos
  have long : ¬ text.length < 19 := by
    simp only [text, layoutRFC3339, List.length_append, List.length_cons, length_digitsText]
    omega
  have yearField : parseField text 0 4 0 9999 = some year :=
    parseField_of_digits rfl (by omega) (Nat.zero_le _) yearFits
  have monthField : parseField text 5 2 1 12 = some month :=
    parseField_of_digits rfl (by omega) inYear.1 inYear.2
  have dayField : parseField text 8 2 1 (daysIn month year) = some day :=
    parseField_of_digits rfl (by omega) inMonth.1 inMonth.2
  have hourField : parseField text 11 2 0 23 = some hours :=
    parseField_of_digits rfl (by omega) (Nat.zero_le _) hour
  have minuteField : parseField text 14 2 0 59 = some minutes :=
    parseField_of_digits rfl (by omega) (Nat.zero_le _) minute
  have secondField : parseField text 17 2 0 59 = some seconds :=
    parseField_of_digits rfl (by omega) (Nat.zero_le _) second
  have separators : text[4]? = some (byte '-') ∧ text[7]? = some (byte '-') ∧
      text[10]? = some (byte 'T') ∧ text[13]? = some (byte ':') ∧ text[16]? = some (byte ':') :=
    ⟨rfl, rfl, rfl, rfl, rfl⟩
  have rest : readFraction (text.drop 19) = (nanos, [byte 'Z']) := readFraction_fractionOf nano
  have zone : readZone [byte 'Z'] = some 0 := rfl
  change parseRFC3339 text = _
  rw [parseRFC3339, if_neg long, yearField, Option.bind_some, monthField, Option.bind_some, dayField,
    Option.bind_some, hourField, Option.bind_some, minuteField, Option.bind_some, secondField,
    Option.bind_some, if_pos separators, rest]
  simp only [zone, Option.map_some, Int.zero_mul, Int.sub_zero]

/-- An instant is read back from its text. -/
theorem parseRFC3339_formatRFC3339 {instant : Time} (fits : yearFits instant = true) :
    parseRFC3339 (formatRFC3339 instant) = some instant := by
  obtain ⟨inYear, -, firstDay, -⟩ := dateOf_spec (instant / nanosPerDay)
  have lastDay := day_le_daysIn (instant / nanosPerDay)
  have shortMonth := (daysBeforeMonth_succ
    (leapDay_bounds (dateOf (instant / nanosPerDay)).year) inYear).2
  rw [yearFits, Bool.and_eq_true, decide_eq_true_eq, decide_eq_true_eq, dateOfTime] at fits
  have dayBound : nanosOfDay instant < 86400 * 1000000000 := by
    have below := Int.emod_lt_of_pos instant (show (0 : Int) < nanosPerDay by decide)
    rw [nanosOfDay]
    rw [nanosPerDay] at below ⊢
    omega
  obtain ⟨year, yearEq⟩ := Int.eq_ofNat_of_zero_le fits.1
  obtain ⟨month, monthEq⟩ := Int.eq_ofNat_of_zero_le (Int.le_trans (by decide) inYear.1)
  obtain ⟨day, dayEq⟩ := Int.eq_ofNat_of_zero_le (Int.le_trans (by decide) firstDay)
  have date : dateOfTime instant = ⟨year, month, day⟩ := by
    rw [dateOfTime, ← yearEq, ← monthEq, ← dayEq]
  rw [yearEq, monthEq, dayEq] at lastDay
  rw [yearEq, monthEq] at shortMonth
  rw [yearEq] at fits
  rw [monthEq] at inYear
  rw [dayEq] at firstDay
  have inMonth : day ≤ daysIn month year := by
    rw [daysIn]
    omega
  simp only [formatRFC3339, date, Int.toNat_natCast]
  rw [parseRFC3339_layoutRFC3339 (by omega) (by omega) ⟨by omega, inMonth⟩ (by omega) (by omega)
    (by omega) (by omega) (by omega), instantOf_parts date]

end GitScale.Go
