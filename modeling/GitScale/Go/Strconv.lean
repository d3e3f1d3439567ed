import Mathlib.Logic.Basic

/-!
# Decimal conversion of 64-bit integers

`strconv.ParseInt(s, 10, 64)`, of which `strconv.Atoi` is the case of a 64-bit
`int`: one optional sign, at least one decimal digit, and a value that fits.
Texts are lists of characters.
-/

namespace GitScale.Go

/-- A nonempty run of decimal digits. -/
def parseUint (digits : List Char) : Option Nat :=
  if digits ≠ [] ∧ digits.all Char.isDigit then
    some (Nat.ofDigitChars 10 digits 0)
  else
    none

/-- `2^63`, one more than the largest `int64`. -/
def int64Bound : Nat := 0x8000000000000000

/-- The value of a signed 64-bit integer, if it has one. -/
def inInt64 (value : Int) : Option Int :=
  if -int64Bound ≤ value ∧ value < int64Bound then some value else none

/-- `strconv.ParseInt(text, 10, 64)`. -/
def parseInt : List Char → Option Int
  | '-' :: digits => (parseUint digits).bind fun value => inInt64 (-value)
  | '+' :: digits => (parseUint digits).bind fun value => inInt64 value
  | digits => (parseUint digits).bind fun value => inInt64 value

theorem inInt64_of_lt {value : Nat} (fits : value < int64Bound) :
    inInt64 (value : Int) = some (value : Int) := by
  rw [inInt64, if_pos]
  omega

theorem parseUint_toDigits (value : Nat) :
    parseUint (Nat.toDigits 10 value) = some value := by
  have digits : (Nat.toDigits 10 value).all Char.isDigit := by
    rw [List.all_eq_true]
    intro char membership
    exact Nat.isDigit_of_mem_toDigits (by decide) (by decide) membership
  simp [parseUint, digits, Nat.ofDigitChars_ten_toDigits]

/-- A text that starts with a digit has no sign. -/
theorem parseInt_of_isDigit {first : Char} {rest : List Char}
    (digit : first.isDigit) :
    parseInt (first :: rest) =
      (parseUint (first :: rest)).bind fun value => inInt64 value := by
  have notMinus : first ≠ '-' := by
    rintro rfl
    exact absurd digit (by decide)
  have notPlus : first ≠ '+' := by
    rintro rfl
    exact absurd digit (by decide)
  simp [parseInt, notMinus, notPlus]

/-- Printing and reading back a nonnegative 64-bit integer. -/
theorem parseInt_toDigits {value : Nat} (fits : value < int64Bound) :
    parseInt (Nat.toDigits 10 value) = some (value : Int) := by
  have unsigned : parseInt (Nat.toDigits 10 value) =
      (parseUint (Nat.toDigits 10 value)).bind fun value => inInt64 value := by
    cases shape : Nat.toDigits 10 value with
    | nil => exact absurd shape Nat.toDigits_ne_nil
    | cons first rest =>
        apply parseInt_of_isDigit
        apply Nat.isDigit_of_mem_toDigits (b := 10) (n := value)
        · decide
        · decide
        · simp [shape]
  rw [unsigned, parseUint_toDigits, Option.bind_some, inInt64_of_lt fits]

/-- `strconv.FormatInt(value, 10)`. -/
def formatInt (value : Int) : List Char :=
  if value < 0 then '-' :: Nat.toDigits 10 value.natAbs else Nat.toDigits 10 value.toNat

/-- Printing and reading back a 64-bit integer. -/
theorem parseInt_formatInt {value : Int} (fits : -int64Bound ≤ value ∧ value < int64Bound) :
    parseInt (formatInt value) = some value := by
  unfold formatInt
  split
  case isTrue negative =>
      have magnitude : -(value.natAbs : Int) = value := by omega
      rw [parseInt, parseUint_toDigits, Option.bind_some, magnitude, inInt64, if_pos fits]
  case isFalse nonnegative =>
      rw [parseInt_toDigits (by omega), Int.toNat_of_nonneg (Int.not_lt.mp nonnegative)]

theorem mem_formatInt {value : Int} {character : Char} (member : character ∈ formatInt value) :
    character = '-' ∨ character.isDigit := by
  unfold formatInt at member
  split at member
  · cases List.mem_cons.mp member with
    | inl sign => exact .inl sign
    | inr digit => exact .inr (Nat.isDigit_of_mem_toDigits (by decide) (by decide) digit)
  · exact .inr (Nat.isDigit_of_mem_toDigits (by decide) (by decide) member)

/-- The verb `%0nd` of `fmt`: zeros between the sign and the digits. -/
def zeroPadded (width : Nat) (value : Int) : String :=
  let digits := Nat.toDigits 10 value.natAbs
  if value < 0 then
    String.ofList ('-' :: (List.replicate (width - 1 - digits.length) '0' ++ digits))
  else String.ofList (List.replicate (width - digits.length) '0' ++ digits)

end GitScale.Go
