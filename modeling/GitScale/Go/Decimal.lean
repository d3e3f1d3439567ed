import GitScale.Go.Strconv
import GitScale.Go.Text

/-!
# Decimal texts

Numbers in time layouts, and the bytes of decimal texts read back as characters.
-/

namespace GitScale.Go

/-- A number of a time layout: a sign, then at least `width` digits. -/
def layoutInt (width : Nat) (value : Int) : List Char :=
  let digits := Nat.toDigits 10 value.natAbs
  (if value < 0 then ['-'] else []) ++ List.replicate (width - digits.length) '0' ++ digits

theorem isDigit_of_mem_toDigits {value : Nat} {character : Char}
    (member : character ∈ Nat.toDigits 10 value) : character.isDigit = true :=
  Nat.isDigit_of_mem_toDigits (by decide) (by decide) member

/-- A layout writes a sign and digits only. -/
theorem mem_layoutInt {width : Nat} {value : Int} {character : Char}
    (member : character ∈ layoutInt width value) :
    character = '-' ∨ character.isDigit = true := by
  simp only [layoutInt, List.mem_append, List.mem_replicate] at member
  rcases member with (sign | zero) | digit
  · split at sign
    · exact .inl (List.mem_singleton.mp sign)
    · cases sign
  · exact .inr (zero.2 ▸ by decide)
  · exact .inr (isDigit_of_mem_toDigits digit)

/-- No positive number starts with a zero. -/
theorem head_toDigits_ne_zero {value : Nat} (positive : 0 < value) :
    (Nat.toDigits 10 value).head? ≠ some '0' := by
  induction value using Nat.strongRecOn with
  | _ value inductionHypothesis =>
      by_cases single : value < 10
      · rw [Nat.toDigits_of_lt_base single]
        simp [Nat.pos_iff_ne_zero.mp positive]
      · have leading := inductionHypothesis (value / 10) (by omega) (by omega)
        rw [Nat.toDigits_of_base_le (by decide) (by omega), List.head?_append_of_ne_nil _
          Nat.toDigits_ne_nil]
        exact leading

theorem toNat_lt_of_isDigit {character : Char} (digit : character.isDigit = true) :
    character.toNat < 128 := by
  simp only [Char.isDigit, Bool.and_eq_true, decide_eq_true_eq, UInt32.le_iff_toNat_le] at digit
  exact Nat.lt_of_le_of_lt digit.2 (by decide)

/-- The characters of an ASCII text are its bytes. -/
theorem ofBytes_map_byte {text : List Char} (ascii : ∀ character ∈ text, character.toNat < 128) :
    (ofBytes (text.map byte)).toList = text := by
  rw [ofBytes, String.toList_ofList, List.map_map]
  conv_rhs => rw [← List.map_id text]
  apply List.map_congr_left
  intro character member
  have small := ascii character member
  have value : (byte character).toNat = character.toNat := by
    simp only [byte, Char.toUInt8, UInt32.toNat_toUInt8]
    exact Nat.mod_eq_of_lt (by simpa using Nat.lt_trans small (by decide))
  simp only [Function.comp_apply, value, id_eq]
  exact Char.ofNat_toNat character

theorem ascii_formatInt (value : Int) : ∀ character ∈ formatInt value, character.toNat < 128 := by
  intro character member
  rcases mem_formatInt member with rfl | digit
  · decide
  · exact toNat_lt_of_isDigit digit

/-- A printed number survives its way through bytes. -/
theorem parseInt_ofBytes_formatInt {value : Int}
    (fits : -(int64Bound : Int) ≤ value ∧ value < int64Bound) :
    parseInt (ofBytes ((formatInt value).map byte)).toList = some value := by
  rw [ofBytes_map_byte (ascii_formatInt value), parseInt_formatInt fits]

end GitScale.Go
