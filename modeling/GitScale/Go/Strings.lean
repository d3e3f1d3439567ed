import Mathlib.Data.List.Basic

/-!
# Strings of the Go standard library

`unicode.IsSpace`, `strings.TrimSpace`, and the bytes of a string.
-/

namespace GitScale.Go

/-- `unicode.IsSpace`: the characters with the White_Space property. -/
def isSpace (character : Char) : Bool :=
  let code := character.toNat
  (9 ≤ code && code ≤ 13) || code = 0x20 || code = 0x85 || code = 0xA0 ||
    code = 0x1680 || (0x2000 ≤ code && code ≤ 0x200A) || code = 0x2028 ||
    code = 0x2029 || code = 0x202F || code = 0x205F || code = 0x3000

/-- `strings.TrimSpace`. -/
def trimSpace (text : String) : String :=
  String.ofList
    ((text.toList.dropWhile isSpace).reverse.dropWhile isSpace).reverse

theorem dropWhile_isSpace {text : List Char} (absent : ∀ char ∈ text, isSpace char = false) :
    text.dropWhile isSpace = text := by
  cases text with
  | nil => rfl
  | cons first rest =>
      rw [List.dropWhile_cons, absent first List.mem_cons_self]
      simp

/-- A text without spaces is not trimmed. -/
theorem trimSpace_eq_self {text : String}
    (absent : ∀ char ∈ text.toList, isSpace char = false) : trimSpace text = text := by
  have reversed : ∀ char ∈ text.toList.reverse, isSpace char = false := by
    intro char member
    exact absent char (List.mem_reverse.mp member)
  rw [trimSpace, dropWhile_isSpace absent, dropWhile_isSpace reversed, List.reverse_reverse,
    String.ofList_toList]

/-- `[]byte(text)`. -/
def utf8 (text : String) : List UInt8 := text.toUTF8.data.toList

/-- `string(bytes)`, if the bytes are valid. -/
def ofUTF8 (bytes : List UInt8) : Option String := String.fromUTF8? ⟨bytes.toArray⟩

theorem ofUTF8_utf8 (text : String) : ofUTF8 (utf8 text) = some text := by
  have whole : ByteArray.mk (utf8 text).toArray = text.toByteArray := by
    rw [utf8, Array.toArray_toList]
    rfl
  rw [ofUTF8, whole, String.fromUTF8?, dif_pos text.isValidUTF8]
  rfl

theorem utf8_injective {text other : String} (same : utf8 text = utf8 other) : text = other :=
  Option.some.inj (by rw [← ofUTF8_utf8, same, ofUTF8_utf8])

end GitScale.Go
