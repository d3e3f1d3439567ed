import GitScale.Foundation.Encoding
import GitScale.Foundation.Scan
import GitScale.Go.Sha256
import GitScale.Go.Utf8

/-!
# Strings in JSON

What `json.Marshal` writes for an arbitrary Go string.  A byte that is no part of a valid
sequence is written as an escaped replacement character, so the text of a string determines
its runes and the places of such bytes, but not the bytes themselves.
-/

namespace GitScale.Go

open Foundation

/-! ## Runes and broken bytes -/

/-- The bytes of a rune. -/
structure Rune where
  bytes : Text
  code : Nat
  encoded : Encoded bytes code
  deriving DecidableEq

/-- A part of a string: a rune, or a byte that is no part of one. -/
inductive Piece where
  | rune (rune : Rune)
  | broken
  deriving DecidableEq

/-- One turn of the loops over the runes of a string. -/
def nextPiece : ScanStep UInt8 Empty Piece := fun first rest =>
  if broken : decodeRune (first :: rest) = (runeError, 1) then .ok ([.broken], 0)
  else
    .ok ([.rune ⟨_, _, encoded_of_decodeRune broken⟩], (decodeRune (first :: rest)).2 - 1)

def pieces (text : Text) : List Piece :=
  match scan nextPiece text with
  | .ok pieces => pieces
  | .error impossible => impossible.elim

theorem pieces_broken {first : UInt8} {rest : Text}
    (broken : decodeRune (first :: rest) = (runeError, 1)) :
    pieces (first :: rest) = .broken :: pieces rest := by
  have emits : nextPiece first rest = .ok ([.broken], 0) := by rw [nextPiece, dif_pos broken]
  rw [pieces, scan_cons_of_ok emits, List.drop_zero, pieces]
  cases scan nextPiece rest with
  | ok others => rfl
  | error impossible => exact impossible.elim

theorem Rune.ext_bytes {first second : Rune} (same : first.bytes = second.bytes) :
    first = second := by
  have codes := first.encoded.decodeRune_append []
  rw [same, second.encoded.decodeRune_append []] at codes
  obtain ⟨bytes, code, encoded⟩ := first
  obtain ⟨bytes', code', encoded'⟩ := second
  cases same
  cases codes
  rfl

theorem Rune.bytes_ne_nil (rune : Rune) : rune.bytes ≠ [] := rune.encoded.ne_nil

/-- A valid sequence is not mistaken for a broken byte. -/
theorem Rune.valid (rune : Rune) (rest : Text) :
    decodeRune (rune.bytes ++ rest) ≠ (runeError, 1) := by
  rw [rune.encoded.decodeRune_append]
  exact rune.encoded.ne_broken

theorem pieces_rune (rune : Rune) (rest : Text) :
    pieces (rune.bytes ++ rest) = .rune rune :: pieces rest := by
  have decoded := rune.encoded.decodeRune_append rest
  have valid := rune.valid rest
  cases bytes : rune.bytes with
  | nil => exact absurd bytes rune.bytes_ne_nil
  | cons first others =>
      rw [bytes, List.cons_append] at decoded valid
      have emits : nextPiece first (others ++ rest) = .ok ([.rune rune], others.length) := by
        rw [nextPiece, dif_neg valid]
        have same : (⟨_, _, encoded_of_decodeRune valid⟩ : Rune) = rune := by
          apply Rune.ext_bytes
          simp [decoded, bytes]
        rw [same, decoded, List.length_cons, Nat.add_sub_cancel]
      rw [pieces, List.cons_append, scan_append_of_ok emits, pieces]
      cases scan nextPiece rest with
      | ok others => rfl
      | error impossible => exact impossible.elim

/-- Texts are built from runes and broken bytes. -/
theorem pieces_induction {property : Text → Prop} (nil : property [])
    (rune : ∀ (rune : Rune) rest, property rest → property (rune.bytes ++ rest))
    (broken : ∀ first rest, decodeRune (first :: rest) = (runeError, 1) → property rest →
      property (first :: rest))
    (text : Text) : property text := by
  induction size : text.length using Nat.strongRecOn generalizing text with
  | _ size inductionHypothesis =>
      cases text with
      | nil => exact nil
      | cons first rest =>
          by_cases bad : decodeRune (first :: rest) = (runeError, 1)
          · exact broken first rest bad
              (inductionHypothesis rest.length (by simp [← size]) rest rfl)
          · let front : Rune := ⟨_, _, encoded_of_decodeRune bad⟩
            have cut : front.bytes ++ (first :: rest).drop (decodeRune (first :: rest)).2 =
                first :: rest := List.take_append_drop _ _
            have positive : front.bytes.length ≠ 0 :=
              fun empty => front.bytes_ne_nil (List.length_eq_zero_iff.mp empty)
            have lengths := congrArg List.length cut
            rw [List.length_append] at lengths
            rw [← cut]
            apply rune
            exact inductionHypothesis _ (by omega) _ rfl

/-- `utf8.ValidString`. -/
def validUTF8 (text : Text) : Bool := !(pieces text).contains .broken

/-- The bytes of the runes among the pieces. -/
def Piece.bytes : Piece → Text
  | .rune whole => whole.bytes
  | .broken => []

theorem flatMap_pieces {text : Text} (valid : .broken ∉ pieces text) :
    (pieces text).flatMap Piece.bytes = text := by
  induction text using pieces_induction with
  | nil => rfl
  | rune rune rest inductionHypothesis =>
      rw [pieces_rune] at valid ⊢
      rw [List.flatMap_cons, inductionHypothesis fun later => valid (List.mem_cons_of_mem _ later)]
      rfl
  | broken first rest bad inductionHypothesis =>
      rw [pieces_broken bad] at valid
      exact absurd List.mem_cons_self valid

/-- A valid string is the only one with its pieces. -/
theorem eq_of_pieces {first second : Text} (valid : validUTF8 first = true)
    (same : pieces first = pieces second) : first = second := by
  have unbroken : .broken ∉ pieces first := by simpa [validUTF8] using valid
  rw [← flatMap_pieces unbroken, same, flatMap_pieces (same ▸ unbroken)]

/-! ## What is written for a string -/

def quotation : UInt8 := byte '"'

def reverseSolidus : UInt8 := byte '\\'

/-- An ASCII character between the quotes of a string; `<`, `>` and `&` are escaped too. -/
def escapeAscii (value : UInt8) : Text :=
  if value = quotation ∨ value = reverseSolidus then [reverseSolidus, value]
  else if value = 8 then [reverseSolidus, byte 'b']
  else if value = 12 then [reverseSolidus, byte 'f']
  else if value = 10 then [reverseSolidus, byte 'n']
  else if value = 13 then [reverseSolidus, byte 'r']
  else if value = 9 then [reverseSolidus, byte 't']
  else if value < 0x20 ∨ value = byte '<' ∨ value = byte '>' ∨ value = byte '&' then
    [reverseSolidus, byte 'u', byte '0', byte '0', byte (hexDigit (value >>> 4)),
      byte (hexDigit (value &&& 0xf))]
  else [value]

def encodePiece : Piece → Text
  | .broken => [reverseSolidus, byte 'u', byte 'f', byte 'f', byte 'f', byte 'd']
  | .rune whole =>
      match whole.bytes with
      | [value] => escapeAscii value
      | bytes =>
          if whole.code = 0x2028 ∨ whole.code = 0x2029 then
            [reverseSolidus, byte 'u', byte '2', byte '0', byte '2',
              byte (hexDigit (UInt8.ofNat (whole.code % 16)))]
          else bytes

/-- The pieces between quotation marks. -/
def stringText (parts : List Piece) : Text :=
  quotation :: terminated quotation encodePiece parts

/-- `appendString` of `encoding/json`. -/
def appendString (text : Text) : Text := stringText (pieces text)

/-! ## What is read back -/

/-- The value of a lower-case hexadecimal digit. -/
def nibble (digit : UInt8) : UInt8 := if digit < 0x60 then digit - 0x30 else digit - 0x57

/-- The character that an escape with one letter stands for. -/
def unescape (letter : UInt8) : UInt8 :=
  if letter = byte 'b' then 8
  else if letter = byte 'f' then 12
  else if letter = byte 'n' then 10
  else if letter = byte 'r' then 13
  else if letter = byte 't' then 9
  else letter

/-- The rune at the front of a text between quotes, or none for a broken byte. -/
def readPiece : Text → Option (Option Text × Text)
  | [] => none
  | first :: rest =>
      if first = reverseSolidus then
        match rest with
        | [] => none
        | letter :: rest =>
            if letter = byte 'u' then
              match rest with
              | a :: _ :: c :: d :: rest =>
                  if a = byte 'f' then some (none, rest)
                  else if a = byte '2' then some (some [0xE2, 0x80, 0xA0 + nibble d], rest)
                  else some (some [16 * nibble c + nibble d], rest)
              | _ => none
            else some (some [unescape letter], rest)
      else
        some (some ((first :: rest).take (decodeRune (first :: rest)).2),
          (first :: rest).drop (decodeRune (first :: rest)).2)

/-- The bytes of a rune, or none for a broken byte. -/
def Piece.mark : Piece → Option Text
  | .rune whole => some whole.bytes
  | .broken => none

theorem Piece.mark_injective : Function.Injective Piece.mark := by
  intro first second same
  cases first with
  | broken =>
      cases second with
      | broken => rfl
      | rune other => cases same
  | rune whole =>
      cases second with
      | broken => cases same
      | rune other => rw [Rune.ext_bytes (Option.some.inj same)]

theorem nibble_hexDigit : ∀ value : UInt8,
    (16 : UInt8) * nibble (byte (hexDigit (value >>> 4))) +
      nibble (byte (hexDigit (value &&& 0xf))) = value :=
  forall_byte (by decide)

theorem readPiece_raw {bytes : Text} {code : Nat} (encoded : Encoded bytes code)
    (plain : bytes.head? ≠ some reverseSolidus) (rest : Text) :
    readPiece (bytes ++ rest) = some (some bytes, rest) := by
  have decoded := encoded.decodeRune_append rest
  cases bytes with
  | nil => exact absurd rfl encoded.ne_nil
  | cons first others =>
      have different : first ≠ reverseSolidus := fun same => plain (by rw [same]; rfl)
      rw [List.cons_append] at decoded ⊢
      simp only [readPiece, if_neg different, decoded]
      rw [← List.cons_append, List.take_left, List.drop_left]

theorem readPiece_escapeAscii {value : UInt8} (ascii : value < 0x80) (rest : Text) :
    readPiece (escapeAscii value ++ rest) = some (some [value], rest) := by
  unfold escapeAscii
  split_ifs with special backspace formFeed newline carriageReturn tab escaped
  · rcases special with rfl | rfl <;> rfl
  · rw [backspace]; rfl
  · rw [formFeed]; rfl
  · rw [newline]; rfl
  · rw [carriageReturn]; rfl
  · rw [tab]; rfl
  · have digits := nibble_hexDigit value
    simp only [List.cons_append, List.nil_append, readPiece]
    rw [digits]
    rfl
  · exact readPiece_raw (.one ascii) (by simpa using fun same => special (.inr same)) rest

/-- The line and the paragraph separator have one sequence each. -/
theorem Encoded.separator {bytes : Text} {code : Nat} (encoded : Encoded bytes code)
    (separator : code = 0x2028 ∨ code = 0x2029) :
    bytes = [0xE2, 0x80, 0xA0 + nibble (byte (hexDigit (UInt8.ofNat (code % 16))))] := by
  cases encoded with
  | @one first ascii =>
      have below := UInt8.lt_iff_toNat_lt.mp ascii
      have limit : (0x80 : UInt8).toNat = 128 := rfl
      omega
  | @two first second leading bounds width => omega
  | @three first second third leading bounds longer continued width =>
      rw [within_iff] at continued width
      have limits : (0xE0 : UInt8).toNat = 224 ∧ (0xEF : UInt8).toNat = 239 ∧
          (0x80 : UInt8).toNat = 128 ∧ (0xBF : UInt8).toNat = 191 := ⟨rfl, rfl, rfl, rfl⟩
      have firstByte : first = 0xE2 := UInt8.toNat_inj.mp (show first.toNat = 226 by omega)
      subst firstByte
      rw [within_iff] at bounds
      have secondByte : second = 0x80 := by
        apply UInt8.toNat_inj.mp
        have low : (secondBounds 0xE2).1.toNat = 128 := rfl
        have high : (secondBounds 0xE2).2.toNat = 191 := rfl
        have value : (0xE2 : UInt8).toNat = 226 := rfl
        omega
      subst secondByte
      have values : (0xE2 : UInt8).toNat = 226 := rfl
      rcases separator with line | paragraph
      · have thirdByte : third = 0xA8 := UInt8.toNat_inj.mp (show third.toNat = 168 by omega)
        rw [line, thirdByte]
        rfl
      · have thirdByte : third = 0xA9 := UInt8.toNat_inj.mp (show third.toNat = 169 by omega)
        rw [paragraph, thirdByte]
        rfl
  | @four first second third fourth leading bounds longer continued longest width =>
      rw [Bool.and_eq_true, within_iff, within_iff] at width
      have limits : (0xF0 : UInt8).toNat = 240 ∧ (0xF4 : UInt8).toNat = 244 := ⟨rfl, rfl⟩
      by_cases shortest : first = 0xF0
      · subst shortest
        rw [within_iff] at bounds
        have low : (secondBounds 0xF0).1.toNat = 144 := rfl
        have high : (secondBounds 0xF0).2.toNat = 191 := rfl
        omega
      · have different : first.toNat ≠ 240 := fun same => shortest (UInt8.toNat_inj.mp same)
        omega

theorem readPiece_multibyte {bytes : Text} {code : Nat} (encoded : Encoded bytes code)
    (leading : ∀ first ∈ bytes.head?, ¬ first < 0x80) (rest : Text) :
    readPiece ((if code = 0x2028 ∨ code = 0x2029 then
        [reverseSolidus, byte 'u', byte '2', byte '0', byte '2',
          byte (hexDigit (UInt8.ofNat (code % 16)))]
      else bytes) ++ rest) = some (some bytes, rest) := by
  split_ifs with separator
  · rw [encoded.separator separator]
    rfl
  · apply readPiece_raw encoded
    intro escaped
    exact leading reverseSolidus escaped (by decide)

theorem readPiece_encodePiece (piece : Piece) (rest : Text) :
    readPiece (encodePiece piece ++ rest) = some (piece.mark, rest) := by
  cases piece with
  | broken => rfl
  | rune whole =>
      obtain ⟨bytes, code, encoded⟩ := whole
      cases encoded with
      | one ascii => exact readPiece_escapeAscii ascii rest
      | two leading bounds width =>
          exact readPiece_multibyte (.two leading bounds width) (by simpa using leading) rest
      | three leading bounds longer continued width =>
          exact readPiece_multibyte (.three leading bounds longer continued width)
            (by simpa using leading) rest
      | four leading bounds longer continued longest width =>
          exact readPiece_multibyte (.four leading bounds longer continued longest width)
            (by simpa using leading) rest

/-- No piece is written with a quotation mark in front; the mark itself is escaped. -/
theorem encodePiece_starts (piece : Piece) (rest : Text) :
    (encodePiece piece ++ rest).head? ≠ some quotation := by
  intro starts
  obtain ⟨others, text⟩ := List.head?_eq_some_iff.mp starts
  have reading := readPiece_encodePiece piece rest
  have direct : readPiece (quotation :: others) = some (some [quotation], others) := rfl
  rw [text, direct] at reading
  have itself : piece = .rune ⟨[quotation], _, .one (by decide)⟩ :=
    Piece.mark_injective (congrArg Prod.fst (Option.some.inj reading)).symm
  rw [itself] at starts
  have escaped : reverseSolidus = quotation := Option.some.inj starts
  exact absurd escaped (by decide)

theorem delimits_encodePiece (piece : Piece) : Delimits anywhere encodePiece piece := by
  intro other rest rest' _ _ same
  have readings := (readPiece_encodePiece piece rest).symm.trans
    (same ▸ readPiece_encodePiece other rest')
  simp only [Option.some.injEq, Prod.mk.injEq] at readings
  exact ⟨Piece.mark_injective readings.1, readings.2⟩

/-- The text of a string determines its pieces. -/
theorem delimits_stringText (parts : List Piece) : Delimits anywhere stringText parts :=
  (delimits_terminated encodePiece_starts delimits_encodePiece parts).prepend [quotation]

end GitScale.Go
