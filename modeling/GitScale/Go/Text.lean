import GitScale.Go.Strings

/-!
# Strings as bytes

A Go string is any sequence of bytes.  The functions of `strings` and `unicode/utf8` that
the parsers use, on arbitrary bytes: an invalid sequence decodes to `utf8.RuneError` with a
width of one byte.
-/

namespace GitScale.Go

/-- A Go string. -/
abbrev Text := List UInt8

/-- The byte of an ASCII character. -/
def byte (character : Char) : UInt8 := character.toUInt8

/-- One byte for each character of an ASCII text. -/
def ascii (text : String) : Text := text.toList.map byte

/-- A table over the two hexadecimal digits of bytes covers every byte. -/
theorem forall_byte {property : UInt8 → Prop}
    (table : ∀ high < 16, ∀ low < 16, property (UInt8.ofNat (16 * high + low)))
    (value : UInt8) : property value := by
  have bounded := value.toNat_lt
  have entry := table (value.toNat / 16) (by omega) (value.toNat % 16) (by omega)
  rwa [Nat.div_add_mod, UInt8.ofNat_toNat] at entry

/-- A run of bytes that pass a test, up to a byte that does not. -/
theorem takeWhile_append_of_stop {test : UInt8 → Bool} {text rest : Text}
    (all : text.all test = true) (stop : ∀ value ∈ rest.head?, test value = false) :
    (text ++ rest).takeWhile test = text := by
  rw [List.takeWhile_append_of_pos (fun value membership => List.all_eq_true.mp all value membership)]
  cases rest with
  | nil => simp
  | cons value rest => simp [stop value rfl]

theorem dropWhile_append_of_stop {test : UInt8 → Bool} {text rest : Text}
    (all : text.all test = true) (stop : ∀ value ∈ rest.head?, test value = false) :
    (text ++ rest).dropWhile test = rest := by
  rw [List.dropWhile_append_of_pos (fun value membership => List.all_eq_true.mp all value membership)]
  cases rest with
  | nil => rfl
  | cons value rest => simp [stop value rfl]

/-! ## Runes -/

/-- `utf8.RuneError`. -/
def runeError : Nat := 0xFFFD

/-- A continuation byte, or one within narrower bounds after some leading bytes. -/
def within (low high : UInt8) (value : UInt8) : Bool := low ≤ value && value ≤ high

/-- The bounds of the second byte after a leading byte. -/
def secondBounds (leading : UInt8) : UInt8 × UInt8 :=
  if leading = 0xE0 then (0xA0, 0xBF)
  else if leading = 0xED then (0x80, 0x9F)
  else if leading = 0xF0 then (0x90, 0xBF)
  else if leading = 0xF4 then (0x80, 0x8F)
  else (0x80, 0xBF)

/-- `utf8.DecodeRuneInString`: the first rune and its width. -/
def decodeRune : Text → Nat × Nat
  | [] => (runeError, 0)
  | first :: rest =>
      if first < 0x80 then (first.toNat, 1)
      else
        let bounds := secondBounds first
        match rest with
        | second :: rest =>
            if ¬ within bounds.1 bounds.2 second then (runeError, 1)
            else if within 0xC2 0xDF first then
              ((first.toNat % 32) * 64 + second.toNat % 64, 2)
            else
              match rest with
              | third :: rest =>
                  if ¬ within 0x80 0xBF third then (runeError, 1)
                  else if within 0xE0 0xEF first then
                    ((first.toNat % 16) * 4096 + (second.toNat % 64) * 64 + third.toNat % 64, 3)
                  else
                    match rest with
                    | fourth :: _ =>
                        if within 0xF0 0xF4 first && within 0x80 0xBF fourth then
                          ((first.toNat % 8) * 262144 + (second.toNat % 64) * 4096 +
                            (third.toNat % 64) * 64 + fourth.toNat % 64, 4)
                        else (runeError, 1)
                    | [] => (runeError, 1)
              | [] => (runeError, 1)
        | [] => (runeError, 1)

/-- `utf8.RuneStart`. -/
def runeStart (value : UInt8) : Bool := !within 0x80 0xBF value

/-- `utf8.DecodeLastRuneInString`, on the reversed text: the last rune and its width. -/
def decodeLastRune (reversed : Text) : Nat × Nat :=
  match reversed with
  | [] => (runeError, 0)
  | last :: before =>
      if last < 0x80 then (last.toNat, 1)
      else
        -- The nearest byte that can start a rune, at most four bytes from the end.
        match (before.take 3).findIdx? runeStart with
        | none => (runeError, 1)
        | some distance =>
            let decoded := decodeRune (reversed.take (distance + 2)).reverse
            if decoded.2 = distance + 2 then decoded else (runeError, 1)

/-- `unicode.IsSpace` of a rune. -/
def isSpaceRune (rune : Nat) : Bool :=
  (9 ≤ rune && rune ≤ 13) || rune = 0x20 || rune = 0x85 || rune = 0xA0 ||
    rune = 0x1680 || (0x2000 ≤ rune && rune ≤ 0x200A) || rune = 0x2028 ||
    rune = 0x2029 || rune = 0x202F || rune = 0x205F || rune = 0x3000

/-! ## Printing -/

/-- The string with one character for each byte, which is the usual one for ASCII. -/
def ofBytes (text : Text) : String := String.ofList (text.map fun value => Char.ofNat value.toNat)

/-- Lower-case hexadecimal digits, padded with zeros. -/
def hexPadded (width value : Nat) : String :=
  let digits := Nat.toDigits 16 value
  String.ofList (List.replicate (width - digits.length) '0' ++ digits)

/-- What stands for a byte between the quotes of the verb `%q`. -/
def escapeByte (value : UInt8) : String :=
  if value = 7 then "\\a"
  else if value = 8 then "\\b"
  else if value = 9 then "\\t"
  else if value = 10 then "\\n"
  else if value = 11 then "\\v"
  else if value = 12 then "\\f"
  else if value = 13 then "\\r"
  else if value = 39 ∨ value = 92 then "\\" ++ ofBytes [value]
  else if value < 0x20 ∨ value = 0x7F then "\\x" ++ hexPadded 2 value.toNat
  else if within 0x80 0xA0 value ∨ value = 0xAD then "\\u" ++ hexPadded 4 value.toNat
  else ofBytes [value]

/-- The verb `%q` of `fmt` for a byte, which is taken as a rune. -/
def quoteByte (value : UInt8) : String := "\'" ++ escapeByte value ++ "\'"

/-! ## Trimming -/

/-- Drop runes off the front while they are spaces; every rune has at least one byte. -/
def dropSpaces (decode : Text → Nat × Nat) : Nat → Text → Text
  | 0, text => text
  | fuel + 1, text =>
      if text.isEmpty then text
      else if isSpaceRune (decode text).1 then
        dropSpaces decode fuel (text.drop (decode text).2)
      else text

/-- `strings.TrimSpace`. -/
def trimSpaceText (text : Text) : Text :=
  let left := dropSpaces decodeRune text.length text
  (dropSpaces decodeLastRune left.length left.reverse).reverse

/-- `strings.TrimRight` with a cutset of ASCII characters. -/
def trimRight (cutset : List UInt8) (text : Text) : Text :=
  (text.reverse.dropWhile (cutset.contains ·)).reverse

/-- `strings.TrimLeft` with a cutset of ASCII characters. -/
def trimLeft (cutset : List UInt8) (text : Text) : Text :=
  text.dropWhile (cutset.contains ·)

/-! ## Searching -/

/-- `strings.HasPrefix`. -/
def hasPrefix (text start : Text) : Bool := start.isPrefixOf text

/-- `strings.HasSuffix`. -/
def hasSuffix (text ending : Text) : Bool := ending.isSuffixOf text

/-- `strings.TrimPrefix`. -/
def trimPrefix (text start : Text) : Text :=
  if hasPrefix text start then text.drop start.length else text

/-- `strings.TrimSuffix`. -/
def trimSuffix (text ending : Text) : Text :=
  if hasSuffix text ending then text.take (text.length - ending.length) else text

/-- `strings.Index` of one byte. -/
def indexByte (text : Text) (wanted : UInt8) : Option Nat := text.findIdx? (· = wanted)

/-- `strings.LastIndexByte`. -/
def lastIndexByte (text : Text) (wanted : UInt8) : Option Nat :=
  (indexByte text.reverse wanted).map fun following => text.length - 1 - following

theorem lastIndexByte_append {before after : Text} {wanted : UInt8} (absent : wanted ∉ after) :
    lastIndexByte (before ++ wanted :: after) wanted = some before.length := by
  have others : ∀ value ∈ after.reverse, decide (value = wanted) = false := by
    intro value member
    exact decide_eq_false fun same => absent (same ▸ List.mem_reverse.mp member)
  have found : indexByte (before ++ wanted :: after).reverse wanted = some after.length := by
    rw [indexByte, List.reverse_append, List.reverse_cons, List.append_assoc,
      List.findIdx?_append, List.findIdx?_eq_none_iff.mpr others]
    simp [List.findIdx?_cons]
  rw [lastIndexByte, found, Option.map_some, List.length_append, List.length_cons]
  congr 1
  omega

/-- `strings.Index`. -/
def indexText (wanted : Text) : Text → Option Nat
  | [] => if wanted.isEmpty then some 0 else none
  | value :: rest =>
      if hasPrefix (value :: rest) wanted then some 0
      else (indexText wanted rest).map (· + 1)

/-- `strings.Split` at one byte. -/
def splitByte (text : Text) (separator : UInt8) : List Text := text.splitOn separator

theorem not_mem_of_mem_splitByte {text line : Text} {separator : UInt8}
    (member : line ∈ splitByte text separator) : separator ∉ line := by
  unfold splitByte at member
  induction text generalizing line with
  | nil =>
      rw [List.splitOn_nil, List.mem_singleton] at member
      simp [member]
  | cons value rest inductionHypothesis =>
      rw [List.splitOn_cons_eq_if_modifyHead] at member
      split at member
      · cases List.mem_cons.mp member with
        | inl empty => simp [empty]
        | inr later => exact inductionHypothesis later
      · next other =>
          have different : separator ≠ value := by
            intro same
            simp [same] at other
          cases parts : List.splitOn separator rest with
          | nil => exact absurd parts (List.splitOn_ne_nil separator rest)
          | cons first others =>
              rw [parts] at member
              cases List.mem_cons.mp member with
              | inl extended =>
                  have absent := inductionHypothesis (parts ▸ List.mem_cons_self)
                  simp [extended, different, absent]
              | inr later =>
                  exact inductionHypothesis (parts ▸ List.mem_cons_of_mem first later)

/-- `strings.Join` with one byte. -/
def joinByte (parts : List Text) (separator : UInt8) : Text := [separator].intercalate parts

/-- `strings.ToLower` on the ASCII letters; the other bytes stay. -/
def toLowerAscii (text : Text) : Text :=
  text.map fun value => if within (byte 'A') (byte 'Z') value then value + 32 else value

end GitScale.Go
