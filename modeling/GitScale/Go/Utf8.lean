import GitScale.Go.Text

/-!
# UTF-8

The valid sequences of bytes and the runes that they stand for, and the texts that are whole
strings of characters.
-/

namespace GitScale.Go

/-! ## Valid sequences -/

/-- The valid sequences of `unicode/utf8` and their runes. -/
inductive Encoded : Text → Nat → Prop
  | one {first : UInt8} (ascii : first < 0x80) : Encoded [first] first.toNat
  | two {first second : UInt8} (leading : ¬ first < 0x80)
      (bounds : within (secondBounds first).1 (secondBounds first).2 second = true)
      (width : within 0xC2 0xDF first = true) :
      Encoded [first, second] ((first.toNat % 32) * 64 + second.toNat % 64)
  | three {first second third : UInt8} (leading : ¬ first < 0x80)
      (bounds : within (secondBounds first).1 (secondBounds first).2 second = true)
      (longer : ¬ within 0xC2 0xDF first = true) (continued : within 0x80 0xBF third = true)
      (width : within 0xE0 0xEF first = true) :
      Encoded [first, second, third]
        ((first.toNat % 16) * 4096 + (second.toNat % 64) * 64 + third.toNat % 64)
  | four {first second third fourth : UInt8} (leading : ¬ first < 0x80)
      (bounds : within (secondBounds first).1 (secondBounds first).2 second = true)
      (longer : ¬ within 0xC2 0xDF first = true) (continued : within 0x80 0xBF third = true)
      (longest : ¬ within 0xE0 0xEF first = true)
      (width : (within 0xF0 0xF4 first && within 0x80 0xBF fourth) = true) :
      Encoded [first, second, third, fourth]
        ((first.toNat % 8) * 262144 + (second.toNat % 64) * 4096 + (third.toNat % 64) * 64 +
          fourth.toNat % 64)

/-- A valid sequence is decoded whatever comes after it. -/
theorem Encoded.decodeRune_append {bytes : Text} {code : Nat} (encoded : Encoded bytes code)
    (rest : Text) : decodeRune (bytes ++ rest) = (code, bytes.length) := by
  cases encoded with
  | one ascii => simp [decodeRune, ascii]
  | two leading bounds width => simp [decodeRune, leading, bounds, width]
  | three leading bounds longer continued width =>
      simp [decodeRune, leading, bounds, longer, continued, width]
  | four leading bounds longer continued longest width =>
      simp only [Bool.and_eq_true] at width
      simp [decodeRune, leading, bounds, longer, continued, longest, width]

/-- What is decoded is a single broken byte or a valid sequence. -/
theorem encoded_of_decodeRune {first : UInt8} {rest : Text}
    (valid : decodeRune (first :: rest) ≠ (runeError, 1)) :
    Encoded ((first :: rest).take (decodeRune (first :: rest)).2)
      (decodeRune (first :: rest)).1 := by
  by_cases ascii : first < 0x80
  · simp only [decodeRune, if_pos ascii]
    exact .one ascii
  · rw [decodeRune.eq_def] at valid ⊢
    simp only [if_neg ascii] at valid ⊢
    cases rest with
    | nil => exact absurd rfl valid
    | cons second rest =>
        by_cases bounds : within (secondBounds first).1 (secondBounds first).2 second = true
        case neg => simp [bounds] at valid
        by_cases two : within 0xC2 0xDF first = true
        · simp only [bounds, two, not_true_eq_false, if_false, if_true]
          exact .two ascii bounds two
        simp only [bounds, two, not_true_eq_false, if_false, Bool.false_eq_true] at valid ⊢
        cases rest with
        | nil => exact absurd rfl valid
        | cons third rest =>
            by_cases continued : within 0x80 0xBF third = true
            case neg => simp [continued] at valid
            by_cases three : within 0xE0 0xEF first = true
            · simp only [continued, three, not_true_eq_false, if_false, if_true]
              exact .three ascii bounds two continued three
            simp only [continued, three, not_true_eq_false, if_false, Bool.false_eq_true] at valid ⊢
            cases rest with
            | nil => exact absurd rfl valid
            | cons fourth rest =>
                by_cases four : (within 0xF0 0xF4 first && within 0x80 0xBF fourth) = true
                case neg => simp [four] at valid
                simp only [four, if_true]
                exact .four ascii bounds two continued three four

theorem Encoded.ne_nil {bytes : Text} {code : Nat} (encoded : Encoded bytes code) :
    bytes ≠ [] := by
  cases encoded <;> exact List.cons_ne_nil _ _

theorem Encoded.ne_broken {bytes : Text} {code : Nat} (encoded : Encoded bytes code) :
    (code, bytes.length) ≠ (runeError, 1) := by
  cases encoded with
  | one ascii =>
      have below := UInt8.lt_iff_toNat_lt.mp ascii
      intro wrong
      have large := congrArg Prod.fst wrong
      simp only [runeError] at large
      rw [large] at below
      exact absurd below (by decide)
  | two => simp
  | three => simp
  | four => simp

theorem within_iff {low high value : UInt8} :
    within low high value = true ↔ low.toNat ≤ value.toNat ∧ value.toNat ≤ high.toNat := by
  simp [within, UInt8.le_iff_toNat_le]

theorem not_ascii_iff {value : UInt8} : ¬ value < 0x80 ↔ 128 ≤ value.toNat := by
  rw [UInt8.lt_iff_toNat_lt, Nat.not_lt]
  rfl

theorem within_secondBounds_iff {first second : UInt8} :
    within (secondBounds first).1 (secondBounds first).2 second = true ↔
      128 ≤ second.toNat ∧ second.toNat ≤ 191 ∧
      (first.toNat = 224 → 160 ≤ second.toNat) ∧ (first.toNat = 237 → second.toNat ≤ 159) ∧
      (first.toNat = 240 → 144 ≤ second.toNat) ∧ (first.toNat = 244 → second.toNat ≤ 143) := by
  have codes : ∀ value : UInt8, first = value ↔ first.toNat = value.toNat :=
    fun value => UInt8.toNat_inj.symm
  unfold secondBounds
  simp only [codes]
  split_ifs with e0 ed f0 f4
  all_goals
    rw [within_iff]
    simp only [UInt8.reduceToNat] at *
    omega

/-- The runes of each width; the surrogates are left out. -/
theorem Encoded.code_bounds {bytes : Text} {code : Nat} (encoded : Encoded bytes code) :
    (bytes.length = 1 ∧ code < 128) ∨ (bytes.length = 2 ∧ 128 ≤ code ∧ code < 2048) ∨
      (bytes.length = 3 ∧ 2048 ≤ code ∧ code < 65536 ∧ ¬ (55296 ≤ code ∧ code ≤ 57343)) ∨
      (bytes.length = 4 ∧ 65536 ≤ code ∧ code < 1114112) := by
  cases encoded with
  | one ascii => exact .inl ⟨rfl, UInt8.lt_iff_toNat_lt.mp ascii⟩
  | two leading bounds width =>
      rw [within_secondBounds_iff] at bounds
      rw [within_iff] at width
      simp only [UInt8.reduceToNat] at width
      exact .inr (.inl ⟨rfl, by omega, by omega⟩)
  | three leading bounds longer continued width =>
      rw [within_secondBounds_iff] at bounds
      rw [within_iff] at continued width
      simp only [UInt8.reduceToNat] at continued width
      exact .inr (.inr (.inl ⟨rfl, by omega, by omega, by omega⟩))
  | four leading bounds longer continued longest width =>
      rw [within_secondBounds_iff] at bounds
      rw [Bool.and_eq_true, within_iff, within_iff] at width
      rw [within_iff] at continued
      simp only [UInt8.reduceToNat] at continued width
      exact .inr (.inr (.inr ⟨rfl, by omega, by omega⟩))

/-- Only a sequence of one byte has an ASCII byte. -/
theorem Encoded.single_of_mem_ascii {bytes : Text} {code : Nat} (encoded : Encoded bytes code)
    {value : UInt8} (ascii : value < 0x80) (member : value ∈ bytes) : bytes = [value] := by
  have small := UInt8.lt_iff_toNat_lt.mp ascii
  simp only [UInt8.reduceToNat] at small
  cases encoded with
  | one => rw [List.mem_singleton.mp member]
  | two leading bounds width =>
      rw [not_ascii_iff] at leading
      rw [within_secondBounds_iff] at bounds
      simp only [List.mem_cons, List.not_mem_nil, or_false] at member
      rcases member with rfl | rfl
      · omega
      · omega
  | three leading bounds longer continued width =>
      rw [not_ascii_iff] at leading
      rw [within_secondBounds_iff] at bounds
      rw [within_iff] at continued
      simp only [UInt8.reduceToNat] at continued
      simp only [List.mem_cons, List.not_mem_nil, or_false] at member
      rcases member with rfl | rfl | rfl
      · omega
      · omega
      · omega
  | four leading bounds longer continued longest width =>
      rw [not_ascii_iff] at leading
      rw [within_secondBounds_iff] at bounds
      rw [Bool.and_eq_true, within_iff, within_iff] at width
      rw [within_iff] at continued
      simp only [UInt8.reduceToNat] at continued width
      simp only [List.mem_cons, List.not_mem_nil, or_false] at member
      rcases member with rfl | rfl | rfl | rfl
      · omega
      · omega
      · omega
      · omega

/-! ## Characters -/

theorem toNat_ofNat {value : Nat} (small : value < 256) : (UInt8.ofNat value).toNat = value := by
  rw [UInt8.toNat_ofNat']
  exact Nat.mod_eq_of_lt small

theorem Encoded.congr {bytes : Text} {code code' : Nat} (encoded : Encoded bytes code)
    (same : code = code') : Encoded bytes code' := same ▸ encoded

theorem encoded_two {code : Nat} (low : 128 ≤ code) (high : code < 2048) :
    Encoded [UInt8.ofNat (code / 64 % 32 + 192), UInt8.ofNat (code % 64 + 128)] code := by
  have first : (UInt8.ofNat (code / 64 % 32 + 192)).toNat = code / 64 % 32 + 192 :=
    toNat_ofNat (by omega)
  have second : (UInt8.ofNat (code % 64 + 128)).toNat = code % 64 + 128 :=
    toNat_ofNat (by omega)
  refine (Encoded.two ?_ ?_ ?_).congr ?_
  · rw [not_ascii_iff, first]
    omega
  · rw [within_secondBounds_iff, first, second]
    omega
  · rw [within_iff, first]
    simp only [UInt8.reduceToNat]
    omega
  · rw [first, second]
    omega

theorem encoded_three {code : Nat} (low : 2048 ≤ code) (high : code < 65536)
    (scalar : ¬ (55296 ≤ code ∧ code ≤ 57343)) :
    Encoded [UInt8.ofNat (code / 4096 % 16 + 224), UInt8.ofNat (code / 64 % 64 + 128),
      UInt8.ofNat (code % 64 + 128)] code := by
  have first : (UInt8.ofNat (code / 4096 % 16 + 224)).toNat = code / 4096 % 16 + 224 :=
    toNat_ofNat (by omega)
  have second : (UInt8.ofNat (code / 64 % 64 + 128)).toNat = code / 64 % 64 + 128 :=
    toNat_ofNat (by omega)
  have third : (UInt8.ofNat (code % 64 + 128)).toNat = code % 64 + 128 :=
    toNat_ofNat (by omega)
  refine (Encoded.three ?_ ?_ ?_ ?_ ?_).congr ?_
  · rw [not_ascii_iff, first]
    omega
  · rw [within_secondBounds_iff, first, second]
    omega
  · rw [within_iff, first]
    simp only [UInt8.reduceToNat]
    omega
  · rw [within_iff, third]
    simp only [UInt8.reduceToNat]
    omega
  · rw [within_iff, first]
    simp only [UInt8.reduceToNat]
    omega
  · rw [first, second, third]
    omega

theorem encoded_four {code : Nat} (low : 65536 ≤ code) (high : code < 1114112) :
    Encoded [UInt8.ofNat (code / 262144 % 8 + 240), UInt8.ofNat (code / 4096 % 64 + 128),
      UInt8.ofNat (code / 64 % 64 + 128), UInt8.ofNat (code % 64 + 128)] code := by
  have first : (UInt8.ofNat (code / 262144 % 8 + 240)).toNat = code / 262144 % 8 + 240 :=
    toNat_ofNat (by omega)
  have second : (UInt8.ofNat (code / 4096 % 64 + 128)).toNat = code / 4096 % 64 + 128 :=
    toNat_ofNat (by omega)
  have third : (UInt8.ofNat (code / 64 % 64 + 128)).toNat = code / 64 % 64 + 128 :=
    toNat_ofNat (by omega)
  have fourth : (UInt8.ofNat (code % 64 + 128)).toNat = code % 64 + 128 :=
    toNat_ofNat (by omega)
  refine (Encoded.four ?_ ?_ ?_ ?_ ?_ ?_).congr ?_
  · rw [not_ascii_iff, first]
    omega
  · rw [within_secondBounds_iff, first, second]
    omega
  · rw [within_iff, first]
    simp only [UInt8.reduceToNat]
    omega
  · rw [within_iff, third]
    simp only [UInt8.reduceToNat]
    omega
  · rw [within_iff, first]
    simp only [UInt8.reduceToNat]
    omega
  · rw [Bool.and_eq_true, within_iff, within_iff, first, fourth]
    simp only [UInt8.reduceToNat]
    omega
  · rw [first, second, third, fourth]
    omega

/-- The bytes of a character are a valid sequence of its rune. -/
theorem encoded_utf8EncodeChar (character : Char) :
    Encoded (String.utf8EncodeChar character) character.toNat := by
  have scalar : character.toNat.isValidChar := character.valid
  have unfolded : character.toNat = character.val.toNat := rfl
  rw [unfolded] at scalar ⊢
  unfold String.utf8EncodeChar
  simp only
  generalize character.val.toNat = code at scalar ⊢
  split_ifs with one two three
  · have value : (UInt8.ofNat code).toNat = code := toNat_ofNat (by omega)
    refine (Encoded.one ?_).congr value
    rw [UInt8.lt_iff_toNat_lt, value]
    simp only [UInt8.reduceToNat]
    omega
  · exact encoded_two (by omega) (by omega)
  · exact encoded_three (by omega) (by omega) (by omega)
  · exact encoded_four (by omega) (by omega)

/-- The rune of a valid sequence is a character of the same width. -/
theorem Encoded.exists_char {bytes : Text} {code : Nat} (encoded : Encoded bytes code) :
    ∃ character : Char, character.toNat = code ∧
      (String.utf8EncodeChar character).length = bytes.length := by
  have bounds := encoded.code_bounds
  have scalar : code.isValidChar := by
    unfold Nat.isValidChar
    omega
  have value : (Char.ofNatAux code scalar).toNat = code := rfl
  have widths := (encoded_utf8EncodeChar (Char.ofNatAux code scalar)).code_bounds
  rw [value] at widths
  exact ⟨Char.ofNatAux code scalar, value, by omega⟩

/-! ## Strings -/

theorem toList_loop (bytes : ByteArray) (index : Nat) (front : List UInt8) :
    ByteArray.toList.loop bytes index front = front.reverse ++ bytes.data.toList.drop index := by
  have length : bytes.data.toList.length = bytes.size := rfl
  fun_induction ByteArray.toList.loop bytes index front with
  | case1 index front inside inductionHypothesis =>
      have bound : index < bytes.data.toList.length := length ▸ inside
      have first : bytes.get! index = bytes.data.toList[index] :=
        getElem!_pos bytes.data index inside
      rw [inductionHypothesis, List.drop_eq_getElem_cons bound, List.reverse_cons, first,
        List.append_assoc]
      rfl
  | case2 index front outside =>
      have bound : bytes.data.toList.length ≤ index := by
        rw [length]
        exact Nat.le_of_not_lt outside
      rw [List.drop_eq_nil_of_le bound, List.append_nil]

/-- The two ways to take the bytes of a string. -/
theorem toList_toUTF8 (text : String) : text.toUTF8.toList = utf8 text := by
  rw [ByteArray.toList, toList_loop, List.drop_zero]
  rfl

theorem utf8_eq_flatMap (text : String) :
    utf8 text = text.toList.flatMap String.utf8EncodeChar := by
  rw [utf8, String.toUTF8_eq_toByteArray, ← String.utf8Encode_toList, List.utf8Encode]
  simp

/-- The text consists of whole characters. -/
def Whole (text : Text) : Prop := ∃ characters : List Char,
  text = characters.flatMap String.utf8EncodeChar

theorem whole_utf8 (text : String) : Whole (utf8 text) := ⟨text.toList, utf8_eq_flatMap text⟩

theorem Whole.exists_string {text : Text} (whole : Whole text) : ∃ word, utf8 word = text := by
  obtain ⟨characters, rfl⟩ := whole
  exact ⟨String.ofList characters, by rw [utf8_eq_flatMap, String.toList_ofList]⟩

theorem Whole.append {front back : Text} (whole : Whole front) (whole' : Whole back) :
    Whole (front ++ back) := by
  obtain ⟨characters, rfl⟩ := whole
  obtain ⟨characters', rfl⟩ := whole'
  exact ⟨characters ++ characters', List.flatMap_append.symm⟩

theorem whole_utf8EncodeChar (character : Char) : Whole (String.utf8EncodeChar character) :=
  ⟨[character], (List.flatMap_singleton _ _).symm⟩

/-- An ASCII byte is a character of its own. -/
theorem Whole.split {front back : Text} {value : UInt8} (ascii : value < 0x80)
    (whole : Whole (front ++ value :: back)) : Whole front ∧ Whole back := by
  obtain ⟨characters, spelled⟩ := whole
  induction characters generalizing front with
  | nil => simp at spelled
  | cons character characters inductionHypothesis =>
      have encoded := encoded_utf8EncodeChar character
      rw [List.flatMap_cons] at spelled
      rcases List.append_eq_append_iff.mp spelled with ⟨rest, cut, tail⟩ | ⟨rest, cut, tail⟩
      · cases rest with
        | nil =>
            -- The byte starts the next character.
            rw [List.append_nil] at cut
            obtain ⟨-, later⟩ : Whole [] ∧ Whole back := inductionHypothesis tail
            exact ⟨cut ▸ whole_utf8EncodeChar character, later⟩
        | cons first rest =>
            -- The byte is within this character, which is then the byte alone.
            rw [List.cons_append] at tail
            obtain ⟨rfl, remainder⟩ := List.cons.inj tail
            have member : value ∈ String.utf8EncodeChar character := by
              rw [cut]
              simp
            rw [encoded.single_of_mem_ascii ascii member] at cut
            have lengths := congrArg List.length cut
            simp only [List.length_append, List.length_cons, List.length_nil] at lengths
            have noFront : front = [] := List.length_eq_zero_iff.mp (by omega)
            have noRest : rest = [] := List.length_eq_zero_iff.mp (by omega)
            rw [noRest, List.nil_append] at remainder
            exact ⟨noFront ▸ ⟨[], rfl⟩, characters, remainder⟩
      · obtain ⟨whole, later⟩ := inductionHypothesis tail.symm
        exact ⟨cut ▸ (whole_utf8EncodeChar character).append whole, later⟩

end GitScale.Go
