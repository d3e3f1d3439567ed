import GitScale.Approval.FloatText
import GitScale.Approval.JsonText
import GitScale.Go.Decimal
import GitScale.Go.JsonString
import GitScale.GraphQL.LexemeConversion

/-!
# What `json.Marshal` writes is what `json.Unmarshal` reads

The text of a tree without blanks, as `json.Marshal` writes it.  It is valid JSON with that tree,
and a string in it decodes to the string that was written, whatever had to be escaped.
-/

namespace GitScale.Go

open Foundation GraphQL Approval

/-! ## Strings -/

/-- The rune of a character. -/
def runeOf (character : Char) : Rune := ⟨_, _, encoded_utf8EncodeChar character⟩

/-- What is written for a character of a string. -/
def charText (character : Char) : Text := encodePiece (.rune (runeOf character))

/-- The text between the quotes of a string. -/
def bodyOf (text : String) : Text := text.toList.flatMap charText

/-- The code unit of four hexadecimal digits. -/
def unitValue (first second third fourth : UInt8) : Nat :=
  ((GraphQL.hexValue first * 16 + GraphQL.hexValue second) * 16 + GraphQL.hexValue third) * 16 +
    GraphQL.hexValue fourth

/-- The ways in which a character is written. -/
inductive CharForm (character : Char) : Text → Prop where
  | plain {bytes : Text} (encoded : Encoded bytes character.toNat)
      (visible : ∀ value ∈ bytes, value ≠ quote ∧ value ≠ backslash ∧ ¬ value < 0x20) :
      CharForm character bytes
  | escape {letter : UInt8} (standard : isEscape letter = true)
      (value : escapeRune letter = character.toNat) : CharForm character [backslash, letter]
  | unicode {first second third fourth : UInt8}
      (hex : [first, second, third, fourth].all isHex = true)
      (value : unitValue first second third fourth = character.toNat)
      (single : character.toNat < 0xD800) :
      CharForm character [backslash, byte 'u', first, second, third, fourth]

theorem hexValue_nibbles : ∀ value : UInt8,
    isHex (byte (hexDigit (value >>> 4))) = true ∧ isHex (byte (hexDigit (value &&& 0xf))) = true ∧
      unitValue (byte '0') (byte '0') (byte (hexDigit (value >>> 4)))
        (byte (hexDigit (value &&& 0xf))) = value.toNat :=
  forall_byte (by decide)

theorem charForm_escapeAscii {character : Char} {value : UInt8} (ascii : value < 0x80)
    (code : value.toNat = character.toNat) : CharForm character (escapeAscii value) := by
  unfold escapeAscii
  split_ifs with special backspace formFeed newline carriageReturn tab escaped
  · apply CharForm.escape
    · rcases special with rfl | rfl <;> decide
    · rw [← code]
      rcases special with rfl | rfl <;> rfl
  · exact .escape (by decide) (by rw [← code, backspace]; rfl)
  · exact .escape (by decide) (by rw [← code, formFeed]; rfl)
  · exact .escape (by decide) (by rw [← code, newline]; rfl)
  · exact .escape (by decide) (by rw [← code, carriageReturn]; rfl)
  · exact .escape (by decide) (by rw [← code, tab]; rfl)
  · obtain ⟨high, low, digits⟩ := hexValue_nibbles value
    have small := UInt8.lt_iff_toNat_lt.mp ascii
    apply CharForm.unicode
    · simp only [List.all_cons, List.all_nil, high, low, Bool.and_true]
      decide
    · rw [← code, digits]
    · have limit : (0x80 : UInt8).toNat = 128 := rfl
      omega
  · apply CharForm.plain
    · rw [← code]
      exact .one ascii
    · intro other member
      rcases List.mem_singleton.mp member with rfl
      refine ⟨fun same => special (.inl same), fun same => special (.inr same), ?_⟩
      intro control
      exact escaped (.inl control)

theorem separator_digits {code : Nat} (separator : code = 0x2028 ∨ code = 0x2029) :
    [byte '2', byte '0', byte '2', byte (hexDigit (UInt8.ofNat (code % 16)))].all isHex = true ∧
      unitValue (byte '2') (byte '0') (byte '2')
        (byte (hexDigit (UInt8.ofNat (code % 16)))) = code := by
  rcases separator with rfl | rfl <;> decide

theorem charForm_multibyte {character : Char} {bytes : Text} {code : Nat}
    (encoded : Encoded bytes code) (same : code = character.toNat) (wide : bytes.length ≠ 1) :
    CharForm character (if code = 0x2028 ∨ code = 0x2029 then
      [reverseSolidus, byte 'u', byte '2', byte '0', byte '2',
        byte (hexDigit (UInt8.ofNat (code % 16)))]
      else bytes) := by
  subst same
  split_ifs with separator
  · obtain ⟨hex, value⟩ := separator_digits separator
    exact .unicode hex value (by omega)
  · apply CharForm.plain encoded
    intro value member
    have high : ¬ value < 0x80 := by
      intro ascii
      exact wide (by rw [encoded.single_of_mem_ascii ascii member]; rfl)
    refine ⟨?_, ?_, ?_⟩
    · rintro rfl
      exact high (by decide)
    · rintro rfl
      exact high (by decide)
    · intro control
      exact high (UInt8.lt_trans control (by decide))

theorem charForm (character : Char) : CharForm character (charText character) := by
  have general (rune : Rune) (same : rune.code = character.toNat) :
      CharForm character (encodePiece (.rune rune)) := by
    obtain ⟨bytes, code, encoded⟩ := rune
    cases encoded with
    | one ascii => exact charForm_escapeAscii ascii same
    | two leading bounds width =>
        exact charForm_multibyte (.two leading bounds width) same (by simp)
    | three leading bounds longer continued width =>
        exact charForm_multibyte (.three leading bounds longer continued width) same (by simp)
    | four leading bounds longer continued longest width =>
        exact charForm_multibyte (.four leading bounds longer continued longest width) same
          (by simp)
  exact general (runeOf character) rfl

theorem readBody_visible {bytes : Text} (rest : Text)
    (visible : ∀ value ∈ bytes, value ≠ quote ∧ value ≠ backslash ∧ ¬ value < 0x20) :
    readBody (bytes ++ rest) = (bytes ++ ·) <$> readBody rest := by
  induction bytes with
  | nil => exact (id_map (readBody rest)).symm
  | cons value others inductionHypothesis =>
      obtain ⟨notQuote, notBackslash, seen⟩ := visible value List.mem_cons_self
      rw [List.cons_append, readBody_plain notQuote notBackslash seen, inductionHypothesis
        fun other member => visible other (List.mem_cons_of_mem _ member)]
      cases readBody rest <;> rfl

theorem readBody_charForm {character : Char} {text : Text} (form : CharForm character text)
    (rest : Text) : readBody (text ++ rest) = (text ++ ·) <$> readBody rest := by
  cases form with
  | plain encoded visible => exact readBody_visible rest visible
  | escape standard value => exact readBody_escape standard
  | unicode hex value single => exact readBody_unicode hex

/-- The body of a string ends at the quote after it. -/
theorem readBody_bodyOf (text : String) (rest : Text) :
    readBody (bodyOf text ++ quote :: rest) = some (bodyOf text) := by
  unfold bodyOf
  induction text.toList with
  | nil => exact readBody_quote
  | cons character others inductionHypothesis =>
      rw [List.flatMap_cons, List.append_assoc, readBody_charForm (charForm character),
        inductionHypothesis]
      rfl

theorem surrogatePair_of_lt {code : Nat} (single : code < 0xD800) (low : Nat) :
    surrogatePair code low = none := by
  unfold surrogatePair
  rw [if_neg (by omega)]

theorem runes_charForm {character : Char} {text : Text} (form : CharForm character text)
    (fuel : Nat) (rest : Text) :
    runes (fuel + 1) (text ++ rest) = character.toNat :: runes fuel rest := by
  cases form with
  | plain encoded visible =>
      have decoded := encoded.decodeRune_append rest
      cases text with
      | nil => exact absurd rfl encoded.ne_nil
      | cons first others =>
          have notBackslash := (visible first List.mem_cons_self).2.1
          rw [List.cons_append] at decoded ⊢
          rw [runes, if_neg notBackslash, decoded, List.length_cons, Nat.add_sub_cancel,
            List.drop_left]
  | @escape letter standard value =>
      have notUnicode : letter ≠ byte 'u' := by
        rintro rfl
        exact absurd standard (by decide)
      have single : codeUnit (backslash :: letter :: rest) = none := by
        unfold codeUnit
        split
        · rename_i equal
          cases equal
          rw [if_neg fun both => notUnicode both.2]
        · rfl
      simp only [List.cons_append, List.nil_append]
      rw [runes, if_pos rfl, single]
      dsimp only [List.headD_cons]
      rw [value]
      rfl
  | @unicode first second third fourth hex value single =>
      simp only [List.cons_append, List.nil_append]
      have unit : codeUnit (backslash :: byte 'u' :: first :: second :: third :: fourth :: rest) =
          some character.toNat := by
        rw [codeUnit, if_pos ⟨rfl, rfl⟩, ← value, unitValue]
      have noPair (low : Option Nat) : low.bind (surrogatePair character.toNat) = none := by
        cases low with
        | none => rfl
        | some low => exact surrogatePair_of_lt single low
      rw [runes, if_pos rfl, unit]
      dsimp only
      rw [noPair]
      dsimp only
      rw [singleUnit, if_neg (by omega)]
      rfl

theorem CharForm.ne_nil {character : Char} {text : Text} (form : CharForm character text) :
    text ≠ [] := by
  cases form with
  | plain encoded visible => exact encoded.ne_nil
  | escape => exact List.cons_ne_nil _ _
  | unicode => exact List.cons_ne_nil _ _

theorem runes_flatMap_charText (characters : List Char) (fuel : Nat)
    (enough : (characters.flatMap charText).length ≤ fuel) :
    runes fuel (characters.flatMap charText) = characters.map Char.toNat := by
  induction characters generalizing fuel with
  | nil => cases fuel <;> rfl
  | cons character others inductionHypothesis =>
      have nonempty := List.length_pos_iff.mpr (charForm character).ne_nil
      rw [List.flatMap_cons, List.length_append] at enough
      cases fuel with
      | zero => omega
      | succ fuel =>
          rw [List.flatMap_cons, runes_charForm (charForm character), List.map_cons,
            inductionHypothesis fuel (by omega)]

/-- A string decodes to what was written. -/
theorem unquote_bodyOf (text : String) : GraphQL.unquote (bodyOf text) = text := by
  rw [GraphQL.unquote, bodyOf, runes_flatMap_charText _ _ (Nat.le_refl _), List.map_map]
  have same : Char.ofNat ∘ Char.toNat = id := by
    funext character
    exact Char.ofNat_toNat character
  rw [same, List.map_id, String.ofList_toList]

/-! ## Trees -/

def tokenText : JsonToken → Text
  | .mark mark => [mark.byte]
  | .comma => [byte ',']
  | .null => utf8 "null"
  | .boolean true => utf8 "true"
  | .boolean false => utf8 "false"
  | .number numeral => numeral.text
  | .string body => quote :: (body ++ [quote])

/-- The text of a string that ends at the quote after it. -/
def Closes (body : Text) : Prop := ∀ rest, readBody (body ++ quote :: rest) = some body

/-- The token is one of a JSON text. -/
def Written : JsonToken → Prop
  | .number numeral => numeral.valid = true
  | .string body => Closes body
  | _ => True

theorem eq_of_mayPrecede {numeral : Numeral} {second : JsonToken}
    (follows : (JsonToken.number numeral).mayPrecede second = true) :
    second = .comma ∨ second = .mark .closeBrace ∨ second = .mark .closeBracket := by
  simpa [JsonToken.mayPrecede, JsonToken.isString, or_assoc] using follows

/-- A number is read back, its exponent included. -/
theorem lexJson_numeral {numeral : Numeral} (valid : numeral.valid = true) {rest : Text}
    (ends : EndsNumber rest) :
    lexJson (numeral.text ++ rest) = (.number numeral :: ·) <$> lexJson rest := by
  have read := readNumeral_text valid ends
  obtain ⟨first, others, mantissaEq, starts, -⟩ := mantissa_eq_cons valid
  obtain ⟨notBlank, notPunctuator, notQuote⟩ := numberStart_spec starts
  have textEq : numeral.text = first :: (others ++ numeral.exponent.elim [] Exponent.text) := by
    rw [Numeral.text, mantissaEq, List.cons_append]
  rw [textEq, List.cons_append] at read ⊢
  have emits : nextToken first ((others ++ numeral.exponent.elim [] Exponent.text) ++ rest) =
      .ok ([.number numeral], (others ++ numeral.exponent.elim [] Exponent.text).length) := by
    unfold nextToken
    rw [if_neg notBlank, notPunctuator]
    dsimp only
    rw [if_neg notQuote, if_pos starts, read]
    dsimp only
    rw [textEq, List.length_cons, Nat.add_sub_cancel]
  exact scan_append_of_ok emits

theorem lexJson_tokenText {token : JsonToken} (written : Written token) {rest : Text}
    (stop : ∀ numeral, token = .number numeral →
      ∀ value ∈ rest.head?, endsNumber value = true) :
    lexJson (tokenText token ++ rest) = (token :: ·) <$> lexJson rest := by
  cases token with
  | mark mark => exact lexJson_mark mark
  | comma => exact lexJson_comma
  | null => exact lexJson_null
  | boolean value =>
      cases value with
      | true => exact lexJson_true
      | false => exact lexJson_false
  | number numeral => exact lexJson_numeral written (stop numeral rfl)
  | string body =>
      have lexed := lexJson_string (written rest)
      simpa [tokenText] using lexed

/-- A way to write tokens that are read one by one.  What may follow a number ends it. -/
structure ReadsTokens (write : JsonToken → Text) : Prop where
  lexed : ∀ {token : JsonToken} {rest : Text}, Written token →
    (∀ numeral, token = .number numeral → ∀ value ∈ rest.head?, endsNumber value = true) →
    lexJson (write token ++ rest) = (token :: ·) <$> lexJson rest
  ends : ∀ token ∈ [JsonToken.comma, .mark .closeBrace, .mark .closeBracket], ∀ rest,
    ∀ value ∈ (write token ++ rest).head?, endsNumber value = true

theorem readsTokens_tokenText : ReadsTokens tokenText where
  lexed written stop := lexJson_tokenText written stop
  ends := by
    intro token member rest value head
    simp only [List.mem_cons, List.not_mem_nil, or_false] at member
    rcases member with rfl | rfl | rfl <;> cases head <;> decide

/-- Tokens in an order that JSON allows are read back from their text. -/
theorem lexJson_flatMap {write : JsonToken → Text} (reads : ReadsTokens write)
    {tokens : List JsonToken} (ordered : Ordered tokens)
    (written : ∀ token ∈ tokens, Written token) : lexJson (tokens.flatMap write) = .ok tokens := by
  induction tokens with
  | nil => rfl
  | cons token others inductionHypothesis =>
      have later := inductionHypothesis ordered.tail
        fun other member => written other (List.mem_cons_of_mem _ member)
      rw [List.flatMap_cons, reads.lexed (written token List.mem_cons_self), later]
      · rfl
      · rintro numeral rfl
        cases others with
        | nil => simp
        | cons second others =>
            have follows := eq_of_mayPrecede (List.isChain_cons_cons.mp ordered).1
            rw [List.flatMap_cons]
            exact reads.ends second (by simpa using follows) _

theorem spans_elementTokens {elements : List JsonTree}
    (each : ∀ element ∈ elements, Spans element.tokens) (nonempty : elements ≠ []) :
    Spans (elementTokens elements) := by
  induction elements with
  | nil => exact absurd rfl nonempty
  | cons element others inductionHypothesis =>
      have first := each element List.mem_cons_self
      cases others with
      | nil =>
          rw [elementTokens]
          exact first
      | cons second others =>
          rw [elementTokens_cons]
          exact first.comma (inductionHypothesis
            (fun other member => each other (List.mem_cons_of_mem _ member))
            (List.cons_ne_nil _ _))

/-- The members of an object, and the key that they start with. -/
theorem spans_memberTokens {members : List (Text × JsonTree)}
    (each : ∀ member ∈ members, Spans member.2.tokens) (nonempty : members ≠ []) :
    Spans (memberTokens members) ∧
      ∀ first ∈ (memberTokens members).head?, first.isString = true := by
  induction members with
  | nil => exact absurd rfl nonempty
  | cons member others inductionHypothesis =>
      obtain ⟨key, value⟩ := member
      have first : Spans (.string key :: .mark .colon :: value.tokens) :=
        (each (key, value) List.mem_cons_self).member key
      refine ⟨?_, ?_⟩
      · cases others with
        | nil =>
            rw [memberTokens]
            exact first
        | cons second others =>
            rw [memberTokens_cons]
            exact first.comma (inductionHypothesis
              (fun other member => each other (List.mem_cons_of_mem _ member))
              (List.cons_ne_nil _ _)).1
      · intro token head
        rw [memberTokens_cons] at head
        cases head
        rfl

/-- The tokens of a tree stand in an order that JSON allows. -/
theorem spans_tokens (tree : JsonTree) : Spans tree.tokens := by
  induction tree using JsonTree.induction with
  | null =>
      rw [JsonTree.tokens]
      exact spans_singleton rfl rfl
  | bool value =>
      rw [JsonTree.tokens]
      exact spans_singleton rfl rfl
  | number numeral =>
      rw [JsonTree.tokens]
      exact spans_singleton rfl rfl
  | string body =>
      rw [JsonTree.tokens]
      exact spans_singleton rfl rfl
  | array elements inductionHypothesis =>
      rw [JsonTree.tokens]
      by_cases empty : elements = []
      · subst empty
        rw [elementTokens]
        exact spans_pair rfl rfl rfl
      · have inside := spans_elementTokens inductionHypothesis empty
        apply inside.enclosed rfl _ (.inr rfl)
        obtain ⟨first, others, shape, starts⟩ := inside.starts
        intro token head
        rw [shape] at head
        cases head
        simp [JsonToken.mayPrecede, starts]
  | object members inductionHypothesis =>
      rw [JsonTree.tokens]
      by_cases empty : members = []
      · subst empty
        rw [memberTokens]
        exact spans_pair rfl rfl rfl
      · obtain ⟨inside, keyed⟩ := spans_memberTokens inductionHypothesis empty
        apply inside.enclosed rfl _ (.inl rfl)
        intro token head
        simp [JsonToken.mayPrecede, keyed token head]

/-- The text of a tree as `json.Marshal` writes it, without blanks. -/
def compact (tree : JsonTree) : Text := tree.tokens.flatMap tokenText

/-- All tokens of the tree are ones that `json.Marshal` writes. -/
def Marshals (tree : JsonTree) : Prop := ∀ token ∈ tree.tokens, Written token

theorem denotes_compact {tree : JsonTree} (marshals : Marshals tree) :
    Denotes (compact tree) tree :=
  lexJson_flatMap readsTokens_tokenText (spans_tokens tree).ordered marshals

/-- What is written is read back. -/
theorem readJson_compact {tree : JsonTree} (marshals : Marshals tree) :
    readJson (compact tree) = some tree :=
  readJson_of_denotes (denotes_compact marshals)

/-! ## Go values -/

/-- A string. -/
def jsonString (text : String) : JsonTree := .string (bodyOf text)

/-- An integer of any width. -/
def jsonInt (value : Int) : JsonTree :=
  .number ⟨value < 0, (Nat.toDigits 10 value.natAbs).map byte, [], none⟩

/-- A struct or a map, by the names of its members. -/
def jsonObject (members : List (String × JsonTree)) : JsonTree :=
  .object (members.map fun member => (bodyOf member.1, member.2))

theorem compact_jsonObject_ne_nil (members : List (String × JsonTree)) :
    compact (jsonObject members) ≠ [] := by
  simp [compact, jsonObject, JsonTree.tokens, tokenText]

theorem marshals_jsonString (text : String) : Marshals (jsonString text) := by
  intro token member
  rw [jsonString, JsonTree.tokens, List.mem_singleton] at member
  rw [member]
  exact readBody_bodyOf text

theorem marshals_bool (value : Bool) : Marshals (.bool value) := by
  intro token member
  rw [JsonTree.tokens, List.mem_singleton] at member
  rw [member]
  trivial

theorem byte_eq_iff {character other : Char} (small : character.toNat < 128)
    (small' : other.toNat < 128) : byte character = byte other ↔ character = other := by
  have value {character : Char} (small : character.toNat < 128) :
      (byte character).toNat = character.toNat := by
    simp only [byte, Char.toUInt8, UInt32.toNat_toUInt8]
    exact Nat.mod_eq_of_lt (by simpa using Nat.lt_trans small (by decide))
  constructor
  · intro same
    have codes : character.toNat = other.toNat := by rw [← value small, ← value small', same]
    rw [← Char.ofNat_toNat character, codes, Char.ofNat_toNat]
  · intro same
    rw [same]

theorem isDigit_byte {character : Char} (digit : character.isDigit = true) :
    GraphQL.isDigit (byte character) = true := by
  have range : 48 ≤ character.toNat ∧ character.toNat ≤ 57 := by
    simpa [Char.isDigit, UInt32.le_iff_toNat_le] using digit
  rw [GraphQL.isDigit, within_iff]
  have value : (byte character).toNat = character.toNat := by
    simp only [byte, Char.toUInt8, UInt32.toNat_toUInt8]
    exact Nat.mod_eq_of_lt (by simpa using Nat.lt_of_le_of_lt range.2 (by decide))
  rw [value]
  exact range

theorem isInteger_toDigits (value : Nat) :
    isInteger ((Nat.toDigits 10 value).map byte) = true := by
  have digits : ∀ digit ∈ (Nat.toDigits 10 value).map byte, GraphQL.isDigit digit = true := by
    intro digit member
    rcases List.mem_map.mp member with ⟨character, char_mem, rfl⟩
    exact isDigit_byte (isDigit_of_mem_toDigits char_mem)
  by_cases zero : value = 0
  · subst zero
    rfl
  · have leading := head_toDigits_ne_zero (Nat.pos_iff_ne_zero.mpr zero)
    cases shape : Nat.toDigits 10 value with
    | nil => exact absurd shape Nat.toDigits_ne_nil
    | cons first others =>
        rw [shape] at digits leading
        have isDigitFirst : first.isDigit = true := by
          have occurs : first ∈ Nat.toDigits 10 value := by
            rw [shape]
            exact List.mem_cons_self
          exact isDigit_of_mem_toDigits occurs
        have nonzero : byte first ≠ byte '0' := by
          rw [Ne, byte_eq_iff (toNat_lt_of_isDigit isDigitFirst) (by decide)]
          simpa using leading
        cases others with
        | nil => simpa [isInteger] using digits
        | cons second others =>
            rw [List.map_cons, List.map_cons] at digits ⊢
            have first_digit := digits _ List.mem_cons_self
            have rest : (byte second :: others.map byte).all GraphQL.isDigit = true :=
              List.all_eq_true.mpr fun digit member =>
                digits digit (List.mem_cons_of_mem _ member)
            rw [isInteger, first_digit, rest]
            · simpa using nonzero
            · exact fun absurd => List.cons_ne_nil _ _ absurd

/-- The literal of an integer, as `strconv.FormatInt` prints it. -/
theorem text_jsonInt (value : Int) :
    Numeral.text ⟨value < 0, (Nat.toDigits 10 value.natAbs).map byte, [], none⟩ =
      (formatInt value).map byte := by
  unfold formatInt
  by_cases negative : value < 0
  · simp [Numeral.text, Numeral.mantissa, fractionText, negative]
  · have same : value.natAbs = value.toNat := by omega
    simp [Numeral.text, Numeral.mantissa, fractionText, negative, same]

theorem marshals_jsonInt (value : Int) : Marshals (jsonInt value) := by
  intro token member
  rw [jsonInt, JsonTree.tokens, List.mem_singleton] at member
  rw [member]
  simp [Written, Numeral.valid, isInteger_toDigits]

theorem written_elementTokens {elements : List JsonTree} :
    (∀ token ∈ elementTokens elements, Written token) ↔ ∀ element ∈ elements, Marshals element := by
  induction elements with
  | nil => simp [elementTokens]
  | cons element others inductionHypothesis =>
      rw [List.forall_mem_cons, ← inductionHypothesis, elementTokens_cons, List.forall_mem_append]
      refine and_congr Iff.rfl ?_
      split
      · rename_i empty
        rw [empty]
        simp [elementTokens]
      · rw [List.forall_mem_cons]
        exact and_iff_right trivial

/-- An array is written if its elements are. -/
theorem marshals_array {elements : List JsonTree} :
    Marshals (.array elements) ↔ ∀ element ∈ elements, Marshals element := by
  rw [← written_elementTokens, Marshals, JsonTree.tokens, List.forall_mem_cons,
    List.forall_mem_append, List.forall_mem_singleton]
  exact ⟨fun written => written.2.1, fun written => ⟨trivial, written, trivial⟩⟩

theorem written_memberTokens {members : List (Text × JsonTree)} :
    (∀ token ∈ memberTokens members, Written token) ↔
      ∀ member ∈ members, Closes member.1 ∧ Marshals member.2 := by
  induction members with
  | nil => simp [memberTokens]
  | cons member others inductionHypothesis =>
      rw [List.forall_mem_cons, ← inductionHypothesis, memberTokens_cons, List.forall_mem_cons,
        List.forall_mem_cons, List.forall_mem_append, and_assoc]
      refine and_congr Iff.rfl ((and_iff_right trivial).trans (and_congr Iff.rfl ?_))
      split
      · rename_i empty
        rw [empty]
        simp [memberTokens]
      · rw [List.forall_mem_cons]
        exact and_iff_right trivial

/-- An object is written if its keys and its members are. -/
theorem marshals_object {members : List (Text × JsonTree)} :
    Marshals (.object members) ↔ ∀ member ∈ members, Closes member.1 ∧ Marshals member.2 := by
  rw [← written_memberTokens, Marshals, JsonTree.tokens, List.forall_mem_cons,
    List.forall_mem_append, List.forall_mem_singleton]
  exact ⟨fun written => written.2.1, fun written => ⟨trivial, written, trivial⟩⟩

theorem marshals_jsonObject {members : List (String × JsonTree)}
    (each : ∀ member ∈ members, Marshals member.2) : Marshals (jsonObject members) := by
  rw [jsonObject, marshals_object]
  intro member occurs
  rcases List.mem_map.mp occurs with ⟨named, inside, rfl⟩
  exact ⟨readBody_bodyOf named.1, each named inside⟩

end GitScale.Go
