import GitScale.GraphQL.JsonSyntax
import GitScale.GraphQL.ObjectLiteral

/-!
# Lexemes as JSON

`graphqlObjectToJSON` along the lexemes of a literal.  Each lexeme gives its tokens of the JSON
text, whatever comes after it, except for exponents and for tabs in strings, which no JSON text
comes out of.
-/

namespace GitScale.GraphQL

open Foundation Go

variable {rest : Text}

/-! ## Converting lexemes -/

theorem convert_blank (blank : Blank) :
    graphqlObjectToJSON (blank.byte :: rest) =
      ([if blank = .comma then byte ',' else byte ' '] ++ ·) <$> graphqlObjectToJSON rest := by
  have emits : convertNext blank.byte rest =
      .ok ([if blank = .comma then byte ',' else byte ' '], 0) := by
    cases blank <;> rfl
  exact scan_cons_of_ok emits

theorem convert_mark (mark : Mark) :
    graphqlObjectToJSON (mark.byte :: rest) = ([mark.byte] ++ ·) <$> graphqlObjectToJSON rest := by
  have emits : convertNext mark.byte rest = .ok ([mark.byte], 0) := by
    cases mark <;> rfl
  exact scan_cons_of_ok emits

theorem isPlainByte_spec {value : UInt8} (plain : isPlainByte value = true) :
    value ≠ quote ∧ value ≠ backslash ∧ (value < 0x20 ↔ value = 9) := by
  have table : ∀ value, isPlainByte value = true →
      value ≠ quote ∧ value ≠ backslash ∧ (value < 0x20 ↔ value = 9) :=
    forall_byte (by decide)
  exact table value plain

theorem isHex_spec {value : UInt8} (hex : isHex value = true) :
    value ≠ quote ∧ value ≠ backslash := by
  have table : ∀ value, isHex value = true → value ≠ quote ∧ value ≠ backslash :=
    forall_byte (by decide)
  exact table value hex

theorem stringTaken_plain {value : UInt8} (notQuote : value ≠ quote)
    (notBackslash : value ≠ backslash) :
    stringTaken (value :: rest) = (· + 1) <$> stringTaken rest := by
  rw [stringTaken.eq_def]
  dsimp only
  rw [if_neg notBackslash, if_neg notQuote]

theorem stringTaken_escape (value : UInt8) :
    stringTaken (backslash :: value :: rest) = (· + 2) <$> stringTaken rest := by
  rw [stringTaken, if_pos rfl]

theorem stringTaken_bodyText (pieces : List StringPiece) :
    stringTaken (bodyText pieces ++ quote :: rest) = some ((bodyText pieces).length + 1) := by
  induction pieces with
  | nil =>
      rw [bodyText, List.flatMap_nil, List.nil_append, stringTaken.eq_def]
      rfl
  | cons piece pieces inductionHypothesis =>
      have body : bodyText (piece :: pieces) = piece.text ++ bodyText pieces := rfl
      rw [body, List.append_assoc, List.length_append]
      cases piece with
      | plain value isPlain =>
          have spec := isPlainByte_spec isPlain
          rw [StringPiece.text, List.singleton_append, stringTaken_plain spec.1 spec.2.1,
            inductionHypothesis]
          simp
          omega
      | escape value standard =>
          rw [StringPiece.text, List.cons_append, List.singleton_append, stringTaken_escape,
            inductionHypothesis]
          simp
          omega
      | unicode first second third fourth hex =>
          simp only [List.all_cons, List.all_nil, Bool.and_true, Bool.and_eq_true] at hex
          obtain ⟨isFirst, isSecond, isThird, isFourth⟩ := hex
          simp only [StringPiece.text, List.cons_append, List.nil_append]
          rw [stringTaken_escape, stringTaken_plain (isHex_spec isFirst).1 (isHex_spec isFirst).2,
            stringTaken_plain (isHex_spec isSecond).1 (isHex_spec isSecond).2,
            stringTaken_plain (isHex_spec isThird).1 (isHex_spec isThird).2,
            stringTaken_plain (isHex_spec isFourth).1 (isHex_spec isFourth).2,
            inductionHypothesis]
          simp
          omega

theorem convertNext_quote (rest : Text) :
    convertNext quote rest =
      (stringTaken rest).elim (.error .panic) fun taken => .ok (quote :: rest.take taken, taken) := by
  unfold convertNext
  cases stringTaken rest <;> rfl

theorem convert_string (pieces : List StringPiece) :
    graphqlObjectToJSON (quote :: (bodyText pieces ++ quote :: rest)) =
      (quoted (bodyText pieces) ++ ·) <$> graphqlObjectToJSON rest := by
  have same : bodyText pieces ++ quote :: rest = (bodyText pieces ++ [quote]) ++ rest := by simp
  have taken : stringTaken ((bodyText pieces ++ [quote]) ++ rest) =
      some (bodyText pieces ++ [quote]).length := by
    rw [← same, stringTaken_bodyText, List.length_append]
    rfl
  have emits : convertNext quote ((bodyText pieces ++ [quote]) ++ rest) =
      .ok (quoted (bodyText pieces), (bodyText pieces ++ [quote]).length) := by
    rw [convertNext_quote, taken, Option.elim, List.take_left]
    rfl
  rw [same]
  exact scan_append_of_ok emits

/-- The bytes of numbers and words are handled after all others. -/
theorem not_separator {value : UInt8} (content : isNumberByte value = true ∨ isLetter value = true) :
    ¬ (value = byte ' ' ∨ value = 10 ∨ value = 9 ∨ value = 13) ∧ value ≠ byte ',' ∧
      ¬ (value = byte '\x7b' ∨ value = byte '\x7d' ∨ value = byte '[' ∨ value = byte ']' ∨
        value = byte ':') ∧ value ≠ quote := by
  refine ⟨?_, ?_, ?_, ?_⟩
  · rintro (rfl | rfl | rfl | rfl) <;> exact absurd content (by decide)
  · rintro rfl
    exact absurd content (by decide)
  · rintro (rfl | rfl | rfl | rfl | rfl) <;> exact absurd content (by decide)
  · rintro rfl
    exact absurd content (by decide)

theorem convertNext_number {value : UInt8} (number : isNumberByte value = true) :
    convertNext value rest =
      .ok (value :: rest.takeWhile isNumberByte, (rest.takeWhile isNumberByte).length) := by
  obtain ⟨notBlank, notComma, notMark, notQuote⟩ := not_separator (Or.inl number)
  unfold convertNext
  rw [if_neg notBlank, if_neg notComma, if_neg notMark, if_neg notQuote, if_pos number]

/-- A run of number bytes is copied, which is the same as copying each of them. -/
theorem convert_numberByte {value : UInt8} (number : isNumberByte value = true) :
    graphqlObjectToJSON (value :: rest) = ([value] ++ ·) <$> graphqlObjectToJSON rest := by
  have first : graphqlObjectToJSON (value :: rest) =
      (value :: rest.takeWhile isNumberByte ++ ·) <$>
        graphqlObjectToJSON (rest.drop (rest.takeWhile isNumberByte).length) :=
    scan_cons_of_ok (convertNext_number number)
  rw [first]
  cases rest with
  | nil => rfl
  | cons next rest =>
      cases isNumber : isNumberByte next with
      | false => simp [isNumber]
      | true =>
          have later : graphqlObjectToJSON (next :: rest) =
              (next :: rest.takeWhile isNumberByte ++ ·) <$>
                graphqlObjectToJSON (rest.drop (rest.takeWhile isNumberByte).length) :=
            scan_cons_of_ok (convertNext_number isNumber)
          rw [later, Functor.map_map]
          simp [isNumber]

theorem convert_numberBytes {text : Text} (numbers : text.all isNumberByte = true) :
    graphqlObjectToJSON (text ++ rest) = (text ++ ·) <$> graphqlObjectToJSON rest := by
  induction text with
  | nil => exact (id_map _).symm
  | cons value text inductionHypothesis =>
      rw [List.all_cons, Bool.and_eq_true] at numbers
      rw [List.cons_append, convert_numberByte numbers.1, inductionHypothesis numbers.2,
        Functor.map_map]
      rfl

theorem convertNext_letter {value : UInt8} (letter : isLetter value = true) :
    convertNext value rest =
      .ok (convertIdent (value :: rest.takeWhile isIdentByte)
        (isKeyBefore (rest.dropWhile isIdentByte)), (rest.takeWhile isIdentByte).length) := by
  have table : ∀ value, isLetter value = true → ¬ isNumberByte value = true :=
    forall_byte (by decide)
  have notNumber := table value letter
  obtain ⟨notBlank, notComma, notMark, notQuote⟩ := not_separator (Or.inr letter)
  unfold convertNext
  rw [if_neg notBlank, if_neg notComma, if_neg notMark, if_neg notQuote, if_neg notNumber,
    if_pos letter]

theorem isIdentByte_eq (value : UInt8) : isIdentByte value = isNameByte value := by
  have table : ∀ value, isIdentByte value = isNameByte value := forall_byte (by decide)
  exact table value

theorem convert_word (name : Name) (stop : ∀ value ∈ rest.head?, isNameByte value = false) :
    graphqlObjectToJSON (name.text ++ rest) =
      (convertIdent name.text (isKeyBefore rest) ++ ·) <$> graphqlObjectToJSON rest := by
  obtain ⟨text, isName⟩ := name
  cases text with
  | nil => cases isName
  | cons first others =>
      obtain ⟨letter, nameBytes⟩ := Bool.and_eq_true_iff.mp isName
      rw [← funext isIdentByte_eq] at nameBytes stop
      have emits : convertNext first (others ++ rest) =
          .ok (convertIdent (first :: others) (isKeyBefore rest), others.length) := by
        rw [convertNext_letter letter, takeWhile_append_of_stop nameBytes stop,
          dropWhile_append_of_stop nameBytes stop]
      exact scan_append_of_ok emits

theorem isReserved_cons_of_ne {first : UInt8} {others : Text} (notTrue : first ≠ byte 't')
    (notFalse : first ≠ byte 'f') (notNull : first ≠ byte 'n') :
    isReserved (first :: others) = false := by
  have isTrue : utf8 "true" = [byte 't', byte 'r', byte 'u', byte 'e'] := rfl
  have isFalse : utf8 "false" = [byte 'f', byte 'a', byte 'l', byte 's', byte 'e'] := rfl
  have isNull : utf8 "null" = [byte 'n', byte 'u', byte 'l', byte 'l'] := rfl
  simp [isReserved, isTrue, isFalse, isNull, notTrue, notFalse, notNull]

/-- The letter of an exponent starts a name that is quoted. -/
theorem convert_exponent {letter : UInt8} (isExponent : isExponentLetter letter = true) :
    ∃ name : Name, graphqlObjectToJSON (letter :: rest) = (quoted name.text ++ ·) <$>
      graphqlObjectToJSON (rest.drop (rest.takeWhile isIdentByte).length) := by
  have table : ∀ value, isExponentLetter value = true →
      isLetter value = true ∧ value ≠ byte 't' ∧ value ≠ byte 'f' ∧ value ≠ byte 'n' :=
    forall_byte (by decide)
  obtain ⟨isALetter, notTrue, notFalse, notNull⟩ := table letter isExponent
  have bytes : (rest.takeWhile isIdentByte).all isNameByte = true := by
    rw [← funext isIdentByte_eq]
    exact List.all_takeWhile
  have free : ∀ isKey, convertIdent (letter :: rest.takeWhile isIdentByte) isKey =
      quoted (letter :: rest.takeWhile isIdentByte) := by
    intro isKey
    have notReserved : isReserved (letter :: rest.takeWhile isIdentByte) = false :=
      isReserved_cons_of_ne notTrue notFalse notNull
    cases isKey <;> simp [convertIdent, notReserved]
  refine ⟨⟨letter :: rest.takeWhile isIdentByte, ?_⟩, ?_⟩
  · exact Bool.and_eq_true_iff.mpr ⟨isALetter, bytes⟩
  · have emits : convertNext letter rest = _ := convertNext_letter isALetter
    rw [free] at emits
    exact scan_cons_of_ok emits

/-! ## The tokens of lexemes -/

/-- A lexeme that JSON has too, but for the quotes of a name. -/
def Lexeme.isConvertible : Lexeme → Bool
  | .number numeral _ => numeral.exponent.isNone
  | .string pieces => pieces.all fun piece => !piece.isTab
  | _ => true

/-- Whether the lexemes go on with a colon on the same line. -/
def colonNext : List Lexeme → Bool
  | .blank .space :: rest => colonNext rest
  | .blank .tab :: rest => colonNext rest
  | .mark .colon :: _ => true
  | _ => false

/-- The token of a name. -/
def wordToken (name : Text) (isKey : Bool) : JsonToken :=
  if isKey then .string name
  else if name = utf8 "true" then .boolean true
  else if name = utf8 "false" then .boolean false
  else if name = utf8 "null" then .null
  else .string name

/-- The token of a lexeme, except that a blank has none unless it is a comma. -/
def Lexeme.emitted (lexeme : Lexeme) (rest : List Lexeme) : List JsonToken :=
  match lexeme with
  | .blank .comma => [.comma]
  | .blank _ => []
  | .mark value => [.mark value]
  | .word name => [wordToken name.text (colonNext rest)]
  | .number numeral _ => [.number numeral]
  | .string pieces => [.string (bodyText pieces)]

/-- The tokens of lexemes. -/
def emitted : List Lexeme → List JsonToken
  | [] => []
  | lexeme :: rest => lexeme.emitted rest ++ emitted rest

theorem isPlain_of_isNameByte : ∀ value, isNameByte value = true → isPlain value = true :=
  forall_byte (by decide)

theorem all_isPlain {name : Text} (bytes : name.all isNameByte = true) :
    name.all isPlain = true := by
  apply List.all_eq_true.mpr
  intro value member
  exact isPlain_of_isNameByte value (List.all_eq_true.mp bytes value member)

theorem quoted_append (text rest : Text) :
    quoted text ++ rest = quote :: (text ++ quote :: rest) := by
  simp [quoted]

theorem lexJson_quoted_name (name : Name) :
    lexJson (quoted name.text ++ rest) = (.string name.text :: ·) <$> lexJson rest := by
  rw [quoted_append]
  exact lexJson_string (readBody_of_isPlain (all_isPlain name.bytes))

theorem lexJson_convertIdent (name : Name) (isKey : Bool) :
    lexJson (convertIdent name.text isKey ++ rest) =
      (wordToken name.text isKey :: ·) <$> lexJson rest := by
  cases isKey with
  | true => exact lexJson_quoted_name name
  | false =>
      unfold convertIdent wordToken isReserved
      simp only [Bool.false_eq_true, if_false]
      by_cases isTrue : name.text = utf8 "true"
      · rw [isTrue]
        exact lexJson_true
      · by_cases isFalse : name.text = utf8 "false"
        · rw [isFalse]
          exact lexJson_false
        · by_cases isNull : name.text = utf8 "null"
          · rw [isNull]
            exact lexJson_null
          · simp only [isTrue, isFalse, isNull]
            exact lexJson_quoted_name name

theorem readBody_escape {value : UInt8} (standard : isEscape value = true) :
    readBody (backslash :: value :: rest) =
      (fun body => backslash :: value :: body) <$> readBody rest := by
  rw [readBody.eq_def]
  dsimp only
  rw [if_neg (by decide), if_pos rfl, if_pos standard]

theorem readBody_unicode {first second third fourth : UInt8}
    (hex : [first, second, third, fourth].all isHex = true) :
    readBody (backslash :: byte 'u' :: first :: second :: third :: fourth :: rest) =
      (fun body => backslash :: byte 'u' :: first :: second :: third :: fourth :: body) <$>
        readBody rest := by
  rw [readBody.eq_def]
  dsimp only
  rw [if_neg (by decide), if_pos rfl, if_neg (by decide), if_pos rfl, if_pos hex]

/-- A string is read unless there is a tab in it. -/
theorem readBody_bodyText (pieces : List StringPiece) :
    readBody (bodyText pieces ++ quote :: rest) =
      if pieces.all (fun piece => !piece.isTab) then some (bodyText pieces) else none := by
  induction pieces with
  | nil => exact readBody_quote
  | cons piece pieces inductionHypothesis =>
      have body : bodyText (piece :: pieces) = piece.text ++ bodyText pieces := rfl
      rw [body, List.append_assoc, List.all_cons]
      cases piece with
      | plain value isPlain =>
          obtain ⟨notQuote, notBackslash, visible⟩ := isPlainByte_spec isPlain
          by_cases tab : value = 9
          · have control : value < 0x20 := visible.mpr tab
            rw [StringPiece.text, List.singleton_append, readBody.eq_def]
            dsimp only
            rw [if_neg notQuote, if_neg notBackslash, if_pos control]
            simp [StringPiece.isTab, tab]
          · have seen : ¬ value < 0x20 := fun control => tab (visible.mp control)
            have noTab : (!(StringPiece.plain value isPlain).isTab) = true := by
              simp [StringPiece.isTab, tab]
            rw [StringPiece.text, List.singleton_append,
              readBody_plain notQuote notBackslash seen, inductionHypothesis, noTab, Bool.true_and]
            cases pieces.all fun piece => !piece.isTab <;> rfl
      | escape value standard =>
          have noTab : (!(StringPiece.escape value standard).isTab) = true := rfl
          rw [noTab, Bool.true_and]
          simp only [StringPiece.text, List.cons_append, List.nil_append]
          rw [readBody_escape standard, inductionHypothesis]
          cases pieces.all fun piece => !piece.isTab <;> rfl
      | unicode first second third fourth hex =>
          have noTab : (!(StringPiece.unicode first second third fourth hex).isTab) = true := rfl
          rw [noTab, Bool.true_and]
          simp only [StringPiece.text, List.cons_append, List.nil_append]
          rw [readBody_unicode hex, inductionHypothesis]
          cases pieces.all fun piece => !piece.isTab <;> rfl

/-! ## Neighbours of lexemes -/

/-- A lexeme that a name or a number does not go on in. -/
def Lexeme.stopsWord : Lexeme → Bool
  | .word _ => false
  | .number numeral _ => numeral.negative
  | _ => true

theorem Lexeme.head_of_stopsWord {lexeme : Lexeme} (stops : lexeme.stopsWord = true)
    (rest : Text) :
    ∀ value ∈ (lexeme.text ++ rest).head?, isNameByte value = false ∧ value ≠ byte '.' := by
  cases lexeme with
  | blank blank =>
      intro value head
      cases head
      cases blank <;> decide
  | mark mark =>
      intro value head
      cases head
      cases mark <;> decide
  | word name => cases stops
  | number numeral valid =>
      obtain ⟨first, others, mantissaEq, -, negative⟩ := mantissa_eq_cons valid
      intro value head
      rw [Lexeme.text, Numeral.text, mantissaEq] at head
      cases head
      rw [negative.mpr stops]
      decide
  | string pieces =>
      intro value head
      cases head
      decide

/-- What a word or a number stops at. -/
theorem head_of_apart {lexeme : Lexeme} {rest : List Lexeme}
    (apart : (lexeme :: rest).IsChain fun first second => first.apart second = true)
    (isWord : ∀ next, lexeme.apart next = next.stopsWord) :
    ∀ value ∈ (lexemesText rest).head?, isNameByte value = false ∧ value ≠ byte '.' := by
  cases rest with
  | nil =>
      intro value head
      cases head
  | cons next rest =>
      have stops : next.stopsWord = true := by
        rw [← isWord]
        exact (List.isChain_cons_cons.mp apart).1
      exact Lexeme.head_of_stopsWord stops (lexemesText rest)

theorem convertNext_head {value : UInt8} {pieces : Text} {taken : Nat}
    (emits : convertNext value rest = .ok (pieces, taken)) (notName : isNameByte value = false)
    (notPoint : value ≠ byte '.') :
    ∃ first others, pieces = first :: others ∧ endsNumber first = true := by
  have table : ∀ value, isNameByte value = false → value ≠ byte '.' →
      isLetter value = false ∧ endsNumber value = true :=
    forall_byte (by decide)
  obtain ⟨notLetter, ends⟩ := table value notName notPoint
  unfold convertNext at emits
  split at emits
  next =>
    cases emits
    exact ⟨_, _, rfl, by decide⟩
  split at emits
  next =>
    cases emits
    exact ⟨_, _, rfl, by decide⟩
  split at emits
  next =>
    cases emits
    exact ⟨_, _, rfl, ends⟩
  split at emits
  next =>
    split at emits
    next => cases emits
    next =>
      cases emits
      exact ⟨_, _, rfl, ends⟩
  split at emits
  next =>
    cases emits
    exact ⟨_, _, rfl, ends⟩
  rw [notLetter] at emits
  cases emits

/-- A number is not continued in the JSON text either. -/
theorem endsNumber_of_convert {out : Text} (converts : graphqlObjectToJSON rest = .ok out)
    (stop : ∀ value ∈ rest.head?, isNameByte value = false ∧ value ≠ byte '.') :
    ∀ value ∈ out.head?, endsNumber value = true := by
  cases rest with
  | nil =>
      cases converts
      intro value head
      cases head
  | cons first others =>
      obtain ⟨notName, notPoint⟩ := stop first rfl
      rw [graphqlObjectToJSON, scan_cons] at converts
      cases emits : convertNext first others with
      | error failure => simp [emits] at converts
      | ok step =>
          obtain ⟨pieces, taken⟩ := step
          rw [emits] at converts
          obtain ⟨later, -, rfl⟩ := map_eq_ok_iff.mp converts
          obtain ⟨piece, pieces, rfl, ends⟩ := convertNext_head emits notName notPoint
          intro value head
          cases head
          exact ends

theorem isKeyBefore_skip {value : UInt8} (skipped : value = byte ' ' ∨ value = 9) :
    isKeyBefore (value :: rest) = isKeyBefore rest := by
  unfold isKeyBefore
  rw [List.dropWhile_cons_of_pos]
  rcases skipped with rfl | rfl <;> rfl

theorem isKeyBefore_stop {value : UInt8} (notSpace : value ≠ byte ' ') (notTab : value ≠ 9) :
    isKeyBefore (value :: rest) = decide (value = byte ':') := by
  unfold isKeyBefore
  rw [List.dropWhile_cons_of_neg (by simp [notSpace, notTab])]
  simp

/-- The look-ahead of the code sees the colon of a key. -/
theorem isKeyBefore_lexemesText (lexemes : List Lexeme) :
    isKeyBefore (lexemesText lexemes) = colonNext lexemes := by
  have wordTable : ∀ value, isNameStart value = true →
      value ≠ byte ' ' ∧ value ≠ 9 ∧ value ≠ byte ':' :=
    forall_byte (by decide)
  have numberTable : ∀ value, (value = byte '-' ∨ isDigit value = true) →
      value ≠ byte ' ' ∧ value ≠ 9 ∧ value ≠ byte ':' :=
    forall_byte (by decide)
  induction lexemes with
  | nil => rfl
  | cons lexeme rest inductionHypothesis =>
      have text : lexemesText (lexeme :: rest) = lexeme.text ++ lexemesText rest := rfl
      rw [text]
      cases lexeme with
      | blank blank =>
          cases blank with
          | space => exact (isKeyBefore_skip (Or.inl rfl)).trans inductionHypothesis
          | tab => exact (isKeyBefore_skip (Or.inr rfl)).trans inductionHypothesis
          | newline | carriageReturn | comma => exact isKeyBefore_stop (by decide) (by decide)
      | mark mark =>
          cases mark with
          | colon | openBrace | closeBrace | openBracket | closeBracket =>
              exact isKeyBefore_stop (by decide) (by decide)
      | word name =>
          obtain ⟨name, isName⟩ := name
          cases name with
          | nil => cases isName
          | cons first others =>
              obtain ⟨notSpace, notTab, notColon⟩ :=
                wordTable first (Bool.and_eq_true_iff.mp isName).1
              exact (isKeyBefore_stop notSpace notTab).trans (decide_eq_false notColon)
      | number numeral valid =>
          obtain ⟨first, others, mantissaEq, starts, -⟩ := mantissa_eq_cons valid
          obtain ⟨notSpace, notTab, notColon⟩ := numberTable first starts
          rw [Lexeme.text, Numeral.text, mantissaEq]
          exact (isKeyBefore_stop notSpace notTab).trans (decide_eq_false notColon)
      | string pieces => exact isKeyBefore_stop (by decide) (by decide)

/-! ## One lexeme after another -/

theorem isNumberByte_mantissa {numeral : Numeral} (valid : numeral.valid = true) :
    numeral.mantissa.all isNumberByte = true := by
  have table : ∀ value, isDigit value = true → isNumberByte value = true :=
    forall_byte (by decide)
  have widen : ∀ {text : Text}, text.all isDigit = true → text.all isNumberByte = true := by
    intro text digits
    exact List.all_eq_true.mpr fun value membership =>
      table value (List.all_eq_true.mp digits value membership)
  simp only [Numeral.valid, Bool.and_eq_true] at valid
  obtain ⟨-, -, -, -, digits⟩ := isDigit_of_isInteger valid.1.1
  have fraction : (fractionText numeral.fraction).all isNumberByte = true := by
    unfold fractionText
    split
    next => rfl
    next => rw [List.all_cons, widen valid.1.2]; rfl
  unfold Numeral.mantissa
  rw [List.all_append, List.all_append, widen digits, fraction]
  cases numeral.negative <;> rfl

/-- What becomes of a lexeme: a piece of the JSON text whose tokens are read off it, whatever the
rest of the literal is converted to. -/
def Lexeme.Carried (lexeme : Lexeme) (rest : List Lexeme) : Prop :=
  ∃ piece : Text,
    graphqlObjectToJSON (lexeme.text ++ lexemesText rest) =
        (piece ++ ·) <$> graphqlObjectToJSON (lexemesText rest) ∧
      ∀ out, graphqlObjectToJSON (lexemesText rest) = .ok out →
        lexJson (piece ++ out) = (lexeme.emitted rest ++ ·) <$> lexJson out

/-- What becomes of a lexeme that is not convertible: the text is no JSON. -/
def Lexeme.Spoils (lexeme : Lexeme) (rest : List Lexeme) : Prop :=
  ∀ out tokens, graphqlObjectToJSON (lexeme.text ++ lexemesText rest) = .ok out →
    lexJson out = .ok tokens → ¬ Ordered tokens

section Step

variable {lexeme : Lexeme} {others : List Lexeme}

theorem blank_carried (blank : Blank) : (Lexeme.blank blank).Carried others := by
  refine ⟨_, convert_blank blank, ?_⟩
  intro out _
  cases blank with
  | comma => exact lexJson_comma
  | space | tab | newline | carriageReturn =>
      exact (lexJson_blank (Or.inl rfl)).trans (id_map _).symm

theorem mark_carried (mark : Mark) : (Lexeme.mark mark).Carried others :=
  ⟨_, convert_mark mark, fun _ _ => lexJson_mark mark⟩

theorem word_carried {name : Name}
    (apart : (Lexeme.word name :: others).IsChain fun first second => first.apart second = true) :
    (Lexeme.word name).Carried others := by
  have stop := head_of_apart apart (by intro next; cases next <;> rfl)
  refine ⟨_, convert_word name fun value head => (stop value head).1, ?_⟩
  intro out _
  rw [isKeyBefore_lexemesText]
  exact lexJson_convertIdent name (colonNext others)

theorem number_carried {numeral : Numeral} {valid : numeral.valid = true}
    (apart : (Lexeme.number numeral valid :: others).IsChain fun first second =>
      first.apart second = true) (whole : numeral.exponent = none) :
    (Lexeme.number numeral valid).Carried others := by
  have stop := head_of_apart apart (by intro next; cases next <;> rfl)
  have text : (Lexeme.number numeral valid).text = numeral.mantissa := by
    rw [Lexeme.text, Numeral.text, whole]
    exact List.append_nil _
  have same : { numeral with exponent := none } = numeral := by rw [← whole]
  refine ⟨numeral.mantissa, ?_, ?_⟩
  · rw [text]
    exact convert_numberBytes (isNumberByte_mantissa valid)
  · intro out converts
    rw [lexJson_number (endsNumber_of_convert converts stop) valid, same]
    rfl

theorem convert_string_text (pieces : List StringPiece) :
    graphqlObjectToJSON ((Lexeme.string pieces).text ++ lexemesText others) =
      (quoted (bodyText pieces) ++ ·) <$> graphqlObjectToJSON (lexemesText others) := by
  have text : (Lexeme.string pieces).text ++ lexemesText others =
      quote :: (bodyText pieces ++ quote :: lexemesText others) :=
    quoted_append _ _
  rw [text]
  exact convert_string pieces

theorem string_carried {pieces : List StringPiece}
    (noTab : (pieces.all fun piece => !piece.isTab) = true) :
    (Lexeme.string pieces).Carried others := by
  refine ⟨quoted (bodyText pieces), convert_string_text pieces, ?_⟩
  intro out _
  have closed : readBody (bodyText pieces ++ quote :: out) = some (bodyText pieces) := by
    rw [readBody_bodyText, if_pos noTab]
  rw [quoted_append]
  exact lexJson_string closed

theorem string_spoils {pieces : List StringPiece}
    (tab : (pieces.all fun piece => !piece.isTab) = false) :
    (Lexeme.string pieces).Spoils others := by
  intro out tokens converts lexes
  rw [convert_string_text] at converts
  obtain ⟨later, -, rfl⟩ := map_eq_ok_iff.mp converts
  have unclosed : readBody (bodyText pieces ++ quote :: later) = none := by
    rw [readBody_bodyText, tab]
    rfl
  rw [quoted_append, lexJson_open_string unclosed] at lexes
  cases lexes

/-- A number with an exponent becomes a number and a string. -/
theorem number_spoils {numeral : Numeral} {valid : numeral.valid = true}
    (exponent : numeral.exponent.isNone = false) :
    (Lexeme.number numeral valid).Spoils others := by
  intro out tokens converts lexes
  cases written : numeral.exponent with
  | none =>
      rw [written] at exponent
      cases exponent
  | some exponent =>
      have isExponent : isExponentLetter exponent.letter = true := by
        have checks := valid
        simp only [Numeral.valid, written, Option.all_some, Exponent.valid,
          Bool.and_eq_true] at checks
        exact checks.2.1.1.1
      have text : (Lexeme.number numeral valid).text ++ lexemesText others =
          numeral.mantissa ++ (exponent.letter ::
            ((exponent.sign.toList ++ exponent.digits) ++ lexemesText others)) := by
        rw [Lexeme.text, Numeral.text, written, List.append_assoc]
        rfl
      obtain ⟨name, quotes⟩ := convert_exponent isExponent
      rw [text, convert_numberBytes (isNumberByte_mantissa valid), quotes] at converts
      obtain ⟨middle, convertsRest, rfl⟩ := map_eq_ok_iff.mp converts
      obtain ⟨later, -, rfl⟩ := map_eq_ok_iff.mp convertsRest
      have stop : ∀ value ∈ (quoted name.text ++ later).head?, endsNumber value = true := by
        intro value head
        cases head
        decide
      rw [lexJson_number stop valid, lexJson_quoted_name] at lexes
      obtain ⟨middle, lexesRest, rfl⟩ := map_eq_ok_iff.mp lexes
      obtain ⟨final, -, rfl⟩ := map_eq_ok_iff.mp lexesRest
      intro ordered
      cases (List.isChain_cons_cons.mp ordered).1

theorem carried_of_isConvertible
    (apart : (lexeme :: others).IsChain fun first second => first.apart second = true)
    (convertible : lexeme.isConvertible = true) : lexeme.Carried others := by
  cases lexeme with
  | blank blank => exact blank_carried blank
  | mark mark => exact mark_carried mark
  | word name => exact word_carried apart
  | number numeral valid => exact number_carried apart (Option.isNone_iff_eq_none.mp convertible)
  | string pieces => exact string_carried convertible

theorem spoils_of_not_isConvertible (notConvertible : lexeme.isConvertible = false) :
    lexeme.Spoils others := by
  cases lexeme with
  | blank | mark | word => cases notConvertible
  | number numeral valid => exact number_spoils notConvertible
  | string pieces => exact string_spoils notConvertible

end Step

/-- Convertible lexemes become their tokens. -/
theorem convert_of_isConvertible {lexemes : List Lexeme}
    (apart : lexemes.IsChain fun first second => first.apart second = true)
    (convertible : ∀ lexeme ∈ lexemes, lexeme.isConvertible = true) :
    ∃ out, graphqlObjectToJSON (lexemesText lexemes) = .ok out ∧
      lexJson out = .ok (emitted lexemes) := by
  induction lexemes with
  | nil => exact ⟨[], rfl, rfl⟩
  | cons lexeme rest inductionHypothesis =>
      obtain ⟨out, converts, lexes⟩ := inductionHypothesis apart.tail
        fun lexeme membership => convertible lexeme (List.mem_cons_of_mem _ membership)
      obtain ⟨piece, adds, tokens⟩ :=
        carried_of_isConvertible apart (convertible lexeme List.mem_cons_self)
      refine ⟨piece ++ out, ?_, ?_⟩
      · exact adds.trans (map_eq_ok_iff.mpr ⟨out, converts, rfl⟩)
      · exact (tokens out converts).trans (map_eq_ok_iff.mpr ⟨_, lexes, rfl⟩)

/-- Lexemes that become JSON are convertible. -/
theorem isConvertible_of_ordered {lexemes : List Lexeme} {out : Text} {tokens : List JsonToken}
    (apart : lexemes.IsChain fun first second => first.apart second = true)
    (converts : graphqlObjectToJSON (lexemesText lexemes) = .ok out)
    (lexes : lexJson out = .ok tokens) (ordered : Ordered tokens) :
    (∀ lexeme ∈ lexemes, lexeme.isConvertible = true) ∧ tokens = emitted lexemes := by
  induction lexemes generalizing out tokens with
  | nil =>
      cases converts
      cases lexes
      exact ⟨by simp, rfl⟩
  | cons lexeme rest inductionHypothesis =>
      cases convertible : lexeme.isConvertible with
      | false =>
          exact absurd ordered (spoils_of_not_isConvertible convertible out tokens converts lexes)
      | true =>
          obtain ⟨piece, adds, reads⟩ := carried_of_isConvertible apart convertible
          obtain ⟨later, convertsLater, rfl⟩ := map_eq_ok_iff.mp (adds.symm.trans converts)
          rw [reads later convertsLater] at lexes
          obtain ⟨others, lexesLater, rfl⟩ := map_eq_ok_iff.mp lexes
          obtain ⟨allLater, rfl⟩ := inductionHypothesis apart.tail convertsLater lexesLater
            (List.isChain_append.mp ordered).2.1
          exact ⟨List.forall_mem_cons.mpr ⟨convertible, allLater⟩, rfl⟩

end GitScale.GraphQL
