import GitScale.GraphQL.Json
import Mathlib.Data.List.Chain

/-!
# Tokens of a JSON text

How the tokens at the start of a text are read, and which tokens stand side by side in a text
that decodes.
-/

namespace GitScale.GraphQL

open Foundation Go

variable {rest : Text}

/-! ## Reading tokens -/

theorem lexJson_blank {value : UInt8}
    (blank : value = byte ' ' ∨ value = 9 ∨ value = 10 ∨ value = 13) :
    lexJson (value :: rest) = lexJson rest := by
  have emits : nextToken value rest = .ok ([], 0) := if_pos blank
  rw [lexJson, scan_cons_of_ok emits]
  exact id_map (scan nextToken rest)

theorem lexJson_mark (mark : Mark) :
    lexJson (mark.byte :: rest) = (.mark mark :: ·) <$> lexJson rest := by
  have emits : nextToken mark.byte rest = .ok ([.mark mark], 0) := by
    cases mark <;> rfl
  rw [lexJson, scan_cons_of_ok emits]
  rfl

theorem lexJson_comma : lexJson (byte ',' :: rest) = (.comma :: ·) <$> lexJson rest := by
  have emits : nextToken (byte ',') rest = .ok ([.comma], 0) := rfl
  rw [lexJson, scan_cons_of_ok emits]
  rfl

theorem lexJson_true :
    lexJson (utf8 "true" ++ rest) = (.boolean true :: ·) <$> lexJson rest := by
  have emits : nextToken (byte 't') ([byte 'r', byte 'u', byte 'e'] ++ rest) =
      .ok ([.boolean true], 3) := rfl
  exact scan_append_of_ok emits

theorem lexJson_false :
    lexJson (utf8 "false" ++ rest) = (.boolean false :: ·) <$> lexJson rest := by
  have emits : nextToken (byte 'f') ([byte 'a', byte 'l', byte 's', byte 'e'] ++ rest) =
      .ok ([.boolean false], 4) := rfl
  exact scan_append_of_ok emits

theorem lexJson_null : lexJson (utf8 "null" ++ rest) = (.null :: ·) <$> lexJson rest := by
  have emits : nextToken (byte 'n') ([byte 'u', byte 'l', byte 'l'] ++ rest) =
      .ok ([.null], 3) := rfl
  exact scan_append_of_ok emits

/-- A quote starts a string. -/
theorem nextToken_quote (rest : Text) :
    nextToken quote rest =
      (readBody rest).elim (.error ()) fun body => .ok ([.string body], body.length + 1) := by
  unfold nextToken
  cases readBody rest <;> rfl

theorem lexJson_string {body : Text} (closed : readBody (body ++ quote :: rest) = some body) :
    lexJson (quote :: (body ++ quote :: rest)) = (.string body :: ·) <$> lexJson rest := by
  have emits : nextToken quote ((body ++ [quote]) ++ rest) =
      .ok ([.string body], (body ++ [quote]).length) := by
    have same : (body ++ [quote]) ++ rest = body ++ quote :: rest := by simp
    rw [same, List.length_append]
    rw [nextToken_quote, closed]
    rfl
  have read := scan_append_of_ok emits
  rw [List.append_assoc] at read
  exact read

/-! ## Plain strings -/

theorem readBody_plain {value : UInt8} (notQuote : value ≠ quote)
    (notBackslash : value ≠ backslash) (visible : ¬ value < 0x20) :
    readBody (value :: rest) = (value :: ·) <$> readBody rest := by
  rw [readBody.eq_def]
  dsimp only
  rw [if_neg notQuote, if_neg notBackslash, if_neg visible]

theorem readBody_quote : readBody (quote :: rest) = some [] := by
  rw [readBody.eq_def]
  rfl

/-- An ASCII character that stands for itself between quotes. -/
def isPlain (value : UInt8) : Bool :=
  value ≠ quote && value ≠ backslash && within 0x20 0x7F value

theorem isPlain_spec : ∀ value, isPlain value = true →
    value ≠ quote ∧ value ≠ backslash ∧ ¬ value < 0x20 ∧ value < 0x80 :=
  forall_byte (by decide)

theorem readBody_of_isPlain {text : Text} (plain : text.all isPlain = true) :
    readBody (text ++ quote :: rest) = some text := by
  induction text with
  | nil => exact readBody_quote
  | cons value text inductionHypothesis =>
      rw [List.all_cons, Bool.and_eq_true] at plain
      obtain ⟨notQuote, notBackslash, visible, -⟩ := isPlain_spec value plain.1
      rw [List.cons_append, readBody_plain notQuote notBackslash visible,
        inductionHypothesis plain.2]
      rfl

theorem runes_of_isPlain {text : Text} (plain : text.all isPlain = true) (fuel : Nat)
    (enough : text.length ≤ fuel) : runes fuel text = text.map UInt8.toNat := by
  induction text generalizing fuel with
  | nil => cases fuel <;> rfl
  | cons value text inductionHypothesis =>
      cases fuel with
      | zero => cases enough
      | succ fuel =>
          rw [List.all_cons, Bool.and_eq_true] at plain
          obtain ⟨-, notBackslash, -, ascii⟩ := isPlain_spec value plain.1
          have decoded : decodeRune (value :: text) = (value.toNat, 1) := by
            rw [decodeRune, if_pos ascii]
          rw [runes, if_neg notBackslash, decoded]
          exact congrArg (value.toNat :: ·)
            (inductionHypothesis plain.2 fuel (Nat.le_of_succ_le_succ enough))

/-- Plain text stands for itself between quotes. -/
theorem unquote_of_isPlain {text : Text} (plain : text.all isPlain = true) :
    unquote text = ofBytes text := by
  rw [unquote, runes_of_isPlain plain _ (Nat.le_refl _), ofBytes, List.map_map]
  rfl

/-- A string that is not closed correctly is no token. -/
theorem lexJson_open_string (unclosed : readBody rest = none) :
    lexJson (quote :: rest) = .error () := by
  have fails : nextToken quote rest = .error () := by
    rw [nextToken_quote, unclosed]
    rfl
  exact scan_cons_of_error fails

/-! ## Reading numbers -/

/-- A byte that a number without an exponent stops at. -/
def endsNumber (value : UInt8) : Bool :=
  !isDigit value && value ≠ byte '.' && !isExponentLetter value

theorem endsNumber_spec {value : UInt8} (ends : endsNumber value = true) :
    isDigit value = false ∧ value ≠ byte '.' ∧ isExponentLetter value = false := by
  have table : ∀ value, endsNumber value = true →
      isDigit value = false ∧ value ≠ byte '.' ∧ isExponentLetter value = false :=
    forall_byte (by decide)
  exact table value ends

theorem isDigit_of_isInteger {integer : Text} (valid : isInteger integer = true) :
    ∃ first others, integer = first :: others ∧ isDigit first = true ∧
      integer.all isDigit = true := by
  cases integer with
  | nil => cases valid
  | cons first others =>
      cases others with
      | nil =>
          have digit : isDigit first = true := valid
          exact ⟨first, [], rfl, digit, by simp [digit]⟩
      | cons second others =>
          simp only [isInteger, Bool.and_eq_true] at valid
          obtain ⟨⟨digit, -⟩, digits⟩ := valid
          refine ⟨first, second :: others, rfl, digit, ?_⟩
          rw [List.all_cons, digit, digits]
          rfl

/-- A number starts with its sign or a digit. -/
theorem mantissa_eq_cons {numeral : Numeral} (valid : numeral.valid = true) :
    ∃ first others, numeral.mantissa = first :: others ∧
      (first = byte '-' ∨ isDigit first = true) ∧ (first = byte '-' ↔ numeral.negative = true) := by
  simp only [Numeral.valid, Bool.and_eq_true] at valid
  obtain ⟨first, others, integerEq, digit, -⟩ := isDigit_of_isInteger valid.1.1
  unfold Numeral.mantissa
  cases numeral.negative with
  | true => exact ⟨byte '-', _, rfl, Or.inl rfl, by simp⟩
  | false =>
      refine ⟨first, others ++ fractionText numeral.fraction, by rw [integerEq]; rfl,
        Or.inr digit, ?_⟩
      constructor
      · intro same
        rw [same] at digit
        exact absurd digit (by decide)
      · intro same
        cases same

/-- A byte that a number starts with is neither blank nor a punctuator or a quote. -/
theorem numberStart_spec {value : UInt8} (starts : value = byte '-' ∨ isDigit value = true) :
    ¬ (value = byte ' ' ∨ value = 9 ∨ value = 10 ∨ value = 13) ∧
      punctuatorToken value = none ∧ value ≠ quote := by
  have table : ∀ value, (value = byte '-' ∨ isDigit value = true) →
      ¬ (value = byte ' ' ∨ value = 9 ∨ value = 10 ∨ value = 13) ∧
        punctuatorToken value = none ∧ value ≠ quote :=
    forall_byte (by decide)
  exact table value starts

/-- Neither a digit nor a point comes first. -/
def StopsDigits (rest : Text) : Prop :=
  ∀ value ∈ rest.head?, isDigit value = false ∧ value ≠ byte '.'

theorem stopsDigits_of_endsNumber (stop : ∀ value ∈ rest.head?, endsNumber value = true) :
    StopsDigits rest := by
  intro value head
  obtain ⟨notDigit, notPoint, -⟩ := endsNumber_spec (stop value head)
  exact ⟨notDigit, notPoint⟩

theorem readExponent_eq_none (stop : ∀ value ∈ rest.head?, endsNumber value = true) :
    readExponent rest = some none := by
  cases rest with
  | nil => rfl
  | cons value rest =>
      simp only [readExponent, (endsNumber_spec (stop value rfl)).2.2]
      rfl

section Numbers

variable {numeral : Numeral} (stop : StopsDigits rest)

include stop

theorem readFraction_fractionText {fraction : Text} (digits : fraction.all isDigit = true) :
    readFraction (fractionText fraction ++ rest) = some fraction := by
  unfold fractionText
  cases fraction with
  | nil =>
      cases rest with
      | nil => rfl
      | cons value rest => exact if_neg (stop value rfl).2
  | cons first others =>
      have notDigit : ∀ value ∈ rest.head?, isDigit value = false := fun value head =>
        (stop value head).1
      have taken := takeWhile_append_of_stop digits notDigit
      simp only [List.isEmpty_cons, Bool.false_eq_true, if_false, List.cons_append, readFraction,
        if_true] at taken ⊢
      rw [taken]
      rfl

/-- The digits before the point. -/
theorem takeWhile_integer {integer fraction : Text} (digits : integer.all isDigit = true) :
    (integer ++ (fractionText fraction ++ rest)).takeWhile isDigit = integer := by
  apply takeWhile_append_of_stop digits
  unfold fractionText
  cases fraction with
  | nil => exact fun value head => (stop value head).1
  | cons first others =>
      intro value head
      cases head
      decide

variable {exponent : Option Exponent} (reads : readExponent rest = some exponent)

include reads

theorem readUnsigned_append (negative : Bool) (valid : numeral.valid = true) :
    readUnsigned negative (numeral.integer ++ (fractionText numeral.fraction ++ rest)) =
      some ⟨negative, numeral.integer, numeral.fraction, exponent⟩ := by
  simp only [Numeral.valid, Bool.and_eq_true] at valid
  obtain ⟨⟨isValid, fractionDigits⟩, -⟩ := valid
  obtain ⟨first, others, -, -, digits⟩ := isDigit_of_isInteger isValid
  unfold readUnsigned
  dsimp only
  rw [takeWhile_integer stop digits, List.drop_left,
    readFraction_fractionText stop fractionDigits]
  show (do
    let exponent ← readExponent ((fractionText numeral.fraction ++ rest).drop
      (fractionText numeral.fraction).length)
    if isInteger numeral.integer then
      some (Numeral.mk negative numeral.integer numeral.fraction exponent)
    else none) = _
  rw [List.drop_left, reads]
  exact if_pos isValid

theorem readNumeral_mantissa (valid : numeral.valid = true) :
    readNumeral (numeral.mantissa ++ rest) = some { numeral with exponent := exponent } := by
  have read := fun negative => readUnsigned_append stop reads negative valid
  obtain ⟨negative, integer, fraction, written⟩ := numeral
  cases negative with
  | true =>
      have text : (Numeral.mk true integer fraction written).mantissa ++ rest =
          byte '-' :: (integer ++ (fractionText fraction ++ rest)) := by
        simp [Numeral.mantissa]
      rw [text]
      exact (if_pos rfl).trans (read true)
  | false =>
      have text : (Numeral.mk false integer fraction written).mantissa ++ rest =
          integer ++ (fractionText fraction ++ rest) := by
        simp [Numeral.mantissa]
      simp only [Numeral.valid, Bool.and_eq_true] at valid
      obtain ⟨first, others, integerEq, digit, -⟩ := isDigit_of_isInteger valid.1.1
      have unsigned : (integer ++ (fractionText fraction ++ rest)).head? ≠ some (byte '-') := by
        rw [integerEq, List.cons_append, List.head?_cons]
        intro same
        cases same
        exact absurd digit (by decide)
      rw [text]
      exact (if_neg unsigned).trans (read false)

end Numbers

theorem lexJson_number {numeral : Numeral}
    (stop : ∀ value ∈ rest.head?, endsNumber value = true) (valid : numeral.valid = true) :
    lexJson (numeral.mantissa ++ rest) =
      (.number { numeral with exponent := none } :: ·) <$> lexJson rest := by
  have read := readNumeral_mantissa (stopsDigits_of_endsNumber stop)
    (readExponent_eq_none stop) valid
  obtain ⟨first, others, mantissaEq, starts, -⟩ := mantissa_eq_cons valid
  obtain ⟨notBlank, notPunctuator, notQuote⟩ := numberStart_spec starts
  have length : (Numeral.text { numeral with exponent := none }).length - 1 = others.length := by
    have same : Numeral.text { numeral with exponent := none } = numeral.mantissa ++ [] := rfl
    rw [same, mantissaEq]
    simp
  have emits : nextToken first (others ++ rest) =
      .ok ([.number { numeral with exponent := none }], others.length) := by
    rw [mantissaEq, List.cons_append] at read
    unfold nextToken
    rw [if_neg notBlank, notPunctuator]
    dsimp only
    rw [if_neg notQuote, if_pos starts, read]
    dsimp only
    rw [length]
  rw [mantissaEq, List.cons_append]
  exact scan_append_of_ok emits

/-! ## Neighbours -/

/-- A token that a value starts with. -/
def JsonToken.startsValue : JsonToken → Bool
  | .mark .openBrace => true
  | .mark .openBracket => true
  | .mark _ => false
  | .comma => false
  | _ => true

/-- A token that a value ends with. -/
def JsonToken.endsValue : JsonToken → Bool
  | .mark .closeBrace => true
  | .mark .closeBracket => true
  | .mark _ => false
  | .comma => false
  | _ => true

def JsonToken.isString : JsonToken → Bool
  | .string _ => true
  | _ => false

/-- Whether a token may stand before another one. -/
def JsonToken.mayPrecede (first second : JsonToken) : Bool :=
  match first with
  | .mark .openBrace => second.isString || second = .mark .closeBrace
  | .mark .openBracket => second.startsValue || second = .mark .closeBracket
  | .mark .colon => second.startsValue
  | .comma => second.startsValue
  | _ =>
      second = .comma || second = .mark .closeBrace || second = .mark .closeBracket ||
        (first.isString && second = .mark .colon)

/-- The tokens stand in an order that JSON allows. -/
def Ordered (tokens : List JsonToken) : Prop :=
  tokens.IsChain fun first second => first.mayPrecede second = true

/-- Tokens in order, from the start of a value to the end of one. -/
structure Spans (tokens : List JsonToken) : Prop where
  ordered : Ordered tokens
  starts : ∃ first others, tokens = first :: others ∧ first.startsValue = true
  ends : ∃ others last, tokens = others ++ [last] ∧ last.endsValue = true

theorem spans_singleton {token : JsonToken} (starts : token.startsValue = true)
    (ends : token.endsValue = true) : Spans [token] :=
  ⟨List.isChain_singleton _, ⟨token, [], rfl, starts⟩, ⟨[], token, rfl, ends⟩⟩

theorem spans_pair {first second : JsonToken} (starts : first.startsValue = true)
    (ends : second.endsValue = true) (links : first.mayPrecede second = true) :
    Spans [first, second] :=
  ⟨List.isChain_cons_cons.mpr ⟨links, List.isChain_singleton _⟩, ⟨first, [second], rfl, starts⟩,
    ⟨[first], second, rfl, ends⟩⟩

theorem JsonToken.mayPrecede_of_endsValue {first second : JsonToken}
    (ends : first.endsValue = true)
    (follows : second = .comma ∨ second = .mark .closeBrace ∨ second = .mark .closeBracket) :
    first.mayPrecede second = true := by
  rcases follows with rfl | rfl | rfl <;> cases first with
  | mark mark => cases mark <;> first | rfl | cases ends
  | comma => cases ends
  | null | boolean | number | string => rfl

/-- Ordered tokens before a token that may follow the last of them. -/
theorem Spans.ordered_append {tokens rest : List JsonToken} {second : JsonToken}
    (spans : Spans tokens)
    (follows : second = .comma ∨ second = .mark .closeBrace ∨ second = .mark .closeBracket)
    (ordered : Ordered (second :: rest)) : Ordered (tokens ++ second :: rest) := by
  refine List.isChain_append.mpr ⟨spans.ordered, ordered, ?_⟩
  obtain ⟨others, last, rfl, ends⟩ := spans.ends
  intro final isFinal next isNext
  rw [List.getLast?_concat] at isFinal
  cases isFinal
  cases isNext
  exact JsonToken.mayPrecede_of_endsValue ends follows

/-- Two spans with a comma between them. -/
theorem Spans.comma {tokens others : List JsonToken} (spans : Spans tokens)
    (later : Spans others) : Spans (tokens ++ .comma :: others) := by
  obtain ⟨first, rest, othersEq, starts⟩ := later.starts
  obtain ⟨front, last, othersEnd, ends⟩ := later.ends
  refine ⟨spans.ordered_append (Or.inl rfl) ?_, ?_, ?_⟩
  · have ordered := later.ordered
    rw [othersEq] at ordered ⊢
    exact List.isChain_cons_cons.mpr ⟨starts, ordered⟩
  · obtain ⟨head, tail, rfl, isStart⟩ := spans.starts
    exact ⟨head, _, rfl, isStart⟩
  · exact ⟨tokens ++ .comma :: front, last, by rw [othersEnd]; simp, ends⟩

/-- A span in brackets, of which the opening one may stand before it. -/
theorem Spans.enclosed {tokens : List JsonToken} {opening closing : JsonToken}
    (spans : Spans tokens) (starts : opening.startsValue = true)
    (links : ∀ first ∈ tokens.head?, opening.mayPrecede first = true)
    (isClosing : closing = .mark .closeBrace ∨ closing = .mark .closeBracket) :
    Spans (opening :: (tokens ++ [closing])) := by
  have inside : Ordered (tokens ++ [closing]) :=
    spans.ordered_append (Or.inr isClosing) (List.isChain_singleton _)
  obtain ⟨first, rest, rfl, -⟩ := spans.starts
  refine ⟨List.isChain_cons_cons.mpr ⟨links first rfl, inside⟩, ⟨opening, _, rfl, starts⟩,
    ⟨opening :: first :: rest, closing, rfl, ?_⟩⟩
  rcases isClosing with rfl | rfl <;> rfl

/-! ## Texts that decode -/

/-- The tokens of a value that is read with the given fuel are a span. -/
def ValueSpans (fuel : Nat) : Prop :=
  ∀ {tokens : List JsonToken} {value : Value} {rest : List JsonToken},
    readValue fuel tokens = some (value, rest) → ∃ used, tokens = used ++ rest ∧ Spans used

def ElementsSpan (fuel : Nat) : Prop :=
  ∀ {tokens : List JsonToken} {values : List Value} {rest : List JsonToken},
    readElements fuel tokens = some (values, rest) →
      ∃ used, tokens = used ++ .mark .closeBracket :: rest ∧ Spans used

def MembersSpan (fuel : Nat) : Prop :=
  ∀ {tokens : List JsonToken} {members : List (String × Value)} {rest : List JsonToken},
    readMembers fuel tokens = some (members, rest) →
      ∃ used, tokens = used ++ .mark .closeBrace :: rest ∧ Spans used ∧
        ∀ first ∈ used.head?, first.isString = true

section Steps

variable {fuel : Nat}

theorem elementsSpan_succ (values : ValueSpans fuel) (elements : ElementsSpan fuel) :
    ElementsSpan (fuel + 1) := by
  intro tokens list rest read
  unfold readElements at read
  obtain ⟨⟨value, remaining⟩, readFirst, read⟩ := Option.bind_eq_some_iff.mp read
  obtain ⟨used, tokensEq, spans⟩ := values readFirst
  dsimp only at read
  split at read
  next closing =>
    cases read
    exact ⟨used, tokensEq, spans⟩
  next later =>
    obtain ⟨⟨others, final⟩, readOthers, read⟩ := Option.bind_eq_some_iff.mp read
    cases read
    obtain ⟨usedLater, laterEq, spansLater⟩ := elements readOthers
    exact ⟨used ++ .comma :: usedLater, by rw [tokensEq, laterEq]; simp, spans.comma spansLater⟩
  next => cases read

/-- A member: its key, a colon and its value. -/
theorem Spans.member {tokens : List JsonToken} (body : Text) (spans : Spans tokens) :
    Spans (.string body :: .mark .colon :: tokens) := by
  have ordered := spans.ordered
  obtain ⟨front, last, tokensEnd, ends⟩ := spans.ends
  refine ⟨?_, ⟨_, _, rfl, rfl⟩, ⟨.string body :: .mark .colon :: front, last, ?_, ends⟩⟩
  · obtain ⟨first, rest, rfl, starts⟩ := spans.starts
    exact List.isChain_cons_cons.mpr ⟨rfl, List.isChain_cons_cons.mpr ⟨starts, ordered⟩⟩
  · rw [tokensEnd]
    rfl

theorem membersSpan_succ (values : ValueSpans fuel) (members : MembersSpan fuel) :
    MembersSpan (fuel + 1) := by
  intro tokens list rest read
  unfold readMembers at read
  split at read
  next => cases ‹_ = 0›
  next fuel' body remaining sameFuel =>
    cases sameFuel
    obtain ⟨⟨value, remaining⟩, readFirst, read⟩ := Option.bind_eq_some_iff.mp read
    obtain ⟨used, usedEq, spans⟩ := values readFirst
    have member := spans.member body
    dsimp only at read
    split at read
    next closing =>
      cases read
      exact ⟨_, by rw [usedEq]; rfl, member, by simp [JsonToken.isString]⟩
    next later =>
      obtain ⟨⟨others, final⟩, readOthers, read⟩ := Option.bind_eq_some_iff.mp read
      cases read
      obtain ⟨usedLater, laterEq, spansLater, -⟩ := members readOthers
      refine ⟨(.string body :: .mark .colon :: used) ++ .comma :: usedLater, ?_,
        member.comma spansLater, by simp [JsonToken.isString]⟩
      rw [usedEq, laterEq]
      simp
    next => cases read
  next => cases read

theorem valueSpans_succ (elements : ElementsSpan fuel) (members : MembersSpan fuel) :
    ValueSpans (fuel + 1) := by
  intro tokens value rest read
  unfold readValue at read
  split at read
  next => cases ‹_ = 0›
  next =>
    cases read
    exact ⟨[.null], rfl, spans_singleton rfl rfl⟩
  next boolean _ _ =>
    cases read
    exact ⟨[.boolean boolean], rfl, spans_singleton rfl rfl⟩
  next numeral _ _ =>
    cases read
    exact ⟨[.number numeral], rfl, spans_singleton rfl rfl⟩
  next body _ _ =>
    cases read
    exact ⟨[.string body], rfl, spans_singleton rfl rfl⟩
  next =>
    cases read
    exact ⟨[.mark .openBracket, .mark .closeBracket], rfl, spans_pair rfl rfl rfl⟩
  next remaining _ _ sameFuel =>
    cases sameFuel
    obtain ⟨⟨list, final⟩, readList, read⟩ := Option.bind_eq_some_iff.mp read
    cases read
    obtain ⟨used, usedEq, spans⟩ := elements readList
    refine ⟨.mark .openBracket :: (used ++ [.mark .closeBracket]), by rw [usedEq]; simp,
      spans.enclosed rfl ?_ (Or.inr rfl)⟩
    obtain ⟨first, others, rfl, starts⟩ := spans.starts
    intro head isHead
    cases isHead
    exact Bool.or_eq_true_iff.mpr (Or.inl starts)
  next =>
    cases read
    exact ⟨[.mark .openBrace, .mark .closeBrace], rfl, spans_pair rfl rfl rfl⟩
  next remaining _ _ sameFuel =>
    cases sameFuel
    obtain ⟨⟨list, final⟩, readList, read⟩ := Option.bind_eq_some_iff.mp read
    cases read
    obtain ⟨used, usedEq, spans, isKey⟩ := members readList
    refine ⟨.mark .openBrace :: (used ++ [.mark .closeBrace]), by rw [usedEq]; simp,
      spans.enclosed rfl ?_ (Or.inl rfl)⟩
    intro head isHead
    exact Bool.or_eq_true_iff.mpr (Or.inl (isKey head isHead))
  next => cases read

end Steps

theorem read_spans (fuel : Nat) : ValueSpans fuel ∧ ElementsSpan fuel ∧ MembersSpan fuel := by
  induction fuel with
  | zero =>
      refine ⟨?_, ?_, ?_⟩
      · intro tokens value rest read
        simp [readValue] at read
      · intro tokens value rest read
        simp [readElements] at read
      · intro tokens value rest read
        simp [readMembers] at read
  | succ fuel inductionHypothesis =>
      obtain ⟨values, elements, members⟩ := inductionHypothesis
      exact ⟨valueSpans_succ elements members, elementsSpan_succ values elements,
        membersSpan_succ values members⟩

/-- A text that decodes has tokens in order. -/
theorem ordered_of_decodeJson {text : Text} {value : Value}
    (decodes : decodeJson text = some value) :
    ∃ tokens, lexJson text = .ok tokens ∧ Ordered tokens := by
  unfold decodeJson at decodes
  split at decodes
  next => cases decodes
  next tokens lexed =>
    split at decodes
    next read =>
      obtain ⟨used, usedEq, spans⟩ := (read_spans _).1 read
      rw [List.append_nil] at usedEq
      exact ⟨tokens, lexed, usedEq ▸ spans.ordered⟩
    next => cases decodes

end GitScale.GraphQL
