import GitScale.GraphQL.LexemeConversion

/-!
# Object literals as JSON

Which object literals `graphqlObjectToJSON` keeps the value of.  The tokens of a literal that is
written as JSON would be are read back as its value; those of any other literal stand in an order
that JSON does not allow.
-/

namespace GitScale.GraphQL

open Foundation Go

/-! ## The tokens of literals -/

/-- The tokens of a gap are its commas. -/
def Gap.tokens (gap : Gap) : List JsonToken := List.replicate gap.commas .comma

mutual

/-- The tokens that a literal becomes. -/
def Literal.tokens : Literal → List JsonToken
  | .null => [.null]
  | .boolean value => [.boolean value]
  | .enum name _ => [.string name.text]
  | .number numeral _ => [.number numeral]
  | .string pieces => [.string (bodyText pieces)]
  | .list opening items =>
      .mark .openBracket :: (Gap.tokens opening ++ (items.tokens ++ [.mark .closeBracket]))
  | .object opening fields =>
      .mark .openBrace :: (Gap.tokens opening ++ (fields.tokens ++ [.mark .closeBrace]))

def Items.tokens : Items → List JsonToken
  | .nil => []
  | .cons value after rest => value.tokens ++ (Gap.tokens after ++ rest.tokens)

def Fields.tokens : Fields → List JsonToken
  | .nil => []
  | .cons key beforeColon afterColon value after rest =>
      wordToken key.text (Gap.inLine beforeColon) :: (Gap.tokens beforeColon ++
        .mark .colon :: (Gap.tokens afterColon ++ (value.tokens ++ (Gap.tokens after ++
          rest.tokens))))

end

section Following

variable {following : List Lexeme}

theorem emitted_gap (gap : Gap) :
    emitted (gap.lexemes ++ following) = gap.tokens ++ emitted following := by
  induction gap with
  | nil => rfl
  | cons blank gap inductionHypothesis =>
      have lexemes : Gap.lexemes (blank :: gap) ++ following =
          .blank blank :: (Gap.lexemes gap ++ following) := rfl
      rw [lexemes, emitted, inductionHypothesis]
      cases blank with
      | comma =>
          have commas : Gap.commas (.comma :: gap) = Gap.commas gap + 1 := List.count_cons_self
          have tokens : Gap.tokens (.comma :: gap) = .comma :: Gap.tokens gap := by
            rw [Gap.tokens, commas, List.replicate_succ]
            rfl
          rw [tokens]
          rfl
      | space | tab | newline | carriageReturn =>
          exact congrArg (· ++ emitted following) rfl

theorem emitted_mark (mark : Mark) :
    emitted (.mark mark :: following) = .mark mark :: emitted following := rfl

theorem colonNext_gap (gap : Gap) :
    colonNext (gap.lexemes ++ following) = (gap.inLine && colonNext following) := by
  induction gap with
  | nil => rfl
  | cons blank gap inductionHypothesis =>
      cases blank with
      | space => exact inductionHypothesis
      | tab => exact inductionHypothesis
      | newline | carriageReturn | comma => rfl

theorem Literal.colonNext_eq_false (literal : Literal) :
    colonNext (literal.lexemes ++ following) = false := by
  cases literal <;> rfl

theorem Items.colonNext_eq_false (items : Items) (noColon : colonNext following = false) :
    colonNext (items.lexemes ++ following) = false := by
  cases items with
  | nil => exact noColon
  | cons value after rest =>
      rw [Items.lexemes, List.append_assoc]
      exact value.colonNext_eq_false

theorem Fields.colonNext_eq_false (fields : Fields) (noColon : colonNext following = false) :
    colonNext (fields.lexemes ++ following) = false := by
  cases fields with
  | nil => exact noColon
  | cons key beforeColon afterColon value after rest => rfl

theorem wordToken_of_not_isReserved {name : Text} (free : isReserved name = false)
    (isKey : Bool) : wordToken name isKey = .string name := by
  simp only [isReserved, Bool.or_eq_false_iff, decide_eq_false_iff_not] at free
  obtain ⟨⟨notTrue, notFalse⟩, notNull⟩ := free
  cases isKey <;> simp [wordToken, notTrue, notFalse, notNull]

mutual

/-- The tokens of a literal do not depend on what follows it, unless that is a colon. -/
theorem Literal.emitted_lexemes (literal : Literal) {following : List Lexeme}
    (noColon : colonNext following = false) :
    emitted (literal.lexemes ++ following) = literal.tokens ++ emitted following := by
  match literal with
  | .null =>
      show wordToken (utf8 "null") (colonNext following) :: emitted following = _
      rw [noColon]
      rfl
  | .boolean value =>
      show wordToken (booleanName value).text (colonNext following) :: emitted following = _
      rw [noColon]
      cases value <;> rfl
  | .enum name isFree =>
      show wordToken name.text (colonNext following) :: emitted following = _
      rw [wordToken_of_not_isReserved isFree]
      rfl
  | .number numeral valid => rfl
  | .string pieces => rfl
  | .list opening items =>
      simp only [Literal.lexemes, Literal.tokens, List.cons_append, List.append_assoc,
        List.nil_append]
      rw [emitted_mark, emitted_gap, items.emitted_lexemes rfl, emitted_mark]
  | .object opening fields =>
      simp only [Literal.lexemes, Literal.tokens, List.cons_append, List.append_assoc,
        List.nil_append]
      rw [emitted_mark, emitted_gap, fields.emitted_lexemes rfl, emitted_mark]

theorem Items.emitted_lexemes (items : Items) {following : List Lexeme}
    (noColon : colonNext following = false) :
    emitted (items.lexemes ++ following) = items.tokens ++ emitted following := by
  match items with
  | .nil => rfl
  | .cons value after rest =>
      have apart : colonNext (Gap.lexemes after ++ (rest.lexemes ++ following)) = false := by
        rw [colonNext_gap, rest.colonNext_eq_false noColon, Bool.and_false]
      simp only [Items.lexemes, Items.tokens, List.append_assoc]
      rw [value.emitted_lexemes apart, emitted_gap, rest.emitted_lexemes noColon]

theorem Fields.emitted_lexemes (fields : Fields) {following : List Lexeme}
    (noColon : colonNext following = false) :
    emitted (fields.lexemes ++ following) = fields.tokens ++ emitted following := by
  match fields with
  | .nil => rfl
  | .cons key beforeColon afterColon value after rest =>
      have apart : colonNext (Gap.lexemes after ++ (rest.lexemes ++ following)) = false := by
        rw [colonNext_gap, rest.colonNext_eq_false noColon, Bool.and_false]
      have isKey : ∀ others, colonNext (Gap.lexemes beforeColon ++ .mark .colon :: others) =
          Gap.inLine beforeColon := by
        intro others
        rw [colonNext_gap]
        exact Bool.and_true _
      simp only [Fields.lexemes, Fields.tokens, List.append_assoc, List.cons_append]
      rw [emitted, emitted_gap, emitted_mark, emitted_gap, value.emitted_lexemes apart,
        emitted_gap, rest.emitted_lexemes noColon, Lexeme.emitted, isKey]
      rfl

end

end Following

/-! ## Reading the tokens back -/

/-- A name stands for itself between quotes. -/
theorem unquote_name (name : Name) : unquote name.text = ofBytes name.text :=
  unquote_of_isPlain (all_isPlain name.bytes)

theorem Gap.tokens_eq_nil {gap : Gap} (none : gap.commas = 0) : gap.tokens = [] := by
  rw [Gap.tokens, none]
  rfl

theorem Gap.tokens_eq_comma {gap : Gap} (one : gap.commas = 1) : gap.tokens = [.comma] := by
  rw [Gap.tokens, one]
  rfl

theorem Literal.tokens_starts (literal : Literal) :
    ∃ first others, literal.tokens = first :: others ∧ first.startsValue = true := by
  cases literal <;> exact ⟨_, _, rfl, rfl⟩

theorem wordToken_startsValue (name : Text) (isKey : Bool) :
    (wordToken name isKey).startsValue = true ∧ (wordToken name isKey).endsValue = true := by
  unfold wordToken
  split
  next => exact ⟨rfl, rfl⟩
  split
  next => exact ⟨rfl, rfl⟩
  split
  next => exact ⟨rfl, rfl⟩
  split <;> exact ⟨rfl, rfl⟩

section Reading

variable {fuel : Nat} {tokens rest : List JsonToken}

theorem readValue_list {values : List Value}
    (starts : ∃ first others, tokens = first :: others ∧ first.startsValue = true)
    (read : readElements fuel tokens = some (values, rest)) :
    readValue (fuel + 1) (.mark .openBracket :: tokens) = some (.list values, rest) := by
  obtain ⟨first, others, rfl, isStart⟩ := starts
  rw [readValue, read]
  · rfl
  · intro remaining same
    cases same
    cases isStart

theorem readValue_object {members : List (String × Value)}
    (starts : ∃ first others, tokens = first :: others ∧ first.startsValue = true)
    (read : readMembers fuel tokens = some (members, rest)) :
    readValue (fuel + 1) (.mark .openBrace :: tokens) = some (.object members, rest) := by
  obtain ⟨first, others, rfl, isStart⟩ := starts
  rw [readValue, read]
  · rfl
  · intro remaining same
    cases same
    cases isStart

theorem readElements_last {value : Value}
    (read : readValue fuel tokens = some (value, .mark .closeBracket :: rest)) :
    readElements (fuel + 1) tokens = some ([value], rest) := by
  rw [readElements, read]
  rfl

theorem readElements_comma {value : Value} {values : List Value} {others : List JsonToken}
    (read : readValue fuel tokens = some (value, .comma :: others))
    (readOthers : readElements fuel others = some (values, rest)) :
    readElements (fuel + 1) tokens = some (value :: values, rest) := by
  rw [readElements, read]
  show (readElements fuel others >>= _) = _
  rw [readOthers]
  rfl

theorem readMembers_last {value : Value} (body : Text)
    (read : readValue fuel tokens = some (value, .mark .closeBrace :: rest)) :
    readMembers (fuel + 1) (.string body :: .mark .colon :: tokens) =
      some ([(unquote body, value)], rest) := by
  rw [readMembers, read]
  rfl

theorem readMembers_comma {value : Value} {members : List (String × Value)}
    {others : List JsonToken} (body : Text)
    (read : readValue fuel tokens = some (value, .comma :: others))
    (readOthers : readMembers fuel others = some (members, rest)) :
    readMembers (fuel + 1) (.string body :: .mark .colon :: tokens) =
      some ((unquote body, value) :: members, rest) := by
  rw [readMembers, read]
  show (readMembers fuel others >>= _) = _
  rw [readOthers]
  rfl

end Reading

/-- A key that is read as a string. -/
theorem wordToken_key {key : Name} {beforeColon : Gap}
    (inLine : isReserved key.text = true → beforeColon.inLine = true) :
    wordToken key.text beforeColon.inLine = .string key.text := by
  cases reserved : isReserved key.text with
  | false => exact wordToken_of_not_isReserved reserved _
  | true =>
      rw [inLine reserved]
      rfl

theorem Items.tokens_starts {items : Items} (nonempty : items.isEmpty = false)
    (following : List JsonToken) :
    ∃ first others, items.tokens ++ following = first :: others ∧ first.startsValue = true := by
  cases items with
  | nil => cases nonempty
  | cons value after rest =>
      obtain ⟨first, others, tokensEq, starts⟩ := value.tokens_starts
      rw [Items.tokens, tokensEq]
      exact ⟨first, _, rfl, starts⟩

theorem Fields.tokens_starts {fields : Fields} (nonempty : fields.isEmpty = false)
    (following : List JsonToken) :
    ∃ first others, fields.tokens ++ following = first :: others ∧ first.startsValue = true := by
  cases fields with
  | nil => cases nonempty
  | cons key beforeColon afterColon value after rest =>
      rw [Fields.tokens]
      exact ⟨_, _, rfl, (wordToken_startsValue _ _).1⟩

mutual

/-- A literal that is written as JSON would be is read back. -/
theorem Literal.readValue_tokens (literal : Literal) (jsonLike : literal.JsonLike) {fuel : Nat}
    (enough : 2 * literal.tokens.length ≤ fuel) (rest : List JsonToken) :
    readValue fuel (literal.tokens ++ rest) = some (literal.value, rest) := by
  match fuel, literal with
  | 0, literal =>
      obtain ⟨first, others, tokensEq, -⟩ := literal.tokens_starts
      rw [tokensEq] at enough
      exact absurd enough (by simp)
  | fuel + 1, .null => rfl
  | fuel + 1, .boolean value => rfl
  | fuel + 1, .enum name isFree =>
      rw [Literal.value, ← unquote_name]
      rfl
  | fuel + 1, .number numeral valid => rfl
  | fuel + 1, .string pieces => rfl
  | fuel + 1, .list opening items =>
      obtain ⟨noComma, inside⟩ := jsonLike
      rw [Literal.tokens, Gap.tokens_eq_nil noComma, List.nil_append] at enough ⊢
      rw [List.cons_append, List.append_assoc]
      cases empty : items.isEmpty with
      | true =>
          cases items with
          | nil => rfl
          | cons => cases empty
      | false =>
          simp only [List.length_cons, List.length_append] at enough
          exact readValue_list (Items.tokens_starts empty _)
            (items.readElements_tokens inside empty (by omega) rest)
  | fuel + 1, .object opening fields =>
      obtain ⟨noComma, inside⟩ := jsonLike
      rw [Literal.tokens, Gap.tokens_eq_nil noComma, List.nil_append] at enough ⊢
      rw [List.cons_append, List.append_assoc]
      cases empty : fields.isEmpty with
      | true =>
          cases fields with
          | nil => rfl
          | cons => cases empty
      | false =>
          simp only [List.length_cons, List.length_append] at enough
          exact readValue_object (Fields.tokens_starts empty _)
            (fields.readMembers_tokens inside empty (by omega) rest)

theorem Items.readElements_tokens (items : Items) (jsonLike : items.JsonLike)
    (nonempty : items.isEmpty = false) {fuel : Nat}
    (enough : 2 * items.tokens.length + 1 ≤ fuel) (rest : List JsonToken) :
    readElements fuel (items.tokens ++ .mark .closeBracket :: rest) =
      some (items.values, rest) := by
  match fuel, items with
  | 0, _ => cases enough
  | fuel + 1, .nil => cases nonempty
  | fuel + 1, .cons value after others =>
      obtain ⟨isValue, commas, later⟩ := jsonLike
      simp only [Items.tokens, List.length_append] at enough
      rw [Items.tokens, List.append_assoc, List.append_assoc]
      have read : ∀ rest, readValue fuel (value.tokens ++ rest) = some (value.value, rest) :=
        value.readValue_tokens isValue (by omega)
      cases empty : others.isEmpty with
      | true =>
          rw [empty] at commas
          rw [Gap.tokens_eq_nil commas]
          cases others with
          | nil => exact readElements_last (read _)
          | cons => cases empty
      | false =>
          rw [empty] at commas
          rw [Gap.tokens_eq_comma commas] at enough ⊢
          simp only [List.length_singleton] at enough
          exact readElements_comma (read _)
            (others.readElements_tokens later empty (by omega) rest)

theorem Fields.readMembers_tokens (fields : Fields) (jsonLike : fields.JsonLike)
    (nonempty : fields.isEmpty = false) {fuel : Nat}
    (enough : 2 * fields.tokens.length + 1 ≤ fuel) (rest : List JsonToken) :
    readMembers fuel (fields.tokens ++ .mark .closeBrace :: rest) =
      some (fields.values, rest) := by
  match fuel, fields with
  | 0, _ => cases enough
  | fuel + 1, .nil => cases nonempty
  | fuel + 1, .cons key beforeColon afterColon value after others =>
      obtain ⟨isKey, noCommaBefore, noCommaAfter, isValue, commas, later⟩ := jsonLike
      simp only [Fields.tokens, List.length_append, List.length_cons] at enough
      rw [Fields.tokens, wordToken_key isKey, Gap.tokens_eq_nil noCommaBefore,
        Gap.tokens_eq_nil noCommaAfter, Fields.values, ← unquote_name]
      simp only [List.nil_append, List.cons_append, List.append_assoc]
      have read : ∀ rest, readValue fuel (value.tokens ++ rest) = some (value.value, rest) :=
        value.readValue_tokens isValue (by omega)
      cases empty : others.isEmpty with
      | true =>
          rw [empty] at commas
          rw [Gap.tokens_eq_nil commas]
          cases others with
          | nil => exact readMembers_last key.text (read _)
          | cons => cases empty
      | false =>
          rw [empty] at commas
          rw [Gap.tokens_eq_comma commas] at enough ⊢
          simp only [List.length_singleton] at enough
          exact readMembers_comma key.text (read _)
            (others.readMembers_tokens later empty (by omega) rest)

end

/-! ## Tokens in order -/

theorem Ordered.left {first second : List JsonToken} (ordered : Ordered (first ++ second)) :
    Ordered first :=
  (List.isChain_append.mp ordered).1

theorem Ordered.right {first second : List JsonToken} (ordered : Ordered (first ++ second)) :
    Ordered second :=
  (List.isChain_append.mp ordered).2.1

theorem Ordered.tail {first : JsonToken} {rest : List JsonToken}
    (ordered : Ordered (first :: rest)) : Ordered rest :=
  List.IsChain.tail ordered

/-- At most one comma stands between two other tokens. -/
theorem Ordered.gap_cases {first second : JsonToken} {rest : List JsonToken} {gap : Gap}
    (ordered : Ordered (first :: (gap.tokens ++ second :: rest))) :
    (gap.commas = 0 ∧ first.mayPrecede second = true) ∨
      (gap.commas = 1 ∧ first.mayPrecede .comma = true ∧ second.startsValue = true) := by
  unfold Gap.tokens at ordered
  match count : gap.commas with
  | 0 =>
      rw [count] at ordered
      exact Or.inl ⟨rfl, (List.isChain_cons_cons.mp ordered).1⟩
  | 1 =>
      rw [count] at ordered
      obtain ⟨before, ordered⟩ := List.isChain_cons_cons.mp ordered
      exact Or.inr ⟨rfl, before, (List.isChain_cons_cons.mp ordered).1⟩
  | commas + 2 =>
      rw [count] at ordered
      obtain ⟨-, ordered⟩ := List.isChain_cons_cons.mp ordered
      cases (List.isChain_cons_cons.mp ordered).1

/-- No comma follows a token that may not stand before one. -/
theorem Ordered.no_commas {first second : JsonToken} {rest : List JsonToken} {gap : Gap}
    (ordered : Ordered (first :: (gap.tokens ++ second :: rest)))
    (notComma : first.mayPrecede .comma = false ∨ second.startsValue = false) :
    gap.commas = 0 ∧ first.mayPrecede second = true := by
  rcases ordered.gap_cases with none | ⟨-, comma, starts⟩
  · exact none
  · rcases notComma with notBefore | notAfter
    · rw [notBefore] at comma
      cases comma
    · rw [notAfter] at starts
      cases starts

theorem JsonToken.not_mayPrecede_startsValue {first second : JsonToken}
    (ends : first.endsValue = true) (starts : second.startsValue = true) :
    first.mayPrecede second = false := by
  cases first with
  | mark mark =>
      cases mark with
      | openBrace | openBracket | colon => cases ends
      | closeBrace | closeBracket =>
          cases second with
          | mark mark => cases mark <;> first | rfl | cases starts
          | comma => cases starts
          | null | boolean | number | string => rfl
  | comma => cases ends
  | null | boolean | number | string =>
      cases second with
      | mark mark => cases mark <;> first | rfl | cases starts
      | comma => cases starts
      | null | boolean | number | string => rfl

theorem Literal.tokens_ends (literal : Literal) :
    ∃ others last, literal.tokens = others ++ [last] ∧ last.endsValue = true := by
  cases literal with
  | list opening items =>
      exact ⟨.mark .openBracket :: (Gap.tokens opening ++ items.tokens), .mark .closeBracket, by
        simp [Literal.tokens], rfl⟩
  | object opening fields =>
      exact ⟨.mark .openBrace :: (Gap.tokens opening ++ fields.tokens), .mark .closeBrace, by
        simp [Literal.tokens], rfl⟩
  | null | boolean | enum | number | string => exact ⟨[], _, rfl, rfl⟩

section After

variable {value : Literal} {after : Gap} {next : JsonToken} {rest : List JsonToken}
  (ordered : Ordered (value.tokens ++ (after.tokens ++ next :: rest)))

include ordered

theorem ordered_last :
    ∃ last : JsonToken, last.endsValue = true ∧ Ordered (last :: (after.tokens ++ next :: rest)) := by
  obtain ⟨others, last, tokensEq, ends⟩ := value.tokens_ends
  rw [tokensEq, List.append_assoc] at ordered
  exact ⟨last, ends, ordered.right⟩

/-- Nothing stands between the last element and the closing bracket. -/
theorem commas_before_closing (closing : next.startsValue = false) : after.commas = 0 := by
  obtain ⟨last, -, ordered⟩ := ordered_last ordered
  exact (ordered.no_commas (Or.inr closing)).1

/-- One comma stands between two elements. -/
theorem commas_between (starts : next.startsValue = true) : after.commas = 1 := by
  obtain ⟨last, ends, ordered⟩ := ordered_last ordered
  rcases ordered.gap_cases with ⟨-, follows⟩ | ⟨one, -⟩
  · rw [JsonToken.not_mayPrecede_startsValue ends starts] at follows
    cases follows
  · exact one

end After

/-- A bracket or a colon is not followed by a comma. -/
theorem Ordered.opening {first : JsonToken} {gap : Gap} {tail : List JsonToken}
    (ordered : Ordered (first :: (gap.tokens ++ tail)))
    (notComma : first.mayPrecede .comma = false) (nonempty : tail ≠ []) : gap.commas = 0 := by
  cases tail with
  | nil => exact absurd rfl nonempty
  | cons second rest => exact (ordered.no_commas (Or.inl notComma)).1

/-- What stands before the colon of a key that is read as a string. -/
theorem Ordered.key {key : Name} {beforeColon : Gap} {rest : List JsonToken}
    (ordered : Ordered (wordToken key.text beforeColon.inLine ::
      (beforeColon.tokens ++ .mark .colon :: rest))) :
    (isReserved key.text = true → beforeColon.inLine = true) ∧ beforeColon.commas = 0 := by
  obtain ⟨none, follows⟩ := ordered.no_commas (Or.inr rfl)
  refine ⟨?_, none⟩
  intro reserved
  cases inLine : beforeColon.inLine with
  | true => rfl
  | false =>
      rw [inLine] at follows
      simp only [isReserved, Bool.or_eq_true, decide_eq_true_eq] at reserved
      rcases reserved with (isTrue | isFalse) | isNull
      · rw [isTrue] at follows
        cases follows
      · rw [isFalse] at follows
        cases follows
      · rw [isNull] at follows
        cases follows

mutual

/-- A literal whose tokens are in order is written as JSON would be. -/
theorem Literal.jsonLike_of_ordered (literal : Literal)
    (convertible : ∀ lexeme ∈ literal.lexemes, lexeme.isConvertible = true)
    (ordered : Ordered literal.tokens) : literal.JsonLike := by
  match literal with
  | .null => trivial
  | .boolean _ => trivial
  | .enum _ _ => trivial
  | .number numeral valid =>
      exact Option.isNone_iff_eq_none.mp
        (convertible (.number numeral valid) (List.mem_singleton.mpr rfl))
  | .string pieces =>
      have noTabs : (pieces.all fun piece => !piece.isTab) = true :=
        convertible (.string pieces) (List.mem_singleton.mpr rfl)
      intro piece membership
      exact Bool.not_eq_true' _ ▸ List.all_eq_true.mp noTabs piece membership
  | .list opening items =>
      rw [Literal.tokens] at ordered
      refine ⟨ordered.opening rfl (by simp), ?_⟩
      apply items.jsonLike_of_ordered
      · intro lexeme membership
        apply convertible
        simp [Literal.lexemes, membership]
      · exact ordered.tail.right
  | .object opening fields =>
      rw [Literal.tokens] at ordered
      refine ⟨ordered.opening rfl (by simp), ?_⟩
      apply fields.jsonLike_of_ordered
      · intro lexeme membership
        apply convertible
        simp [Literal.lexemes, membership]
      · exact ordered.tail.right

theorem Items.jsonLike_of_ordered (items : Items)
    (convertible : ∀ lexeme ∈ items.lexemes, lexeme.isConvertible = true)
    (ordered : Ordered (items.tokens ++ [.mark .closeBracket])) : items.JsonLike := by
  match items with
  | .nil => trivial
  | .cons value after rest =>
      rw [Items.tokens, List.append_assoc, List.append_assoc] at ordered
      refine ⟨?_, ?_, ?_⟩
      · apply value.jsonLike_of_ordered
        · intro lexeme membership
          apply convertible
          simp [Items.lexemes, membership]
        · exact ordered.left
      · cases empty : rest.isEmpty with
        | true =>
            cases rest with
            | nil => exact commas_before_closing ordered rfl
            | cons => cases empty
        | false =>
            obtain ⟨first, others, tokensEq, starts⟩ :=
              Items.tokens_starts empty [.mark .closeBracket]
            rw [tokensEq] at ordered
            exact commas_between ordered starts
      · apply rest.jsonLike_of_ordered
        · intro lexeme membership
          apply convertible
          simp [Items.lexemes, membership]
        · exact ordered.right.right

theorem Fields.jsonLike_of_ordered (fields : Fields)
    (convertible : ∀ lexeme ∈ fields.lexemes, lexeme.isConvertible = true)
    (ordered : Ordered (fields.tokens ++ [.mark .closeBrace])) : fields.JsonLike := by
  match fields with
  | .nil => trivial
  | .cons key beforeColon afterColon value after rest =>
      simp only [Fields.tokens, List.append_assoc, List.cons_append] at ordered
      obtain ⟨isKey, noCommaBefore⟩ := ordered.key
      have fromColon := ordered.tail.right
      have fromValue := fromColon.tail.right
      refine ⟨isKey, noCommaBefore, fromColon.opening rfl (by simp), ?_, ?_, ?_⟩
      · apply value.jsonLike_of_ordered
        · intro lexeme membership
          apply convertible
          simp [Fields.lexemes, membership]
        · exact fromValue.left
      · cases empty : rest.isEmpty with
        | true =>
            cases rest with
            | nil => exact commas_before_closing fromValue rfl
            | cons => cases empty
        | false =>
            obtain ⟨first, others, tokensEq, starts⟩ :=
              Fields.tokens_starts empty [.mark .closeBrace]
            rw [tokensEq] at fromValue
            exact commas_between fromValue starts
      · apply rest.jsonLike_of_ordered
        · intro lexeme membership
          apply convertible
          simp [Fields.lexemes, membership]
        · exact fromValue.right.right

end

/-! ## Literals that keep their value -/

theorem Gap.isConvertible {gap : Gap} {lexeme : Lexeme} (membership : lexeme ∈ gap.lexemes) :
    lexeme.isConvertible = true := by
  obtain ⟨blank, -, rfl⟩ := List.mem_map.mp membership
  rfl

mutual

/-- The lexemes of a literal that is written as JSON would be are convertible. -/
theorem Literal.isConvertible (literal : Literal) (jsonLike : literal.JsonLike) :
    ∀ lexeme ∈ literal.lexemes, lexeme.isConvertible = true := by
  match literal with
  | .null => exact List.forall_mem_singleton.mpr rfl
  | .boolean _ => exact List.forall_mem_singleton.mpr rfl
  | .enum _ _ => exact List.forall_mem_singleton.mpr rfl
  | .number numeral valid =>
      exact List.forall_mem_singleton.mpr (Option.isNone_iff_eq_none.mpr jsonLike)
  | .string pieces =>
      refine List.forall_mem_singleton.mpr (List.all_eq_true.mpr ?_)
      intro piece membership
      rw [jsonLike piece membership]
      rfl
  | .list opening items =>
      have inside := items.isConvertible jsonLike.2
      intro lexeme membership
      simp only [Literal.lexemes, List.mem_cons, List.mem_append, List.not_mem_nil,
        or_false] at membership
      rcases membership with rfl | gap | item | rfl
      · rfl
      · exact Gap.isConvertible gap
      · exact inside lexeme item
      · rfl
  | .object opening fields =>
      have inside := fields.isConvertible jsonLike.2
      intro lexeme membership
      simp only [Literal.lexemes, List.mem_cons, List.mem_append, List.not_mem_nil,
        or_false] at membership
      rcases membership with rfl | gap | field | rfl
      · rfl
      · exact Gap.isConvertible gap
      · exact inside lexeme field
      · rfl

theorem Items.isConvertible (items : Items) (jsonLike : items.JsonLike) :
    ∀ lexeme ∈ items.lexemes, lexeme.isConvertible = true := by
  match items with
  | .nil => exact fun _ membership => absurd membership List.not_mem_nil
  | .cons value after rest =>
      obtain ⟨isValue, -, later⟩ := jsonLike
      have inside := value.isConvertible isValue
      have others := rest.isConvertible later
      intro lexeme membership
      simp only [Items.lexemes, List.mem_append] at membership
      rcases membership with item | gap | item
      · exact inside lexeme item
      · exact Gap.isConvertible gap
      · exact others lexeme item

theorem Fields.isConvertible (fields : Fields) (jsonLike : fields.JsonLike) :
    ∀ lexeme ∈ fields.lexemes, lexeme.isConvertible = true := by
  match fields with
  | .nil => exact fun _ membership => absurd membership List.not_mem_nil
  | .cons key beforeColon afterColon value after rest =>
      obtain ⟨-, -, -, isValue, -, later⟩ := jsonLike
      have inside := value.isConvertible isValue
      have others := rest.isConvertible later
      intro lexeme membership
      simp only [Fields.lexemes, List.mem_cons, List.mem_append] at membership
      rcases membership with rfl | gap | rfl | gap | item | gap | item
      · rfl
      · exact Gap.isConvertible gap
      · rfl
      · exact Gap.isConvertible gap
      · exact inside lexeme item
      · exact Gap.isConvertible gap
      · exact others lexeme item

end

theorem InputObject.emitted_eq (object : InputObject) :
    emitted object.literal.lexemes = object.literal.tokens := by
  have whole : emitted (object.literal.lexemes ++ []) = object.literal.tokens ++ emitted [] :=
    object.literal.emitted_lexemes rfl
  rwa [List.append_nil, emitted, List.append_nil] at whole

theorem decodeJson_of_readValue {text : Text} {tokens : List JsonToken} {value : Value}
    (lexes : lexJson text = .ok tokens)
    (read : readValue (2 * tokens.length + 1) tokens = some (value, [])) :
    decodeJson text = some value := by
  simp only [decodeJson, lexes, read]

/-- An object literal keeps its meaning as JSON exactly when its commas and keys stand as in JSON,
its numbers have no exponents and its strings no tabs. -/
theorem InputObject.keepsMeaning_iff (object : InputObject) :
    object.KeepsMeaning ↔ object.literal.JsonLike := by
  constructor
  · rintro ⟨out, converts, decodes⟩
    obtain ⟨tokens, lexes, ordered⟩ := ordered_of_decodeJson decodes
    obtain ⟨convertible, rfl⟩ := isConvertible_of_ordered object.apart converts lexes ordered
    exact object.literal.jsonLike_of_ordered convertible (object.emitted_eq ▸ ordered)
  · intro jsonLike
    obtain ⟨out, converts, lexes⟩ :=
      convert_of_isConvertible object.apart (object.literal.isConvertible jsonLike)
    have tokensEq : lexJson out = .ok object.literal.tokens :=
      lexes.trans (congrArg Except.ok object.emitted_eq)
    have read := object.literal.readValue_tokens jsonLike
      (Nat.le_succ (2 * object.literal.tokens.length)) []
    rw [List.append_nil] at read
    exact ⟨out, converts, decodeJson_of_readValue tokensEq read⟩

/-- The names of the counterexample. -/
def nameA : Name := ⟨utf8 "a", by decide⟩

def nameB : Name := ⟨utf8 "b", by decide⟩

/-- A number of one digit. -/
def oneDigit (digit : UInt8) : Numeral := ⟨false, [digit], [], none⟩

/-- Two fields with a space between them. -/
def spaceSeparated : InputObject where
  opening := []
  fields :=
    .cons nameA [] [.space] (.number (oneDigit (byte '1')) (by decide)) [.space]
      (.cons nameB [] [.space] (.number (oneDigit (byte '2')) (by decide)) [] .nil)
  apart := by
    simp only [Literal.lexemes, Fields.lexemes, Gap.lexemes, List.map_nil, List.map_cons,
      List.nil_append, List.cons_append, List.isChain_cons_cons, List.IsChain.singleton]
    decide

theorem spaceSeparated_not_kept :
    spaceSeparated.text = utf8 "\x7ba: 1 b: 2\x7d" ∧ ¬ spaceSeparated.KeepsMeaning := by
  refine ⟨by decide, ?_⟩
  rintro ⟨out, converts, decodes⟩
  have text : graphqlObjectToJSON spaceSeparated.text =
      .ok (utf8 "\x7b\"a\": 1 \"b\": 2\x7d") := by decide
  rw [text] at converts
  cases converts
  have nothing : (decodeJson (utf8 "\x7b\"a\": 1 \"b\": 2\x7d")).isNone = true := by decide
  rw [decodes] at nothing
  cases nothing

end GitScale.GraphQL
