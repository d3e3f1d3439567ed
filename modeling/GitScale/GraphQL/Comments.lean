import GitScale.GraphQL.LexicalReading

/-!
# Comments between tokens

The parser on two queries with the same tokens.  Wherever a token is read in one of them, the
same token is read in the other, and the blanks and comments before it are passed over, as long
as the parts that are skipped have no comments with quotes or brackets.
-/

namespace GitScale.GraphQL

open Foundation Go Reader

/-! ## The same tokens -/

section Tokens

variable {element : Element} {elements elements' rest rest' : List Element}

theorem tokensOf_ignored (ignored : element.isIgnored = true) :
    tokensOf (element :: rest) = tokensOf rest :=
  List.filter_cons_of_neg (by simp [ignored])

theorem tokensOf_token (token : element.isIgnored = false) :
    tokensOf (element :: rest) = element :: tokensOf rest :=
  List.filter_cons_of_pos (by simp [token])

theorem tokensOf_settle (elements : List Element) : tokensOf (settle elements) = tokensOf elements := by
  induction elements with
  | nil => rfl
  | cons element rest inductionHypothesis =>
      cases ignored : element.isIgnored with
      | true =>
          rw [tokensOf_ignored ignored, ← inductionHypothesis]
          exact congrArg tokensOf (List.dropWhile_cons_of_pos ignored)
      | false => exact congrArg tokensOf (List.dropWhile_cons_of_neg (by simp [ignored]))

theorem isIgnored_of_settle (settled : settle elements = element :: rest) :
    element.isIgnored = false := by
  have head := List.head?_dropWhile_not Element.isIgnored elements
  unfold settle at settled
  rw [settled] at head
  exact head

/-- Elements with the same tokens have the same first token. -/
theorem settle_cases (same : tokensOf elements = tokensOf elements') :
    (settle elements = [] ∧ settle elements' = []) ∨
      ∃ element rest rest', element.isIgnored = false ∧ settle elements = element :: rest ∧
        settle elements' = element :: rest' ∧ tokensOf rest = tokensOf rest' := by
  rw [← tokensOf_settle elements, ← tokensOf_settle elements'] at same
  cases first : settle elements with
  | nil =>
      cases second : settle elements' with
      | nil => exact Or.inl ⟨rfl, rfl⟩
      | cons element' rest' =>
          rw [first, second, tokensOf_token (isIgnored_of_settle second)] at same
          cases same
  | cons element rest =>
      have token := isIgnored_of_settle first
      cases second : settle elements' with
      | nil =>
          rw [first, second, tokensOf_token token] at same
          cases same
      | cons element' rest' =>
          rw [first, second, tokensOf_token token,
            tokensOf_token (isIgnored_of_settle second)] at same
          obtain ⟨rfl, others⟩ := List.cons.inj same
          exact Or.inr ⟨element, rest, rest', token, rfl, rfl, others⟩

/-- What is left of a number is the same in both. -/
theorem tokensOf_numberTail {text : Text} (isNumber : IsNumber text) (taken : Nat)
    (same : tokensOf rest = tokensOf rest') :
    tokensOf (numberTail text isNumber taken rest) =
      tokensOf (numberTail text isNumber taken rest') := by
  unfold numberTail
  split
  next => exact same
  next => rw [tokensOf_token rfl, tokensOf_token rfl, same]

theorem tokensOf_afterIdent (token : element.isIgnored = false)
    (same : tokensOf rest = tokensOf rest') :
    tokensOf (afterIdent (element :: rest)) = tokensOf (afterIdent (element :: rest')) := by
  cases element with
  | blank | comment => cases token
  | name name => exact same
  | number text isNumber => exact tokensOf_numberTail isNumber _ same
  | dots | string | block | single =>
      exact (tokensOf_token token).trans ((congrArg _ same).trans (tokensOf_token token).symm)

end Tokens

/-! ## The same parts -/

section Regions

variable {opening closing : UInt8} {count : Nat} {elements elements' rest region : List Element}

theorem Element.count_of_isIgnored {element : Element} (ignored : element.isIgnored = true) :
    element.count opening closing count = count := by
  cases element with
  | blank | comment => rfl
  | name | number | dots | string | block | single => cases ignored

/-- Blanks and comments in front of a part belong to it. -/
theorem skipRegion_settle (positive : 0 < count)
    (found : skipRegion opening closing count (settle elements) = some (region, rest)) :
    ∃ whole, skipRegion opening closing count elements = some (whole, rest) ∧
      tokensOf whole = tokensOf region := by
  induction elements with
  | nil => exact ⟨region, found, rfl⟩
  | cons element others inductionHypothesis =>
      cases ignored : element.isIgnored with
      | false =>
          have same : settle (element :: others) = element :: others :=
            List.dropWhile_cons_of_neg (by simp [ignored])
          rw [same] at found
          exact ⟨region, found, rfl⟩
      | true =>
          have drops : settle (element :: others) = settle others :=
            List.dropWhile_cons_of_pos ignored
          rw [drops] at found
          obtain ⟨whole, foundLater, same⟩ := inductionHypothesis found
          refine ⟨element :: whole, ?_, ?_⟩
          · rw [skipRegion, Element.count_of_isIgnored ignored,
              if_neg (Nat.pos_iff_ne_zero.mp positive), foundLater]
            rfl
          · rw [tokensOf_ignored ignored, same]

/-- A part with the same tokens is closed in the same place. -/
theorem skipRegion_same (positive : 0 < count) (same : tokensOf elements = tokensOf elements')
    (found : skipRegion opening closing count elements = some (region, rest)) :
    ∃ region' rest', skipRegion opening closing count elements' = some (region', rest') ∧
      tokensOf region = tokensOf region' ∧ tokensOf rest = tokensOf rest' := by
  induction elements generalizing count region elements' with
  | nil => cases found
  | cons element others inductionHypothesis =>
      rw [skipRegion] at found
      cases ignored : element.isIgnored with
      | true =>
          rw [Element.count_of_isIgnored ignored,
            if_neg (Nat.pos_iff_ne_zero.mp positive)] at found
          obtain ⟨⟨inner, after⟩, foundLater, equal⟩ := Option.map_eq_some_iff.mp found
          cases equal
          rw [tokensOf_ignored ignored] at same
          obtain ⟨region', rest', found', sameRegion, sameRest⟩ :=
            inductionHypothesis positive same foundLater
          exact ⟨region', rest', found', by rw [tokensOf_ignored ignored, sameRegion], sameRest⟩
      | false =>
          have settled : settle (element :: others) = element :: others :=
            List.dropWhile_cons_of_neg (by simp [ignored])
          rcases settle_cases same with ⟨none, -⟩ | ⟨first, later, later', -, here, here', tail⟩
          · rw [settled] at none
            cases none
          · rw [settled] at here
            cases here
            have both : ∃ region' rest',
                skipRegion opening closing count (element :: later') = some (region', rest') ∧
                  tokensOf region = tokensOf region' ∧ tokensOf rest = tokensOf rest' := by
              rw [skipRegion]
              split at found
              next last =>
                cases found
                rw [if_pos last]
                exact ⟨_, _, rfl, rfl, tail⟩
              next more =>
                obtain ⟨⟨inner, after⟩, foundLater, equal⟩ := Option.map_eq_some_iff.mp found
                cases equal
                obtain ⟨region', rest', found', sameRegion, sameRest⟩ :=
                  inductionHypothesis (Nat.pos_of_ne_zero more) tail foundLater
                rw [if_neg more, found']
                refine ⟨_, _, rfl, ?_, sameRest⟩
                rw [tokensOf_token ignored, tokensOf_token ignored, sameRegion]
            obtain ⟨region', rest', found', sameRegion, sameRest⟩ := both
            rw [← here'] at found'
            obtain ⟨whole, foundWhole, sameWhole⟩ := skipRegion_settle positive found'
            exact ⟨whole, rest', foundWhole, sameRegion.trans sameWhole.symm, sameRest⟩

end Regions

/-! ## Two queries -/

/-- Both positions are before the same tokens, at the same place of the query. -/
def Paired (cut : Bool) (source source' : Text) (place : Place) (position position' : Nat) : Prop :=
  ∃ elements elements', Facing cut source position place elements ∧
    Facing false source' position' place elements' ∧ tokensOf elements = tokensOf elements'

/-- Both positions are at the end or at the same token. -/
inductive Settled (cut : Bool) (source source' : Text) (place : Place)
    (position position' : Nat) : Prop where
  | ended (facing : Facing cut source position place [])
      (facing' : Facing false source' position' place [])
  | token {element : Element} {rest rest' : List Element} (isToken : element.isIgnored = false)
      (facing : Facing cut source position place (element :: rest))
      (facing' : Facing false source' position' place (element :: rest'))
      (same : tokensOf rest = tokensOf rest')

section Two

variable {cut : Bool} {source source' : Text} {place : Place} {position position' : Nat}

theorem Settled.paired (settled : Settled cut source source' place position position') :
    Paired cut source source' place position position' := by
  cases settled with
  | ended facing facing' => exact ⟨_, _, facing, facing', rfl⟩
  | token isToken facing facing' same =>
      refine ⟨_, _, facing, facing', ?_⟩
      rw [tokensOf_token isToken, tokensOf_token isToken, same]

/-- The next byte is the same. -/
theorem Settled.current_eq (settled : Settled cut source source' place position position') :
    source'[position']? = source[position]? := by
  cases settled with
  | ended facing facing' => rw [facing.ended, facing'.ended]
  | token isToken facing facing' same => rw [facing.current_eq, facing'.current_eq]

/-- The end is not reached before a comment that cuts the first source. -/
theorem Settled.cut_eq (settled : Settled cut source source' place position position')
    (ended : source[position]? = none) : cut = false := by
  cases settled with
  | ended facing facing' => exact facing.agrees
  | token isToken facing facing' same =>
      rw [facing.current_eq] at ended
      cases ended

theorem follows_skipWS (paired : Paired cut source source' place position position') :
    Follows source source' position position' skipWS skipWS fun _ next _ next' =>
      Settled cut source source' place next next' := by
  obtain ⟨elements, elements', facing, facing', same⟩ := paired
  obtain ⟨next, skips, settled⟩ := facing.skipWS_ok
  obtain ⟨next', skips', settled'⟩ := facing'.skipWS_ok
  refine follows_of_ok skips skips' ?_
  rcases settle_cases same with ⟨none, none'⟩ | ⟨element, rest, rest', isToken, here, here', tail⟩
  · exact .ended (none ▸ settled) (none' ▸ settled')
  · exact .token isToken (here ▸ settled) (here' ▸ settled') tail

theorem follows_current (settled : Settled cut source source' place position position') :
    Follows source source' position position' (current : Parser (Option UInt8))
      (current : Parser (Option UInt8)) fun value next value' next' =>
        value' = value ∧ value = source[position]? ∧ next = position ∧ next' = position' :=
  follows_of_ok rfl rfl ⟨settled.current_eq, rfl, rfl, rfl⟩

theorem follows_peek (settled : Settled cut source source' place position position') :
    Follows source source' position position' peek peek fun value next value' next' =>
      value' = value ∧ value = source[position]?.getD 0 ∧ next = position ∧ next' = position' :=
  follows_of_ok rfl rfl ⟨by rw [settled.current_eq], rfl, rfl, rfl⟩

/-! ## Punctuators and names -/

theorem Element.eq_single {element : Element} {value : UInt8} (isToken : element.isIgnored = false)
    (alone : isSingle value = true) (first : element.first = value) :
    element = .single value alone := by
  have nameTable : ∀ value, isNameStart value = true → isSingle value = false :=
    forall_byte (by decide)
  have numberTable : ∀ value, isNumeric value = true → isSingle value = false :=
    forall_byte (by decide)
  subst first
  cases element with
  | blank | comment => cases isToken
  | name name =>
      rw [nameTable _ (Element.name_first name)] at alone
      cases alone
  | number text isNumber =>
      rw [numberTable _ (Element.number_first isNumber)] at alone
      cases alone
  | dots => cases alone
  | string | block => cases alone
  | single value _ => rfl

/-- Both positions are at a byte that is a token. -/
theorem Settled.single (settled : Settled cut source source' place position position') {value : UInt8}
    (here : source[position]? = some value) (alone : isSingle value = true) :
    ∃ rest rest', Facing cut source position place (.single value alone :: rest) ∧
      Facing false source' position' place (.single value alone :: rest') ∧
      tokensOf rest = tokensOf rest' := by
  cases settled with
  | ended facing facing' =>
      rw [facing.ended] at here
      cases here
  | @token element rest rest' isToken facing facing' same =>
      rw [facing.current_eq] at here
      have isSingle := Element.eq_single isToken alone (Option.some.inj here)
      subst isSingle
      exact ⟨rest, rest', facing, facing', same⟩

theorem Settled.passed (settled : Settled cut source source' place position position') {value : UInt8}
    (here : source[position]? = some value) (alone : isSingle value = true)
    (outside : (place.next (.single value alone)).isSkipped = false) :
    Paired cut source source' (place.next (.single value alone)) (position + 1) (position' + 1) := by
  obtain ⟨rest, rest', facing, facing', same⟩ := settled.single here alone
  exact ⟨rest, rest', facing.next outside, facing'.next outside, same⟩

theorem follows_expect {value : UInt8} (alone : isSingle value = true)
    (outside : (place.next (.single value alone)).isSkipped = false)
    (paired : Paired cut source source' place position position') :
    Follows source source' position position' (expect value) (expect value)
      fun _ next _ next' =>
        Paired cut source source' (place.next (.single value alone)) next next' := by
  unfold expect
  refine (follows_skipWS paired).bind ?_
  intro _ start _ start' settled
  refine (follows_current settled).bind ?_
  rintro _ _ here _ ⟨rfl, isHere, rfl, rfl⟩
  refine follows_ite (fun found => ?_) fun _ => follows_fail _
  rw [isHere] at found
  exact follows_of_ok rfl rfl (settled.passed found alone outside)

/-- A place that names and numbers do not change. -/
def Place.Steady (place : Place) : Prop :=
  (∀ name, place.next (.name name) = place) ∧
    ∀ text isNumber, place.next (.number text isNumber) = place

theorem steady_level (depth : Nat) : (Place.level depth .nothing).Steady := by
  refine ⟨fun _ => rfl, fun text isNumber => ?_⟩
  simp only [Place.next]
  split <;> rfl

theorem steady_arguments (depth : Nat) : (Place.arguments depth).Steady :=
  ⟨fun _ => rfl, fun _ _ => rfl⟩

theorem Place.Steady.afterIdent (steady : place.Steady) (elements : List Element) :
    place.afterIdent elements = place := by
  unfold Place.afterIdent
  split
  next => exact steady.1 _
  next =>
    split
    next => rfl
    next => exact steady.2 _ _
  next => rfl

/-- The same name is read. -/
theorem readIdent_same (paired : Paired cut source source' place position position') :
    ∃ elements elements' next next',
      readIdent source position = .ok (ofBytes (identText elements)) next ∧
        readIdent source' position' = .ok (ofBytes (identText elements)) next' ∧
        Facing cut source next (place.afterIdent elements) (afterIdent elements) ∧
        Facing false source' next' (place.afterIdent elements) (afterIdent elements') ∧
        tokensOf (afterIdent elements) = tokensOf (afterIdent elements') ∧
        ∀ element ∈ elements.head?, element.isIgnored = false := by
  obtain ⟨elements, elements', facing, facing', same⟩ := paired
  obtain ⟨next, reads, later⟩ := facing.readIdent_ok
  obtain ⟨next', reads', later'⟩ := facing'.readIdent_ok
  rcases settle_cases same with ⟨none, none'⟩ | ⟨element, rest, rest', isToken, here, here', tail⟩
  · rw [none] at reads later
    rw [none'] at reads' later'
    exact ⟨[], [], next, next', reads, reads', later, later', rfl, by simp⟩
  · rw [here] at reads later
    rw [here'] at reads' later'
    have sameIdent : identText (element :: rest') = identText (element :: rest) := by
      cases element <;> rfl
    have samePlace : place.afterIdent (element :: rest') = place.afterIdent (element :: rest) := by
      cases element <;> rfl
    rw [sameIdent] at reads'
    rw [samePlace] at later'
    exact ⟨element :: rest, element :: rest', next, next', reads, reads', later, later',
      tokensOf_afterIdent isToken tail, by simpa using isToken⟩

theorem follows_readIdent (steady : place.Steady)
    (paired : Paired cut source source' place position position') :
    Follows source source' position position' readIdent readIdent fun name next name' next' =>
      name' = name ∧ Paired cut source source' place next next' := by
  obtain ⟨elements, elements', next, next', reads, reads', facing, facing', same, -⟩ :=
    readIdent_same paired
  rw [steady.afterIdent] at facing facing'
  exact follows_of_ok reads reads' ⟨rfl, _, _, facing, facing', same⟩

/-! ## Parts in brackets -/

/-- The source between two positions has the given elements. -/
structure Between (source : Text) (position next : Nat) (elements : List Element) : Prop where
  inside : position ≤ source.length
  here : ∃ rest, source.drop position = elementsText elements ++ rest
  length : next = position + (elementsText elements).length
  apart : Apart elements

theorem Between.slice_eq {next : Nat} {elements : List Element}
    (between : Between source position next elements) :
    (slice position : Parser Text) source next = .ok (elementsText elements) next := by
  obtain ⟨rest, here⟩ := between.here
  rw [between.length]
  exact slice_of_drop between.inside here

section Brackets

variable {opening closing : UInt8} {outer : Place} (brackets : IsBrackets opening closing)

include brackets

/-- The elements of a part that is skipped. -/
theorem between_of_skipRegion {elements region rest : List Element}
    (lexed : Lexed source position (.single opening brackets.opens :: elements))
    (found : skipRegion opening closing 1 elements = some (region, rest)) :
    Between source position (position + 1 + (elementsText region).length)
      (.single opening brackets.opens :: region) := by
  have split := skipRegion_eq_append found
  have here := lexed.here
  have apart := lexed.apart
  rw [split, ← List.cons_append] at apart
  rw [split, ← List.cons_append, elementsText_append] at here
  refine ⟨here.1, ⟨_, here.2⟩, ?_, (List.isChain_append.mp apart).1⟩
  rw [elementsText_cons, List.length_append, ← Nat.add_assoc]
  rfl

/-- Both sources skip a part with the same tokens. -/
theorem follows_skipBalanced
    (settled : Settled cut source source' place position position')
    (here : source[position]? = some opening)
    (opens : place.next (.single opening brackets.opens) = .skipped opening closing 1 outer)
    (outside : outer.isSkipped = false) :
    Follows source source' position position' (skipBalanced opening closing)
      (skipBalanced opening closing) fun _ next _ next' =>
        Paired cut source source' outer next next' ∧ ∃ region region',
          Between source position next region ∧ Between source' position' next' region' ∧
            tokensOf region = tokensOf region' := by
  obtain ⟨elements, elements', facing, facing', same⟩ := settled.single here brackets.opens
  intro value next returns
  obtain ⟨region, rest, found, rfl, later⟩ := facing.of_skipBalanced brackets opens outside returns
  obtain ⟨region', rest', found', sameRegion, sameRest⟩ :=
    skipRegion_same (Nat.le_refl 1) same found
  have returns' := facing'.skipBalanced_ok brackets opens found'
  obtain ⟨_, _, again, -, later'⟩ := facing'.of_skipBalanced brackets opens outside returns'
  rw [found'] at again
  cases again
  refine (accepts_iff_of_ok returns').mpr ⟨⟨rest, rest', later, later', sameRest⟩, _, _,
    between_of_skipRegion brackets facing.toLexed found,
    between_of_skipRegion brackets facing'.toLexed found', ?_⟩
  rw [tokensOf_token rfl, tokensOf_token rfl, sameRegion]

/-- A list or an object is the same value. -/
theorem follows_readBalanced
    (settled : Settled cut source source' place position position')
    (here : source[position]? = some opening)
    (opens : place.next (.single opening brackets.opens) = .skipped opening closing 1 outer)
    (outside : outer.isSkipped = false) :
    Follows source source' position position' (readBalanced opening closing)
      (readBalanced opening closing) fun value next value' next' =>
        value.Same value' ∧ Paired cut source source' outer next next' := by
  unfold readBalanced
  refine follows_bind_of_ok rfl rfl ?_
  refine (follows_skipBalanced brackets settled here opens outside).bind ?_
  rintro _ next _ next' ⟨paired, region, region', between, between', same⟩
  refine follows_bind_of_ok between.slice_eq between'.slice_eq ?_
  refine follows_pure ⟨Or.inr ⟨rfl, rfl, region, region', rfl, rfl, between.apart,
    between'.apart, same⟩, paired⟩

end Brackets

/-! ## Values and arguments -/

theorem Element.isString_of_first {element : Element} (isToken : element.isIgnored = false)
    (first : element.first = quote) : element.isString = true := by
  have nameTable : ∀ value, isNameStart value = true → value ≠ quote :=
    forall_byte (by decide)
  have numberTable : ∀ value, isNumeric value = true → value ≠ quote :=
    forall_byte (by decide)
  cases element with
  | blank | comment => cases isToken
  | name name => exact absurd first (nameTable _ (Element.name_first name))
  | number text isNumber => exact absurd first (numberTable _ (Element.number_first isNumber))
  | dots => exact absurd first (by decide)
  | string | block => rfl
  | single value alone =>
      change value = quote at first
      rw [first] at alone
      cases alone

theorem Element.isNumber_of_first {element : Element} (isToken : element.isIgnored = false)
    (first : element.first = byte '-' ∨ isDigit element.first = true) :
    ∃ text isNumber, element = .number text isNumber := by
  have nameTable : ∀ value, isNameStart value = true →
      ¬ (value = byte '-' ∨ isDigit value = true) :=
    forall_byte (by decide)
  have singleTable : ∀ value, isSingle value = true →
      ¬ (value = byte '-' ∨ isDigit value = true) :=
    forall_byte (by decide)
  cases element with
  | blank | comment => cases isToken
  | name name => exact absurd first (nameTable _ (Element.name_first name))
  | number text isNumber => exact ⟨text, isNumber, rfl⟩
  | dots => exact absurd first (by decide)
  | string | block =>
      have quoted : quote = byte '-' ∨ isDigit quote = true := first
      exact absurd quoted (by decide)
  | single value alone => exact absurd first (singleTable value alone)

theorem follows_readString {depth : Nat}
    (settled : Settled cut source source' (.arguments depth) position position')
    (here : source[position]? = some quote) :
    Follows source source' position position' readString readString fun raw next raw' next' =>
      raw' = raw ∧ Paired cut source source' (.arguments depth) next next' := by
  cases settled with
  | ended facing facing' =>
      rw [facing.ended] at here
      cases here
  | @token element rest rest' isToken facing facing' same =>
      rw [facing.current_eq] at here
      have isString := Element.isString_of_first isToken (Option.some.inj here)
      have stays : (Place.arguments depth).next element = .arguments depth := by
        cases element with
        | string | block => rfl
        | blank | comment | name | number | dots | single => cases isString
      have agrees := (facing.agrees.step rfl).1
      have outside : ((Place.arguments depth).next element).isSkipped = false :=
        congrArg Place.isSkipped stays
      refine follows_of_ok (facing.readString_ok agrees isString)
        (facing'.readString_ok agrees isString) ?_
      exact ⟨rfl, rest, rest', stays ▸ facing.next outside, stays ▸ facing'.next outside, same⟩

theorem follows_readNumber {depth : Nat} {value : UInt8}
    (settled : Settled cut source source' (.arguments depth) position position')
    (here : source[position]? = some value) (isNumber : value = byte '-' ∨ isDigit value = true) :
    Follows source source' position position' readNumber readNumber fun number next number' next' =>
      number' = number ∧ Paired cut source source' (.arguments depth) next next' := by
  cases settled with
  | ended facing facing' =>
      rw [facing.ended] at here
      cases here
  | @token element rest rest' isToken facing facing' same =>
      rw [facing.current_eq] at here
      rw [← Option.some.inj here] at isNumber
      obtain ⟨text, isText, rfl⟩ := Element.isNumber_of_first isToken isNumber
      refine follows_of_ok facing.readNumber_ok facing'.readNumber_ok ⟨rfl, _, _, ?_, ?_,
        tokensOf_numberTail isText (numberLength text) same⟩
      · exact facing.numberTail (numberLength_le text) fun _ _ _ => rfl
      · exact facing'.numberTail (numberLength_le text) fun _ _ _ => rfl

theorem follows_parseValue {depth : Nat}
    (paired : Paired cut source source' (.arguments depth) position position') :
    Follows source source' position position' parseValue parseValue
      fun value next value' next' =>
        value.Same value' ∧ Paired cut source source' (.arguments depth) next next' := by
  unfold parseValue
  refine (follows_skipWS paired).bind ?_
  intro _ start _ start' settled
  refine (follows_current settled).bind ?_
  rintro _ _ here _ ⟨rfl, isHere, rfl, rfl⟩
  cases here with
  | none => exact follows_fail _
  | some value =>
      refine follows_ite (fun isVariable => ?_) fun _ => ?_
      · rw [isVariable] at isHere
        refine follows_bind_of_ok rfl rfl ?_
        refine (follows_readIdent (steady_arguments depth)
          (settled.passed isHere.symm rfl rfl)).bind ?_
        rintro _ next name next' ⟨rfl, later⟩
        exact follows_pure ⟨Or.inl rfl, later⟩
      refine follows_ite (fun isQuote => ?_) fun _ => ?_
      · rw [isQuote] at isHere
        refine (follows_readString settled isHere.symm).bind ?_
        rintro _ next raw next' ⟨rfl, later⟩
        exact follows_pure ⟨Or.inl rfl, later⟩
      refine follows_ite (fun isList => ?_) fun _ => ?_
      · rw [isList] at isHere
        exact follows_readBalanced isBrackets_list settled isHere.symm rfl rfl
      refine follows_ite (fun isObject => ?_) fun _ => ?_
      · rw [isObject] at isHere
        exact follows_readBalanced isBrackets_object settled isHere.symm rfl rfl
      refine follows_ite (fun isNumber => ?_) fun _ => ?_
      · refine (follows_readNumber settled isHere.symm isNumber).mono ?_
        rintro _ next number next' ⟨rfl, later⟩
        exact ⟨Or.inl rfl, later⟩
      refine (follows_readIdent (steady_arguments depth) settled.paired).bind ?_
      rintro _ next name next' ⟨rfl, later⟩
      refine follows_ite (fun _ => follows_fail _) fun _ => ?_
      exact follows_pure ⟨Or.inl rfl, later⟩

/-- Entries with the same keys and related values keep them. -/
theorem forall₂_setEntry {Value : Type} {related : Value → Value → Prop}
    {entries entries' : List (String × Value)} {value value' : Value} (key : String)
    (same : List.Forall₂ (fun entry entry' => entry.1 = entry'.1 ∧ related entry.2 entry'.2)
      entries entries') (sameValue : related value value') :
    List.Forall₂ (fun entry entry' => entry.1 = entry'.1 ∧ related entry.2 entry'.2)
      (setEntry entries key value) (setEntry entries' key value') := by
  unfold setEntry
  induction same with
  | nil => exact .cons ⟨rfl, sameValue⟩ .nil
  | @cons entry entry' entries entries' both others inductionHypothesis =>
      by_cases replaced : entry.1 = key
      · have replaced' : entry'.1 = key := both.1.symm.trans replaced
        rw [List.filter_cons_of_neg (by simpa using replaced),
          List.filter_cons_of_neg (by simpa using replaced')]
        exact inductionHypothesis
      · have kept' : entry'.1 ≠ key := fun equal => replaced (both.1.trans equal)
        rw [List.filter_cons_of_pos (by simpa using replaced),
          List.filter_cons_of_pos (by simpa using kept')]
        exact .cons both inductionHypothesis

theorem follows_parseArgsLoop {depth : Nat} (fuel fuel' : Nat)
    {into into' : List (String × ArgValue)} (same : SameArgs into into')
    (paired : Paired cut source source' (.arguments depth) position position') :
    Follows source source' position position' (parseArgsLoop fuel into)
      (parseArgsLoop fuel' into') fun args next args' next' =>
        SameArgs args args' ∧ Paired cut source source' (.level depth .nothing) next next' := by
  induction fuel generalizing fuel' into into' position position' with
  | zero => exact stuck_follows
  | succ fuel inductionHypothesis =>
      cases fuel' with
      | zero => exact follows_stuck
      | succ fuel' =>
          refine (follows_skipWS paired).bind ?_
          intro _ start _ start' settled
          refine (follows_current settled).bind ?_
          rintro _ _ here _ ⟨rfl, isHere, rfl, rfl⟩
          cases here with
          | none => exact follows_fail _
          | some value =>
              refine follows_ite (fun isClosing => ?_) fun _ => ?_
              · rw [isClosing] at isHere
                refine follows_bind_of_ok rfl rfl ?_
                exact follows_pure ⟨same, settled.passed isHere.symm rfl rfl⟩
              refine (follows_readIdent (steady_arguments depth) settled.paired).bind ?_
              rintro _ next name next' ⟨rfl, later⟩
              refine follows_ite (fun _ => follows_fail _) fun _ => ?_
              refine (follows_skipWS later).bind ?_
              intro _ _ _ _ settled
              have colon : Follows source source' _ _ _ _ _ :=
                follows_expect (show isSingle (byte ':') = true from rfl) rfl settled.paired
              refine colon.bind ?_
              intro _ _ _ _ paired
              refine (follows_skipWS paired).bind ?_
              intro _ _ _ _ settled
              refine (follows_parseValue settled.paired).bind ?_
              rintro value _ value' _ ⟨sameValue, paired⟩
              exact inductionHypothesis fuel' (forall₂_setEntry name same sameValue) paired

/-- The arguments of a field. -/
theorem follows_parseOptionalArgs {depth : Nat}
    (settled : Settled cut source source' (.level (depth + 1) .nothing) position position') :
    Follows source source' position position' parseOptionalArgs parseOptionalArgs
      fun args next args' next' =>
        SameArgs args args' ∧
          Paired cut source source' (.level (depth + 1) .nothing) next next' := by
  unfold parseOptionalArgs
  refine (follows_peek settled).bind ?_
  rintro _ _ here _ ⟨rfl, -, rfl, rfl⟩
  refine follows_ite (fun _ => ?_) fun _ => follows_pure ⟨.nil, settled.paired⟩
  have opening : Follows source source' _ _ _ _ _ :=
    follows_expect (show isSingle (byte '(') = true from rfl) rfl settled.paired
  refine opening.bind ?_
  intro _ _ _ _ paired
  refine follows_bind_of_ok rfl rfl ?_
  exact follows_parseArgsLoop _ _ .nil paired

/-! ## Directives -/

theorem current_of_peeked {value : UInt8} (nonzero : value ≠ 0)
    (peeked : source[position]?.getD 0 = value) : source[position]? = some value := by
  cases here : source[position]? with
  | none =>
      rw [here] at peeked
      exact absurd peeked.symm nonzero
  | some found =>
      rw [here] at peeked
      exact congrArg some peeked

/-- Variable definitions or the arguments of a directive, if there are any. -/
theorem follows_skipParenthesised {depth : Nat}
    (settled : Settled cut source source' place position position')
    (opens : source[position]? = some (byte '(') →
      place.next (.single (byte '(') rfl) =
        .skipped (byte '(') (byte ')') 1 (.level depth .nothing))
    (absent : source[position]? ≠ some (byte '(') →
      Paired cut source source' (.level depth .nothing) position position') :
    Follows source source' position position' skipParenthesised skipParenthesised
      fun _ next _ next' => Paired cut source source' (.level depth .nothing) next next' := by
  unfold skipParenthesised
  refine (follows_peek settled).bind ?_
  rintro _ _ here _ ⟨rfl, isHere, rfl, rfl⟩
  refine follows_ite (fun found => ?_) fun missing => follows_pure (absent ?_)
  · have current := current_of_peeked (by decide) (isHere.symm.trans found)
    refine (follows_skipBalanced isBrackets_parentheses settled current (opens current) rfl).mono ?_
    intro _ _ _ _ both
    exact both.1
  · intro current
    rw [current] at isHere
    exact missing isHere

/-- Whether an element is read whole as a name. -/
def Element.isIdent : Element → Bool
  | .name _ => true
  | .number text _ => text.all isNameByte
  | _ => false

/-- Both positions are after the name of a directive, which may be missing: no name follows a
sign alone, and no arguments follow what is no directive. -/
def Directed (cut : Bool) (source source' : Text) (depth position position' : Nat) : Prop :=
  ∃ mark elements elements', Facing cut source position (.level depth mark) elements ∧
    Facing false source' position' (.level depth mark) elements' ∧
    tokensOf elements = tokensOf elements' ∧ ∀ element ∈ (settle elements).head?,
      (mark = .sign → element.isIdent = false) ∧ (mark = .nothing → element.first ≠ byte '(')

theorem settle_token {element : Element} {rest : List Element}
    (isToken : element.isIgnored = false) : settle (element :: rest) = element :: rest :=
  List.dropWhile_cons_of_neg (by simp [isToken])

theorem all_eq_false_of_takeWhile {text : Text} (nonempty : text ≠ [])
    (empty : text.takeWhile isNameByte = []) : text.all isNameByte = false := by
  cases text with
  | nil => exact absurd rfl nonempty
  | cons value text =>
      rw [List.takeWhile_cons] at empty
      split at empty
      next => cases empty
      next notName => simp [notName]

theorem afterIdent_number_partly {text : Text} {isNumber : IsNumber text} {rest : List Element}
    (partly : text.all isNameByte = false) :
    ∃ suffix isSuffix, afterIdent (.number text isNumber :: rest) = .number suffix isSuffix :: rest := by
  rw [afterIdent, numberTail]
  split
  next done =>
    have taken : text.takeWhile isNameByte = text :=
      (List.takeWhile_prefix isNameByte).eq_of_length_le (List.drop_eq_nil_iff.mp done)
    rw [← taken, List.all_takeWhile] at partly
    cases partly
  next more => exact ⟨_, isNumber.drop more, rfl⟩

theorem directed_afterIdent {depth : Nat} {elements elements' : List Element}
    (facing : Facing cut source position ((Place.level depth .sign).afterIdent elements)
      (afterIdent elements))
    (facing' : Facing false source' position' ((Place.level depth .sign).afterIdent elements)
      (afterIdent elements')) (same : tokensOf (afterIdent elements) = tokensOf (afterIdent elements'))
    (isToken : ∀ element ∈ elements.head?, element.isIgnored = false) :
    Directed cut source source' depth position position' := by
  cases elements with
  | nil => exact ⟨.sign, _, _, facing, facing', same, by simp [afterIdent, settle]⟩
  | cons element rest =>
      cases element with
      | blank | comment => cases isToken _ rfl
      | name name => exact ⟨.named, _, _, facing, facing', same, by simp⟩
      | number text isNumber =>
          by_cases empty : text.takeWhile isNameByte = []
          · have stays : (Place.level depth .sign).afterIdent (.number text isNumber :: rest) =
                .level depth .sign := if_pos empty
            rw [stays] at facing facing'
            refine ⟨.sign, _, _, facing, facing', same, ?_⟩
            rw [afterIdent_number_empty empty, settle_token rfl]
            rintro element ⟨⟩
            exact ⟨fun _ => all_eq_false_of_takeWhile isNumber.nonempty empty, by simp⟩
          · have moves : (Place.level depth .sign).afterIdent (.number text isNumber :: rest) =
                .level depth (if text.all isNameByte then .named else .nothing) := if_neg empty
            rw [moves] at facing facing'
            refine ⟨_, _, _, facing, facing', same, ?_⟩
            cases whole : text.all isNameByte with
            | true => simp
            | false =>
                have numberTable : ∀ value, isNumeric value = true → value ≠ byte '(' :=
                  forall_byte (by decide)
                obtain ⟨suffix, isSuffix, tailEq⟩ := afterIdent_number_partly whole
                rw [tailEq, settle_token rfl]
                rintro element ⟨⟩
                exact ⟨by simp, fun _ => numberTable _ (Element.number_first isSuffix)⟩
      | dots | string | block | single =>
          refine ⟨.sign, _, _, facing, facing', same, ?_⟩
          rw [afterIdent, settle_token rfl]
          · rintro element ⟨⟩
            exact ⟨fun _ => rfl, by simp⟩
          all_goals simp

/-- The name of a directive. -/
theorem follows_directiveName {depth : Nat}
    (paired : Paired cut source source' (.level depth .sign) position position') :
    Follows source source' position position' readIdent readIdent fun name next name' next' =>
      name' = name ∧ Directed cut source source' depth next next' := by
  obtain ⟨elements, elements', next, next', reads, reads', facing, facing', same, isToken⟩ :=
    readIdent_same paired
  exact follows_of_ok reads reads' ⟨rfl, directed_afterIdent facing facing' same isToken⟩

/-- A token other than an opening parenthesis may be taken for one that follows no directive. -/
theorem Facing.undirected {depth : Nat} {mark : DirectiveMark} {element : Element}
    {rest : List Element} (facing : Facing cut source position (.level depth mark) (element :: rest))
    (isToken : element.isIgnored = false) (noName : mark = .sign → element.isIdent = false)
    (noOpening : element.first ≠ byte '(') :
    Facing cut source position (.level depth .nothing) (element :: rest) := by
  have next : (Place.level depth .nothing).next element = (Place.level depth mark).next element := by
    cases element with
    | blank | comment => cases isToken
    | name name =>
        cases mark with
        | sign => cases noName rfl
        | nothing | named => rfl
    | number text isNumber =>
        cases mark with
        | sign =>
            have partly : text.all isNameByte = false := noName rfl
            simp only [Place.next, partly]
            rfl
        | nothing | named => rfl
    | dots | string | block => rfl
    | single value alone =>
        have notOpening : ¬ value = byte '(' := noOpening
        simp only [Place.next, levelNext, if_neg notOpening]
  obtain ⟨agreesHere, agreesLater⟩ := facing.agrees.step rfl
  refine ⟨facing.toLexed, rfl, Or.inr ⟨?_, ?_⟩⟩
  · cases element <;> exact agreesHere
  · rw [next]
    exact agreesLater

theorem Place.next_parenthesis {depth : Nat} {mark : DirectiveMark}
    (skips : depth = 0 ∨ mark ≠ .nothing) :
    (Place.level depth mark).next (.single (byte '(') rfl) =
      .skipped (byte '(') (byte ')') 1 (.level depth .nothing) :=
  if_pos skips

/-- The arguments of a directive, if there are any, with the blanks around them. -/
theorem follows_directiveArgs {First Second : Type} {depth : Nat} {onward : Parser First}
    {onward' : Parser Second} {link : First → Nat → Second → Nat → Prop}
    (directed : Directed cut source source' depth position position')
    (both : ∀ next next', Settled cut source source' (.level depth .nothing) next next' →
      Follows source source' next next' onward onward' link) :
    Follows source source' position position'
      (do skipWS; skipParenthesised; skipWS; onward)
      (do skipWS; skipParenthesised; skipWS; onward') link := by
  obtain ⟨mark, elements, elements', facing, facing', same, first⟩ := directed
  obtain ⟨start, skips, settled⟩ := facing.skipWS_ok
  obtain ⟨start', skips', settled'⟩ := facing'.skipWS_ok
  have parenthesised : Follows source source' start start' skipParenthesised skipParenthesised
      fun _ next _ next' => Paired cut source source' (.level depth .nothing) next next' := by
    rcases settle_cases same with ⟨none, none'⟩ |
      ⟨element, rest, rest', isToken, here, here', tail⟩
    · rw [none] at settled
      rw [none'] at settled'
      refine follows_skipParenthesised (.ended settled settled') ?_ ?_
      · intro found
        rw [settled.ended] at found
        cases found
      · intro _
        exact ⟨[], [], ⟨settled.toLexed, rfl, settled.agrees⟩,
          ⟨settled'.toLexed, rfl, settled'.agrees⟩, rfl⟩
    · rw [here] at settled first
      rw [here'] at settled'
      obtain ⟨noName, noOpening⟩ := first element rfl
      refine follows_skipParenthesised (.token isToken settled settled' tail) ?_ ?_
      · intro found
        rw [settled.current_eq] at found
        have marked : mark ≠ .nothing := fun none => noOpening none (Option.some.inj found)
        exact Place.next_parenthesis (Or.inr marked)
      · intro missing
        rw [settled.current_eq] at missing
        have notOpening : element.first ≠ byte '(' := fun equal => missing (congrArg some equal)
        exact (Settled.token isToken (settled.undirected isToken noName notOpening)
          (settled'.undirected isToken noName notOpening) tail).paired
  refine follows_bind_of_ok skips skips' ?_
  refine parenthesised.bind ?_
  intro _ _ _ _ paired
  refine (follows_skipWS paired).bind ?_
  intro _ next _ next' settled
  exact both next next' settled

theorem follows_parseDirectives {depth : Nat} (fuel fuel' : Nat) (names : List String)
    (settled : Settled cut source source' (.level depth .nothing) position position') :
    Follows source source' position position' (parseDirectives fuel names)
      (parseDirectives fuel' names) fun directives next directives' next' =>
        directives' = directives ∧
          Settled cut source source' (.level depth .nothing) next next' := by
  induction fuel generalizing fuel' names position position' with
  | zero => exact stuck_follows
  | succ fuel inductionHypothesis =>
      cases fuel' with
      | zero => exact follows_stuck
      | succ fuel' =>
          refine (follows_peek settled).bind ?_
          rintro _ _ here _ ⟨rfl, isHere, rfl, rfl⟩
          refine follows_ite (fun found => ?_) fun _ => follows_pure ⟨rfl, settled⟩
          have current := current_of_peeked (by decide) (isHere.symm.trans found)
          refine follows_bind_of_ok rfl rfl ?_
          have paired : Paired cut source source' (.level depth .sign) _ _ :=
            settled.passed current (show isSingle (byte '@') = true from rfl) rfl
          refine (follows_directiveName paired).bind ?_
          rintro _ _ name _ ⟨rfl, directed⟩
          refine follows_directiveArgs directed ?_
          intro next next' settled
          exact inductionHypothesis fuel' (names ++ [name]) settled

/-! ## Selections -/

theorem follows_parseFieldName {depth : Nat}
    (paired : Paired cut source source' (.level depth .nothing) position position') :
    Follows source source' position position' parseFieldName parseFieldName
      fun names next names' next' =>
        names' = names ∧ Settled cut source source' (.level depth .nothing) next next' := by
  unfold parseFieldName
  refine (follows_readIdent (steady_level depth) paired).bind ?_
  rintro _ _ name _ ⟨rfl, paired⟩
  refine follows_ite (fun _ => follows_fail _) fun _ => ?_
  refine (follows_skipWS paired).bind ?_
  intro _ _ _ _ settled
  refine (follows_peek settled).bind ?_
  rintro _ _ here _ ⟨rfl, isHere, rfl, rfl⟩
  refine follows_ite (fun found => ?_) fun _ => follows_pure ⟨rfl, settled⟩
  have current := current_of_peeked (by decide) (isHere.symm.trans found)
  have passed : Paired cut source source' (.level depth .nothing) _ _ :=
    settled.passed current (show isSingle (byte ':') = true from rfl) rfl
  refine follows_bind_of_ok rfl rfl ?_
  refine (follows_skipWS passed).bind ?_
  intro _ _ _ _ settled
  refine (follows_readIdent (steady_level depth) settled.paired).bind ?_
  rintro _ _ aliased _ ⟨rfl, paired⟩
  refine follows_ite (fun _ => follows_fail _) fun _ => ?_
  refine (follows_skipWS paired).bind ?_
  intro _ _ _ _ settled
  exact follows_pure ⟨rfl, settled⟩

/-- A spread starts with two points. -/
theorem points_of_hasPrefix {text : Text}
    (spread : hasPrefix text [byte '.', byte '.', byte '.'] = true) :
    text.head? = some (byte '.') ∧ text.tail.head? = some (byte '.') := by
  rw [hasPrefix, List.isPrefixOf_iff_prefix] at spread
  obtain ⟨rest, rfl⟩ := spread
  exact ⟨rfl, rfl⟩

theorem IsNumber.second_ne {text after : Text} (isNumber : IsNumber text)
    (stop : ∀ value ∈ after.head?, isNameByte value = false ∧ value ≠ byte '.')
    (point : (text ++ after).head? = some (byte '.')) :
    (text ++ after).tail.head? ≠ some (byte '.') := by
  cases text with
  | nil => exact absurd rfl isNumber.nonempty
  | cons first others =>
      cases others with
      | nil =>
          intro second
          exact (stop _ second).2 rfl
      | cons second others =>
          intro isPoint
          exact (List.isChain_cons_cons.mp isNumber.points).1
            ⟨Option.some.inj point, Option.some.inj isPoint⟩

/-- Only three points start a spread. -/
theorem Facing.hasPrefix_dots {element : Element} {rest : List Element}
    (facing : Facing cut source position place (element :: rest)) (isToken : element.isIgnored = false) :
    hasPrefix (source.drop position) [byte '.', byte '.', byte '.'] = true ↔ element = .dots := by
  have remains := facing.here.2
  rw [elementsText_cons] at remains
  rw [remains]
  constructor
  · intro spread
    obtain ⟨first, second⟩ := points_of_hasPrefix spread
    have point : element.first = byte '.' := by
      obtain ⟨others, textEq⟩ := element.text_eq_cons
      rw [textEq] at first
      exact Option.some.inj first
    have nameTable : ∀ value, isNameStart value = true → value ≠ byte '.' :=
      forall_byte (by decide)
    cases element with
    | blank | comment => cases isToken
    | name name => exact absurd point (nameTable _ (Element.name_first name))
    | number text isNumber =>
        exact absurd second (isNumber.second_ne facing.apart.number_stop first)
    | dots => rfl
    | string | block =>
        have quoted : quote = byte '.' := point
        exact absurd quoted (by decide)
    | single value alone =>
        change value = byte '.' at point
        rw [point] at alone
        cases alone
  · rintro rfl
    rfl

/-- Both sources have a spread or neither has. -/
theorem follows_atSpread (settled : Settled cut source source' place position position')
    (more : source[position]? ≠ none) :
    Follows source source' position position' atSpread atSpread fun spread next spread' next' =>
      spread' = spread ∧ next = position ∧ next' = position' ∧
        (spread = true →
          Paired cut source source' (place.next .dots) (position + 3) (position' + 3)) := by
  cases settled with
  | ended facing facing' => exact absurd facing.ended more
  | @token element rest rest' isToken facing facing' same =>
      have looks : ∀ {source : Text} {position : Nat}, position ≤ source.length →
          atSpread source position =
            .ok (hasPrefix (source.drop position) [byte '.', byte '.', byte '.']) position := by
        intro source position inside
        have remains : (Reader.remaining : Parser Text) source position =
            .ok (source.drop position) position := if_pos inside
        exact bind_eq_of_ok remains
      have spread := facing.hasPrefix_dots isToken
      have spread' := facing'.hasPrefix_dots isToken
      refine follows_of_ok (looks facing.here.1) (looks facing'.here.1) ⟨?_, rfl, rfl, ?_⟩
      · rw [Bool.eq_iff_iff, spread, spread']
      · intro isSpread
        have isDots := spread.mp isSpread
        subst isDots
        have outside : (place.next .dots).isSkipped = false :=
          (Place.isSkipped_next (by simp)).trans facing.outside
        exact ⟨rest, rest', facing.next outside, facing'.next outside, same⟩

theorem sameSelections_append {sels sels' : List Selection} {selection selection' : Selection}
    (same : SameSelections sels sels') (last : SameSelection selection selection') :
    SameSelections (sels ++ [selection]) (sels' ++ [selection']) := by
  induction sels generalizing sels' with
  | nil =>
      cases same
      exact .cons last .nil
  | cons first sels inductionHypothesis =>
      cases same with
      | cons sameFirst others => exact .cons sameFirst (inductionHypothesis others)

end Two

end GitScale.GraphQL
