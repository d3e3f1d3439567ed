import GitScale.GraphQL.ParserBounds
import GitScale.GraphQL.Printer

/-!
# Parsing undoes printing

The parser is followed along the tokens of a rendering.  A reader that starts before a token, or
before the space in front of it, ends before the next one; how much fuel it has does not matter,
since the parser never runs out of it.
-/

namespace GitScale.GraphQL

open Foundation Go Reader

/-! ## Tokens ahead -/

/-- Tokens with a space before each. -/
def spaced (tokens : List Text) : Text := tokens.flatMap fun token => space :: token

theorem joinByte_cons (token : Text) (rest : List Text) :
    joinByte (token :: rest) space = token ++ spaced rest := by
  unfold joinByte
  induction rest generalizing token with
  | nil => simp [List.intercalate, spaced]
  | cons next rest inductionHypothesis =>
      have later := inductionHypothesis next
      simp only [List.intercalate, List.intersperse_cons_cons, List.flatten_cons] at later ⊢
      rw [later]
      simp [spaced]

/-- The tokens are all that follows a position. -/
def Ahead (source : Text) (position : Nat) (tokens : List Text) : Prop :=
  position ≤ source.length ∧ source.drop position = joinByte tokens space

/-- The tokens are all that follows, perhaps after a space. -/
def Near (source : Text) (position : Nat) (tokens : List Text) : Prop :=
  position ≤ source.length ∧
    (source.drop position = joinByte tokens space ∨ source.drop position = spaced tokens)

/-- The first token starts with a byte. -/
def StartsWith (tokens : List Text) (first : UInt8) : Prop :=
  ∃ rest others, tokens = (first :: rest) :: others

/-- A byte that `skipWS` stops at. -/
def isVisible (value : UInt8) : Bool := !isBlank value && value ≠ byte '#'

/-- There is no token or a visible one. -/
def Visible (tokens : List Text) : Prop :=
  tokens = [] ∨ ∃ first, StartsWith tokens first ∧ isVisible first = true

variable {source : Text} {position : Nat} {token : Text} {tokens : List Text} {first : UInt8}

theorem Ahead.near (ahead : Ahead source position tokens) : Near source position tokens :=
  ⟨ahead.1, Or.inl ahead.2⟩

theorem length_le_of_drop {start : Nat} {text rest : Text} (inside : start ≤ source.length)
    (here : source.drop start = text ++ rest) : start + text.length ≤ source.length := by
  have lengths := congrArg List.length here
  rw [List.length_drop, List.length_append] at lengths
  omega

theorem drop_add_of_drop {start : Nat} {text rest : Text}
    (here : source.drop start = text ++ rest) : source.drop (start + text.length) = rest := by
  rw [← List.drop_drop, here, List.drop_left]

/-- A token is passed. -/
theorem Ahead.next (ahead : Ahead source position (token :: tokens)) :
    Near source (position + token.length) tokens := by
  have here := ahead.2
  rw [joinByte_cons] at here
  exact ⟨length_le_of_drop ahead.1 here, Or.inr (drop_add_of_drop here)⟩

theorem Ahead.current (ahead : Ahead source position tokens) (starts : StartsWith tokens first) :
    source[position]? = some first := by
  obtain ⟨rest, others, rfl⟩ := starts
  have here := ahead.2
  rw [joinByte_cons] at here
  have head := congrArg List.head? here
  rwa [List.head?_drop] at head

theorem Ahead.ended (ahead : Ahead source position []) : source[position]? = none := by
  have here := congrArg List.head? ahead.2
  rwa [List.head?_drop] at here

/-! ## Readers of one token -/

theorem accepts_skipWS (near : Near source position tokens) (visible : Visible tokens) :
    Accepts source position skipWS fun _ next => Ahead source next tokens := by
  have stops : blankLength false (joinByte tokens space) = 0 := by
    rcases visible with rfl | ⟨first, ⟨rest, others, rfl⟩, seen⟩
    · rfl
    · obtain ⟨notBlank, notComment⟩ := Bool.and_eq_true_iff.mp seen
      rw [joinByte_cons, List.cons_append, blankLength]
      simp [Bool.not_eq_true' _ ▸ notBlank, of_decide_eq_true notComment]
  have returns : skipWS source position =
      .ok () (position + blankLength false (source.drop position)) := rfl
  rw [accepts_iff_of_ok returns]
  rcases near with ⟨inside, here | here⟩
  · rw [here, stops]
    exact ⟨inside, here⟩
  · cases tokens with
    | nil => exact ⟨by simpa [here, spaced, blankLength] using inside,
        by simp [here, spaced, blankLength, joinByte]⟩
    | cons token rest =>
        have spacedEq : spaced (token :: rest) = [space] ++ joinByte (token :: rest) space := by
          rw [joinByte_cons]
          rfl
        rw [spacedEq] at here
        have one : blankLength false ([space] ++ joinByte (token :: rest) space) = 1 := by
          rw [List.singleton_append, blankLength, stops]
          rfl
        rw [here, one]
        exact ⟨length_le_of_drop inside here, drop_add_of_drop here⟩

/-- What follows a token is the end or a space. -/
theorem stops_at_spaced {test : UInt8 → Bool} (stop : test space = false) (tokens : List Text) :
    ∀ value ∈ (spaced tokens).head?, test value = false := by
  cases tokens with
  | nil => simp [spaced]
  | cons token rest =>
      intro value membership
      cases membership
      exact stop

theorem Ahead.slice_eq (ahead : Ahead source position (token :: tokens)) :
    (slice position : Parser Text) source (position + token.length) =
      .ok token (position + token.length) := by
  have here := ahead.2
  rw [joinByte_cons] at here
  have inside := length_le_of_drop ahead.1 here
  unfold slice
  rw [if_pos ⟨Nat.le_add_right _ _, inside⟩, here, Nat.add_sub_cancel_left, List.take_left]

/-- A run of bytes is read as a token. -/
theorem Ahead.advanceWhile_eq (ahead : Ahead source position (token :: tokens))
    {test : UInt8 → Bool} (all : token.all test = true) (stop : test space = false) :
    (advanceWhile test : Parser Unit) source position = .ok () (position + token.length) := by
  have here := ahead.2
  rw [joinByte_cons] at here
  have taken := takeWhile_append_of_stop all (stops_at_spaced stop tokens)
  unfold advanceWhile advanceBy
  dsimp only
  rw [here, taken]

theorem isVisible_of_isNameByte (isName : isNameByte first = true) : isVisible first = true := by
  have table : ∀ value, isNameByte value = true → isVisible value = true :=
    forall_byte (by decide)
  exact table first isName

theorem StartsWith.visible (starts : StartsWith tokens first) (seen : isVisible first = true) :
    Visible tokens :=
  Or.inr ⟨first, starts, seen⟩

/-- A nonempty run of the bytes of names. -/
def IsWord (text : Text) : Prop := text ≠ [] ∧ text.all isNameByte = true

theorem IsWord.startsWith {word : Text} (isWord : IsWord word) (tokens : List Text) :
    ∃ first, StartsWith (word :: tokens) first ∧ isNameByte first = true := by
  cases word with
  | nil => exact absurd rfl isWord.1
  | cons value rest =>
      exact ⟨value, ⟨rest, tokens, rfl⟩, List.all_eq_true.mp isWord.2 value List.mem_cons_self⟩

theorem IsWord.visible {word : Text} (isWord : IsWord word) (tokens : List Text) :
    Visible (word :: tokens) := by
  obtain ⟨first, starts, isName⟩ := isWord.startsWith tokens
  exact starts.visible (isVisible_of_isNameByte isName)

theorem accepts_readIdent {word : Text} (near : Near source position (word :: tokens))
    (isWord : IsWord word) :
    Accepts source position readIdent fun name next =>
      name = ofBytes word ∧ Near source next tokens := by
  unfold readIdent
  refine (accepts_skipWS near (isWord.visible tokens)).bind ?_
  intro _ start ahead
  have reached := ahead.next
  refine accepts_bind_of_ok rfl ?_
  refine accepts_bind_of_ok (ahead.advanceWhile_eq isWord.2 (by decide)) ?_
  refine accepts_bind_of_ok ahead.slice_eq ?_
  exact accepts_pure ⟨rfl, reached⟩

/-- No name is read before another token. -/
theorem accepts_readIdent_empty (near : Near source position tokens)
    (starts : StartsWith tokens first) (seen : isVisible first = true)
    (notName : isNameByte first = false) :
    Accepts source position readIdent fun name next =>
      name = "" ∧ Ahead source next tokens := by
  unfold readIdent
  refine (accepts_skipWS near (starts.visible seen)).bind ?_
  intro _ start ahead
  have none_taken : (advanceWhile isNameByte : Parser Unit) source start = .ok () start := by
    obtain ⟨rest, others, rfl⟩ := starts
    have here := ahead.2
    rw [joinByte_cons, List.cons_append] at here
    simp [advanceWhile, advanceBy, here, notName]
  have empty_slice : (slice start : Parser Text) source start = .ok [] start := by
    simp [slice, ahead.1]
  refine accepts_bind_of_ok rfl ?_
  refine accepts_bind_of_ok none_taken ?_
  refine accepts_bind_of_ok empty_slice ?_
  exact accepts_pure ⟨rfl, ahead⟩

/-- A token of one byte is passed. -/
theorem Ahead.next_punctuator {value : UInt8} (ahead : Ahead source position ([value] :: tokens)) :
    Near source (position + 1) tokens :=
  ahead.next

theorem accepts_expect {value : UInt8} (near : Near source position ([value] :: tokens))
    (seen : isVisible value = true) :
    Accepts source position (expect value) fun _ next => Near source next tokens := by
  have starts : StartsWith ([value] :: tokens) value := ⟨[], tokens, rfl⟩
  unfold expect
  refine (accepts_skipWS near (starts.visible seen)).bind ?_
  intro _ start ahead
  refine accepts_bind_of_ok rfl ?_
  rw [if_pos (ahead.current starts)]
  exact accepts_advance ahead.next_punctuator

theorem Ahead.peek_eq (ahead : Ahead source position tokens)
    (starts : StartsWith tokens first) : peek source position = .ok first position := by
  have here := ahead.current starts
  unfold peek
  change Outcome.ok (source[position]?.getD 0) position = _
  rw [here]
  rfl

/-! ## Strings and literals -/

theorem getElem?_of_drop {value : UInt8} {rest : Text}
    (here : source.drop position = value :: rest) : source[position]? = some value := by
  rw [← List.head?_drop, here]
  rfl

theorem drop_succ_of_drop {value : UInt8} {rest : Text}
    (here : source.drop position = value :: rest) : source.drop (position + 1) = rest := by
  rw [← List.drop_drop, here]
  rfl

theorem accepts_readStringLoop {body rest : Text} (isBody : StringBody body) (fuel : Nat)
    (here : source.drop position = body ++ quote :: rest) :
    Accepts source position (readStringLoop fuel) fun _ next =>
      next = position + body.length + 1 := by
  induction isBody generalizing fuel position with
  | nil =>
      cases fuel with
      | zero => exact accepts_stuck
      | succ fuel =>
          refine accepts_bind_of_ok rfl ?_
          rw [getElem?_of_drop here]
          exact accepts_advance rfl
  | @plain value others notQuote notBackslash _ inductionHypothesis =>
      cases fuel with
      | zero => exact accepts_stuck
      | succ fuel =>
          refine accepts_bind_of_ok rfl ?_
          rw [getElem?_of_drop here]
          dsimp only
          rw [if_neg notBackslash, if_neg notQuote]
          refine accepts_bind_of_ok rfl ?_
          refine (inductionHypothesis fuel (drop_succ_of_drop here)).mono ?_
          intro _ next reached
          rw [reached, List.length_cons]
          omega
  | @escape value others _ inductionHypothesis =>
      cases fuel with
      | zero => exact accepts_stuck
      | succ fuel =>
          refine accepts_bind_of_ok rfl ?_
          rw [getElem?_of_drop here]
          dsimp only
          rw [if_pos rfl]
          refine accepts_bind_of_ok rfl ?_
          have skipped : source.drop (position + 2) = others ++ quote :: rest :=
            drop_succ_of_drop (drop_succ_of_drop here)
          refine (inductionHypothesis fuel skipped).mono ?_
          intro _ next reached
          rw [reached, List.length_cons, List.length_cons]
          omega

/-- A place that was found is found in a longer text too. -/
theorem indexText_append {wanted text : Text} {index : Nat}
    (found : indexText wanted text = some index) (rest : Text) :
    indexText wanted (text ++ rest) = some index := by
  induction text generalizing index with
  | nil =>
      unfold indexText at found
      split at found
      · next empty =>
          cases found
          rw [List.isEmpty_iff.mp empty]
          cases rest with
          | nil => rfl
          | cons value rest => simp [indexText, hasPrefix]
      · cases found
  | cons value others inductionHypothesis =>
      have fits := indexText_le found
      rw [List.length_cons] at fits
      have longEnough : wanted.length ≤ (value :: others).length := by
        rw [List.length_cons]
        omega
      have same : hasPrefix (value :: others ++ rest) wanted = hasPrefix (value :: others) wanted := by
        unfold hasPrefix
        rw [Bool.eq_iff_iff, List.isPrefixOf_iff_prefix, List.isPrefixOf_iff_prefix]
        exact ⟨fun isPrefix => List.prefix_of_prefix_length_le isPrefix (List.prefix_append _ _)
          longEnough, fun isPrefix => isPrefix.trans (List.prefix_append _ _)⟩
      rw [List.cons_append, indexText, ← List.cons_append, same]
      rw [indexText] at found
      split at found
      · next starts =>
          rw [if_pos starts]
          exact found
      · next starts =>
          rw [if_neg starts]
          obtain ⟨later, foundLater, rfl⟩ := Option.map_eq_some_iff.mp found
          rw [inductionHypothesis foundLater]
          rfl

theorem slice_of_drop {text rest : Text} (inside : position ≤ source.length)
    (here : source.drop position = text ++ rest) :
    (slice position : Parser Text) source (position + text.length) =
      .ok text (position + text.length) := by
  unfold slice
  rw [if_pos ⟨Nat.le_add_right _ _, length_le_of_drop inside here⟩, here,
    Nat.add_sub_cancel_left, List.take_left]

/-- A string is not taken for a block string. -/
theorem not_hasPrefix_quotes {body rest : Text} (isBody : StringBody body)
    (apart : body = [] → rest.head? ≠ some quote) :
    hasPrefix (quote :: (body ++ [quote]) ++ rest) quotes = false := by
  rw [Bool.eq_false_iff, hasPrefix, ne_eq, List.isPrefixOf_iff_prefix]
  rintro ⟨others, split⟩
  cases isBody with
  | nil =>
      apply apart rfl
      have tail := congrArg (fun text => (text.drop 2).head?) split
      exact tail.symm
  | plain notQuote _ _ =>
      have second := congrArg (fun text => (text.drop 1).head?) split
      exact notQuote (Option.some.inj second).symm
  | escape _ =>
      have second := congrArg (fun text => (text.drop 1).head?) split
      exact absurd (Option.some.inj second) (by decide)

theorem accepts_readString {rest : Text} (isString : StringToken token)
    (apart : token = [quote, quote] → rest.head? ≠ some quote)
    (inside : position ≤ source.length) (here : source.drop position = token ++ rest) :
    Accepts source position readString fun raw next =>
      raw = token ∧ next = position + token.length := by
  have remains : (Reader.remaining : Parser Text) source position =
      .ok (token ++ rest) position := by
    unfold Reader.remaining
    rw [if_pos inside, here]
  unfold readString
  refine accepts_bind_of_ok remains ?_
  refine accepts_bind_of_ok rfl ?_
  cases isString with
  | @plain body isBody =>
      have single : hasPrefix (quote :: (body ++ [quote]) ++ rest) [quote, quote, quote] = false :=
        not_hasPrefix_quotes isBody fun empty => apart (by rw [empty]; rfl)
      rw [if_neg (Bool.eq_false_iff.mp single)]
      refine accepts_bind_of_ok rfl ?_
      refine accepts_bind_of_ok rfl ?_
      have opened : source.drop (position + 1) = body ++ quote :: rest := by
        rw [List.cons_append] at here
        rw [drop_succ_of_drop here, List.append_assoc]
        rfl
      refine (accepts_readStringLoop isBody _ opened).bind ?_
      rintro _ next rfl
      have length : position + 1 + body.length + 1 =
          position + (quote :: (body ++ [quote])).length := by
        simp
        omega
      rw [length, accepts_iff_of_ok (slice_of_drop inside here)]
      exact ⟨rfl, rfl⟩
  | @block body first =>
      have isBlock : hasPrefix (quotes ++ (body ++ quotes) ++ rest) [quote, quote, quote] = true := by
        rw [hasPrefix, List.isPrefixOf_iff_prefix, List.append_assoc]
        exact List.prefix_append _ _
      have found : indexText [quote, quote, quote]
          ((quotes ++ (body ++ quotes) ++ rest).drop 3) = some body.length :=
        indexText_append first rest
      rw [if_pos isBlock, found]
      refine accepts_bind_of_ok rfl ?_
      have length : position + (3 + body.length + 3) =
          position + (quotes ++ (body ++ quotes)).length := by
        simp [quotes]
        omega
      rw [length, accepts_iff_of_ok (slice_of_drop inside here)]
      exact ⟨rfl, rfl⟩

/-- The text is all that follows a position. -/
def At (source : Text) (position : Nat) (text : Text) : Prop :=
  position ≤ source.length ∧ source.drop position = text

theorem At.head {value : UInt8} {rest : Text} (here : At source position (value :: rest)) :
    source[position]? = some value :=
  getElem?_of_drop here.2

theorem At.append {text rest : Text} (here : At source position (text ++ rest)) :
    At source (position + text.length) rest :=
  ⟨length_le_of_drop here.1 here.2, drop_add_of_drop here.2⟩

theorem At.tail {value : UInt8} {rest : Text} (here : At source position (value :: rest)) :
    At source (position + 1) rest :=
  At.append (show At source position ([value] ++ rest) from here)

section Literals

variable {opening closing : UInt8} {depth : Int} {post : Unit → Nat → Prop}

/-- The two kinds of brackets. -/
inductive IsPair : UInt8 → UInt8 → Prop where
  | list : IsPair (byte '[') (byte ']')
  | object : IsPair (byte '\x7b') (byte '\x7d')

theorem accepts_skip_other {value : UInt8} (here : source[position]? = some value)
    (notOpening : value ≠ opening) (notClosing : value ≠ closing) (notQuote : value ≠ quote)
    (onward : ∀ fuel, Accepts source (position + 1)
      (skipBalancedLoop opening closing fuel depth) post) (fuel : Nat) :
    Accepts source position (skipBalancedLoop opening closing fuel depth) post := by
  cases fuel with
  | zero => exact accepts_stuck
  | succ fuel =>
      refine accepts_bind_of_ok rfl ?_
      rw [here]
      dsimp only
      rw [if_neg notOpening, if_neg notClosing, if_neg notQuote]
      exact accepts_bind_of_ok rfl (onward fuel)

theorem accepts_skip_opening (here : source[position]? = some opening)
    (onward : ∀ fuel, Accepts source (position + 1)
      (skipBalancedLoop opening closing fuel (depth + 1)) post) (fuel : Nat) :
    Accepts source position (skipBalancedLoop opening closing fuel depth) post := by
  cases fuel with
  | zero => exact accepts_stuck
  | succ fuel =>
      refine accepts_bind_of_ok rfl ?_
      rw [here]
      dsimp only
      rw [if_pos rfl]
      exact accepts_bind_of_ok rfl (onward fuel)

theorem accepts_skip_closing (here : source[position]? = some closing)
    (differ : closing ≠ opening) (deeper : depth ≠ 0)
    (onward : ∀ fuel, Accepts source (position + 1)
      (skipBalancedLoop opening closing fuel depth) post) (fuel : Nat) :
    Accepts source position (skipBalancedLoop opening closing fuel (depth + 1)) post := by
  cases fuel with
  | zero => exact accepts_stuck
  | succ fuel =>
      refine accepts_bind_of_ok rfl ?_
      rw [here]
      dsimp only
      rw [if_neg differ, if_pos rfl, Int.add_sub_cancel, if_neg deeper]
      exact accepts_bind_of_ok rfl (onward fuel)

theorem accepts_skip_string {rest : Text} (isString : StringToken token)
    (apart : token = [quote, quote] → rest.head? ≠ some quote)
    (inside : position ≤ source.length) (here : source.drop position = token ++ rest)
    (differs : quote ≠ opening ∧ quote ≠ closing)
    (onward : ∀ fuel, Accepts source (position + token.length)
      (skipBalancedLoop opening closing fuel depth) post) (fuel : Nat) :
    Accepts source position (skipBalancedLoop opening closing fuel depth) post := by
  have quoted : source[position]? = some quote := by
    cases isString with
    | plain _ => exact getElem?_of_drop here
    | block _ => exact getElem?_of_drop here
  cases fuel with
  | zero => exact accepts_stuck
  | succ fuel =>
      refine accepts_bind_of_ok rfl ?_
      rw [quoted]
      dsimp only
      rw [if_neg differs.1, if_neg differs.2, if_pos rfl]
      refine (accepts_readString isString apart inside here).bind ?_
      rintro _ next ⟨-, rfl⟩
      exact onward fuel

/-- Brackets inside brackets are skipped when what is between them is. -/
theorem accepts_skip_nested {first last : UInt8} {inner rest : Text} (nested : IsPair first last)
    (pair : IsPair opening closing) (deeper : 0 < depth)
    (here : At source position (first :: (inner ++ last :: rest)))
    (skips : ∀ {depth : Int}, 0 < depth →
      (∀ fuel, Accepts source (position + 1 + inner.length)
        (skipBalancedLoop opening closing fuel depth) post) →
      ∀ fuel, Accepts source (position + 1) (skipBalancedLoop opening closing fuel depth) post)
    (onward : ∀ fuel, Accepts source (position + 1 + inner.length + 1)
      (skipBalancedLoop opening closing fuel depth) post) (fuel : Nat) :
    Accepts source position (skipBalancedLoop opening closing fuel depth) post := by
  have opens := here.head
  have closes := (At.append here.tail).head
  have same (isOpening : first = opening) (isClosing : last = closing)
      (differ : closing ≠ opening) :
      Accepts source position (skipBalancedLoop opening closing fuel depth) post := by
    subst isOpening isClosing
    refine accepts_skip_opening opens (skips (by omega) ?_) fuel
    exact accepts_skip_closing closes differ (by omega) onward
  have other (notFirst : first ≠ opening ∧ first ≠ closing ∧ first ≠ quote)
      (notLast : last ≠ opening ∧ last ≠ closing ∧ last ≠ quote) :
      Accepts source position (skipBalancedLoop opening closing fuel depth) post := by
    refine accepts_skip_other opens notFirst.1 notFirst.2.1 notFirst.2.2 (skips deeper ?_) fuel
    exact accepts_skip_other closes notLast.1 notLast.2.1 notLast.2.2 onward
  cases nested with
  | list =>
      cases pair with
      | list => exact same rfl rfl (by decide)
      | object => exact other (by decide) (by decide)
  | object =>
      cases pair with
      | list => exact other (by decide) (by decide)
      | object => exact same rfl rfl (by decide)

/-- A balanced text is skipped. -/
theorem accepts_skip_balanced {inner rest : Text} (balanced : Balanced inner)
    (pair : IsPair opening closing) (deeper : 0 < depth)
    (here : At source position (inner ++ rest)) (ends : rest.head? ≠ some quote)
    (onward : ∀ fuel, Accepts source (position + inner.length)
      (skipBalancedLoop opening closing fuel depth) post) (fuel : Nat) :
    Accepts source position (skipBalancedLoop opening closing fuel depth) post := by
  induction balanced generalizing position rest depth fuel with
  | nil => exact onward fuel
  | @other value others notQuote notBracket _ inductionHypothesis =>
      have differs : value ≠ opening ∧ value ≠ closing := by
        cases pair <;> constructor <;> rintro rfl <;> cases notBracket
      rw [List.length_cons, ← Nat.add_assoc, Nat.add_right_comm] at onward
      refine accepts_skip_other here.head differs.1 differs.2 notQuote ?_ fuel
      exact inductionHypothesis deeper here.tail ends onward
  | @string token others isString apart _ inductionHypothesis =>
      have differs : quote ≠ opening ∧ quote ≠ closing := by
        cases pair <;> decide
      have apartRest : token = [quote, quote] → (others ++ rest).head? ≠ some quote := by
        intro empty
        cases others with
        | nil => exact ends
        | cons value others => exact apart empty
      rw [List.append_assoc] at here
      rw [List.length_append, ← Nat.add_assoc] at onward
      refine accepts_skip_string isString apartRest here.1 here.2 differs ?_ fuel
      exact inductionHypothesis deeper here.append ends onward
  | @list inner others _ _ innerHypothesis othersHypothesis =>
      have split : byte '[' :: (inner ++ byte ']' :: others) ++ rest =
          byte '[' :: (inner ++ byte ']' :: (others ++ rest)) := by simp
      rw [split] at here
      have length : position + (byte '[' :: (inner ++ byte ']' :: others)).length =
          position + 1 + inner.length + 1 + others.length := by
        simp
        omega
      rw [length] at onward
      refine accepts_skip_nested .list pair deeper here ?_ ?_ fuel
      · intro depth deeper onward
        exact innerHypothesis deeper here.tail (show some (byte ']') ≠ some quote by decide) onward
      · exact othersHypothesis deeper here.tail.append.tail ends onward
  | @object inner others _ _ innerHypothesis othersHypothesis =>
      have split : byte '\x7b' :: (inner ++ byte '\x7d' :: others) ++ rest =
          byte '\x7b' :: (inner ++ byte '\x7d' :: (others ++ rest)) := by simp
      rw [split] at here
      have length : position + (byte '\x7b' :: (inner ++ byte '\x7d' :: others)).length =
          position + 1 + inner.length + 1 + others.length := by
        simp
        omega
      rw [length] at onward
      refine accepts_skip_nested .object pair deeper here ?_ ?_ fuel
      · intro depth deeper onward
        exact innerHypothesis deeper here.tail
          (show some (byte '\x7d') ≠ some quote by decide) onward
      · exact othersHypothesis deeper here.tail.append.tail ends onward

/-- A literal in brackets is read whole. -/
theorem accepts_readBalanced {inner rest : Text} (balanced : Balanced inner)
    (pair : IsPair opening closing)
    (here : At source position (opening :: (inner ++ [closing]) ++ rest)) :
    Accepts source position (readBalanced opening closing) fun value next =>
      value = ⟨none, ofBytes (opening :: (inner ++ [closing]))⟩ ∧
        next = position + (opening :: (inner ++ [closing])).length := by
  have split : opening :: (inner ++ [closing]) ++ rest = opening :: (inner ++ closing :: rest) := by
    simp
  have opens : At source position (opening :: (inner ++ closing :: rest)) := split ▸ here
  have peeked : peek source position = .ok opening position := by
    unfold peek
    change Outcome.ok (source[position]?.getD 0) position = _
    rw [opens.head]
    rfl
  have differ : closing ≠ opening := by
    cases pair <;> decide
  have notQuote : closing ≠ quote := by
    cases pair <;> decide
  have length : position + 1 + inner.length + 1 =
      position + (opening :: (inner ++ [closing])).length := by
    simp
    omega
  have ends : ∀ fuel, Accepts source (position + 1 + inner.length)
      (skipBalancedLoop opening closing fuel 1) fun _ next =>
        next = position + (opening :: (inner ++ [closing])).length := by
    intro fuel
    cases fuel with
    | zero => exact accepts_stuck
    | succ fuel =>
        refine accepts_bind_of_ok rfl ?_
        rw [(At.append opens.tail).head]
        dsimp only
        rw [if_neg differ, if_pos rfl, if_pos (by decide)]
        exact accepts_advance length
  have skipped : Accepts source position (skipBalanced opening closing) fun _ next =>
      next = position + (opening :: (inner ++ [closing])).length := by
    unfold skipBalanced
    refine accepts_bind_of_ok peeked ?_
    rw [if_pos rfl]
    refine accepts_bind_of_ok rfl ?_
    refine accepts_skip_opening opens.head ?_ _
    exact accepts_skip_balanced balanced pair (by decide) opens.tail
      (fun quoted => notQuote (Option.some.inj quoted)) ends
  unfold readBalanced
  refine accepts_bind_of_ok rfl ?_
  refine skipped.bind ?_
  rintro _ next rfl
  refine accepts_bind_of_ok (slice_of_drop here.1 here.2) ?_
  exact accepts_pure ⟨rfl, rfl⟩

end Literals

/-! ## Values -/

theorem Ahead.at_token (ahead : Ahead source position (token :: tokens)) :
    At source position (token ++ spaced tokens) :=
  ⟨ahead.1, (joinByte_cons token tokens) ▸ ahead.2⟩

theorem At.near {text : Text} (here : At source position (text ++ spaced tokens)) :
    Near source (position + text.length) tokens :=
  ⟨here.append.1, Or.inr here.append.2⟩

/-- The first byte of a value is one that no other kind of value starts with. -/
theorem isNameStart_spec (starts : isNameStart first = true) :
    isNameByte first = true ∧ first ≠ byte '$' ∧ first ≠ quote ∧ first ≠ byte '[' ∧
      first ≠ byte '\x7b' ∧ ¬ (first = byte '-' ∨ isDigit first = true) := by
  have table : ∀ value, isNameStart value = true →
      isNameByte value = true ∧ ¬ (value = byte '-' ∨ isDigit value = true) :=
    forall_byte (by decide)
  have others : ∀ value, isNameStart value = true →
      value ≠ byte '$' ∧ value ≠ quote ∧ value ≠ byte '[' ∧ value ≠ byte '\x7b' :=
    forall_byte (by decide)
  obtain ⟨isName, notNumber⟩ := table first starts
  obtain ⟨notVariable, notQuote, notList, notObject⟩ := others first starts
  exact ⟨isName, notVariable, notQuote, notList, notObject, notNumber⟩

theorem isDigit_spec (digit : isDigit first = true) :
    isVisible first = true ∧ first ≠ byte '$' ∧ first ≠ quote ∧ first ≠ byte '[' ∧
      first ≠ byte '\x7b' ∧ first ≠ byte '-' := by
  have table : ∀ value, isDigit value = true → isVisible value = true ∧ value ≠ byte '-' :=
    forall_byte (by decide)
  have others : ∀ value, isDigit value = true →
      value ≠ byte '$' ∧ value ≠ quote ∧ value ≠ byte '[' ∧ value ≠ byte '\x7b' :=
    forall_byte (by decide)
  obtain ⟨visible, notSign⟩ := table first digit
  obtain ⟨notVariable, notQuote, notList, notObject⟩ := others first digit
  exact ⟨visible, notVariable, notQuote, notList, notObject, notSign⟩

theorem isWord_of_isNameText {name : Text} (isName : isNameText name = true) : IsWord name := by
  cases name with
  | nil => cases isName
  | cons value rest =>
      obtain ⟨starts, others⟩ := Bool.and_eq_true_iff.mp isName
      refine ⟨List.cons_ne_nil _ _, ?_⟩
      rw [List.all_cons, (isNameStart_spec starts).1, others]
      rfl

theorem ofBytes_append (left right : Text) : ofBytes (left ++ right) = ofBytes left ++ ofBytes right := by
  simp [ofBytes, String.ofList_append]

/-- A number without a fraction. -/
theorem accepts_readNumber {sign digits : Text} (isSign : sign = [] ∨ sign = [byte '-'])
    (nonempty : digits ≠ []) (areDigits : digits.all isDigit = true)
    (ahead : Ahead source position ((sign ++ digits) :: tokens)) :
    Accepts source position readNumber fun value next =>
      value = ⟨parseInt (ofBytes (sign ++ digits)).toList, ofBytes (sign ++ digits)⟩ ∧
        Near source next tokens := by
  have here := ahead.at_token
  rw [List.append_assoc] at here
  have after := here.append
  obtain ⟨first, firstEq, minus⟩ : ∃ first, source[position]? = some first ∧
      (if first = byte '-' then 1 else 0) = sign.length := by
    rcases isSign with rfl | rfl
    · cases digits with
      | nil => exact absurd rfl nonempty
      | cons value rest =>
          have digit : isDigit value = true := List.all_eq_true.mp areDigits value List.mem_cons_self
          exact ⟨value, here.head, if_neg (isDigit_spec digit).2.2.2.2.2⟩
    · exact ⟨byte '-', here.head, if_pos rfl⟩
  have itemEq : (item : Parser UInt8) source position = .ok first position := by
    simp only [item, firstEq]
  have runEq : (advanceWhile isDigit : Parser Unit) source (position + sign.length) =
      .ok () (position + (sign ++ digits).length) := by
    have taken := takeWhile_append_of_stop areDigits (stops_at_spaced (by decide) tokens)
    unfold advanceWhile advanceBy
    dsimp only
    rw [after.2, taken, List.length_append, Nat.add_assoc]
  have noFraction : ¬ source[position + (sign ++ digits).length]? = some (byte '.') := by
    have rest := ahead.at_token.append.2
    rw [← List.head?_drop, rest]
    intro dot
    have stop : ∀ value ∈ (spaced tokens).head?, decide (value = byte '.') = false :=
      stops_at_spaced (by decide) tokens
    exact absurd (stop _ dot) (by decide)
  unfold readNumber
  refine accepts_bind_of_ok rfl ?_
  refine accepts_bind_of_ok itemEq ?_
  refine accepts_bind_of_ok rfl ?_
  rw [minus]
  refine accepts_bind_of_ok runEq ?_
  refine accepts_bind_of_ok rfl ?_
  rw [if_neg noFraction]
  refine accepts_bind_of_ok ahead.slice_eq ?_
  exact accepts_pure ⟨rfl, ahead.next⟩

/-- The first byte of what `parseValue` reads decides how it goes on. -/
theorem accepts_parseValue_of {post : ArgValue → Nat → Prop}
    (near : Near source position tokens) (starts : StartsWith tokens first)
    (seen : isVisible first = true)
    (goesOn : ∀ start, Ahead source start tokens → Accepts source start
      (if first = byte '$' then do
        Reader.advance 1
        let name ← readIdent
        return ⟨none, "$" ++ name⟩
      else if first = quote then do
        let raw ← readString
        return ⟨none, ofBytes raw⟩
      else if first = byte '[' then readBalanced (byte '[') (byte ']')
      else if first = byte '\x7b' then readBalanced (byte '\x7b') (byte '\x7d')
      else if first = byte '-' ∨ isDigit first then readNumber
      else do
        let ident ← readIdent
        if ident = "" then errf ("unexpected character " ++ quoteByte first ++ " in value")
        else return ⟨none, ident⟩ : Parser ArgValue) post) :
    Accepts source position parseValue post := by
  unfold parseValue
  refine (accepts_skipWS near (starts.visible seen)).bind ?_
  intro _ start ahead
  refine accepts_bind_of_ok rfl ?_
  rw [ahead.current starts]
  exact goesOn start ahead

/-- An integer starts with a minus or a digit. -/
theorem integer_startsWith {sign digits : Text} (isSign : sign = [] ∨ sign = [byte '-'])
    (nonempty : digits ≠ []) (areDigits : digits.all isDigit = true) (tokens : List Text) :
    ∃ first, StartsWith ((sign ++ digits) :: tokens) first ∧ isVisible first = true ∧
      first ≠ byte '$' ∧ first ≠ quote ∧ first ≠ byte '[' ∧ first ≠ byte '\x7b' ∧
      (first = byte '-' ∨ isDigit first = true) := by
  rcases isSign with rfl | rfl
  · cases digits with
    | nil => exact absurd rfl nonempty
    | cons value rest =>
        have digit : isDigit value = true :=
          List.all_eq_true.mp areDigits value List.mem_cons_self
        obtain ⟨seen, notVariable, notString, notList, notObject, -⟩ := isDigit_spec digit
        exact ⟨value, ⟨rest, tokens, rfl⟩, seen, notVariable, notString, notList,
          notObject, Or.inr digit⟩
  · exact ⟨byte '-', ⟨digits, tokens, rfl⟩, by decide⟩

theorem accepts_parseValue {value : ArgValue} (printable : PrintableValue value)
    (near : Near source position (toBytes value.raw :: tokens)) :
    Accepts source position parseValue fun parsed next =>
      parsed = value ∧ Near source next tokens := by
  cases printable with
  | @reference name isName =>
      rw [toBytes_ofBytes] at near
      refine accepts_parseValue_of near ⟨name, tokens, rfl⟩ (by decide) ?_
      intro start ahead
      rw [if_pos rfl]
      have after : At source (start + 1) (name ++ spaced tokens) := ahead.at_token.tail
      have nameAhead : Ahead source (start + 1) (name :: tokens) :=
        ⟨after.1, (joinByte_cons name tokens).symm ▸ after.2⟩
      refine accepts_bind_of_ok rfl ?_
      refine (accepts_readIdent nameAhead.near (isWord_of_isNameText isName)).bind ?_
      rintro _ next ⟨rfl, reached⟩
      refine accepts_pure ⟨?_, reached⟩
      rw [show byte '$' :: name = [byte '$'] ++ name from rfl, ofBytes_append]
      rfl
  | @integer sign digits number isSign nonempty areDigits fits =>
      rw [toBytes_ofBytes] at near
      obtain ⟨first, starts, seen, notVariable, notString, notList, notObject, isNumber⟩ :=
        integer_startsWith isSign nonempty areDigits tokens
      refine accepts_parseValue_of near starts seen ?_
      intro start ahead
      rw [if_neg notVariable, if_neg notString, if_neg notList, if_neg notObject, if_pos isNumber,
        ← fits]
      exact accepts_readNumber isSign nonempty areDigits ahead
  | @name name isName =>
      rw [toBytes_ofBytes] at near
      have isWord := isWord_of_isNameText isName
      cases name with
      | nil => cases isName
      | cons value rest =>
          obtain ⟨starts, -⟩ := Bool.and_eq_true_iff.mp isName
          obtain ⟨isByte, notVariable, notString, notList, notObject, notNumber⟩ :=
            isNameStart_spec starts
          refine accepts_parseValue_of near ⟨rest, tokens, rfl⟩
            (isVisible_of_isNameByte isByte) ?_
          intro start ahead
          rw [if_neg notVariable, if_neg notString, if_neg notList, if_neg notObject,
            if_neg notNumber]
          refine (accepts_readIdent ahead.near isWord).bind ?_
          rintro _ next ⟨rfl, reached⟩
          have nonempty : ofBytes (value :: rest) ≠ "" := by
            rw [Ne, ofBytes_eq_empty_iff]
            exact List.cons_ne_nil _ _
          rw [if_neg nonempty]
          exact accepts_pure ⟨rfl, reached⟩
  | @string text isString =>
      rw [toBytes_ofBytes] at near
      have starts : StartsWith (text :: tokens) quote := by
        cases isString with
        | plain _ => exact ⟨_, tokens, rfl⟩
        | block _ => exact ⟨_, tokens, rfl⟩
      refine accepts_parseValue_of near starts (by decide) ?_
      intro start ahead
      rw [if_neg (by decide), if_pos rfl]
      have here := ahead.at_token
      have apart : text = [quote, quote] → (spaced tokens).head? ≠ some quote := by
        intro _ quoted
        have stop : ∀ value ∈ (spaced tokens).head?, decide (value = quote) = false :=
          stops_at_spaced (by decide) tokens
        exact absurd (stop _ quoted) (by decide)
      refine (accepts_readString isString apart here.1 here.2).bind ?_
      rintro _ next ⟨rfl, rfl⟩
      exact accepts_pure ⟨rfl, here.near⟩
  | @list inner within =>
      rw [toBytes_ofBytes] at near
      refine accepts_parseValue_of near ⟨_, tokens, rfl⟩ (by decide) ?_
      intro start ahead
      rw [if_neg (by decide), if_neg (by decide), if_pos rfl]
      refine (accepts_readBalanced within .list ahead.at_token).mono ?_
      rintro _ next ⟨rfl, rfl⟩
      exact ⟨rfl, ahead.next⟩
  | @object inner within =>
      rw [toBytes_ofBytes] at near
      refine accepts_parseValue_of near ⟨_, tokens, rfl⟩ (by decide) ?_
      intro start ahead
      rw [if_neg (by decide), if_neg (by decide), if_neg (by decide), if_pos rfl]
      refine (accepts_readBalanced within .object ahead.at_token).mono ?_
      rintro _ next ⟨rfl, rfl⟩
      exact ⟨rfl, ahead.next⟩

theorem PrintableValue.visible {value : ArgValue} (printable : PrintableValue value)
    (tokens : List Text) : Visible (toBytes value.raw :: tokens) := by
  cases printable with
  | reference _ =>
      rw [toBytes_ofBytes]
      exact StartsWith.visible ⟨_, tokens, rfl⟩ (by decide)
  | @integer sign digits number isSign nonempty areDigits fits =>
      rw [toBytes_ofBytes]
      obtain ⟨first, starts, seen, -⟩ := integer_startsWith isSign nonempty areDigits tokens
      exact starts.visible seen
  | name isName =>
      rw [toBytes_ofBytes]
      exact (isWord_of_isNameText isName).visible tokens
  | string isString =>
      rw [toBytes_ofBytes]
      cases isString with
      | plain _ => exact StartsWith.visible ⟨_, tokens, rfl⟩ (by decide)
      | block _ => exact StartsWith.visible ⟨_, tokens, rfl⟩ (by decide)
  | list _ =>
      rw [toBytes_ofBytes]
      exact StartsWith.visible ⟨_, tokens, rfl⟩ (by decide)
  | object _ =>
      rw [toBytes_ofBytes]
      exact StartsWith.visible ⟨_, tokens, rfl⟩ (by decide)

/-! ## Arguments and directives -/

theorem setEntry_of_absent {Value : Type} {entries : List (String × Value)} {key : String}
    (absent : key ∉ entries.map Prod.fst) (value : Value) :
    setEntry entries key value = entries ++ [(key, value)] := by
  unfold setEntry
  congr 1
  apply List.filter_eq_self.mpr
  intro entry membership
  apply decide_eq_true
  rintro rfl
  exact absent (List.mem_map_of_mem membership)

/-- The first token starts with the byte of a name or with one of some marks. -/
def StartsIn (marks : Text) (tokens : List Text) : Prop :=
  ∃ first, StartsWith tokens first ∧ (isNameByte first = true ∨ first ∈ marks)

theorem startsIn_word {word marks : Text} (isWord : IsWord word) (tokens : List Text) :
    StartsIn marks (word :: tokens) := by
  obtain ⟨first, starts, isName⟩ := isWord.startsWith tokens
  exact ⟨first, starts, Or.inl isName⟩

theorem startsIn_mark {mark : Char} {marks : Text} (isMark : byte mark ∈ marks)
    (tokens : List Text) : StartsIn marks (punctuator mark :: tokens) :=
  ⟨byte mark, ⟨[], tokens, rfl⟩, Or.inr isMark⟩

theorem StartsIn.mono {marks more : Text} (starts : StartsIn marks tokens)
    (subset : marks ⊆ more) : StartsIn more tokens := by
  obtain ⟨first, startsWith, isName | isMark⟩ := starts
  · exact ⟨first, startsWith, Or.inl isName⟩
  · exact ⟨first, startsWith, Or.inr (subset isMark)⟩

theorem StartsIn.visible {marks : Text} (starts : StartsIn marks tokens)
    (seen : marks.all isVisible = true) : Visible tokens := by
  obtain ⟨first, startsWith, isName | isMark⟩ := starts
  · exact startsWith.visible (isVisible_of_isNameByte isName)
  · exact startsWith.visible (List.all_eq_true.mp seen first isMark)

/-- The byte ahead is not another one. -/
theorem StartsIn.peek {marks : Text} (starts : StartsIn marks tokens)
    (ahead : Ahead source position tokens) :
    ∃ first, peek source position = .ok first position ∧
      (isNameByte first = true ∨ first ∈ marks) := by
  obtain ⟨first, startsWith, known⟩ := starts
  exact ⟨first, ahead.peek_eq startsWith, known⟩

theorem ne_of_known {marks : Text} (known : isNameByte first = true ∨ first ∈ marks)
    {value : UInt8} (other : isNameByte value = false ∧ value ∉ marks) : first ≠ value := by
  rintro rfl
  rcases known with isName | isMark
  · rw [other.1] at isName
    cases isName
  · exact other.2 isMark

theorem isWord_toBytes {name : String} (isName : IsName name) :
    IsWord (toBytes name) ∧ ofBytes (toBytes name) = name ∧ name ≠ "" := by
  obtain ⟨text, isText, rfl⟩ := isName
  rw [toBytes_ofBytes]
  have isWord := isWord_of_isNameText isText
  refine ⟨isWord, rfl, ?_⟩
  rw [Ne, ofBytes_eq_empty_iff]
  exact isWord.1

theorem accepts_readName {name : String} (isName : IsName name)
    (near : Near source position (toBytes name :: tokens)) :
    Accepts source position readIdent fun parsed next =>
      parsed = name ∧ Near source next tokens := by
  obtain ⟨isWord, nameEq, -⟩ := isWord_toBytes isName
  have reads := accepts_readIdent near isWord
  rwa [nameEq] at reads

theorem accepts_parseArgsLoop {args : List (String × ArgValue)} (fuel : Nat)
    (into : List (String × ArgValue)) (names : ∀ arg ∈ args, IsName arg.1)
    (values : ∀ arg ∈ args, PrintableValue arg.2)
    (distinct : ((into ++ args).map Prod.fst).Nodup)
    (near : Near source position (argTokens args ++ punctuator ')' :: tokens)) :
    Accepts source position (parseArgsLoop fuel into) fun parsed next =>
      parsed = into ++ args ∧ Near source next tokens := by
  induction args generalizing fuel into position with
  | nil =>
      cases fuel with
      | zero => exact accepts_stuck
      | succ fuel =>
          have starts : StartsWith (punctuator ')' :: tokens) (byte ')') := ⟨[], tokens, rfl⟩
          refine (accepts_skipWS near (starts.visible (by decide))).bind ?_
          intro _ start ahead
          refine accepts_bind_of_ok rfl ?_
          rw [ahead.current starts]
          dsimp only
          rw [if_pos rfl]
          refine accepts_bind_of_ok rfl ?_
          exact accepts_pure ⟨(List.append_nil into).symm, ahead.next_punctuator⟩
  | cons arg rest inductionHypothesis =>
      rcases arg with ⟨name, value⟩
      cases fuel with
      | zero => exact accepts_stuck
      | succ fuel =>
          have isName := names _ List.mem_cons_self
          obtain ⟨isWord, -, nonempty⟩ := isWord_toBytes isName
          obtain ⟨first, starts, isByte⟩ := isWord.startsWith
            (punctuator ':' :: toBytes value.raw :: (argTokens rest ++ punctuator ')' :: tokens))
          refine (accepts_skipWS near (isWord.visible _)).bind ?_
          intro _ start ahead
          refine accepts_bind_of_ok rfl ?_
          rw [ahead.current starts]
          dsimp only
          have notEnd : first ≠ byte ')' := by
            rintro rfl
            cases isByte
          rw [if_neg notEnd]
          refine (accepts_readName isName ahead.near).bind ?_
          rintro parsed colon ⟨parsedEq, nearColon⟩
          rw [parsedEq, if_neg nonempty]
          have colonStarts : StartsWith (punctuator ':' :: toBytes value.raw ::
              (argTokens rest ++ punctuator ')' :: tokens)) (byte ':') := ⟨[], _, rfl⟩
          refine (accepts_skipWS nearColon (colonStarts.visible (by decide))).bind ?_
          intro _ colonStart aheadColon
          refine (accepts_expect aheadColon.near (by decide)).bind ?_
          intro _ valueStart nearValue
          have isValue := values _ List.mem_cons_self
          refine (accepts_skipWS nearValue (isValue.visible _)).bind ?_
          intro _ valueStart aheadValue
          refine (accepts_parseValue isValue aheadValue.near).bind ?_
          rintro parsed after ⟨parsedEq, nearRest⟩
          rw [parsedEq]
          have absent : name ∉ into.map Prod.fst := by
            rw [List.map_append, List.nodup_append] at distinct
            intro membership
            exact distinct.2.2 name membership name List.mem_cons_self rfl
          rw [setEntry_of_absent absent]
          rw [List.append_cons into (name, value) rest] at distinct ⊢
          exact inductionHypothesis fuel _
            (fun arg membership => names arg (List.mem_cons_of_mem _ membership))
            (fun arg membership => values arg (List.mem_cons_of_mem _ membership)) distinct nearRest

theorem accepts_parseOptionalArgs {args : List (String × ArgValue)} {marks : Text}
    (printable : PrintableArgs args) (starts : StartsIn marks tokens)
    (noParenthesis : byte '(' ∉ marks)
    (ahead : Ahead source position (optionalArgTokens args ++ tokens)) :
    Accepts source position parseOptionalArgs fun parsed next =>
      parsed = args ∧ Near source next tokens := by
  unfold parseOptionalArgs
  cases args with
  | nil =>
      have aheadTokens : Ahead source position tokens := ahead
      obtain ⟨first, peeked, known⟩ := starts.peek aheadTokens
      refine accepts_bind_of_ok peeked ?_
      rw [if_neg (ne_of_known known ⟨by decide, noParenthesis⟩)]
      exact accepts_pure ⟨rfl, aheadTokens.near⟩
  | cons arg rest =>
      have opens : Ahead source position
          (punctuator '(' :: (argTokens (arg :: rest) ++ punctuator ')' :: tokens)) := by
        simpa [optionalArgTokens] using ahead
      refine accepts_bind_of_ok (opens.peek_eq ⟨[], _, rfl⟩) ?_
      rw [if_pos rfl]
      refine (accepts_expect opens.near (by decide)).bind ?_
      intro _ start near
      refine accepts_bind_of_ok rfl ?_
      exact accepts_parseArgsLoop _ [] printable.names printable.values printable.distinct near

/-- What the directives of a field and the rest start with. -/
theorem startsIn_directives {marks : Text} (starts : StartsIn marks tokens)
    (hasMark : byte '@' ∈ marks) (directives : List String) :
    StartsIn marks (directiveTokens directives ++ tokens) := by
  cases directives with
  | nil => exact starts
  | cons directive rest => exact startsIn_mark hasMark _

theorem accepts_skipParenthesised {marks : Text} (starts : StartsIn marks tokens)
    (noParenthesis : byte '(' ∉ marks) (ahead : Ahead source position tokens) :
    Accepts source position skipParenthesised fun _ next => Ahead source next tokens := by
  obtain ⟨first, peeked, known⟩ := starts.peek ahead
  unfold skipParenthesised
  refine accepts_bind_of_ok peeked ?_
  rw [if_neg (ne_of_known known ⟨by decide, noParenthesis⟩)]
  exact accepts_pure ahead

/-- What can stand after the directives: a selection set, the next selection, or the end. -/
def selectionMarks : Text := [byte '\x7b', byte '.', byte '\x7d']

theorem accepts_parseDirectives {directives : List String} (fuel : Nat) (names : List String)
    (areNames : ∀ directive ∈ directives, IsName directive)
    (starts : StartsIn selectionMarks tokens)
    (ahead : Ahead source position (directiveTokens directives ++ tokens)) :
    Accepts source position (parseDirectives fuel names) fun parsed next =>
      parsed = names ++ directives ∧ Ahead source next tokens := by
  induction directives generalizing fuel names position with
  | nil =>
      cases fuel with
      | zero => exact accepts_stuck
      | succ fuel =>
          have aheadTokens : Ahead source position tokens := ahead
          obtain ⟨first, peeked, known⟩ := starts.peek aheadTokens
          refine accepts_bind_of_ok peeked ?_
          rw [if_neg (ne_of_known known (by decide))]
          exact accepts_pure ⟨(List.append_nil names).symm, aheadTokens⟩
  | cons directive rest inductionHypothesis =>
      cases fuel with
      | zero => exact accepts_stuck
      | succ fuel =>
          have opens : Ahead source position
              (punctuator '@' :: toBytes directive :: (directiveTokens rest ++ tokens)) := ahead
          have restStarts : StartsIn (byte '@' :: selectionMarks) (directiveTokens rest ++ tokens) :=
            startsIn_directives (starts.mono (List.subset_cons_self _ _)) List.mem_cons_self rest
          have visible : Visible (directiveTokens rest ++ tokens) := restStarts.visible (by decide)
          refine accepts_bind_of_ok (opens.peek_eq ⟨[], _, rfl⟩) ?_
          rw [if_pos rfl]
          refine accepts_bind_of_ok rfl ?_
          refine (accepts_readName (areNames _ List.mem_cons_self) opens.next_punctuator).bind ?_
          rintro parsed after ⟨parsedEq, near⟩
          rw [parsedEq]
          refine (accepts_skipWS near visible).bind ?_
          intro _ start aheadRest
          refine (accepts_skipParenthesised restStarts (by decide) aheadRest).bind ?_
          intro _ start aheadRest
          refine (accepts_skipWS aheadRest.near visible).bind ?_
          intro _ start aheadRest
          rw [List.append_cons names directive rest]
          exact inductionHypothesis fuel _
            (fun directive membership => areNames directive (List.mem_cons_of_mem _ membership))
            aheadRest

/-! ## Selections -/

/-- What can stand after a selection. -/
def followMarks : Text := [byte '.', byte '\x7d']

theorem startsWith_field {field : Field} (printable : field.Printable) (tokens : List Text) :
    ∃ first, StartsWith (field.tokens ++ tokens) first ∧ isNameByte first = true := by
  cases field with
  | mk name aliasName args directives sels =>
      obtain ⟨isName, isAlias, -⟩ := printable
      rw [Field.tokens, nameTokens]
      split
      · exact (isWord_toBytes isName).1.startsWith _
      · next aliased =>
          rcases isAlias with none | isAlias
          · exact absurd none aliased
          · exact (isWord_toBytes isAlias).1.startsWith _

theorem startsIn_selection {selection : Selection} (printable : selection.Printable)
    (tokens : List Text) : StartsIn followMarks (selection.tokens ++ tokens) := by
  cases selection with
  | field field =>
      obtain ⟨first, starts, isName⟩ := startsWith_field printable tokens
      exact ⟨first, starts, Or.inl isName⟩
  | fragmentSpread name => exact ⟨byte '.', ⟨_, _, rfl⟩, Or.inr (by decide)⟩
  | inlineFragment onType sels => exact ⟨byte '.', ⟨_, _, rfl⟩, Or.inr (by decide)⟩

/-- After a selection there is another one or the end of the set. -/
theorem startsIn_selections {sels : List Selection} (printable : Selection.AllPrintable sels)
    (tokens : List Text) :
    StartsIn followMarks (Selection.listTokens sels ++ punctuator '\x7d' :: tokens) := by
  cases sels with
  | nil => exact startsIn_mark (by decide) tokens
  | cons selection rest =>
      rw [Selection.listTokens, List.append_assoc]
      exact startsIn_selection printable.1 _

theorem accepts_parseFieldName {name aliasName : String} {marks : Text} (isName : IsName name)
    (isAlias : aliasName = "" ∨ IsName aliasName) (starts : StartsIn marks tokens)
    (seen : marks.all isVisible = true) (noColon : byte ':' ∉ marks)
    (near : Near source position (nameTokens aliasName name ++ tokens)) :
    Accepts source position parseFieldName fun parsed next =>
      parsed = (aliasName, name) ∧ Ahead source next tokens := by
  obtain ⟨isWord, -, nonempty⟩ := isWord_toBytes isName
  unfold parseFieldName
  rcases isAlias with rfl | isAlias
  · have nearName : Near source position (toBytes name :: tokens) := near
    refine (accepts_readName isName nearName).bind ?_
    rintro parsed after ⟨parsedEq, nearTokens⟩
    rw [parsedEq, if_neg nonempty]
    refine (accepts_skipWS nearTokens (starts.visible seen)).bind ?_
    intro _ start ahead
    obtain ⟨first, peeked, known⟩ := starts.peek ahead
    refine accepts_bind_of_ok peeked ?_
    rw [if_neg (ne_of_known known ⟨by decide, noColon⟩)]
    exact accepts_pure ⟨rfl, ahead⟩
  · obtain ⟨-, -, aliased⟩ := isWord_toBytes isAlias
    rw [nameTokens, if_neg aliased] at near
    refine (accepts_readName isAlias near).bind ?_
    rintro parsed after ⟨parsedEq, nearColon⟩
    rw [parsedEq, if_neg aliased]
    have colon : StartsWith (punctuator ':' :: toBytes name :: tokens) (byte ':') :=
      ⟨[], _, rfl⟩
    refine (accepts_skipWS nearColon (colon.visible (by decide))).bind ?_
    intro _ start aheadColon
    refine accepts_bind_of_ok (aheadColon.peek_eq colon) ?_
    rw [if_pos rfl]
    refine accepts_bind_of_ok rfl ?_
    refine (accepts_skipWS aheadColon.next_punctuator (isWord.visible tokens)).bind ?_
    intro _ start aheadName
    refine (accepts_readName isName aheadName.near).bind ?_
    rintro parsed after ⟨parsedEq, nearTokens⟩
    rw [parsedEq, if_neg nonempty]
    refine (accepts_skipWS nearTokens (starts.visible seen)).bind ?_
    intro _ start ahead
    exact accepts_pure ⟨rfl, ahead⟩

theorem Ahead.atSpread_eq (ahead : Ahead source position (token :: tokens)) :
    atSpread source position =
      .ok (hasPrefix (token ++ spaced tokens) dots) position := by
  have here := ahead.at_token
  have remains : (Reader.remaining : Parser Text) source position =
      .ok (token ++ spaced tokens) position := by
    unfold Reader.remaining
    rw [if_pos here.1, here.2]
  unfold atSpread
  change Reader.bind Reader.remaining _ source position = _
  rw [Reader.bind, remains]
  rfl

theorem hasPrefix_dots_of_ne {text : Text} (head : ∀ value ∈ text.head?, value ≠ byte '.') :
    hasPrefix text dots = false := by
  cases text with
  | nil => rfl
  | cons value rest =>
      have differs : byte '.' ≠ value := fun same => head value rfl same.symm
      simp [hasPrefix, dots, List.isPrefixOf, differs]

variable {post : List Selection → Nat → Prop}

/-- The body of the loop before a field. -/
theorem accepts_parseSelections_field {fuel : Nat} {out : List Selection}
    (near : Near source position tokens) (starts : StartsWith tokens first)
    (isName : isNameByte first = true)
    (goesOn : ∀ start, Ahead source start tokens →
      Accepts source start (do
        let field ← parseField fuel
        parseSelections fuel (out ++ [.field field])) post) :
    Accepts source position (parseSelections (fuel + 1) out) post := by
  unfold parseSelections
  refine (accepts_skipWS near (starts.visible (isVisible_of_isNameByte isName))).bind ?_
  intro _ start ahead
  refine accepts_bind_of_ok rfl ?_
  rw [ahead.current starts]
  dsimp only
  have notEnd : first ≠ byte '\x7d' := by
    rintro rfl
    cases isName
  have notDot : first ≠ byte '.' := by
    rintro rfl
    cases isName
  rw [if_neg notEnd]
  obtain ⟨rest, others, rfl⟩ := starts
  have noSpread : hasPrefix ((first :: rest) ++ spaced others) dots = false := by
    apply hasPrefix_dots_of_ne
    rintro value membership rfl
    exact notDot (Option.some.inj membership)
  refine accepts_bind_of_ok ahead.atSpread_eq ?_
  rw [noSpread, if_neg Bool.false_ne_true]
  exact goesOn start ahead

/-- The body of the loop before three dots. -/
theorem accepts_parseSelections_dots {fuel : Nat} {out : List Selection} {word : Text}
    (near : Near source position (dots :: word :: tokens)) (isWord : IsWord word)
    (goesOn : ∀ start, Near source start tokens →
      Accepts source start (
        if ofBytes word = "on" then do
          let typeName ← readIdent
          skipWS
          let length ← Reader.sourceLength
          let _ ← parseDirectives (length + 1) []
          let sels ← parseSelectionSet fuel
          parseSelections fuel (out ++ [.inlineFragment typeName sels])
        else parseSelections fuel (out ++ [.fragmentSpread (ofBytes word)])) post) :
    Accepts source position (parseSelections (fuel + 1) out) post := by
  have starts : StartsWith (dots :: word :: tokens) (byte '.') := ⟨_, _, rfl⟩
  unfold parseSelections
  refine (accepts_skipWS near (starts.visible (by decide))).bind ?_
  intro _ start ahead
  refine accepts_bind_of_ok rfl ?_
  rw [ahead.current starts]
  dsimp only
  rw [if_neg (by decide)]
  have isSpread : hasPrefix (dots ++ spaced (word :: tokens)) dots = true := by
    rw [hasPrefix, List.isPrefixOf_iff_prefix]
    exact List.prefix_append _ _
  refine accepts_bind_of_ok ahead.atSpread_eq ?_
  rw [isSpread, if_pos rfl]
  refine accepts_bind_of_ok rfl ?_
  have nearWord : Near source (start + 3) (word :: tokens) := ahead.next
  refine (accepts_skipWS nearWord (isWord.visible tokens)).bind ?_
  intro _ start aheadWord
  refine (accepts_readIdent aheadWord.near isWord).bind ?_
  rintro parsed after ⟨parsedEq, nearTokens⟩
  rw [parsedEq]
  exact goesOn after nearTokens

/-- The selection set of a field, if it has one. -/
def optionalSetTokens (sels : List Selection) : List Text :=
  if sels.isEmpty then []
  else punctuator '\x7b' :: (Selection.listTokens sels ++ [punctuator '\x7d'])

/-- What stands after the arguments and the directives of a field. -/
theorem startsIn_set (sels : List Selection) (follows : StartsIn followMarks tokens) :
    StartsIn selectionMarks (optionalSetTokens sels ++ tokens) := by
  unfold optionalSetTokens
  split
  · exact follows.mono (List.subset_cons_self _ _)
  · exact startsIn_mark (by decide) _

/-- What stands after the name of a field. -/
theorem startsIn_args {args : List (String × ArgValue)}
    (starts : StartsIn (byte '@' :: selectionMarks) tokens) :
    StartsIn (byte '(' :: byte '@' :: selectionMarks) (optionalArgTokens args ++ tokens) := by
  unfold optionalArgTokens
  split
  · exact starts.mono (List.subset_cons_self _ _)
  · exact startsIn_mark (by decide) _

mutual

theorem accepts_parseSelections :
    ∀ (sels : List Selection), Selection.AllPrintable sels →
      ∀ (fuel : Nat) (out : List Selection) (position : Nat) (tokens : List Text),
      Near source position (Selection.listTokens sels ++ punctuator '\x7d' :: tokens) →
      Accepts source position (parseSelections fuel out) fun parsed next =>
        parsed = out ++ sels ∧ Near source next tokens
  | _, _, 0, _, _, _, _ => by
      unfold parseSelections
      exact accepts_stuck
  | [], _, fuel + 1, out, position, tokens, near => by
      have starts : StartsWith (punctuator '\x7d' :: tokens) (byte '\x7d') := ⟨[], tokens, rfl⟩
      unfold parseSelections
      refine (accepts_skipWS near (starts.visible (by decide))).bind ?_
      intro _ start ahead
      refine accepts_bind_of_ok rfl ?_
      rw [ahead.current starts]
      refine accepts_bind_of_ok rfl ?_
      exact accepts_pure ⟨(List.append_nil out).symm, ahead.next_punctuator⟩
  | selection :: rest, printable, fuel + 1, out, position, tokens, near => by
      rw [Selection.listTokens, List.append_assoc] at near
      rw [List.append_cons out selection rest]
      refine accepts_parseSelection selection printable.1 fuel out position _
        (startsIn_selections printable.2 tokens) near ?_
      intro start nearRest
      exact accepts_parseSelections rest printable.2 fuel _ start tokens nearRest

theorem accepts_parseSelection :
    ∀ (selection : Selection), selection.Printable →
      ∀ (fuel : Nat) (out : List Selection) (position : Nat) (tokens : List Text),
      StartsIn followMarks tokens → Near source position (selection.tokens ++ tokens) →
      ∀ {post : List Selection → Nat → Prop},
      (∀ start, Near source start tokens →
        Accepts source start (parseSelections fuel (out ++ [selection])) post) →
      Accepts source position (parseSelections (fuel + 1) out) post
  | .field field, printable, fuel, out, position, tokens, follows, near, post, goesOn => by
      obtain ⟨first, starts, isName⟩ := startsWith_field printable tokens
      refine accepts_parseSelections_field near starts isName ?_
      intro start ahead
      refine (accepts_parseField field printable fuel start tokens follows ahead.near).bind ?_
      rintro parsed after ⟨parsedEq, nearTokens⟩
      rw [parsedEq]
      exact goesOn after nearTokens
  | .fragmentSpread name, printable, fuel, out, position, tokens, follows, near, post, goesOn => by
      obtain ⟨isWord, nameEq, -⟩ := isWord_toBytes printable.1
      refine accepts_parseSelections_dots near isWord ?_
      intro start nearTokens
      rw [nameEq, if_neg printable.2]
      exact goesOn start nearTokens
  | .inlineFragment onType sels, printable, fuel, out, position, tokens, follows, near, post,
      goesOn => by
      have nearDots : Near source position (dots :: utf8 "on" :: toBytes onType ::
          punctuator '\x7b' :: (Selection.listTokens sels ++ punctuator '\x7d' :: tokens)) := by
        rw [Selection.tokens] at near
        simpa using near
      refine accepts_parseSelections_dots nearDots ⟨by decide, by decide⟩ ?_
      intro start nearType
      rw [if_pos (by decide)]
      refine (accepts_readName printable.1 nearType).bind ?_
      rintro parsed after ⟨parsedEq, nearSet⟩
      have starts : StartsIn selectionMarks (punctuator '\x7b' ::
          (Selection.listTokens sels ++ punctuator '\x7d' :: tokens)) :=
        startsIn_mark (by decide) _
      refine (accepts_skipWS nearSet (starts.visible (by decide))).bind ?_
      intro _ setStart aheadSet
      refine accepts_bind_of_ok rfl ?_
      refine (accepts_parseDirectives _ [] (by simp) starts
        (show Ahead source setStart (directiveTokens [] ++ _) from aheadSet)).bind ?_
      rintro _ setStart ⟨-, aheadSet⟩
      refine (accepts_parseSelectionSet sels printable.2 fuel setStart tokens aheadSet.near).bind ?_
      rintro parsedSels after ⟨selsEq, nearTokens⟩
      rw [parsedEq, selsEq]
      exact goesOn after nearTokens

theorem accepts_parseSelectionSet :
    ∀ (sels : List Selection), Selection.AllPrintable sels →
      ∀ (fuel position : Nat) (tokens : List Text),
      Near source position
        (punctuator '\x7b' :: (Selection.listTokens sels ++ punctuator '\x7d' :: tokens)) →
      Accepts source position (parseSelectionSet fuel) fun parsed next =>
        parsed = sels ∧ Near source next tokens
  | _, _, 0, _, _, _ => by
      unfold parseSelectionSet
      exact accepts_stuck
  | sels, printable, fuel + 1, position, tokens, near => by
      unfold parseSelectionSet
      refine (accepts_expect near (by decide)).bind ?_
      intro _ start nearSels
      exact accepts_parseSelections sels printable fuel [] start tokens nearSels

theorem accepts_parseField :
    ∀ (field : Field), field.Printable → ∀ (fuel position : Nat) (tokens : List Text),
      StartsIn followMarks tokens → Near source position (field.tokens ++ tokens) →
      Accepts source position (parseField fuel) fun parsed next =>
        parsed = field ∧ Near source next tokens
  | _, _, 0, _, _, _, _ => by
      unfold parseField
      exact accepts_stuck
  | .mk name aliasName args directives sels, printable, fuel + 1, position, tokens, follows,
      near => by
      obtain ⟨isName, isAlias, areArgs, areDirectives, areSels⟩ := printable
      have setStarts := startsIn_set sels follows
      have directiveStarts : StartsIn (byte '@' :: selectionMarks)
          (directiveTokens directives ++ (optionalSetTokens sels ++ tokens)) :=
        startsIn_directives (setStarts.mono (List.subset_cons_self _ _)) List.mem_cons_self _
      have nearNames : Near source position (nameTokens aliasName name ++
          (optionalArgTokens args ++
            (directiveTokens directives ++ (optionalSetTokens sels ++ tokens)))) := by
        rw [Field.tokens, List.append_assoc, List.append_assoc, List.append_assoc] at near
        exact near
      unfold parseField
      refine (accepts_parseFieldName isName isAlias (startsIn_args directiveStarts) (by decide)
        (by decide) nearNames).bind ?_
      rintro _ argStart ⟨rfl, aheadArgs⟩
      refine (accepts_parseOptionalArgs areArgs directiveStarts (by decide) aheadArgs).bind ?_
      rintro _ after ⟨rfl, nearDirectives⟩
      refine (accepts_skipWS nearDirectives (directiveStarts.visible (by decide))).bind ?_
      intro _ directiveStart aheadDirectives
      refine accepts_bind_of_ok rfl ?_
      refine (accepts_parseDirectives _ [] areDirectives setStarts aheadDirectives).bind ?_
      rintro _ setStart ⟨rfl, aheadSet⟩
      cases sels with
      | nil =>
          have aheadTokens : Ahead source setStart tokens := aheadSet
          obtain ⟨first, peeked, known⟩ := follows.peek aheadTokens
          refine accepts_bind_of_ok peeked ?_
          rw [if_neg (ne_of_known known (by decide))]
          refine accepts_bind_of_ok rfl ?_
          exact accepts_pure ⟨rfl, aheadTokens.near⟩
      | cons selection rest =>
          have opens : Ahead source setStart (punctuator '\x7b' ::
              (Selection.listTokens (selection :: rest) ++ punctuator '\x7d' :: tokens)) := by
            simpa [optionalSetTokens] using aheadSet
          refine accepts_bind_of_ok (opens.peek_eq ⟨[], _, rfl⟩) ?_
          rw [if_pos rfl]
          refine (accepts_parseSelectionSet (selection :: rest) areSels fuel setStart tokens
            opens.near).bind ?_
          rintro parsed next ⟨parsedEq, nearTokens⟩
          rw [parsedEq]
          exact accepts_pure ⟨rfl, nearTokens⟩

end

/-! ## Definitions -/

theorem accepts_parseOperation {operation : Operation} (printable : operation.Printable)
    (near : Near source position ((if operation.name = "" then []
      else [toBytes operation.name]) ++ (setTokens operation.sels ++ tokens))) :
    Accepts source position (parseOperation operation.kind) fun parsed next =>
      parsed = operation ∧ Near source next tokens := by
  rcases operation with ⟨kind, name, sels⟩
  have setEq : setTokens sels ++ tokens = punctuator '\x7b' ::
      (Selection.listTokens sels ++ punctuator '\x7d' :: tokens) := by
    simp [setTokens]
  dsimp only at near ⊢
  rw [setEq] at near
  have starts : StartsIn selectionMarks (punctuator '\x7b' ::
      (Selection.listTokens sels ++ punctuator '\x7d' :: tokens)) := startsIn_mark (by decide) _
  have named : Accepts source position readIdent fun parsed next =>
      parsed = name ∧ Near source next (punctuator '\x7b' ::
        (Selection.listTokens sels ++ punctuator '\x7d' :: tokens)) := by
    rcases printable.name with unnamed | isName
    · have empty : name = "" := unnamed
      subst empty
      refine (accepts_readIdent_empty near ⟨[], _, rfl⟩ (by decide) (by decide)).mono ?_
      rintro _ next ⟨rfl, ahead⟩
      exact ⟨rfl, ahead.near⟩
    · rw [if_neg (isWord_toBytes isName).2.2] at near
      exact accepts_readName isName near
  unfold parseOperation
  refine named.bind ?_
  rintro _ after ⟨rfl, nearSet⟩
  refine (accepts_skipWS nearSet (starts.visible (by decide))).bind ?_
  intro _ start ahead
  refine (accepts_skipParenthesised starts (by decide) ahead).bind ?_
  intro _ start ahead
  refine (accepts_skipWS ahead.near (starts.visible (by decide))).bind ?_
  intro _ start ahead
  refine accepts_bind_of_ok rfl ?_
  refine (accepts_parseDirectives _ [] (by simp) starts
    (show Ahead source start (directiveTokens [] ++ _) from ahead)).bind ?_
  rintro _ start ⟨-, ahead⟩
  refine (accepts_parseSelectionSet sels printable.sels _ start tokens ahead.near).bind ?_
  rintro _ next ⟨rfl, nearTokens⟩
  exact accepts_pure ⟨rfl, nearTokens⟩

theorem accepts_parseFragment {fragment : Fragment} (printable : fragment.Printable)
    (near : Near source position (toBytes fragment.name :: utf8 "on" ::
      toBytes fragment.onType :: (setTokens fragment.sels ++ tokens))) :
    Accepts source position parseFragment fun parsed next =>
      parsed = fragment ∧ Near source next tokens := by
  rcases fragment with ⟨name, onType, sels⟩
  have setEq : setTokens sels ++ tokens = punctuator '\x7b' ::
      (Selection.listTokens sels ++ punctuator '\x7d' :: tokens) := by
    simp [setTokens]
  dsimp only at near
  rw [setEq] at near
  unfold parseFragment
  refine (accepts_readName printable.name near).bind ?_
  rintro _ after ⟨rfl, nearOn⟩
  rw [if_neg (isWord_toBytes printable.name).2.2]
  refine (accepts_readIdent nearOn ⟨by decide, by decide⟩).bind ?_
  rintro _ after ⟨rfl, nearType⟩
  rw [if_neg (by decide)]
  refine (accepts_readName printable.onType nearType).bind ?_
  rintro _ after ⟨rfl, nearSet⟩
  rw [if_neg (isWord_toBytes printable.onType).2.2]
  refine accepts_bind_of_ok rfl ?_
  refine (accepts_parseSelectionSet sels printable.sels _ after tokens nearSet).bind ?_
  rintro _ next ⟨rfl, nearTokens⟩
  exact accepts_pure ⟨rfl, nearTokens⟩

theorem isWord_keyword (kind : OperationKind) : IsWord kind.keyword := by
  cases kind with
  | query => exact ⟨by decide, by decide⟩
  | mutation => exact ⟨by decide, by decide⟩

theorem visible_fragments (fragments : List (String × Fragment)) :
    Visible (fragments.flatMap fun entry => entry.2.tokens) := by
  cases fragments with
  | nil => exact Or.inl rfl
  | cons entry rest =>
      have isWord : IsWord (utf8 "fragment") := ⟨by decide, by decide⟩
      exact isWord.visible _

theorem visible_definitions (operations : List Operation) (fragments : List (String × Fragment)) :
    Visible (operations.flatMap Operation.tokens ++
      fragments.flatMap fun entry => entry.2.tokens) := by
  cases operations with
  | nil => exact visible_fragments fragments
  | cons operation rest => exact (isWord_keyword operation.kind).visible _

/-- The loop over the fragments, after the operations. -/
theorem accepts_parseDefinitions_fragments {fragments : List (String × Fragment)} (fuel : Nat)
    (operations : List Operation) (into : List (String × Fragment)) (nonempty : operations ≠ [])
    (printable : ∀ entry ∈ fragments, entry.2.Printable)
    (keys : ∀ entry ∈ fragments, entry.1 = entry.2.name)
    (distinct : ((into ++ fragments).map Prod.fst).Nodup)
    (ahead : Ahead source position (fragments.flatMap fun entry => entry.2.tokens)) :
    Accepts source position (parseDefinitions fuel ⟨operations, into⟩) fun parsed _ =>
      parsed = ⟨operations, into ++ fragments⟩ := by
  induction fragments generalizing fuel into position with
  | nil =>
      cases fuel with
      | zero => exact accepts_stuck
      | succ fuel =>
          refine accepts_bind_of_ok rfl ?_
          rw [ahead.ended]
          dsimp only
          rw [if_neg (by simpa using nonempty)]
          refine accepts_pure ?_
          rw [List.append_nil]
  | cons entry rest inductionHypothesis =>
      cases fuel with
      | zero => exact accepts_stuck
      | succ fuel =>
          rcases entry with ⟨key, fragment⟩
          have isKey : key = fragment.name := keys _ List.mem_cons_self
          have isWord : IsWord (utf8 "fragment") := ⟨by decide, by decide⟩
          have opens : Ahead source position (utf8 "fragment" :: toBytes fragment.name ::
              utf8 "on" :: toBytes fragment.onType :: (setTokens fragment.sels ++
                rest.flatMap fun entry => entry.2.tokens)) := ahead
          obtain ⟨first, starts, -⟩ := isWord.startsWith (toBytes fragment.name :: utf8 "on" ::
            toBytes fragment.onType :: (setTokens fragment.sels ++
              rest.flatMap fun entry => entry.2.tokens))
          refine accepts_bind_of_ok rfl ?_
          rw [opens.current starts]
          refine (accepts_readIdent opens.near isWord).bind ?_
          rintro parsed after ⟨parsedEq, nearName⟩
          have isFragment : parsed = "fragment" := parsedEq.trans (by decide)
          rw [isFragment, if_neg (by decide), if_neg (by decide), if_pos rfl]
          refine (accepts_parseFragment (printable _ List.mem_cons_self) nearName).bind ?_
          rintro parsed after ⟨parsedEq, nearRest⟩
          rw [parsedEq]
          refine (accepts_skipWS nearRest (visible_fragments rest)).bind ?_
          intro _ start aheadRest
          have absent : fragment.name ∉ into.map Prod.fst := by
            rw [List.map_append, List.nodup_append] at distinct
            intro membership
            exact distinct.2.2 _ membership key List.mem_cons_self isKey.symm
          dsimp only
          rw [setEntry_of_absent absent, ← isKey]
          rw [List.append_cons into (key, fragment) rest] at distinct ⊢
          exact inductionHypothesis fuel _
            (fun entry membership => printable entry (List.mem_cons_of_mem _ membership))
            (fun entry membership => keys entry (List.mem_cons_of_mem _ membership)) distinct
            aheadRest

/-- The loop over the operations. -/
theorem accepts_parseDefinitions {operations : List Operation}
    {fragments : List (String × Fragment)} (fuel : Nat) (into : List Operation)
    (nonempty : into ++ operations ≠ [])
    (printable : ∀ operation ∈ operations, operation.Printable)
    (printableFragments : ∀ entry ∈ fragments, entry.2.Printable)
    (keys : ∀ entry ∈ fragments, entry.1 = entry.2.name)
    (distinct : (fragments.map Prod.fst).Nodup)
    (ahead : Ahead source position (operations.flatMap Operation.tokens ++
      fragments.flatMap fun entry => entry.2.tokens)) :
    Accepts source position (parseDefinitions fuel ⟨into, []⟩) fun parsed _ =>
      parsed = ⟨into ++ operations, fragments⟩ := by
  induction operations generalizing fuel into position with
  | nil =>
      rw [List.append_nil] at nonempty ⊢
      exact accepts_parseDefinitions_fragments fuel into [] nonempty printableFragments keys
        distinct ahead
  | cons operation rest inductionHypothesis =>
      cases fuel with
      | zero => exact accepts_stuck
      | succ fuel =>
          have isWord := isWord_keyword operation.kind
          have opens : Ahead source position (operation.kind.keyword ::
              ((if operation.name = "" then [] else [toBytes operation.name]) ++
                (setTokens operation.sels ++ (rest.flatMap Operation.tokens ++
                  fragments.flatMap fun entry => entry.2.tokens)))) := by
            simpa [Operation.tokens] using ahead
          obtain ⟨first, starts, -⟩ := isWord.startsWith
            ((if operation.name = "" then [] else [toBytes operation.name]) ++
              (setTokens operation.sels ++ (rest.flatMap Operation.tokens ++
                fragments.flatMap fun entry => entry.2.tokens)))
          refine accepts_bind_of_ok rfl ?_
          rw [opens.current starts]
          refine (accepts_readIdent opens.near isWord).bind ?_
          rintro parsed after ⟨parsedEq, nearName⟩
          have isKeyword : (parsed = "query" ∨ parsed = "mutation") ∧
              (if parsed = "mutation" then OperationKind.mutation else .query) =
                operation.kind := by
            rw [parsedEq]
            cases operation.kind with
            | query => decide
            | mutation => decide
          rw [if_pos isKeyword.1, isKeyword.2]
          refine (accepts_parseOperation (printable _ List.mem_cons_self) nearName).bind ?_
          rintro parsed after ⟨parsedEq, nearRest⟩
          rw [parsedEq]
          refine (accepts_skipWS nearRest (visible_definitions rest fragments)).bind ?_
          intro _ start aheadRest
          dsimp only
          rw [List.append_cons into operation rest]
          exact inductionHypothesis fuel _ (by simp)
            (fun operation membership => printable operation (List.mem_cons_of_mem _ membership))
            aheadRest

/-- `ParseQuery` of the canonical rendering of a document is the document. -/
theorem parseQuery_render (document : Document) (printable : document.Printable) :
    ∃ next, parseQuery document.render = .ok document next := by
  have ahead : Ahead document.render 0 document.tokens := ⟨Nat.zero_le _, rfl⟩
  obtain ⟨operation, rest, operationsEq⟩ := List.exists_cons_of_ne_nil printable.nonempty
  have accepts : Accepts document.render 0 parseDocument fun parsed _ => parsed = document := by
    unfold parseDocument
    have visible : Visible document.tokens :=
      visible_definitions document.operations document.fragments
    refine (accepts_skipWS ahead.near visible).bind ?_
    intro _ start aheadTokens
    have starts : StartsIn [] document.tokens := by
      rw [Document.tokens, operationsEq]
      exact startsIn_word (isWord_keyword operation.kind) _
    obtain ⟨first, peeked, known⟩ := starts.peek aheadTokens
    refine accepts_bind_of_ok peeked ?_
    refine accepts_bind_of_ok rfl ?_
    rw [if_neg (ne_of_known known (by decide))]
    exact accepts_parseDefinitions _ [] printable.nonempty printable.operations
      printable.fragments printable.keys printable.distinct aheadTokens
  obtain ⟨parsed, next, returns, rfl⟩ := accepts.ok_of_reads (reads_parseDocument document.render)
  exact ⟨next, returns⟩

/-! A document with an alias, each kind of selection, and a literal with a bracket in a string. -/

/-- `[ "]" ]`. -/
def bracketLiteral : Text := byte '[' :: (quote :: ([byte ']'] ++ [quote]) ++ [byte ']'])

def userQuery : Operation where
  kind := .query
  name := "Q"
  sels := [.field (.mk "user" "u"
    [("first", ⟨some (-5), ofBytes ([byte '-'] ++ [byte '5'])⟩),
      ("in", ⟨none, ofBytes bracketLiteral⟩)] ["liveRead"]
    [.fragmentSpread "F", .inlineFragment "User" []])]

def userDocument : Document where
  operations := [userQuery]
  fragments := [("F", ⟨"F", "User", [.field (.mk "id" "" [] [] [])]⟩)]

theorem isName_of_decide {name : String} (isName : isNameText (toBytes name) = true)
    (ascii : ofBytes (toBytes name) = name) : IsName name :=
  ⟨toBytes name, isName, ascii⟩

theorem userQuery_printable : userQuery.Printable := by
  have first : PrintableValue ⟨some (-5), ofBytes ([byte '-'] ++ [byte '5'])⟩ :=
    .integer (Or.inr rfl) (by decide) (by decide) (by decide)
  have literal : PrintableValue ⟨none, ofBytes bracketLiteral⟩ := by
    apply PrintableValue.list
    rw [← List.append_nil (quote :: ([byte ']'] ++ [quote]))]
    exact .string (.plain (.plain (by decide) (by decide) .nil)) (by decide) .nil
  have args : PrintableArgs [("first", ⟨some (-5), ofBytes ([byte '-'] ++ [byte '5'])⟩),
      ("in", ⟨none, ofBytes bracketLiteral⟩)] := by
    refine ⟨?_, ?_, by decide⟩
    · simp only [List.forall_mem_cons, List.not_mem_nil, false_implies, implies_true, and_true]
      exact ⟨isName_of_decide (by decide) (by decide),
        isName_of_decide (by decide) (by decide)⟩
    · simp only [List.forall_mem_cons, List.not_mem_nil, false_implies, implies_true, and_true]
      exact ⟨first, literal⟩
  refine ⟨Or.inr (isName_of_decide (by decide) (by decide)),
    ⟨isName_of_decide (by decide) (by decide),
      Or.inr (isName_of_decide (by decide) (by decide)), args, ?_,
      ⟨isName_of_decide (by decide) (by decide), by decide⟩,
      ⟨isName_of_decide (by decide) (by decide), trivial⟩, trivial⟩, trivial⟩
  simp only [List.forall_mem_cons, List.not_mem_nil, false_implies, implies_true, and_true]
  exact isName_of_decide (by decide) (by decide)

theorem parseQuery_render_userDocument :
    ∃ next, parseQuery userDocument.render = .ok userDocument next := by
  apply parseQuery_render
  have fragment : Fragment.Printable ⟨"F", "User", [.field (.mk "id" "" [] [] [])]⟩ := by
    refine ⟨isName_of_decide (by decide) (by decide), by decide,
      isName_of_decide (by decide) (by decide), ?_, trivial⟩
    exact ⟨isName_of_decide (by decide) (by decide), Or.inl rfl,
      ⟨by simp, by simp, by simp⟩, by simp, trivial⟩
  constructor
  · exact List.cons_ne_nil _ _
  · intro operation membership
    cases List.mem_singleton.mp membership
    exact userQuery_printable
  · intro entry membership
    cases List.mem_singleton.mp membership
    exact fragment
  · intro entry membership
    cases List.mem_singleton.mp membership
    rfl
  · simp [userDocument]

end GitScale.GraphQL
