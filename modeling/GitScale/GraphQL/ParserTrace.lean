import GitScale.Foundation.Recorder
import GitScale.GraphQL.ParserBounds

/-!
# The parser with a record of its run

The methods of `parser` once more, with every loop, every access to the source and every
assignment to the position where the code has them.  They have the outcomes of `Parser`, their
accesses are in bounds, the position never falls, and every iteration of a loop that goes on
has moved it.
-/

namespace GitScale.GraphQL.Recorded

open Foundation Go Recorder

/-- The methods of `parser`, with a record. -/
abbrev Method (Value : Type) := Recorder UInt8 String Value

/-! ## Tokens -/

def errf {Value : Type} (message : String) : Method Value :=
  Recorder.fail fun position =>
    "cost: parse error: " ++ message ++ " at offset " ++ toString position

def peek : Method UInt8 := do
  let here ← current
  return here.getD 0

/-- A byte before the end of the line. -/
def isCommentByte (value : UInt8) : Bool := value ≠ 10

/-- The inner loop of `skipWS`, over a comment. -/
def skipComment : Nat → Method Unit := passWhile isCommentByte

def skipWSLoop : Nat → Method Unit
  | 0 => stuck
  | fuel + 1 => do
      let head ← position
      let here ← current
      match here with
      | none => return ()
      | some value =>
          if isBlank value then
            advance 1
            again head
            skipWSLoop fuel
          else if value = byte '#' then
            let length ← sourceLength
            skipComment (length + 1)
            again head
            skipWSLoop fuel
          else return ()

/-- `parser.skipWS`. -/
def skipWS : Method Unit := do
  let length ← sourceLength
  skipWSLoop (length + 1)

/-- The loop over the bytes of a name or over digits. -/
def pass (test : UInt8 → Bool) : Method Unit := do
  let length ← sourceLength
  passWhile test (length + 1)

/-- `p.src[start:p.pos]`. -/
def sliceFrom (start : Nat) : Method Text := do
  let here ← position
  slice start here

/-- `parser.readIdent`. -/
def readIdent : Method String := do
  skipWS
  let start ← position
  pass isNameByte
  let name ← sliceFrom start
  return ofBytes name

/-- `parser.expect`. -/
def expect (value : UInt8) : Method Unit := do
  skipWS
  let here ← current
  if here = some value then advance 1 else errf ("expected " ++ quoteByte value)

/-- The loop of `readString` after the opening quote. -/
def readStringLoop : Nat → Method Unit
  | 0 => stuck
  | fuel + 1 => do
      let head ← position
      let here ← current
      match here with
      | none => errf "unterminated string"
      | some value =>
          if value = backslash then
            advance 2
            again head
            readStringLoop fuel
          else if value = quote then advance 1
          else
            advance 1
            again head
            readStringLoop fuel

/-- `parser.readString`. -/
def readString : Method Text := do
  let length ← sourceLength
  let start ← position
  let rest ← slice start length
  if hasPrefix rest [quote, quote, quote] then
    let body ← slice (start + 3) length
    match indexText [quote, quote, quote] body with
    | none => errf "unterminated block string"
    | some index =>
        let raw ← slice start (start + (3 + index + 3))
        advance (3 + index + 3)
        return raw
  else
    advance 1
    readStringLoop (length + 1)
    sliceFrom start

/-- The loop of `skipBalanced`. -/
def skipBalancedLoop (opening closing : UInt8) : Nat → Int → Method Unit
  | 0, _ => stuck
  | fuel + 1, depth => do
      let head ← position
      let here ← current
      match here with
      | none => errf ("unbalanced " ++ quoteByte opening ++ "…" ++ quoteByte closing)
      | some value =>
          if value = opening then
            advance 1
            again head
            skipBalancedLoop opening closing fuel (depth + 1)
          else if value = closing then
            if depth - 1 = 0 then advance 1
            else
              advance 1
              again head
              skipBalancedLoop opening closing fuel (depth - 1)
          else if value = quote then
            let _ ← readString
            again head
            skipBalancedLoop opening closing fuel depth
          else
            advance 1
            again head
            skipBalancedLoop opening closing fuel depth

/-- `parser.skipBalanced`. -/
def skipBalanced (opening closing : UInt8) : Method Unit := do
  let here ← peek
  if here = opening then
    let length ← sourceLength
    skipBalancedLoop opening closing (length + 1) 0
  else errf ("expected " ++ quoteByte opening)

/-- Variable definitions or the arguments of a directive, if there are any. -/
def skipParenthesised : Method Unit := do
  let here ← peek
  if here = byte '(' then skipBalanced (byte '(') (byte ')') else return ()

/-! ## Values and arguments -/

/-- `parser.readNumber`. -/
def readNumber : Method ArgValue := do
  let start ← position
  let first ← itemAt start
  advance (if first = byte '-' then 1 else 0)
  pass isDigit
  let here ← current
  if here = some (byte '.') then
    advance 1
    pass isDigit
    let raw ← sliceFrom start
    return ⟨none, ofBytes raw⟩
  else
    let raw ← sliceFrom start
    return ⟨parseInt (ofBytes raw).toList, ofBytes raw⟩

/-- A list or object literal. -/
def readBalanced (opening closing : UInt8) : Method ArgValue := do
  let start ← position
  skipBalanced opening closing
  let raw ← sliceFrom start
  return ⟨none, ofBytes raw⟩

/-- `parser.parseValue`. -/
def parseValue : Method ArgValue := do
  skipWS
  let here ← current
  match here with
  | none => errf "expected value"
  | some value =>
      if value = byte '$' then
        advance 1
        let name ← readIdent
        return ⟨none, "$" ++ name⟩
      else if value = quote then
        let raw ← readString
        return ⟨none, ofBytes raw⟩
      else if value = byte '[' then readBalanced (byte '[') (byte ']')
      else if value = byte '\x7b' then readBalanced (byte '\x7b') (byte '\x7d')
      else if value = byte '-' ∨ isDigit value then readNumber
      else
        let ident ← readIdent
        if ident = "" then errf ("unexpected character " ++ quoteByte value ++ " in value")
        else return ⟨none, ident⟩

/-- The loop of `parseArgs`. -/
def parseArgsLoop : Nat → List (String × ArgValue) → Method (List (String × ArgValue))
  | 0, _ => stuck
  | fuel + 1, into => do
      let head ← position
      skipWS
      let here ← current
      match here with
      | none => errf "unclosed args"
      | some value =>
          if value = byte ')' then
            advance 1
            return into
          else
            let name ← readIdent
            if name = "" then errf "expected arg name"
            else
              skipWS
              expect (byte ':')
              skipWS
              let value ← parseValue
              again head
              parseArgsLoop fuel (setEntry into name value)

/-- `parser.parseArgs`. -/
def parseArgs : Method (List (String × ArgValue)) := do
  expect (byte '(')
  let length ← sourceLength
  parseArgsLoop (length + 1) []

/-- The arguments of a field, if there are any. -/
def parseOptionalArgs : Method (List (String × ArgValue)) := do
  let here ← peek
  if here = byte '(' then parseArgs else return []

/-- The loop over the directives of an operation, an inline fragment or a field. -/
def parseDirectives : Nat → List String → Method (List String)
  | 0, _ => stuck
  | fuel + 1, names => do
      let head ← position
      let here ← peek
      if here = byte '@' then
        advance 1
        let name ← readIdent
        skipWS
        skipParenthesised
        skipWS
        again head
        parseDirectives fuel (names ++ [name])
      else return names

/-! ## Selections -/

/-- The alias and the name of a field. -/
def parseFieldName : Method (String × String) := do
  let name ← readIdent
  if name = "" then errf "expected field name"
  else
    skipWS
    let here ← peek
    if here = byte ':' then
      advance 1
      skipWS
      let aliased ← readIdent
      if aliased = "" then errf "expected field name after alias"
      else
        skipWS
        return (name, aliased)
    else return ("", name)

/-- Three dots, looked at one after the other if there is room for them. -/
def atSpread : Method Bool := do
  let length ← sourceLength
  let here ← position
  if here + 2 < length then
    let first ← itemAt here
    if first = byte '.' then
      let second ← itemAt (here + 1)
      if second = byte '.' then
        let third ← itemAt (here + 2)
        return third = byte '.'
      else return false
    else return false
  else return false

mutual

/-- `parser.parseSelectionSet`. -/
def parseSelectionSet : Nat → Method (List Selection)
  | 0 => stuck
  | fuel + 1 => do
      expect (byte '\x7b')
      parseSelections fuel []

/-- The loop of `parseSelectionSet`. -/
def parseSelections : Nat → List Selection → Method (List Selection)
  | 0, _ => stuck
  | fuel + 1, out => do
      let head ← position
      skipWS
      let here ← current
      match here with
      | none => errf "unclosed selection set"
      | some value =>
          if value = byte '\x7d' then
            advance 1
            return out
          else
            let spread ← atSpread
            if spread then
              advance 3
              skipWS
              let ident ← readIdent
              if ident = "on" then
                let typeName ← readIdent
                skipWS
                let length ← sourceLength
                let _ ← parseDirectives (length + 1) []
                let sels ← parseSelectionSet fuel
                again head
                parseSelections fuel (out ++ [.inlineFragment typeName sels])
              else
                again head
                parseSelections fuel (out ++ [.fragmentSpread ident])
            else
              let field ← parseField fuel
              again head
              parseSelections fuel (out ++ [.field field])

/-- `parser.parseField`. -/
def parseField : Nat → Method Field
  | 0 => stuck
  | fuel + 1 => do
      let names ← parseFieldName
      let args ← parseOptionalArgs
      skipWS
      let length ← sourceLength
      let directives ← parseDirectives (length + 1) []
      let here ← peek
      let sels ← (if here = byte '\x7b' then parseSelectionSet fuel else pure [])
      return .mk names.2 names.1 args directives sels

end

/-! ## Definitions -/

/-- `parser.parseOperation`. -/
def parseOperation (kind : OperationKind) : Method Operation := do
  let name ← readIdent
  skipWS
  skipParenthesised
  skipWS
  let length ← sourceLength
  let _ ← parseDirectives (length + 1) []
  let sels ← parseSelectionSet (selectionFuel length)
  return ⟨kind, name, sels⟩

/-- `parser.parseFragment`. -/
def parseFragment : Method Fragment := do
  let name ← readIdent
  if name = "" then errf "fragment requires a name"
  else
    let on ← readIdent
    if on ≠ "on" then errf "expected 'on' after fragment name"
    else
      let onType ← readIdent
      if onType = "" then errf "fragment requires a type condition"
      else
        let length ← sourceLength
        let sels ← parseSelectionSet (selectionFuel length)
        return ⟨name, onType, sels⟩

/-- The loop of `ParseQuery` over the definitions. -/
def parseDefinitions : Nat → Document → Method Document
  | 0, _ => stuck
  | fuel + 1, document => do
      let head ← position
      let here ← current
      match here with
      | none =>
          if document.operations.isEmpty then
            Recorder.fail fun _ => "cost: parse error: document has no operations"
          else return document
      | some _ =>
          let keyword ← readIdent
          if keyword = "query" ∨ keyword = "mutation" then
            let operation ←
              parseOperation (if keyword = "mutation" then .mutation else .query)
            skipWS
            again head
            parseDefinitions fuel
              { document with operations := document.operations ++ [operation] }
          else if keyword = "subscription" then errf "subscriptions are not supported"
          else if keyword = "fragment" then
            let fragment ← parseFragment
            skipWS
            again head
            parseDefinitions fuel
              { document with
                fragments := setEntry document.fragments fragment.name fragment }
          else if keyword = "" then errf "expected operation or fragment"
          else errf ("unexpected top-level token \"" ++ keyword ++ "\"")

/-- `ParseQuery` from the start of the source. -/
def parseDocument : Method Document := do
  skipWS
  let here ← peek
  let length ← sourceLength
  if here = byte '\x7b' then
    let sels ← parseSelectionSet (selectionFuel length)
    skipWS
    let after ← current
    match after with
    | none => return ⟨[⟨.query, "", sels⟩], []⟩
    | some _ => errf "trailing input after shorthand operation"
  else parseDefinitions (length + 1) ⟨[], []⟩

/-! ## Tokens are tracked -/

variable {source : Text} {start : Nat}

theorem tracks_errf {Value : Type} (message : String) :
    Tracks source start (errf message : Method Value) (GraphQL.errf message) :=
  tracks_fail _

theorem tracks_peek {Value : Type} {next : UInt8 → Method Value} {next' : UInt8 → Parser Value}
    (tracks : Tracks source start (next (source[start]?.getD 0)) (next' (source[start]?.getD 0))) :
    Tracks source start (peek >>= next) (GraphQL.peek >>= next') := by
  have looked : Tracks source start peek GraphQL.peek := tracks_current (tracks_pure _)
  have seen : Reader.Reads source start GraphQL.peek fun value position =>
      value = source[start]?.getD 0 ∧ position = start := reads_peek_iff.mpr ⟨rfl, rfl⟩
  refine looked.bind seen ?_
  rintro value position ⟨rfl, rfl⟩
  exact tracks

/-- A comment is passed up to the end of its line, which is then a blank. -/
theorem blankLength_comment (text : Text) :
    blankLength true text = (text.takeWhile isCommentByte).length +
      blankLength false (text.drop (text.takeWhile isCommentByte).length) := by
  induction text with
  | nil => rfl
  | cons value rest inductionHypothesis =>
      by_cases line : value = 10
      · subst line
        simp [blankLength, isBlank, isCommentByte]
      · have passes : isCommentByte value = true := decide_eq_true line
        rw [blankLength, if_pos rfl, if_neg line, inductionHypothesis,
          List.takeWhile_cons_of_pos passes, List.length_cons, List.drop_succ_cons]
        omega

/-- A comment and what follows it. -/
theorem skipWS_comment {value : UInt8} {rest : Text} (passes : isCommentByte value = true)
    (here : source.drop start = value :: rest) (comment : value = byte '#') :
    (Reader.advanceWhile isCommentByte >>= fun _ => GraphQL.skipWS : Parser Unit) source start =
      GraphQL.skipWS source start := by
  have count : (source.drop start).takeWhile isCommentByte =
      value :: rest.takeWhile isCommentByte := by
    rw [here, List.takeWhile_cons_of_pos passes]
  have passed : (Reader.advanceWhile isCommentByte : Parser Unit) source start =
      .ok () (start + ((source.drop start).takeWhile isCommentByte).length) := rfl
  have whole : blankLength false (source.drop start) =
      blankLength true rest + 1 := by
    rw [here, blankLength, if_neg Bool.false_ne_true, comment]
    rfl
  have after : source.drop (start + ((source.drop start).takeWhile isCommentByte).length) =
      rest.drop (rest.takeWhile isCommentByte).length := by
    rw [← List.drop_drop, here, List.takeWhile_cons_of_pos passes, List.length_cons,
      List.drop_succ_cons]
  rw [Reader.bind_eq_of_ok passed, GraphQL.skipWS, Reader.advanceBy, Reader.advanceBy, whole,
    after, blankLength_comment rest, count, List.length_cons]
  congr 1
  omega

theorem tracks_skipWSLoop (fuel : Nat) (enough : source.length + 1 ≤ start + fuel)
    (inside : start ≤ source.length) :
    Tracks source start (skipWSLoop fuel) GraphQL.skipWS := by
  induction fuel generalizing start with
  | zero => omega
  | succ fuel inductionHypothesis =>
      unfold skipWSLoop
      apply tracks_head
      apply tracks_look
      have stops (none : blankLength false (source.drop start) = 0) :
          Tracks source start (pure () : Method Unit) GraphQL.skipWS := by
        refine (tracks_pure ()).congr ?_
        simp only [GraphQL.skipWS, Reader.advanceBy, none]
        rfl
      cases here : source[start]? with
      | none =>
          have finished : source.drop start = [] :=
            List.drop_eq_nil_of_le (List.getElem?_eq_none_iff.mp here)
          exact stops (by rw [finished]; rfl)
      | some value =>
          obtain ⟨more, present⟩ := List.getElem?_eq_some_iff.mp here
          have rest : source.drop start = value :: source.drop (start + 1) := by
            rw [List.drop_eq_getElem_cons more, present]
          dsimp only
          split_ifs with blank comment
          · have same : GraphQL.skipWS source start = GraphQL.skipWS source (start + 1) := by
              simp only [GraphQL.skipWS, Reader.advanceBy, rest, blankLength, blank, if_true,
                Bool.false_eq_true, if_false]
              congr 1
              omega
            refine tracks_move ?_ same
            apply tracks_again (Nat.lt_succ_self start)
            exact inductionHypothesis (by omega) more
          · have passes : isCommentByte value = true := by
              rw [comment]
              decide
            have same := skipWS_comment passes rest comment
            refine Tracks.congr ?_ same
            apply tracks_length
            have passed : Reader.Reads source start
                (Reader.advanceWhile isCommentByte : Parser Unit)
                fun _ next => Beyond source start next := by
              have length := (List.takeWhile_sublist (l := source.drop (start + 1))
                isCommentByte).length_le
              rw [List.length_drop] at length
              rw [Reader.advanceWhile, Reader.reads_advanceBy_iff, rest,
                List.takeWhile_cons_of_pos passes, List.length_cons]
              exact ⟨by omega, by omega⟩
            refine (tracks_passWhile _ _ (by omega) inside).bind passed ?_
            intro _ middle beyond
            apply tracks_again beyond.1
            have ordered := beyond.1
            exact inductionHypothesis (by omega) beyond.2
          · exact stops (by rw [rest, blankLength]; simp [blank, comment])

theorem tracks_skipWS (inside : start ≤ source.length) :
    Tracks source start skipWS GraphQL.skipWS := by
  unfold skipWS
  apply tracks_length
  exact tracks_skipWSLoop _ (Nat.le_add_left _ _) inside

theorem tracks_pass (test : UInt8 → Bool) (inside : start ≤ source.length) :
    Tracks source start (pass test) (Reader.advanceWhile test) := by
  unfold pass
  apply tracks_length
  exact tracks_passWhile test _ (Nat.le_add_left _ _) inside

theorem tracks_sliceFrom {first : Nat} (ordered : first ≤ start) (inside : start ≤ source.length) :
    Tracks source start (sliceFrom first) (Reader.slice first) := by
  unfold sliceFrom
  apply tracks_head
  exact tracks_slice_last ordered inside

/-- What is done with a slice does not depend on the position. -/
theorem tracks_sliceFrom_bind {Value : Type} {first : Nat} {next : Text → Method Value}
    {next' : Text → Parser Value} (ordered : first ≤ start) (inside : start ≤ source.length)
    (onward : ∀ text, Tracks source start (next text) (next' text)) :
    Tracks source start (sliceFrom first >>= next) (Reader.slice first >>= next') := by
  have stays : Reader.Reads source start (Reader.slice first : Parser Text)
      fun _ position => position = start :=
    (Reader.reads_slice_iff ordered inside).mpr rfl
  refine (tracks_sliceFrom ordered inside).bind stays ?_
  rintro text position rfl
  exact onward text

theorem tracks_readIdent (inside : start ≤ source.length) :
    Tracks source start readIdent GraphQL.readIdent := by
  unfold readIdent GraphQL.readIdent
  refine (tracks_skipWS inside).bind (reads_skipWS inside) ?_
  intro _ first skipped
  apply tracks_position
  refine (tracks_pass isNameByte skipped.2).bind (reads_advanceWhile isNameByte skipped.2) ?_
  intro _ next taken
  exact tracks_sliceFrom_bind taken.1 taken.2 fun name => tracks_pure _

theorem tracks_expect (value : UInt8) (inside : start ≤ source.length) :
    Tracks source start (expect value) (GraphQL.expect value) := by
  unfold expect GraphQL.expect
  refine (tracks_skipWS inside).bind (reads_skipWS inside) ?_
  intro _ first skipped
  apply tracks_current
  split
  · exact tracks_advance_last 1
  · exact tracks_errf _

/-- A loop that goes on after a single byte. -/
theorem tracks_advance_again {Value : Type} {next : Method Value} {next' : Parser Value}
    (tracks : Tracks source (start + 1) next next') :
    Tracks source start
      (do
        advance 1
        again start
        next)
      (do
        Reader.advance 1
        next') := by
  apply tracks_advance
  exact tracks_again (Nat.lt_succ_self start) tracks

theorem tracks_readStringLoop (fuel : Nat) (enough : source.length + 2 ≤ start + fuel)
    (near : start ≤ source.length + 1) :
    Tracks source start (readStringLoop fuel) (GraphQL.readStringLoop fuel) := by
  induction fuel generalizing start with
  | zero => omega
  | succ fuel inductionHypothesis =>
      unfold readStringLoop GraphQL.readStringLoop
      apply tracks_head
      apply tracks_current
      cases here : source[start]? with
      | none => exact tracks_errf _
      | some value =>
          have more := lt_of_getElem? here
          dsimp only
          split
          · apply tracks_advance
            apply tracks_again (Nat.lt_add_of_pos_right (by decide))
            exact inductionHypothesis (by omega) (by omega)
          · split
            · exact tracks_advance_last 1
            · exact tracks_advance_again (inductionHypothesis (by omega) (by omega))

theorem tracks_readString (more : start < source.length) :
    Tracks source start readString GraphQL.readString := by
  unfold readString GraphQL.readString
  have suffix (first : Nat) : (source.drop first).take (source.length - first) =
      source.drop first := by
    rw [← List.length_drop, List.take_length]
  apply tracks_length
  apply tracks_head
  refine Tracks.remaining (Nat.le_of_lt more) ?_
  apply Tracks.position
  apply tracks_slice (Nat.le_of_lt more) (Nat.le_refl _)
  rw [suffix]
  split
  · next block =>
      have room := (List.isPrefixOf_iff_prefix.mp block).length_le
      simp only [List.length_cons, List.length_nil, List.length_drop] at room
      apply tracks_slice (by omega) (Nat.le_refl _)
      rw [suffix, ← List.drop_drop]
      cases found : indexText [quote, quote, quote] ((source.drop start).drop 3) with
      | none => exact tracks_errf _
      | some index =>
          have closed := indexText_le found
          simp only [List.length_drop, List.length_cons, List.length_nil] at closed
          have ordered : start ≤ start + (3 + index + 3) := Nat.le_add_right _ _
          have inside : start + (3 + index + 3) ≤ source.length := by omega
          apply tracks_slice ordered inside
          apply tracks_advance
          refine (tracks_pure _).congr ?_
          rw [Reader.slice, if_pos ⟨ordered, inside⟩]
          rfl
  · apply tracks_advance
    apply Tracks.sourceLength
    refine (tracks_readStringLoop (source.length + 1) (by omega) (by omega)).bind
      (reads_readStringLoop (source.length + 1) (by omega) (by omega)) ?_
    intro _ next beyond
    exact tracks_sliceFrom (Nat.le_of_lt (Nat.lt_of_succ_lt beyond.1)) beyond.2

theorem tracks_skipBalancedLoop (opening closing : UInt8) (fuel : Nat) (depth : Int)
    (enough : source.length + 1 ≤ start + fuel) (inside : start ≤ source.length) :
    Tracks source start (skipBalancedLoop opening closing fuel depth)
      (GraphQL.skipBalancedLoop opening closing fuel depth) := by
  induction fuel generalizing start depth with
  | zero => omega
  | succ fuel inductionHypothesis =>
      unfold skipBalancedLoop GraphQL.skipBalancedLoop
      apply tracks_head
      apply tracks_current
      cases here : source[start]? with
      | none => exact tracks_errf _
      | some value =>
          have more := lt_of_getElem? here
          have byByte : ∀ depth, Tracks source (start + 1)
              (skipBalancedLoop opening closing fuel depth)
              (GraphQL.skipBalancedLoop opening closing fuel depth) := fun depth =>
            inductionHypothesis depth (by omega) more
          dsimp only
          split_ifs
          · exact tracks_advance_again (byByte _)
          · exact tracks_advance_last 1
          · exact tracks_advance_again (byByte _)
          · refine (tracks_readString more).bind (reads_readString more) ?_
            intro _ middle passed
            apply tracks_again passed.1
            have ordered := passed.1
            exact inductionHypothesis depth (by omega) passed.2
          · exact tracks_advance_again (byByte _)

theorem tracks_skipBalanced (opening closing : UInt8) (inside : start ≤ source.length) :
    Tracks source start (skipBalanced opening closing) (GraphQL.skipBalanced opening closing) := by
  unfold skipBalanced GraphQL.skipBalanced
  apply tracks_peek
  split
  · apply tracks_sourceLength
    exact tracks_skipBalancedLoop opening closing _ _ (Nat.le_add_left _ _) inside
  · exact tracks_errf _

theorem tracks_skipParenthesised (inside : start ≤ source.length) :
    Tracks source start skipParenthesised GraphQL.skipParenthesised := by
  unfold skipParenthesised GraphQL.skipParenthesised
  apply tracks_peek
  split
  · exact tracks_skipBalanced _ _ inside
  · exact tracks_pure _

/-! ## Values and arguments are tracked -/

theorem tracks_readNumber {value : UInt8} (here : source[start]? = some value) :
    Tracks source start readNumber GraphQL.readNumber := by
  have more := lt_of_getElem? here
  unfold readNumber GraphQL.readNumber
  apply tracks_position
  apply tracks_itemAt here
  apply Tracks.item here
  apply tracks_advance
  have signed : start + (if value = byte '-' then 1 else 0) ≤ source.length := by
    split
    · exact more
    · exact Nat.le_of_lt more
  refine (tracks_pass isDigit signed).bind (reads_advanceWhile isDigit signed) ?_
  intro _ middle digits
  have ordered : start ≤ middle := Nat.le_trans (Nat.le_add_right _ _) digits.1
  apply tracks_current
  split
  · next dot =>
      have before := lt_of_getElem? dot
      apply tracks_advance
      refine (tracks_pass isDigit before).bind (reads_advanceWhile isDigit before) ?_
      intro _ next decimals
      have whole : start ≤ next :=
        Nat.le_trans ordered (Nat.le_of_lt (Nat.lt_of_succ_le decimals.1))
      exact tracks_sliceFrom_bind whole decimals.2 fun raw => tracks_pure _
  · exact tracks_sliceFrom_bind ordered digits.2 fun raw => tracks_pure _

theorem tracks_readBalanced (opening closing : UInt8) (inside : start ≤ source.length) :
    Tracks source start (readBalanced opening closing) (GraphQL.readBalanced opening closing) := by
  unfold readBalanced GraphQL.readBalanced
  apply tracks_position
  refine (tracks_skipBalanced opening closing inside).bind
    (reads_skipBalanced opening closing inside) ?_
  intro _ next beyond
  exact tracks_sliceFrom_bind beyond.onto.1 beyond.2 fun raw => tracks_pure _

theorem tracks_parseValue (inside : start ≤ source.length) :
    Tracks source start parseValue GraphQL.parseValue := by
  unfold parseValue GraphQL.parseValue
  refine (tracks_skipWS inside).bind (reads_skipWS inside) ?_
  intro _ first skipped
  apply tracks_current
  cases here : source[first]? with
  | none => exact tracks_errf _
  | some value =>
      have more := lt_of_getElem? here
      dsimp only
      split_ifs
      · apply tracks_advance
        exact (tracks_readIdent more).bind (reads_readIdent more) fun _ _ _ => tracks_pure _
      · exact (tracks_readString more).bind (reads_readString more) fun _ _ _ => tracks_pure _
      · exact tracks_readBalanced _ _ skipped.2
      · exact tracks_readBalanced _ _ skipped.2
      · exact tracks_readNumber here
      · refine (tracks_readIdent skipped.2).bind (reads_readIdent skipped.2) ?_
        intro ident next read
        split
        · exact tracks_errf _
        · exact tracks_pure _

theorem tracks_parseArgsLoop (fuel : Nat) (into : List (String × ArgValue))
    (enough : source.length + 1 ≤ start + fuel) (inside : start ≤ source.length) :
    Tracks source start (parseArgsLoop fuel into) (GraphQL.parseArgsLoop fuel into) := by
  induction fuel generalizing start into with
  | zero => omega
  | succ fuel inductionHypothesis =>
      unfold parseArgsLoop GraphQL.parseArgsLoop
      apply tracks_head
      refine (tracks_skipWS inside).bind (reads_skipWS inside) ?_
      intro _ first skipped
      apply tracks_current
      cases here : source[first]? with
      | none => exact tracks_errf _
      | some value =>
          dsimp only
          split
          · exact tracks_advance (tracks_pure _)
          · refine (tracks_readIdent skipped.2).bind (reads_readIdent skipped.2) ?_
            intro name afterName read
            split
            · exact tracks_errf _
            · next nonempty =>
                have named : Beyond source start afterName :=
                  Beyond.of_le skipped.1 ⟨read.2 nonempty, read.1.2⟩
                refine (tracks_skipWS read.1.2).bind (reads_skipWS read.1.2) ?_
                intro _ beforeColon blanks
                refine (tracks_expect _ blanks.2).bind (reads_expect _ blanks.2) ?_
                intro _ afterColon colon
                refine (tracks_skipWS colon.2).bind (reads_skipWS colon.2) ?_
                intro _ beforeValue moreBlanks
                refine (tracks_parseValue moreBlanks.2).bind (reads_parseValue moreBlanks.2) ?_
                intro argValue afterValue parsed
                have passed : Beyond source start afterValue :=
                  named.trans_onto (((blanks.trans colon.onto).trans moreBlanks).trans parsed)
                apply tracks_again passed.1
                have ordered := passed.1
                exact inductionHypothesis _ (by omega) passed.2

theorem tracks_parseOptionalArgs (inside : start ≤ source.length) :
    Tracks source start parseOptionalArgs GraphQL.parseOptionalArgs := by
  unfold parseOptionalArgs GraphQL.parseOptionalArgs
  apply tracks_peek
  split
  · unfold parseArgs GraphQL.parseArgs
    refine (tracks_expect _ inside).bind (reads_expect _ inside) ?_
    intro _ opened brace
    apply tracks_sourceLength
    exact tracks_parseArgsLoop _ _ (Nat.le_add_left _ _) brace.2
  · exact tracks_pure _

theorem tracks_parseDirectives (fuel : Nat) (names : List String)
    (enough : source.length + 1 ≤ start + fuel) (inside : start ≤ source.length) :
    Tracks source start (parseDirectives fuel names) (GraphQL.parseDirectives fuel names) := by
  induction fuel generalizing start names with
  | zero => omega
  | succ fuel inductionHypothesis =>
      unfold parseDirectives GraphQL.parseDirectives
      apply tracks_head
      apply tracks_peek
      split
      · next at_ =>
          have more : start < source.length := lt_of_peeked (by decide) at_
          apply tracks_advance
          refine (tracks_readIdent more).bind (reads_readIdent more) ?_
          intro name afterName read
          refine (tracks_skipWS read.1.2).bind (reads_skipWS read.1.2) ?_
          intro _ beforeArgs blanks
          refine (tracks_skipParenthesised blanks.2).bind (reads_skipParenthesised blanks.2) ?_
          intro _ afterArgs skipped
          refine (tracks_skipWS skipped.2).bind (reads_skipWS skipped.2) ?_
          intro _ next moreBlanks
          have passed : Beyond source start next := (beyond_succ more).trans_onto
            (((read.1.trans blanks).trans skipped).trans moreBlanks)
          apply tracks_again passed.1
          have ordered := passed.1
          exact inductionHypothesis _ (by omega) passed.2
      · exact tracks_pure _

/-! ## Selections are tracked -/

theorem tracks_parseFieldName (inside : start ≤ source.length) :
    Tracks source start parseFieldName GraphQL.parseFieldName := by
  unfold parseFieldName GraphQL.parseFieldName
  refine (tracks_readIdent inside).bind (reads_readIdent inside) ?_
  intro name afterName read
  split
  · exact tracks_errf _
  · refine (tracks_skipWS read.1.2).bind (reads_skipWS read.1.2) ?_
    intro _ afterBlanks blanks
    apply tracks_peek
    split
    · next colon =>
        have more : afterBlanks < source.length := lt_of_peeked (by decide) colon
        apply tracks_advance
        refine (tracks_skipWS more).bind (reads_skipWS more) ?_
        intro _ beforeAliased moreBlanks
        refine (tracks_readIdent moreBlanks.2).bind (reads_readIdent moreBlanks.2) ?_
        intro aliased afterAliased second
        split
        · exact tracks_errf _
        · exact (tracks_skipWS second.1.2).bind (reads_skipWS second.1.2)
            fun _ _ _ => tracks_pure _
    · exact tracks_pure _

theorem hasPrefix_dots_iff (text : Text) :
    hasPrefix text [byte '.', byte '.', byte '.'] = true ↔
      text[0]? = some (byte '.') ∧ text[1]? = some (byte '.') ∧ text[2]? = some (byte '.') := by
  rw [hasPrefix, List.isPrefixOf_iff_prefix]
  rcases text with _ | ⟨first, _ | ⟨second, _ | ⟨third, rest⟩⟩⟩
  · simp
  · simp [List.cons_prefix_cons]
  · simp [List.cons_prefix_cons]
  · simp [List.cons_prefix_cons, eq_comm]

theorem tracks_atSpread (inside : start ≤ source.length) :
    Tracks source start atSpread GraphQL.atSpread := by
  unfold atSpread GraphQL.atSpread
  apply tracks_length
  apply tracks_head
  refine Tracks.remaining inside ?_
  -- The answer is known from the bytes that were looked at.
  have dots := hasPrefix_dots_iff (source.drop start)
  simp only [List.getElem?_drop, Nat.add_zero] at dots
  have answer {spread : Bool} (known : hasPrefix (source.drop start) [byte '.', byte '.', byte '.'] =
      true ↔ spread = true) : Tracks source start (pure spread : Method Bool)
        (pure (hasPrefix (source.drop start) [byte '.', byte '.', byte '.'])) := by
    rw [Bool.eq_iff_iff.mpr known]
    exact tracks_pure _
  split
  · next room =>
      have item (offset : Nat) (small : offset ≤ 2) :
          ∃ value, source[start + offset]? = some value :=
        ⟨_, List.getElem?_eq_getElem (by omega)⟩
      obtain ⟨first, here⟩ := item 0 (by decide)
      obtain ⟨second, following⟩ := item 1 (by decide)
      obtain ⟨third, last⟩ := item 2 (by decide)
      rw [Nat.add_zero] at here
      rw [here, following, last] at dots
      apply tracks_itemAt here
      split_ifs with dot
      · apply tracks_itemAt following
        split_ifs with dot'
        · apply tracks_itemAt last
          apply answer
          simp [dots, dot, dot']
        · apply answer
          simp [dots, dot']
      · apply answer
        simp [dots, dot]
  · next short =>
      have absent : source[start + 2]? = none := List.getElem?_eq_none (by omega)
      apply answer
      simp [dots, absent]

/-- The three recursions are tracked with the fuel that suffices for them. -/
structure SelectionsTracked (source : Text) (fuel : Nat) : Prop where
  set : ∀ start, start ≤ source.length → 2 * source.length + 2 ≤ 2 * start + fuel →
    Tracks source start (parseSelectionSet fuel) (GraphQL.parseSelectionSet fuel)
  loop : ∀ out start, start ≤ source.length → 2 * source.length + 3 ≤ 2 * start + fuel →
    Tracks source start (parseSelections fuel out) (GraphQL.parseSelections fuel out)
  field : ∀ start, start ≤ source.length → 2 * source.length + 1 ≤ 2 * start + fuel →
    Tracks source start (parseField fuel) (GraphQL.parseField fuel)

theorem tracks_parseSelectionSet_succ {fuel : Nat} (tracked : SelectionsTracked source fuel)
    (inside : start ≤ source.length) (enough : 2 * source.length + 2 ≤ 2 * start + (fuel + 1)) :
    Tracks source start (parseSelectionSet (fuel + 1)) (GraphQL.parseSelectionSet (fuel + 1)) := by
  unfold parseSelectionSet GraphQL.parseSelectionSet
  refine (tracks_expect _ inside).bind (reads_expect _ inside) ?_
  intro _ opened brace
  have ordered := brace.1
  exact tracked.loop [] opened brace.2 (by omega)

theorem tracks_parseField_succ {fuel : Nat} (tracked : SelectionsTracked source fuel)
    (inside : start ≤ source.length) (enough : 2 * source.length + 1 ≤ 2 * start + (fuel + 1)) :
    Tracks source start (parseField (fuel + 1)) (GraphQL.parseField (fuel + 1)) := by
  unfold parseField GraphQL.parseField
  refine (tracks_parseFieldName inside).bind (reads_parseFieldName inside) ?_
  intro names afterName name
  refine (tracks_parseOptionalArgs name.2).bind (reads_parseOptionalArgs name.2) ?_
  intro args afterArgs arguments
  refine (tracks_skipWS arguments.2).bind (reads_skipWS arguments.2) ?_
  intro _ beforeDirectives blanks
  apply tracks_sourceLength
  refine (tracks_parseDirectives _ [] (Nat.le_add_left _ _) blanks.2).bind
    (reads_parseDirectives _ [] (Nat.le_add_left _ _) blanks.2) ?_
  intro directives afterDirectives directed
  have passed : start < afterDirectives :=
    (name.trans_onto ((arguments.trans blanks).trans directed)).1
  apply tracks_peek
  split
  · refine (tracked.set afterDirectives directed.2 (by omega)).bind
      ((selections_read fuel).1 afterDirectives directed.2 (by omega)) ?_
    intro sels next nested
    exact tracks_pure _
  · exact tracks_pure_bind (tracks_pure _)

theorem tracks_parseSelections_succ {fuel : Nat} (tracked : SelectionsTracked source fuel)
    (out : List Selection) (inside : start ≤ source.length)
    (enough : 2 * source.length + 3 ≤ 2 * start + (fuel + 1)) :
    Tracks source start (parseSelections (fuel + 1) out)
      (GraphQL.parseSelections (fuel + 1) out) := by
  unfold parseSelections GraphQL.parseSelections
  apply tracks_head
  refine (tracks_skipWS inside).bind (reads_skipWS inside) ?_
  intro _ first skipped
  have before := skipped.1
  -- After a selection the loop goes on beyond the position where it started.
  have onward : ∀ selection middle, Beyond source start middle →
      Tracks source middle
        (do
          again start
          parseSelections fuel (out ++ [selection]))
        (GraphQL.parseSelections fuel (out ++ [selection])) := by
    intro selection middle passed
    have ordered := passed.1
    apply tracks_again ordered
    exact tracked.loop _ middle passed.2 (by omega)
  apply tracks_current
  cases here : source[first]? with
  | none => exact tracks_errf _
  | some value =>
      dsimp only
      split
      · exact tracks_advance (tracks_pure _)
      · refine (tracks_atSpread skipped.2).bind (reads_atSpread skipped.2) ?_
        rintro spread position ⟨rfl, dots⟩
        split
        · next isSpread =>
            have three := dots isSpread
            apply tracks_advance
            refine (tracks_skipWS three).bind (reads_skipWS three) ?_
            intro _ beforeIdent blanks
            refine (tracks_readIdent blanks.2).bind (reads_readIdent blanks.2) ?_
            intro ident afterIdent read
            have identified := (blanks.trans read.1).1
            split
            · refine (tracks_readIdent read.1.2).bind (reads_readIdent read.1.2) ?_
              intro typeName afterType typed
              refine (tracks_skipWS typed.1.2).bind (reads_skipWS typed.1.2) ?_
              intro _ beforeDirectives moreBlanks
              apply tracks_sourceLength
              refine (tracks_parseDirectives _ [] (Nat.le_add_left _ _) moreBlanks.2).bind
                (reads_parseDirectives _ [] (Nat.le_add_left _ _) moreBlanks.2) ?_
              intro _ afterDirectives directed
              have passed := ((typed.1.trans moreBlanks).trans directed).1
              refine (tracked.set afterDirectives directed.2 (by omega)).bind
                ((selections_read fuel).1 afterDirectives directed.2 (by omega)) ?_
              intro sels middle nested
              exact onward _ middle ⟨by omega, nested.2⟩
            · exact onward _ afterIdent ⟨by omega, read.1.2⟩
        · refine (tracked.field position skipped.2 (by omega)).bind
            ((selections_read fuel).2.2 position skipped.2 (by omega)) ?_
          intro parsed middle read
          exact onward _ middle ⟨by omega, read.2.2⟩

theorem selections_tracked (fuel : Nat) : SelectionsTracked source fuel := by
  induction fuel with
  | zero =>
      refine ⟨?_, ?_, ?_⟩
      · intro start inside enough
        omega
      · intro out start inside enough
        omega
      · intro start inside enough
        omega
  | succ fuel tracked =>
      exact ⟨fun _ => tracks_parseSelectionSet_succ tracked,
        fun out _ => tracks_parseSelections_succ tracked out,
        fun _ => tracks_parseField_succ tracked⟩

theorem tracks_parseSelectionSet (inside : start ≤ source.length) :
    Tracks source start (parseSelectionSet (selectionFuel source.length))
      (GraphQL.parseSelectionSet (selectionFuel source.length)) :=
  (selections_tracked (selectionFuel source.length)).set start inside
    (by unfold selectionFuel; omega)

/-! ## Documents are tracked -/

theorem tracks_parseOperation (kind : OperationKind) (inside : start ≤ source.length) :
    Tracks source start (parseOperation kind) (GraphQL.parseOperation kind) := by
  unfold parseOperation GraphQL.parseOperation
  refine (tracks_readIdent inside).bind (reads_readIdent inside) ?_
  intro name afterName read
  refine (tracks_skipWS read.1.2).bind (reads_skipWS read.1.2) ?_
  intro _ beforeVariables blanks
  refine (tracks_skipParenthesised blanks.2).bind (reads_skipParenthesised blanks.2) ?_
  intro _ afterVariables skipped
  refine (tracks_skipWS skipped.2).bind (reads_skipWS skipped.2) ?_
  intro _ beforeDirectives moreBlanks
  apply tracks_sourceLength
  refine (tracks_parseDirectives _ [] (Nat.le_add_left _ _) moreBlanks.2).bind
    (reads_parseDirectives _ [] (Nat.le_add_left _ _) moreBlanks.2) ?_
  intro _ afterDirectives directed
  exact (tracks_parseSelectionSet directed.2).bind (reads_parseSelectionSet directed.2)
    fun _ _ _ => tracks_pure _

theorem tracks_parseFragment (inside : start ≤ source.length) :
    Tracks source start parseFragment GraphQL.parseFragment := by
  unfold parseFragment GraphQL.parseFragment
  refine (tracks_readIdent inside).bind (reads_readIdent inside) ?_
  intro name afterName read
  split
  · exact tracks_errf _
  · refine (tracks_readIdent read.1.2).bind (reads_readIdent read.1.2) ?_
    intro on afterOn readOn
    split
    · exact tracks_errf _
    · refine (tracks_readIdent readOn.1.2).bind (reads_readIdent readOn.1.2) ?_
      intro onType afterType readType
      split
      · exact tracks_errf _
      · apply tracks_sourceLength
        exact (tracks_parseSelectionSet readType.1.2).bind
          (reads_parseSelectionSet readType.1.2) fun _ _ _ => tracks_pure _

theorem tracks_parseDefinitions (fuel : Nat) (document : Document)
    (enough : source.length + 1 ≤ start + fuel) (inside : start ≤ source.length) :
    Tracks source start (parseDefinitions fuel document)
      (GraphQL.parseDefinitions fuel document) := by
  induction fuel generalizing start document with
  | zero => omega
  | succ fuel inductionHypothesis =>
      unfold parseDefinitions GraphQL.parseDefinitions
      apply tracks_head
      apply tracks_current
      cases here : source[start]? with
      | none =>
          dsimp only
          split
          · exact tracks_fail _
          · exact tracks_pure _
      | some value =>
          dsimp only
          refine (tracks_readIdent inside).bind (reads_readIdent inside) ?_
          intro keyword afterKeyword read
          -- The keyword makes every definition take at least one byte.
          have onward : ∀ larger middle, keyword ≠ "" → Onto source afterKeyword middle →
              Tracks source middle
                (do
                  skipWS
                  again start
                  parseDefinitions fuel larger)
                (do
                  GraphQL.skipWS
                  GraphQL.parseDefinitions fuel larger) := by
            intro larger middle named taken
            have progress := read.2 named
            refine (tracks_skipWS taken.2).bind (reads_skipWS taken.2) ?_
            intro _ after blanks
            have ordered := (taken.trans blanks).1
            apply tracks_again (Nat.lt_of_lt_of_le progress ordered)
            exact inductionHypothesis larger (by omega) blanks.2
          split
          · next isOperation =>
              refine (tracks_parseOperation _ read.1.2).bind (reads_parseOperation _ read.1.2) ?_
              intro operation middle parsed
              refine onward _ middle ?_ ⟨by omega, parsed.2⟩
              rcases isOperation with rfl | rfl
              · decide
              · decide
          · split
            · exact tracks_errf _
            · split
              · next isFragment =>
                  refine (tracks_parseFragment read.1.2).bind (reads_parseFragment read.1.2) ?_
                  intro fragment middle parsed
                  refine onward _ middle ?_ ⟨by omega, parsed.2⟩
                  rintro rfl
                  simp at isFragment
              · split
                · exact tracks_errf _
                · exact tracks_errf _

/-- The record of a run of `ParseQuery` is the record of the parser. -/
theorem tracks_parseDocument (source : Text) :
    Tracks source 0 parseDocument GraphQL.parseDocument := by
  unfold parseDocument GraphQL.parseDocument
  refine (tracks_skipWS (Nat.zero_le _)).bind (reads_skipWS (Nat.zero_le _)) ?_
  intro _ first skipped
  apply tracks_peek
  apply tracks_sourceLength
  split
  · refine (tracks_parseSelectionSet skipped.2).bind (reads_parseSelectionSet skipped.2) ?_
    intro sels closed parsed
    refine (tracks_skipWS parsed.2).bind (reads_skipWS parsed.2) ?_
    intro _ next blanks
    apply tracks_current
    cases here : source[next]? with
    | some value => exact tracks_errf _
    | none => exact tracks_pure _
  · exact tracks_parseDefinitions _ _ (Nat.le_add_left _ _) skipped.2

end GitScale.GraphQL.Recorded
