import GitScale.GraphQL.Parser
import Mathlib.Algebra.Order.BigOperators.Group.List
import Mathlib.Algebra.Order.Ring.Nat

/-!
# The parser stays in bounds

No method of the parser accesses the source outside its bounds or runs out of fuel, every one
ends at or after the position where it started, and a parsed document has no more selections
than the source has bytes.  Only the string loop can move beyond the end, by one byte, and then
it fails.
-/

namespace GitScale.GraphQL

open Foundation Go Reader

variable {source : Text} {start : Nat}

/-- From a position to one at or after it, inside the source. -/
def Onto (source : Text) (start next : Nat) : Prop := start ≤ next ∧ next ≤ source.length

/-- From a position to one after it, inside the source. -/
def Beyond (source : Text) (start next : Nat) : Prop := start < next ∧ next ≤ source.length

theorem Onto.refl (inside : start ≤ source.length) : Onto source start start :=
  ⟨Nat.le_refl start, inside⟩

theorem Onto.trans {middle next : Nat} (first : Onto source start middle)
    (second : Onto source middle next) : Onto source start next :=
  ⟨Nat.le_trans first.1 second.1, second.2⟩

theorem Beyond.onto {next : Nat} (beyond : Beyond source start next) :
    Onto source start next :=
  ⟨Nat.le_of_lt beyond.1, beyond.2⟩

/-- From an earlier position it is beyond as well. -/
theorem Beyond.of_le {middle next : Nat} (earlier : start ≤ middle)
    (beyond : Beyond source middle next) : Beyond source start next :=
  ⟨Nat.lt_of_le_of_lt earlier beyond.1, beyond.2⟩

theorem Beyond.trans_onto {middle next : Nat} (first : Beyond source start middle)
    (second : Onto source middle next) : Beyond source start next :=
  ⟨Nat.lt_of_lt_of_le first.1 second.1, second.2⟩

/-- One byte can be passed before the end. -/
theorem beyond_succ (more : start < source.length) : Beyond source start (start + 1) :=
  ⟨Nat.lt_succ_self start, more⟩

/-! ## Tokens -/

theorem reads_errf {Value : Type} {post : Value → Nat → Prop} (message : String) :
    Reads source start (errf message) post :=
  reads_fail _

theorem reads_peek_iff {post : UInt8 → Nat → Prop} :
    Reads source start peek post ↔ post (source[start]?.getD 0) start := by
  unfold peek
  rw [reads_bind_iff, reads_current_iff, reads_pure_iff]

theorem lt_of_getElem? {value : UInt8} (here : source[start]? = some value) :
    start < source.length :=
  (List.getElem?_eq_some_iff.mp here).1

/-- A byte other than 0 can only be seen before the end. -/
theorem lt_of_peeked {value : UInt8} (nonzero : value ≠ 0)
    (here : source[start]?.getD 0 = value) : start < source.length := by
  cases found : source[start]? with
  | none => exact absurd (by simpa [found] using here.symm) nonzero
  | some other => exact lt_of_getElem? found

theorem blankLength_le (comment : Bool) (text : Text) :
    blankLength comment text ≤ text.length := by
  induction text generalizing comment with
  | nil => simp [blankLength]
  | cons value rest inductionHypothesis =>
      have inComment := inductionHypothesis true
      have outside := inductionHypothesis false
      unfold blankLength
      split_ifs
      all_goals simp only [List.length_cons]
      all_goals omega

theorem reads_skipWS (inside : start ≤ source.length) :
    Reads source start skipWS fun _ next => Onto source start next := by
  have blanks := blankLength_le false (source.drop start)
  rw [List.length_drop] at blanks
  unfold skipWS Onto
  rw [reads_advanceBy_iff]
  omega

theorem reads_advanceWhile (test : UInt8 → Bool) (inside : start ≤ source.length) :
    Reads source start (advanceWhile test : Parser Unit)
      fun _ next => Onto source start next := by
  have taken : ((source.drop start).takeWhile test).length ≤ (source.drop start).length :=
    (List.takeWhile_sublist test).length_le
  rw [List.length_drop] at taken
  unfold advanceWhile Onto
  rw [reads_advanceBy_iff]
  omega

theorem ofBytes_eq_empty_iff (text : Text) : ofBytes text = "" ↔ text = [] := by
  simp [ofBytes]

theorem reads_readIdent (inside : start ≤ source.length) :
    Reads source start readIdent fun name next =>
      Onto source start next ∧ (name ≠ "" → start < next) := by
  unfold readIdent
  refine (reads_skipWS inside).bind ?_
  intro _ first skipped
  rw [reads_bind_iff, reads_position_iff]
  refine (reads_advanceWhile isNameByte skipped.2).bind ?_
  intro _ next taken
  rw [reads_bind_iff, reads_slice_iff taken.1 taken.2, reads_pure_iff]
  refine ⟨skipped.trans taken, ?_⟩
  intro named
  -- A name that was read takes at least one byte.
  have nonempty : next - first ≠ 0 := by
    intro none_taken
    apply named
    rw [ofBytes_eq_empty_iff, none_taken, List.take_zero]
  have before := skipped.1
  omega

theorem reads_expect (value : UInt8) (inside : start ≤ source.length) :
    Reads source start (expect value) fun _ next => Beyond source start next := by
  unfold expect
  refine (reads_skipWS inside).bind ?_
  intro _ first skipped
  rw [reads_bind_iff, reads_current_iff]
  split
  · next here =>
      have more := lt_of_getElem? here
      rw [reads_advance_iff]
      exact (beyond_succ more).of_le skipped.1
  · exact reads_errf _

theorem reads_readStringLoop (fuel : Nat) (enough : source.length + 2 ≤ start + fuel)
    (near : start ≤ source.length + 1) :
    Reads source start (readStringLoop fuel) fun _ next => Beyond source start next := by
  induction fuel generalizing start with
  | zero => omega
  | succ fuel inductionHypothesis =>
      unfold readStringLoop
      rw [reads_bind_iff, reads_current_iff]
      cases here : source[start]? with
      | none => exact reads_errf _
      | some value =>
          have more := lt_of_getElem? here
          dsimp only
          split
          · rw [reads_bind_iff, reads_advance_iff]
            refine (inductionHypothesis (by omega) (by omega)).mono ?_
            intro _ next beyond
            exact beyond.of_le (Nat.le_add_right start 2)
          · split
            · rw [reads_advance_iff]
              exact beyond_succ more
            · rw [reads_bind_iff, reads_advance_iff]
              refine (inductionHypothesis (by omega) (by omega)).mono ?_
              intro _ next beyond
              exact beyond.of_le (Nat.le_add_right start 1)

/-- A block string that is closed lies inside the source. -/
theorem indexText_le {wanted text : Text} {index : Nat}
    (found : indexText wanted text = some index) : index + wanted.length ≤ text.length := by
  induction text generalizing index with
  | nil =>
      unfold indexText at found
      split at found
      · next empty =>
          cases found
          simp [List.isEmpty_iff.mp empty]
      · cases found
  | cons value rest inductionHypothesis =>
      unfold indexText at found
      split at found
      · next here =>
          cases found
          have shorter := (List.isPrefixOf_iff_prefix.mp here).length_le
          omega
      · obtain ⟨later, foundLater, rfl⟩ := Option.map_eq_some_iff.mp found
        have bound := inductionHypothesis foundLater
        simp only [List.length_cons]
        omega

theorem reads_readString (more : start < source.length) :
    Reads source start readString fun _ next => Beyond source start next := by
  unfold readString
  rw [reads_bind_iff, reads_remaining_iff (Nat.le_of_lt more), reads_bind_iff, reads_position_iff]
  split
  · next blockString =>
      cases found : indexText [quote, quote, quote] ((source.drop start).drop 3) with
      | none => exact reads_errf _
      | some index =>
          have closed := indexText_le found
          simp only [List.length_drop, List.length_cons, List.length_nil] at closed
          dsimp only
          have inside : start + (3 + index + 3) ≤ source.length := by omega
          rw [reads_bind_iff, reads_advance_iff, reads_slice_iff (by omega) inside]
          exact ⟨by omega, inside⟩
  · rw [reads_bind_iff, reads_advance_iff, reads_bind_iff, reads_sourceLength_iff]
    refine (reads_readStringLoop (source.length + 1) (by omega) (by omega)).bind ?_
    intro _ next beyond
    have passed := beyond.of_le (Nat.le_add_right start 1)
    rw [reads_slice_iff passed.onto.1 passed.2]
    exact passed

theorem reads_skipBalancedLoop (opening closing : UInt8) (fuel : Nat) (depth : Int)
    (enough : source.length + 1 ≤ start + fuel) (inside : start ≤ source.length) :
    Reads source start (skipBalancedLoop opening closing fuel depth)
      fun _ next => Beyond source start next := by
  induction fuel generalizing start depth with
  | zero => omega
  | succ fuel inductionHypothesis =>
      unfold skipBalancedLoop
      rw [reads_bind_iff, reads_current_iff]
      cases here : source[start]? with
      | none => exact reads_errf _
      | some value =>
          have more := lt_of_getElem? here
          -- Every way of going on is one byte or one string further.
          have onward : ∀ depth middle, Beyond source start middle →
              Reads source middle (skipBalancedLoop opening closing fuel depth)
                fun _ next => Beyond source start next := by
            intro depth middle passed
            have ordered := passed.1
            refine (inductionHypothesis depth (by omega) passed.2).mono ?_
            intro _ next beyond
            exact passed.trans_onto beyond.onto
          have one := beyond_succ more
          dsimp only
          split_ifs
          · rw [reads_bind_iff, reads_advance_iff]
            exact onward _ _ one
          · rw [reads_advance_iff]
            exact one
          · rw [reads_bind_iff, reads_advance_iff]
            exact onward _ _ one
          · exact (reads_readString more).bind fun _ middle passed => onward _ middle passed
          · rw [reads_bind_iff, reads_advance_iff]
            exact onward _ _ one

theorem reads_skipBalanced (opening closing : UInt8) (inside : start ≤ source.length) :
    Reads source start (skipBalanced opening closing)
      fun _ next => Beyond source start next := by
  unfold skipBalanced
  rw [reads_bind_iff, reads_peek_iff]
  split
  · rw [reads_bind_iff, reads_sourceLength_iff]
    exact reads_skipBalancedLoop opening closing _ _ (Nat.le_add_left _ _) inside
  · exact reads_errf _

theorem reads_skipParenthesised (inside : start ≤ source.length) :
    Reads source start skipParenthesised fun _ next => Onto source start next := by
  unfold skipParenthesised
  rw [reads_bind_iff, reads_peek_iff]
  split
  · exact (reads_skipBalanced _ _ inside).mono fun _ _ beyond => beyond.onto
  · exact Onto.refl inside

/-! ## Values and arguments -/

theorem reads_readNumber {value : UInt8} (here : source[start]? = some value) :
    Reads source start readNumber fun _ next => Onto source start next := by
  have more := lt_of_getElem? here
  unfold readNumber
  rw [reads_bind_iff, reads_position_iff, reads_bind_iff, reads_item_iff here, reads_bind_iff,
    reads_advance_iff]
  have signed : start + (if value = byte '-' then 1 else 0) ≤ source.length := by
    split
    · exact more
    · exact Nat.le_of_lt more
  refine (reads_advanceWhile isDigit signed).bind ?_
  intro _ middle digits
  have whole : Onto source start middle :=
    ⟨Nat.le_trans (Nat.le_add_right _ _) digits.1, digits.2⟩
  rw [reads_bind_iff, reads_current_iff]
  split
  · next dot =>
      have before := lt_of_getElem? dot
      rw [reads_bind_iff, reads_advance_iff]
      refine (reads_advanceWhile isDigit before).bind ?_
      intro _ next decimals
      have taken := whole.trans ((beyond_succ before).trans_onto decimals).onto
      rw [reads_bind_iff, reads_slice_iff taken.1 taken.2, reads_pure_iff]
      exact taken
  · rw [reads_bind_iff, reads_slice_iff whole.1 whole.2, reads_pure_iff]
    exact whole

theorem reads_readBalanced (opening closing : UInt8) (inside : start ≤ source.length) :
    Reads source start (readBalanced opening closing)
      fun _ next => Onto source start next := by
  unfold readBalanced
  rw [reads_bind_iff, reads_position_iff]
  refine (reads_skipBalanced opening closing inside).bind ?_
  intro _ next beyond
  rw [reads_bind_iff, reads_slice_iff beyond.onto.1 beyond.2, reads_pure_iff]
  exact beyond.onto

theorem reads_parseValue (inside : start ≤ source.length) :
    Reads source start parseValue fun _ next => Onto source start next := by
  unfold parseValue
  refine (reads_skipWS inside).bind ?_
  intro _ first skipped
  -- What a value takes after the blanks is added to them.
  have later : ∀ {reader : Parser ArgValue},
      Reads source first reader (fun _ next => Onto source first next) →
        Reads source first reader fun _ next => Onto source start next := by
    intro reader reads
    exact reads.mono fun _ _ onto => skipped.trans onto
  rw [reads_bind_iff, reads_current_iff]
  cases here : source[first]? with
  | none => exact reads_errf _
  | some value =>
      have more := lt_of_getElem? here
      dsimp only
      split_ifs
      · rw [reads_bind_iff, reads_advance_iff]
        refine (reads_readIdent more).bind ?_
        intro name next read
        rw [reads_pure_iff]
        exact skipped.trans ((beyond_succ more).trans_onto read.1).onto
      · refine later ((reads_readString more).bind ?_)
        intro raw next beyond
        exact beyond.onto
      · exact later (reads_readBalanced _ _ skipped.2)
      · exact later (reads_readBalanced _ _ skipped.2)
      · exact later (reads_readNumber here)
      · refine later ((reads_readIdent skipped.2).bind ?_)
        intro ident next read
        split
        · exact reads_errf _
        · exact read.1

theorem reads_parseArgsLoop (fuel : Nat) (into : List (String × ArgValue))
    (enough : source.length + 1 ≤ start + fuel) (inside : start ≤ source.length) :
    Reads source start (parseArgsLoop fuel into) fun _ next => Beyond source start next := by
  induction fuel generalizing start into with
  | zero => omega
  | succ fuel inductionHypothesis =>
      unfold parseArgsLoop
      refine (reads_skipWS inside).bind ?_
      intro _ first skipped
      rw [reads_bind_iff, reads_current_iff]
      cases here : source[first]? with
      | none => exact reads_errf _
      | some value =>
          have more := lt_of_getElem? here
          dsimp only
          split
          · rw [reads_bind_iff, reads_advance_iff, reads_pure_iff]
            exact (beyond_succ more).of_le skipped.1
          · refine (reads_readIdent skipped.2).bind ?_
            intro name afterName read
            split
            · exact reads_errf _
            · next nonempty =>
                have named : Beyond source start afterName :=
                  Beyond.of_le skipped.1 ⟨read.2 nonempty, read.1.2⟩
                refine (reads_skipWS read.1.2).bind ?_
                intro _ beforeColon blanks
                refine (reads_expect _ blanks.2).bind ?_
                intro _ afterColon colon
                refine (reads_skipWS colon.2).bind ?_
                intro _ beforeValue moreBlanks
                refine (reads_parseValue moreBlanks.2).bind ?_
                intro argValue afterValue parsed
                have passed : Beyond source start afterValue :=
                  named.trans_onto ((blanks.trans colon.onto).trans (moreBlanks.trans parsed))
                have ordered := passed.1
                refine (inductionHypothesis _ (by omega) parsed.2).mono ?_
                intro _ next beyond
                exact passed.trans_onto beyond.onto

theorem reads_parseOptionalArgs (inside : start ≤ source.length) :
    Reads source start parseOptionalArgs fun _ next => Onto source start next := by
  unfold parseOptionalArgs
  rw [reads_bind_iff, reads_peek_iff]
  split
  · unfold parseArgs
    refine (reads_expect _ inside).bind ?_
    intro _ opened beyond
    rw [reads_bind_iff, reads_sourceLength_iff]
    refine (reads_parseArgsLoop (source.length + 1) [] (by omega) beyond.2).mono ?_
    intro _ next closed
    exact beyond.onto.trans closed.onto
  · exact Onto.refl inside

theorem reads_parseDirectives (fuel : Nat) (names : List String)
    (enough : source.length + 1 ≤ start + fuel) (inside : start ≤ source.length) :
    Reads source start (parseDirectives fuel names) fun _ next => Onto source start next := by
  induction fuel generalizing start names with
  | zero => omega
  | succ fuel inductionHypothesis =>
      unfold parseDirectives
      rw [reads_bind_iff, reads_peek_iff]
      split
      · next atSign =>
          have more : start < source.length := lt_of_peeked (by decide) atSign
          rw [reads_bind_iff, reads_advance_iff]
          refine (reads_readIdent more).bind ?_
          intro name named read
          refine (reads_skipWS read.1.2).bind ?_
          intro _ beforeArgs blanks
          refine (reads_skipParenthesised blanks.2).bind ?_
          intro _ afterArgs skipped
          refine (reads_skipWS skipped.2).bind ?_
          intro _ after moreBlanks
          have passed : Beyond source start after :=
            (beyond_succ more).trans_onto
              ((read.1.trans blanks).trans (skipped.trans moreBlanks))
          have ordered := passed.1
          refine (inductionHypothesis _ (by omega) moreBlanks.2).mono ?_
          intro _ next onto
          exact passed.onto.trans onto
      · exact Onto.refl inside

/-! ## Selections -/

mutual

/-- The number of fields and of nested selection sets in a field, without what its spreads
stand for. -/
def Field.size : Field → Nat
  | .mk _ _ _ _ sels => if sels.isEmpty then 1 else Selection.sizes sels + 2

/-- The number of fields and of nested selection sets in a selection. -/
def Selection.size : Selection → Nat
  | .field field => field.size
  | .fragmentSpread _ => 0
  | .inlineFragment _ sels => Selection.sizes sels + 1

def Selection.sizes : List Selection → Nat
  | [] => 0
  | selection :: rest => selection.size + Selection.sizes rest

end

theorem sizes_append (left right : List Selection) :
    Selection.sizes (left ++ right) = Selection.sizes left + Selection.sizes right := by
  induction left with
  | nil => simp [Selection.sizes]
  | cons selection left inductionHypothesis =>
      simp only [List.cons_append, Selection.sizes, inductionHypothesis, Nat.add_assoc]

theorem reads_parseFieldName (inside : start ≤ source.length) :
    Reads source start parseFieldName fun _ next => Beyond source start next := by
  unfold parseFieldName
  refine (reads_readIdent inside).bind ?_
  intro name afterName read
  split
  · exact reads_errf _
  · next nonempty =>
      refine (reads_skipWS read.1.2).bind ?_
      intro _ afterBlanks blanks
      have named : Beyond source start afterBlanks :=
        Beyond.trans_onto ⟨read.2 nonempty, read.1.2⟩ blanks
      rw [reads_bind_iff, reads_peek_iff]
      split
      · next colon =>
          have more : afterBlanks < source.length := lt_of_peeked (by decide) colon
          rw [reads_bind_iff, reads_advance_iff]
          refine (reads_skipWS more).bind ?_
          intro _ beforeAliased moreBlanks
          refine (reads_readIdent moreBlanks.2).bind ?_
          intro aliased afterAliased second
          split
          · exact reads_errf _
          · refine (reads_skipWS second.1.2).bind ?_
            intro _ next lastBlanks
            exact named.trans_onto ((beyond_succ more).trans_onto
              (moreBlanks.trans (second.1.trans lastBlanks))).onto
      · exact named

theorem reads_atSpread (inside : start ≤ source.length) :
    Reads source start atSpread fun spread next =>
      next = start ∧ (spread = true → start + 3 ≤ source.length) := by
  unfold atSpread
  rw [reads_bind_iff, reads_remaining_iff inside, reads_pure_iff]
  refine ⟨rfl, ?_⟩
  intro dots
  have three := (List.isPrefixOf_iff_prefix.mp dots).length_le
  simp only [List.length_cons, List.length_nil, List.length_drop] at three
  omega

/-- A selection set takes two bytes more than its size, for the braces. -/
def SetReads (source : Text) (fuel : Nat) : Prop :=
  ∀ start, start ≤ source.length → 2 * source.length + 2 ≤ 2 * start + fuel →
    Reads source start (parseSelectionSet fuel) fun sels next =>
      start + Selection.sizes sels + 2 ≤ next ∧ next ≤ source.length

/-- The rest of a selection set takes one byte more than what it adds. -/
def LoopReads (source : Text) (fuel : Nat) : Prop :=
  ∀ out start, start ≤ source.length → 2 * source.length + 3 ≤ 2 * start + fuel →
    Reads source start (parseSelections fuel out) fun sels next =>
      start + Selection.sizes sels + 1 ≤ next + Selection.sizes out ∧ next ≤ source.length

def FieldReads (source : Text) (fuel : Nat) : Prop :=
  ∀ start, start ≤ source.length → 2 * source.length + 1 ≤ 2 * start + fuel →
    Reads source start (parseField fuel) fun field next =>
      start + field.size ≤ next ∧ start < next ∧ next ≤ source.length

theorem setReads_succ {fuel : Nat} (loop : LoopReads source fuel) :
    SetReads source (fuel + 1) := by
  intro start inside enough
  unfold parseSelectionSet
  refine (reads_expect _ inside).bind ?_
  intro _ opened brace
  have ordered := brace.1
  refine (loop [] opened brace.2 (by omega)).mono ?_
  intro sels next closed
  simp only [Selection.sizes] at closed
  exact ⟨by omega, closed.2⟩

theorem fieldReads_succ {fuel : Nat} (set : SetReads source fuel) :
    FieldReads source (fuel + 1) := by
  intro start inside enough
  unfold parseField
  refine (reads_parseFieldName inside).bind ?_
  intro names afterName name
  refine (reads_parseOptionalArgs name.2).bind ?_
  intro args afterArgs arguments
  refine (reads_skipWS arguments.2).bind ?_
  intro _ beforeDirectives blanks
  rw [reads_bind_iff, reads_sourceLength_iff]
  refine (reads_parseDirectives _ [] (Nat.le_add_left _ _) blanks.2).bind ?_
  intro directives afterDirectives directed
  have passed : start < afterDirectives :=
    (name.trans_onto ((arguments.trans blanks).trans directed)).1
  rw [reads_bind_iff, reads_peek_iff]
  split
  · refine (set afterDirectives directed.2 (by omega)).bind ?_
    intro sels next nested
    rw [reads_pure_iff]
    have size : (Field.mk names.2 names.1 args directives sels).size ≤
        Selection.sizes sels + 2 := by
      unfold Field.size
      split
      · omega
      · exact Nat.le_refl _
    exact ⟨by omega, by omega, nested.2⟩
  · rw [reads_bind_iff, reads_pure_iff, reads_pure_iff]
    refine ⟨?_, passed, directed.2⟩
    simp only [Field.size, List.isEmpty_nil, if_true]
    omega

theorem loopReads_succ {fuel : Nat} (set : SetReads source fuel) (loop : LoopReads source fuel)
    (field : FieldReads source fuel) : LoopReads source (fuel + 1) := by
  intro out start inside enough
  unfold parseSelections
  refine (reads_skipWS inside).bind ?_
  intro _ first skipped
  have before := skipped.1
  -- A selection that was read in full is added to the result.
  have onward : ∀ selection middle, middle ≤ source.length →
      start + Selection.size selection ≤ middle → start < middle →
      Reads source middle (parseSelections fuel (out ++ [selection])) fun sels next =>
        start + Selection.sizes sels + 1 ≤ next + Selection.sizes out ∧
          next ≤ source.length := by
    intro selection middle within taken passed
    refine (loop _ middle within (by omega)).mono ?_
    intro sels next read
    rw [sizes_append] at read
    simp only [Selection.sizes] at read
    exact ⟨by omega, read.2⟩
  rw [reads_bind_iff, reads_current_iff]
  cases here : source[first]? with
  | none => exact reads_errf _
  | some value =>
      have more := lt_of_getElem? here
      dsimp only
      split
      · rw [reads_bind_iff, reads_advance_iff, reads_pure_iff]
        exact ⟨by omega, more⟩
      · refine (reads_atSpread skipped.2).bind ?_
        rintro spread position ⟨rfl, dots⟩
        split
        · next isSpread =>
            have three := dots isSpread
            rw [reads_bind_iff, reads_advance_iff]
            refine (reads_skipWS three).bind ?_
            intro _ beforeIdent blanks
            have afterDots := blanks.1
            refine (reads_readIdent blanks.2).bind ?_
            intro ident afterIdent read
            have identified := read.1.1
            split
            · refine (reads_readIdent read.1.2).bind ?_
              intro typeName afterType typed
              refine (reads_skipWS typed.1.2).bind ?_
              intro _ beforeDirectives moreBlanks
              rw [reads_bind_iff, reads_sourceLength_iff]
              refine (reads_parseDirectives _ [] (Nat.le_add_left _ _) moreBlanks.2).bind ?_
              intro _ afterDirectives directed
              have passed : position + 3 ≤ afterDirectives :=
                ((blanks.trans read.1).trans ((typed.1.trans moreBlanks).trans directed)).1
              refine (set afterDirectives directed.2 (by omega)).bind ?_
              intro sels middle nested
              apply onward
              · exact nested.2
              · simp only [Selection.size]
                omega
              · omega
            · apply onward
              · exact read.1.2
              · simp only [Selection.size]
                omega
              · omega
        · refine (field position skipped.2 (by omega)).bind ?_
          intro parsed middle read
          apply onward
          · exact read.2.2
          · simp only [Selection.size]
            omega
          · omega

/-- All three recursions stay in bounds, by induction on the fuel. -/
theorem selections_read (fuel : Nat) :
    SetReads source fuel ∧ LoopReads source fuel ∧ FieldReads source fuel := by
  induction fuel with
  | zero =>
      refine ⟨?_, ?_, ?_⟩
      · intro start inside enough
        omega
      · intro out start inside enough
        omega
      · intro start inside enough
        omega
  | succ fuel inductionHypothesis =>
      rcases inductionHypothesis with ⟨set, loop, field⟩
      exact ⟨setReads_succ loop, loopReads_succ set loop field, fieldReads_succ set⟩

theorem reads_parseSelectionSet (inside : start ≤ source.length) :
    Reads source start (parseSelectionSet (selectionFuel source.length)) fun sels next =>
      start + Selection.sizes sels + 2 ≤ next ∧ next ≤ source.length :=
  (selections_read (selectionFuel source.length)).1 start inside
    (by unfold selectionFuel; omega)

/-! ## Documents -/

/-- The size of the selection set of an operation or a fragment. -/
def setSize (sels : List Selection) : Nat := Selection.sizes sels + 1

/-- The size of all selection sets of a document. -/
def Document.size (document : Document) : Nat :=
  (document.operations.map fun operation => setSize operation.sels).sum +
    (document.fragments.map fun entry => setSize entry.2.sels).sum

theorem sum_setEntry_le {Value : Type} (size : Value → Nat) (entries : List (String × Value))
    (key : String) (value : Value) :
    ((setEntry entries key value).map fun entry => size entry.2).sum ≤
      (entries.map fun entry => size entry.2).sum + size value := by
  unfold setEntry
  rw [List.map_append, List.sum_append, List.map_singleton, List.sum_singleton]
  apply Nat.add_le_add_right
  exact (List.filter_sublist.map _).sum_le_sum (fun _ _ => Nat.zero_le _)

theorem reads_parseOperation (kind : OperationKind) (inside : start ≤ source.length) :
    Reads source start (parseOperation kind) fun operation next =>
      start + setSize operation.sels ≤ next ∧ next ≤ source.length := by
  unfold parseOperation
  refine (reads_readIdent inside).bind ?_
  intro name afterName read
  refine (reads_skipWS read.1.2).bind ?_
  intro _ beforeVariables blanks
  refine (reads_skipParenthesised blanks.2).bind ?_
  intro _ afterVariables skipped
  refine (reads_skipWS skipped.2).bind ?_
  intro _ beforeDirectives moreBlanks
  rw [reads_bind_iff, reads_sourceLength_iff]
  refine (reads_parseDirectives _ [] (Nat.le_add_left _ _) moreBlanks.2).bind ?_
  intro _ afterDirectives directed
  refine (reads_parseSelectionSet directed.2).bind ?_
  intro sels next nested
  have before := ((read.1.trans blanks).trans ((skipped.trans moreBlanks).trans directed)).1
  rw [reads_pure_iff]
  refine ⟨?_, nested.2⟩
  simp only [setSize]
  omega

theorem reads_parseFragment (inside : start ≤ source.length) :
    Reads source start parseFragment fun fragment next =>
      start + setSize fragment.sels ≤ next ∧ next ≤ source.length := by
  unfold parseFragment
  refine (reads_readIdent inside).bind ?_
  intro name afterName read
  split
  · exact reads_errf _
  · refine (reads_readIdent read.1.2).bind ?_
    intro on afterOn readOn
    split
    · exact reads_errf _
    · refine (reads_readIdent readOn.1.2).bind ?_
      intro onType afterType readType
      split
      · exact reads_errf _
      · rw [reads_bind_iff, reads_sourceLength_iff]
        refine (reads_parseSelectionSet readType.1.2).bind ?_
        intro sels next nested
        have before := (read.1.trans (readOn.1.trans readType.1)).1
        rw [reads_pure_iff]
        refine ⟨?_, nested.2⟩
        simp only [setSize]
        omega

theorem reads_parseDefinitions (fuel : Nat) (document : Document)
    (enough : source.length + 1 ≤ start + fuel) (inside : start ≤ source.length) :
    Reads source start (parseDefinitions fuel document) fun parsed next =>
      start + parsed.size ≤ next + document.size ∧ next ≤ source.length := by
  induction fuel generalizing start document with
  | zero => omega
  | succ fuel inductionHypothesis =>
      unfold parseDefinitions
      rw [reads_bind_iff, reads_current_iff]
      cases here : source[start]? with
      | none =>
          dsimp only
          split
          · exact reads_fail _
          · exact ⟨Nat.le_refl _, inside⟩
      | some value =>
          dsimp only
          refine (reads_readIdent inside).bind ?_
          intro keyword afterKeyword read
          -- The keyword makes every definition take at least one byte.
          have onward : ∀ size larger middle, keyword ≠ "" →
              afterKeyword + size ≤ middle → middle ≤ source.length →
              Document.size larger ≤ document.size + size →
              Reads source middle
                (do
                  skipWS
                  parseDefinitions fuel larger)
                fun parsed next =>
                  start + parsed.size ≤ next + document.size ∧ next ≤ source.length := by
            intro size larger middle named taken within grown
            have progress := read.2 named
            refine (reads_skipWS within).bind ?_
            intro _ after blanks
            have ordered := blanks.1
            refine (inductionHypothesis larger (by omega) blanks.2).mono ?_
            intro parsed next rest
            exact ⟨by omega, rest.2⟩
          split
          · next isOperation =>
              refine (reads_parseOperation _ read.1.2).bind ?_
              intro operation middle parsed
              apply onward _ _ _ _ parsed.1 parsed.2
              · simp only [Document.size, List.map_append, List.sum_append, List.map_singleton,
                  List.sum_singleton]
                omega
              · rcases isOperation with rfl | rfl
                · decide
                · decide
          · split
            · exact reads_errf _
            · split
              · next isFragment =>
                  refine (reads_parseFragment read.1.2).bind ?_
                  intro fragment middle parsed
                  apply onward _ _ _ _ parsed.1 parsed.2
                  · have grown := sum_setEntry_le (fun fragment => setSize fragment.sels)
                      document.fragments fragment.name fragment
                    simp only [Document.size]
                    omega
                  · rintro rfl
                    simp at isFragment
              · split
                · exact reads_errf _
                · exact reads_errf _

theorem reads_parseDocument (source : Text) :
    Reads source 0 parseDocument fun document next =>
      document.size ≤ source.length ∧ next ≤ source.length := by
  unfold parseDocument
  refine (reads_skipWS (Nat.zero_le _)).bind ?_
  intro _ first skipped
  rw [reads_bind_iff, reads_peek_iff, reads_bind_iff, reads_sourceLength_iff]
  split
  · refine (reads_parseSelectionSet skipped.2).bind ?_
    intro sels closed parsed
    refine (reads_skipWS parsed.2).bind ?_
    intro _ next blanks
    have ordered := blanks.1
    rw [reads_bind_iff, reads_current_iff]
    cases here : source[next]? with
    | some value => exact reads_errf _
    | none =>
        have size : Document.size ⟨[⟨.query, "", sels⟩], []⟩ = Selection.sizes sels + 1 := by
          simp [Document.size, setSize]
        rw [reads_pure_iff, size]
        have := blanks.2
        exact ⟨by omega, blanks.2⟩
  · refine (reads_parseDefinitions _ _ (Nat.le_add_left _ _) skipped.2).mono ?_
    intro document next parsed
    have empty : Document.size ⟨[], []⟩ = 0 := rfl
    exact ⟨by omega, parsed.2⟩

/-- `ParseQuery` ends with a document or an error, and the document is no larger than the
source. -/
theorem parseQuery_cases (source : Text) :
    (∃ document next, parseQuery source = .ok document next ∧
      document.size ≤ source.length) ∨ ∃ message, parseQuery source = .failed message := by
  rcases (reads_parseDocument source).ok_or_failed with
    ⟨document, next, parsed, size, -⟩ | failed
  · exact Or.inl ⟨document, next, parsed, size⟩
  · exact Or.inr failed

end GitScale.GraphQL
