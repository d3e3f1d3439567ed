import GitScale.GraphQL.ParserTrace
import GitScale.GraphQL.Printer
import Mathlib.Data.List.TakeWhile

/-!
# The values of a document

What `parseValue` makes of an argument, for every argument of a parsed document: its text is a
part of the source unless it is a variable, it does not end with a backslash, and its number is
the one that the text stands for.
-/

namespace GitScale.GraphQL

open Foundation Go Reader

/-! ## Ends of tokens -/

variable {source : Text} {start : Nat}

/-- What was passed between two positions, if anything, does not end with a backslash. -/
def Closed (source : Text) (start next : Nat) : Prop :=
  start ≤ next ∧ (start < next → source[next - 1]? ≠ some backslash)

theorem Closed.refl : Closed source start start :=
  ⟨Nat.le_refl start, fun passed => absurd passed (Nat.lt_irrefl start)⟩

theorem Closed.trans {middle next : Nat} (first : Closed source start middle)
    (second : Closed source middle next) : Closed source start next := by
  refine ⟨Nat.le_trans first.1 second.1, fun passed => ?_⟩
  by_cases further : middle < next
  · exact second.2 further
  · have same : next = middle := Nat.le_antisymm (Nat.not_lt.mp further) second.1
    rw [same] at passed ⊢
    exact first.2 passed

theorem closed_of_last {next : Nat} {value : UInt8} (passed : start < next)
    (last : source[next - 1]? = some value) (other : value ≠ backslash) :
    Closed source start next := by
  refine ⟨Nat.le_of_lt passed, fun _ same => other ?_⟩
  rw [last] at same
  exact Option.some.inj same

theorem getLast?_slice {first next : Nat} (inside : next ≤ source.length)
    (closed : Closed source first next) :
    ((source.drop first).take (next - first)).getLast? ≠ some backslash := by
  by_cases passed : first < next
  · have length : ((source.drop first).take (next - first)).length = next - first := by
      rw [List.length_take, List.length_drop]
      omega
    have index : first + (next - first - 1) = next - 1 := by omega
    rw [List.getLast?_eq_getElem?, length, List.getElem?_take, if_pos (by omega),
      List.getElem?_drop, index]
    exact closed.2 passed
  · have empty : next - first = 0 := by omega
    rw [empty, List.take_zero]
    simp

theorem slice_infix (first count : Nat) : (source.drop first).take count <:+: source :=
  (List.take_prefix count _).isInfix.trans (List.drop_suffix first source).isInfix

/-! ## Tokens -/

theorem returns_advanceWhile {test : UInt8 → Bool} (plain : test backslash = false) :
    Returns source start (advanceWhile test : Parser Unit) fun _ next =>
      Closed source start next := by
  have closed : Closed source start
      (start + ((source.drop start).takeWhile test).length) := by
    refine ⟨Nat.le_add_right _ _, fun passed same => ?_⟩
    obtain ⟨rest, split⟩ := List.takeWhile_prefix (l := source.drop start) test
    generalize run : (source.drop start).takeWhile test = taken at passed same split
    have index : start + taken.length - 1 = start + (taken.length - 1) := by omega
    have last : taken[taken.length - 1]? = some backslash := by
      rw [index, ← List.getElem?_drop, ← split, List.getElem?_append_left (by omega)] at same
      exact same
    have member : backslash ∈ (source.drop start).takeWhile test :=
      run ▸ List.mem_of_getElem? last
    rw [List.mem_takeWhile_imp member] at plain
    cases plain
  exact returns_of_ok rfl closed

theorem returns_readIdent :
    Returns source start readIdent fun name _ =>
      ∃ text, text <:+: source ∧ text.getLast? ≠ some backslash ∧ name = ofBytes text := by
  unfold readIdent
  refine returns_any.bind ?_
  intro _ first _
  apply returns_position
  refine (returns_advanceWhile (by decide)).bind ?_
  intro _ next closed
  refine returns_slice.bind ?_
  rintro text position ⟨rfl, inside, rfl⟩
  exact returns_pure ⟨_, slice_infix _ _, getLast?_slice inside closed, rfl⟩

theorem returns_readStringLoop (fuel : Nat) :
    Returns source start (readStringLoop fuel) fun _ next =>
      start < next ∧ source[next - 1]? = some quote := by
  induction fuel generalizing start with
  | zero => exact returns_stuck
  | succ fuel inductionHypothesis =>
      unfold readStringLoop
      apply returns_current
      -- The rest of the loop ends beyond the position where it goes on.
      have onward (count : Nat) : Returns source (start + count) (readStringLoop fuel)
          fun _ next => start < next ∧ source[next - 1]? = some quote := by
        intro value next runs
        obtain ⟨passed, last⟩ := inductionHypothesis value next runs
        exact ⟨by omega, last⟩
      cases here : source[start]? with
      | none => exact returns_fail _
      | some value =>
          dsimp only
          split_ifs with escape closing
          · exact returns_advance (onward 2)
          · refine returns_of_ok rfl ⟨Nat.lt_succ_self start, ?_⟩
            rw [Nat.add_sub_cancel, here, closing]
          · exact returns_advance (onward 1)

/-- A text is where it was found. -/
theorem prefix_of_indexText {wanted text : Text} {index : Nat}
    (found : indexText wanted text = some index) : wanted <+: text.drop index := by
  induction text generalizing index with
  | nil =>
      unfold indexText at found
      split at found
      · next empty =>
          rw [List.isEmpty_iff.mp empty]
          exact List.nil_prefix
      · cases found
  | cons value rest inductionHypothesis =>
      unfold indexText at found
      split at found
      · next here =>
          cases found
          exact List.isPrefixOf_iff_prefix.mp here
      · obtain ⟨later, foundLater, rfl⟩ := Option.map_eq_some_iff.mp found
        exact inductionHypothesis foundLater

/-- What a slice up to the position returns, in terms of its bounds. -/
def Taken (source : Text) (start : Nat) (text : Text) (next : Nat) : Prop :=
  next ≤ source.length ∧ text = (source.drop start).take (next - start)

theorem returns_readString :
    Returns source start readString fun text next =>
      start < next ∧ source[next - 1]? = some quote ∧ Taken source start text next := by
  unfold readString
  refine returns_remaining.bind ?_
  rintro _ position ⟨same, rfl⟩
  rw [same]
  apply returns_position
  split
  · cases found : indexText [quote, quote, quote] ((source.drop start).drop 3) with
    | none => exact returns_fail _
    | some index =>
        apply returns_advance
        intro text next runs
        obtain ⟨rfl, inside, rfl⟩ := returns_slice text next runs
        refine ⟨by omega, ?_, inside, rfl⟩
        obtain ⟨rest, split⟩ := prefix_of_indexText found
        have last : (((source.drop start).drop 3).drop index)[2]? = some quote := by
          rw [← split]
          rfl
        have position : start + (3 + index + 3) - 1 = start + (3 + (index + 2)) := by omega
        rw [position]
        simpa only [List.getElem?_drop] using last
  · apply returns_advance
    apply returns_sourceLength
    refine (returns_readStringLoop _).bind ?_
    rintro _ next ⟨passed, last⟩
    intro text final runs
    obtain ⟨rfl, inside, rfl⟩ := returns_slice text final runs
    exact ⟨by omega, last, inside, rfl⟩

theorem returns_skipBalancedLoop (opening closing : UInt8) (fuel : Nat) (depth : Int) :
    Returns source start (skipBalancedLoop opening closing fuel depth) fun _ next =>
      start < next ∧ source[next - 1]? = some closing := by
  induction fuel generalizing start depth with
  | zero => exact returns_stuck
  | succ fuel inductionHypothesis =>
      unfold skipBalancedLoop
      apply returns_current
      have onward (depth : Int) (middle : Nat) (passed : start < middle) :
          Returns source middle (skipBalancedLoop opening closing fuel depth)
            fun _ next => start < next ∧ source[next - 1]? = some closing := by
        intro value next runs
        obtain ⟨further, last⟩ := inductionHypothesis depth value next runs
        exact ⟨Nat.lt_trans passed further, last⟩
      cases here : source[start]? with
      | none => exact returns_fail _
      | some value =>
          dsimp only
          split_ifs with opens closes last
          · exact returns_advance (onward _ _ (Nat.lt_succ_self start))
          · refine returns_of_ok rfl ⟨Nat.lt_succ_self start, ?_⟩
            rw [Nat.add_sub_cancel, here, closes]
          · exact returns_advance (onward _ _ (Nat.lt_succ_self start))
          · exact returns_readString.bind fun _ middle read => onward _ middle read.1
          · exact returns_advance (onward _ _ (Nat.lt_succ_self start))

theorem returns_skipBalanced {opening closing : UInt8} :
    Returns source start (skipBalanced opening closing) fun _ next =>
      start < next ∧ source[next - 1]? = some closing := by
  have entered : Returns source start
      (if source[start]?.getD 0 = opening then do
        let length ← Reader.sourceLength
        skipBalancedLoop opening closing (length + 1) 0
      else errf ("expected " ++ quoteByte opening))
      fun _ next => start < next ∧ source[next - 1]? = some closing := by
    split
    · exact returns_sourceLength (returns_skipBalancedLoop opening closing _ _)
    · exact returns_fail _
  exact entered

/-! ## Values -/

/-- A reference to a variable. -/
def ArgValue.IsVariable (value : ArgValue) : Prop := ∃ name, value.raw = "$" ++ name

/-- What is known of a value that was parsed. -/
structure ArgValue.Parsed (source : Text) (value : ArgValue) : Prop where
  text : value.IsVariable ∨ ∃ text, text <:+: source ∧ value.raw = ofBytes text
  ending : (toBytes value.raw).getLast? ≠ some backslash
  number : value.intValue = none ∨ value.intValue = parseInt value.raw.toList

theorem parsed_of_slice {next : Nat} {text : Text} {number : Option Int}
    (taken : Taken source start text next) (closed : Closed source start next)
    (same : number = none ∨ number = parseInt (ofBytes text).toList) :
    ArgValue.Parsed source ⟨number, ofBytes text⟩ := by
  obtain ⟨inside, rfl⟩ := taken
  refine ⟨.inr ⟨_, slice_infix _ _, rfl⟩, ?_, same⟩
  rw [toBytes_ofBytes]
  exact getLast?_slice inside closed

theorem toBytes_variable (text : Text) : toBytes ("$" ++ ofBytes text) = byte '$' :: text := by
  have whole : "$" ++ ofBytes text = ofBytes (byte '$' :: text) := by
    apply String.toList_injective
    simp [ofBytes]
    decide
  rw [whole, toBytes_ofBytes]

/-- One byte was passed. -/
theorem closed_succ {value : UInt8} (here : source[start]? = some value)
    (plain : value ≠ backslash) : Closed source start (start + 1) :=
  closed_of_last (Nat.lt_succ_self start) here plain

theorem returns_readNumber {value : UInt8} (here : source[start]? = some value)
    (plain : value ≠ backslash) :
    Returns source start readNumber fun number _ => number.Parsed source := by
  unfold readNumber
  apply returns_position
  have first : Returns source start (Reader.item : Parser UInt8) fun item next =>
      item = value ∧ next = start := by
    refine returns_of_ok ?_ ⟨rfl, rfl⟩
    simp only [Reader.item, here]
  refine first.bind ?_
  rintro item position ⟨sameItem, same⟩
  rw [sameItem, same]
  apply returns_advance
  have sign : ∀ count, count ≤ 1 → Closed source start (start + count) := by
    intro count small
    rcases Nat.le_one_iff_eq_zero_or_eq_one.mp small with rfl | rfl
    · exact Closed.refl
    · exact closed_succ here plain
  have signed := sign _ (show (if value = byte '-' then 1 else 0) ≤ 1 by split <;> decide)
  refine (returns_advanceWhile (by decide)).bind ?_
  intro _ middle digits
  have whole := signed.trans digits
  apply returns_current
  split
  · next dot =>
      apply returns_advance
      refine (returns_advanceWhile (by decide)).bind ?_
      intro _ next decimals
      have fraction := (whole.trans (closed_succ dot (by decide))).trans decimals
      refine returns_slice.bind ?_
      rintro raw final ⟨rfl, taken⟩
      exact returns_pure (parsed_of_slice taken fraction (.inl rfl))
  · refine returns_slice.bind ?_
    rintro raw final ⟨rfl, taken⟩
    exact returns_pure (parsed_of_slice taken whole (.inr rfl))

theorem returns_readBalanced {opening closing : UInt8} (plain : closing ≠ backslash) :
    Returns source start (readBalanced opening closing) fun value _ => value.Parsed source := by
  unfold readBalanced
  apply returns_position
  refine returns_skipBalanced.bind ?_
  rintro _ next ⟨passed, last⟩
  refine returns_slice.bind ?_
  rintro raw final ⟨rfl, taken⟩
  exact returns_pure (parsed_of_slice taken (closed_of_last passed last plain) (.inl rfl))

theorem returns_parseValue :
    Returns source start parseValue fun value _ => value.Parsed source := by
  unfold parseValue
  refine returns_any.bind ?_
  intro _ first _
  apply returns_current
  cases here : source[first]? with
  | none => exact returns_fail _
  | some value =>
      dsimp only
      split_ifs with variableName string list object number
      · apply returns_advance
        refine returns_readIdent.bind ?_
        rintro _ next ⟨text, -, ending, rfl⟩
        refine returns_pure ⟨.inl ⟨_, rfl⟩, ?_, .inl rfl⟩
        rw [toBytes_variable, List.getLast?_cons]
        cases last : text.getLast? with
        | none => decide
        | some value =>
            rw [last] at ending
            exact ending
      · refine returns_readString.bind ?_
        rintro raw next ⟨passed, last, taken⟩
        exact returns_pure (parsed_of_slice taken (closed_of_last passed last (by decide)) (.inl rfl))
      · exact returns_readBalanced (by decide)
      · exact returns_readBalanced (by decide)
      · refine returns_readNumber here ?_
        rintro rfl
        exact absurd number (by decide)
      · refine returns_readIdent.bind ?_
        rintro _ next ⟨text, part, ending, rfl⟩
        split
        · exact returns_fail _
        · refine returns_pure ⟨.inr ⟨text, part, rfl⟩, ?_, .inl rfl⟩
          rw [toBytes_ofBytes]
          exact ending

/-! ## Documents -/

mutual

/-- A field and the fields inside it. -/
def Field.fields : Field → List Field
  | .mk name aliasName args directives sels =>
      .mk name aliasName args directives sels :: Selection.allFields sels

def Selection.fields : Selection → List Field
  | .field field => field.fields
  | .fragmentSpread _ => []
  | .inlineFragment _ sels => Selection.allFields sels

def Selection.allFields : List Selection → List Field
  | [] => []
  | selection :: rest => selection.fields ++ Selection.allFields rest

end

/-- Every field of a document. -/
def Document.fields (document : Document) : List Field :=
  (document.operations.flatMap fun operation => Selection.allFields operation.sels) ++
    document.fragments.flatMap fun entry => Selection.allFields entry.2.sels

/-- Every argument of a document. -/
def Document.values (document : Document) : List ArgValue :=
  document.fields.flatMap fun field => field.args.map Prod.snd

theorem allFields_append (left right : List Selection) :
    Selection.allFields (left ++ right) =
      Selection.allFields left ++ Selection.allFields right := by
  induction left with
  | nil => rfl
  | cons selection left inductionHypothesis =>
      simp only [List.cons_append, Selection.allFields, inductionHypothesis, List.append_assoc]

section Documents

variable {holds : ArgValue → Prop}

/-- All arguments of a field satisfy a property. -/
def Field.ArgsHold (holds : ArgValue → Prop) (field : Field) : Prop :=
  ∀ entry ∈ field.args, holds entry.2

theorem forall_setEntry {Value : Type} (property : Value → Prop) {entries : List (String × Value)}
    {key : String} {value : Value} (old : ∀ entry ∈ entries, property entry.2)
    (new : property value) : ∀ entry ∈ setEntry entries key value, property entry.2 := by
  intro entry member
  unfold setEntry at member
  cases List.mem_append.mp member with
  | inl kept => exact old entry (List.mem_of_mem_filter kept)
  | inr added =>
      rw [List.mem_singleton.mp added]
      exact new

/-- Whatever is returned by `parseValue` holds of the values of arguments. -/
theorem returns_parseArgsLoop
    (parsed : ∀ start, Returns source start parseValue fun value _ => holds value) (fuel : Nat)
    {into : List (String × ArgValue)} (before : ∀ entry ∈ into, holds entry.2) :
    Returns source start (parseArgsLoop fuel into) fun args _ =>
      ∀ entry ∈ args, holds entry.2 := by
  induction fuel generalizing start into with
  | zero => exact returns_stuck
  | succ fuel inductionHypothesis =>
      unfold parseArgsLoop
      refine returns_any.bind ?_
      intro _ first _
      apply returns_current
      cases here : source[first]? with
      | none => exact returns_fail _
      | some value =>
          dsimp only
          split
          · exact returns_advance (returns_pure before)
          · refine returns_any.bind ?_
            intro name _ _
            split
            · exact returns_fail _
            · refine returns_any.bind fun _ _ _ => returns_any.bind fun _ _ _ =>
                returns_any.bind fun _ beforeValue _ => ?_
              refine (parsed beforeValue).bind ?_
              intro value _ new
              exact inductionHypothesis (forall_setEntry holds before new)

theorem returns_parseOptionalArgs
    (parsed : ∀ start, Returns source start parseValue fun value _ => holds value) :
    Returns source start parseOptionalArgs fun args _ => ∀ entry ∈ args, holds entry.2 := by
  unfold parseOptionalArgs parseArgs
  refine returns_any.bind ?_
  intro here _ _
  split
  · refine returns_any.bind fun _ _ _ => returns_any.bind fun length _ _ => ?_
    exact returns_parseArgsLoop parsed _ (by simp)
  · exact returns_pure (by simp)

/-- The three recursions return selections with such values only. -/
structure SelectionsHold (source : Text) (holds : ArgValue → Prop) (fuel : Nat) : Prop where
  set : ∀ start, Returns source start (parseSelectionSet fuel) fun sels _ =>
    ∀ field ∈ Selection.allFields sels, field.ArgsHold holds
  loop : ∀ start out, (∀ field ∈ Selection.allFields out, field.ArgsHold holds) →
    Returns source start (parseSelections fuel out) fun sels _ =>
      ∀ field ∈ Selection.allFields sels, field.ArgsHold holds
  field : ∀ start, Returns source start (parseField fuel) fun field _ =>
    ∀ inner ∈ field.fields, inner.ArgsHold holds

theorem returns_parseSelections_succ {fuel : Nat} (recursions : SelectionsHold source holds fuel)
    {out : List Selection} (before : ∀ field ∈ Selection.allFields out, field.ArgsHold holds) :
    Returns source start (parseSelections (fuel + 1) out) fun sels _ =>
      ∀ field ∈ Selection.allFields sels, field.ArgsHold holds := by
  unfold parseSelections
  -- A selection is added with its values.
  have onward (selection : Selection) (position : Nat)
      (new : ∀ field ∈ selection.fields, field.ArgsHold holds) :
      Returns source position (parseSelections fuel (out ++ [selection])) fun sels _ =>
        ∀ field ∈ Selection.allFields sels, field.ArgsHold holds := by
    apply recursions.loop
    intro field member
    rw [allFields_append] at member
    cases List.mem_append.mp member with
    | inl old => exact before field old
    | inr added =>
        simp only [Selection.allFields, List.append_nil] at added
        exact new field added
  refine returns_any.bind fun _ first _ => ?_
  apply returns_current
  cases here : source[first]? with
  | none => exact returns_fail _
  | some value =>
      dsimp only
      split
      · exact returns_advance (returns_pure before)
      · refine returns_any.bind fun spread _ _ => ?_
        split
        · apply returns_advance
          refine returns_any.bind fun _ _ _ => returns_any.bind fun ident _ _ => ?_
          split
          · refine returns_any.bind fun typeName _ _ => returns_any.bind fun _ _ _ =>
              returns_any.bind fun length _ _ => returns_any.bind fun _ position _ => ?_
            refine (recursions.set position).bind ?_
            intro sels _ nested
            exact onward _ _ nested
          · exact onward _ _ (by simp [Selection.fields])
        · refine (recursions.field _).bind ?_
          intro field _ nested
          exact onward _ _ nested

theorem returns_parseField_succ {fuel : Nat} (recursions : SelectionsHold source holds fuel)
    (parsed : ∀ start, Returns source start parseValue fun value _ => holds value) :
    Returns source start (parseField (fuel + 1)) fun field _ =>
      ∀ inner ∈ field.fields, inner.ArgsHold holds := by
  unfold parseField
  refine returns_any.bind fun names afterName _ => ?_
  refine (returns_parseOptionalArgs parsed).bind ?_
  intro args _ arguments
  refine returns_any.bind fun _ _ _ => returns_any.bind fun length _ _ =>
    returns_any.bind fun directives _ _ => returns_any.bind fun here position _ => ?_
  have nested : Returns source position
      (if here = byte '\x7b' then parseSelectionSet fuel else pure []) fun sels _ =>
        ∀ field ∈ Selection.allFields sels, field.ArgsHold holds := by
    split
    · exact recursions.set position
    · exact returns_pure (by simp [Selection.allFields])
  refine nested.bind ?_
  intro sels _ inside
  apply returns_pure
  intro inner member
  unfold Field.fields at member
  cases List.mem_cons.mp member with
  | inl same =>
      rw [same]
      exact arguments
  | inr deeper => exact inside inner deeper

theorem selections_hold
    (parsed : ∀ start, Returns source start parseValue fun value _ => holds value) (fuel : Nat) :
    SelectionsHold source holds fuel := by
  induction fuel with
  | zero =>
      refine ⟨fun _ => ?_, fun _ out _ => ?_, fun _ => ?_⟩
      · unfold parseSelectionSet
        exact returns_stuck
      · unfold parseSelections
        exact returns_stuck
      · unfold parseField
        exact returns_stuck
  | succ fuel recursions =>
      refine ⟨fun start => ?_, fun _ _ => returns_parseSelections_succ recursions,
        fun _ => returns_parseField_succ recursions parsed⟩
      unfold parseSelectionSet
      exact returns_any.bind fun _ _ _ => recursions.loop _ [] (by simp [Selection.allFields])

theorem returns_parseOperation
    (parsed : ∀ start, Returns source start parseValue fun value _ => holds value)
    (kind : OperationKind) :
    Returns source start (parseOperation kind) fun operation _ =>
      ∀ field ∈ Selection.allFields operation.sels, field.ArgsHold holds := by
  unfold parseOperation
  refine returns_any.bind fun name _ _ => returns_any.bind fun _ _ _ =>
    returns_any.bind fun _ _ _ => returns_any.bind fun _ _ _ =>
    returns_any.bind fun length _ _ => returns_any.bind fun _ position _ => ?_
  refine ((selections_hold parsed _).set position).bind ?_
  intro sels _ inside
  exact returns_pure inside

theorem returns_parseFragment
    (parsed : ∀ start, Returns source start parseValue fun value _ => holds value) :
    Returns source start parseFragment fun fragment _ =>
      ∀ field ∈ Selection.allFields fragment.sels, field.ArgsHold holds := by
  unfold parseFragment
  refine returns_any.bind fun name _ _ => ?_
  split
  · exact returns_fail _
  · refine returns_any.bind fun on _ _ => ?_
    split
    · exact returns_fail _
    · refine returns_any.bind fun onType _ _ => ?_
      split
      · exact returns_fail _
      · refine returns_any.bind fun length position _ => ?_
        refine ((selections_hold parsed _).set position).bind ?_
        intro sels _ inside
        exact returns_pure inside

theorem forall_fields_iff {document : Document} {property : Field → Prop} :
    (∀ field ∈ document.fields, property field) ↔
      (∀ operation ∈ document.operations,
        ∀ field ∈ Selection.allFields operation.sels, property field) ∧
      ∀ entry ∈ document.fragments, ∀ field ∈ Selection.allFields entry.2.sels, property field := by
  simp only [Document.fields, List.mem_append, List.mem_flatMap, or_imp, forall_and,
    forall_exists_index, and_imp]
  constructor
  · rintro ⟨operations, fragments⟩
    exact ⟨fun operation member field inside => operations field operation member inside,
      fun entry member field inside => fragments field entry member inside⟩
  · rintro ⟨operations, fragments⟩
    exact ⟨fun field operation member inside => operations operation member field inside,
      fun field entry member inside => fragments entry member field inside⟩

theorem returns_parseDefinitions
    (parsed : ∀ start, Returns source start parseValue fun value _ => holds value) (fuel : Nat)
    {document : Document} (before : ∀ field ∈ document.fields, field.ArgsHold holds) :
    Returns source start (parseDefinitions fuel document) fun result _ =>
      ∀ field ∈ result.fields, field.ArgsHold holds := by
  induction fuel generalizing start document with
  | zero => exact returns_stuck
  | succ fuel inductionHypothesis =>
      unfold parseDefinitions
      obtain ⟨operations, fragments⟩ := forall_fields_iff.mp before
      apply returns_current
      cases here : source[start]? with
      | none =>
          dsimp only
          split
          · exact returns_fail _
          · exact returns_pure before
      | some value =>
          dsimp only
          refine returns_any.bind fun keyword _ _ => ?_
          split
          · refine (returns_parseOperation parsed _).bind ?_
            intro operation _ new
            refine returns_any.bind fun _ _ _ => inductionHypothesis ?_
            refine forall_fields_iff.mpr ⟨?_, fragments⟩
            intro other member
            cases List.mem_append.mp member with
            | inl old => exact operations other old
            | inr added =>
                rw [List.mem_singleton.mp added]
                exact new
          · split
            · exact returns_fail _
            · split
              · refine (returns_parseFragment parsed).bind ?_
                intro fragment _ new
                refine returns_any.bind fun _ _ _ => inductionHypothesis ?_
                have added : ∀ entry ∈ setEntry document.fragments fragment.name fragment,
                    ∀ field ∈ Selection.allFields entry.2.sels, field.ArgsHold holds :=
                  forall_setEntry (fun fragment : Fragment =>
                    ∀ field ∈ Selection.allFields fragment.sels, field.ArgsHold holds) fragments new
                exact forall_fields_iff.mpr ⟨operations, added⟩
              · split
                · exact returns_fail _
                · exact returns_fail _

theorem returns_parseDocument
    (parsed : ∀ start, Returns source start parseValue fun value _ => holds value) :
    Returns source start parseDocument fun document _ =>
      ∀ field ∈ document.fields, field.ArgsHold holds := by
  unfold parseDocument
  refine returns_any.bind fun _ _ _ => returns_any.bind fun here _ _ =>
    returns_any.bind fun length position _ => ?_
  split
  · refine ((selections_hold parsed _).set position).bind ?_
    intro sels _ inside
    refine returns_any.bind fun _ last _ => ?_
    apply returns_current
    cases after : source[last]? with
    | none => exact returns_pure (forall_fields_iff.mpr ⟨by simpa using inside, by simp⟩)
    | some value => exact returns_fail _
  · exact returns_parseDefinitions parsed _ (by simp [Document.fields])

end Documents

/-- Every argument of a parsed document is one that `parseValue` returns. -/
theorem parsed_of_mem_fields {document : Document} {next : Nat}
    (accepted : parseQuery source = .ok document next) :
    ∀ field ∈ document.fields, field.ArgsHold (ArgValue.Parsed source) :=
  returns_parseDocument (fun _ => returns_parseValue) document next accepted

theorem parsed_of_mem_values {document : Document} {next : Nat}
    (accepted : parseQuery source = .ok document next) :
    ∀ value ∈ document.values, value.Parsed source := by
  intro value member
  obtain ⟨field, listed, argument⟩ := List.mem_flatMap.mp member
  obtain ⟨entry, inside, rfl⟩ := List.mem_map.mp argument
  exact parsed_of_mem_fields accepted field listed entry inside

/-- `ParseQuery` ends with a document or an error.  Its accesses are in bounds, the position
never falls, every iteration of a loop that goes on has moved it, and the text of every argument
but a variable is a part of the source. -/
theorem parseQuery_total_in_bounds (source : Text) :
    (Recorded.parseDocument source 0).2 = parseQuery source ∧
    ((∃ document next, parseQuery source = .ok document next ∧
      ∀ value ∈ document.values, value.IsVariable ∨
        ∃ text, text <:+: source ∧ value.raw = ofBytes text) ∨
      ∃ message, parseQuery source = .failed message) ∧
    (∀ event ∈ (Recorded.parseDocument source 0).1, event.Sound source.length) ∧
    ∃ final, Recorder.Rises 0 (Recorded.parseDocument source 0).1 final := by
  have tracks := Recorded.tracks_parseDocument source
  obtain ⟨final, rises, -⟩ := tracks.rises
  refine ⟨tracks.outcome, ?_, tracks.sound, final, rises⟩
  rcases parseQuery_cases source with ⟨document, next, accepted, -⟩ | failed
  · exact .inl ⟨document, next, accepted, fun value member =>
      (parsed_of_mem_values accepted value member).text⟩
  · exact .inr failed

end GitScale.GraphQL
