import GitScale.GraphQL.Lexical
import GitScale.GraphQL.RoundTrip

/-!
# Reading lexical elements

What the methods of the parser that read one token do before the elements of a query: how far
they go and which elements are left.
-/

namespace GitScale.GraphQL

open Foundation Go Reader

/-! ## First bytes -/

theorem elementsText_cons (element : Element) (rest : List Element) :
    elementsText (element :: rest) = element.text ++ elementsText rest := rfl

theorem elementsText_append (left right : List Element) :
    elementsText (left ++ right) = elementsText left ++ elementsText right :=
  List.flatMap_append

theorem Name.eq_cons (name : Name) :
    ∃ first others, name.text = first :: others ∧ isNameStart first = true := by
  obtain ⟨text, isName⟩ := name
  cases text with
  | nil => cases isName
  | cons first others => exact ⟨first, others, rfl, (Bool.and_eq_true_iff.mp isName).1⟩

theorem IsNumber.eq_cons {text : Text} (isNumber : IsNumber text) :
    ∃ first others, text = first :: others ∧ isNumeric first = true := by
  cases text with
  | nil => exact absurd rfl isNumber.nonempty
  | cons first others =>
      exact ⟨first, others, rfl, (Bool.and_eq_true_iff.mp isNumber.numeric).1⟩

theorem Element.text_eq_cons (element : Element) :
    ∃ others, element.text = element.first :: others := by
  cases element with
  | blank value => exact ⟨_, rfl⟩
  | comment text oneLine ending => exact ⟨_, rfl⟩
  | name name =>
      obtain ⟨first, others, textEq, -⟩ := name.eq_cons
      refine ⟨others, ?_⟩
      rw [Element.first, Element.text, textEq]
      rfl
  | number text isNumber =>
      obtain ⟨first, others, textEq, -⟩ := isNumber.eq_cons
      refine ⟨others, ?_⟩
      rw [Element.first, Element.text, textEq]
      rfl
  | dots => exact ⟨_, rfl⟩
  | string body isBody => exact ⟨_, rfl⟩
  | block body closed => exact ⟨_, rfl⟩
  | single value alone => exact ⟨_, rfl⟩

/-- The first byte of some elements. -/
theorem head_elementsText (elements : List Element) :
    (elementsText elements).head? = elements.head?.map Element.first := by
  cases elements with
  | nil => rfl
  | cons element rest =>
      obtain ⟨others, textEq⟩ := element.text_eq_cons
      rw [elementsText_cons, textEq]
      rfl

theorem Element.name_first (name : Name) : isNameStart (Element.name name).first = true := by
  obtain ⟨first, others, textEq, starts⟩ := name.eq_cons
  rw [Element.first, Element.text, textEq]
  exact starts

theorem Element.number_first {text : Text} (isNumber : IsNumber text) :
    isNumeric (Element.number text isNumber).first = true := by
  obtain ⟨first, others, textEq, numeric⟩ := isNumber.eq_cons
  rw [Element.first, Element.text, textEq]
  exact numeric

/-- A token does not start like a blank or a comment. -/
theorem Element.isVisible_first {element : Element} (token : element.isIgnored = false) :
    isVisible element.first = true := by
  have nameTable : ∀ value, isNameStart value = true → isVisible value = true :=
    forall_byte (by decide)
  have numberTable : ∀ value, isNumeric value = true → isVisible value = true :=
    forall_byte (by decide)
  have singleTable : ∀ value, isSingle value = true → isVisible value = true :=
    forall_byte (by decide)
  cases element with
  | blank | comment => cases token
  | name name => exact nameTable _ (Element.name_first name)
  | number text isNumber => exact numberTable _ (Element.number_first isNumber)
  | dots => rfl
  | string | block => rfl
  | single value alone => exact singleTable value alone

/-- What an element that may not be continued is followed by. -/
theorem Apart.head {element : Element} {rest : List Element} (apart : Apart (element :: rest))
    {property : UInt8 → Prop} (holds : ∀ next, element.apart next = true → property next.first) :
    ∀ value ∈ (elementsText rest).head?, property value := by
  rw [head_elementsText]
  cases rest with
  | nil =>
      intro value head
      cases head
  | cons next rest =>
      intro value head
      cases head
      exact holds next (List.isChain_cons_cons.mp apart).1

theorem Apart.tail {element : Element} {rest : List Element} (apart : Apart (element :: rest)) :
    Apart rest :=
  List.IsChain.tail apart

theorem Apart.name_stop {name : Name} {rest : List Element}
    (apart : Apart (.name name :: rest)) :
    ∀ value ∈ (elementsText rest).head?, isNameByte value = false :=
  apart.head fun _ stops => Bool.not_eq_true' _ ▸ stops

theorem Apart.number_stop {text : Text} {isNumber : IsNumber text} {rest : List Element}
    (apart : Apart (.number text isNumber :: rest)) :
    ∀ value ∈ (elementsText rest).head?, isNameByte value = false ∧ value ≠ byte '.' := by
  refine apart.head ?_
  intro next stops
  obtain ⟨notName, notPoint⟩ := Bool.and_eq_true_iff.mp stops
  exact ⟨Bool.not_eq_true' _ ▸ notName, of_decide_eq_true notPoint⟩

/-! ## Facing elements -/

/-- The elements are all that follows a position. -/
structure Lexed (source : Text) (position : Nat) (elements : List Element) : Prop where
  here : At source position (elementsText elements)
  apart : Apart elements

/-- The next element is a comment in a part that is skipped, made of opening brackets that are
too many to be closed by what follows. -/
def Place.Overflows : Place → List Element → Prop
  | .skipped opening _ _ _, .comment text _ ending :: rest =>
      (∀ value ∈ text, value = opening) ∧ (ending.text ++ elementsText rest).length ≤ text.length
  | _, _ => False

/-- The elements are read as GraphQL does, all of them or those before a comment as above. -/
def Place.AgreesUntil (cut : Bool) : Place → List Element → Prop
  | _, [] => cut = false
  | place, element :: rest =>
      (cut = true ∧ place.Overflows (element :: rest)) ∨
        place.Agrees element ∧ (place.next element).AgreesUntil cut rest

/-- A position outside the parts that are skipped, and the elements that follow it. -/
structure Facing (cut : Bool) (source : Text) (position : Nat) (place : Place)
    (elements : List Element) : Prop extends Lexed source position elements where
  outside : place.isSkipped = false
  agrees : place.AgreesUntil cut elements

section Facing

variable {cut : Bool} {source : Text} {position : Nat} {place : Place} {element : Element}
  {rest elements : List Element}

theorem Lexed.next (lexed : Lexed source position (element :: rest)) :
    Lexed source (position + element.text.length) rest :=
  ⟨lexed.here.append, lexed.apart.tail⟩

theorem Lexed.current_eq (lexed : Lexed source position (element :: rest)) :
    source[position]? = some element.first := by
  obtain ⟨others, textEq⟩ := element.text_eq_cons
  have here := lexed.here
  rw [elementsText_cons, textEq] at here
  exact here.head

theorem Lexed.ended (lexed : Lexed source position []) : source[position]? = none := by
  have here := congrArg List.head? lexed.here.2
  rwa [List.head?_drop] at here

theorem Place.agreesUntil_end (place : Place) (elements : List Element) :
    place.AgreesUntil false elements ↔ place.AgreesAll elements := by
  induction elements generalizing place with
  | nil => simp [AgreesUntil, AgreesAll]
  | cons element rest inductionHypothesis =>
      simp [AgreesUntil, AgreesAll, inductionHypothesis (place.next element)]

/-- Outside the parts that are skipped the next element is read as GraphQL does. -/
theorem Place.AgreesUntil.step (agrees : place.AgreesUntil cut (element :: rest))
    (outside : place.isSkipped = false) :
    place.Agrees element ∧ (place.next element).AgreesUntil cut rest := by
  rcases agrees with ⟨-, overflows⟩ | both
  · cases place with
    | level | arguments => cases overflows
    | skipped => cases outside
  · exact both

theorem Facing.next (facing : Facing cut source position place (element :: rest))
    (outside : (place.next element).isSkipped = false) :
    Facing cut source (position + element.text.length) (place.next element) rest :=
  ⟨facing.toLexed.next, outside, (facing.agrees.step facing.outside).2⟩

/-- Only brackets lead into a part that is skipped. -/
theorem Place.isSkipped_next (notSingle : ∀ value alone, element ≠ .single value alone) :
    (place.next element).isSkipped = place.isSkipped := by
  cases element with
  | single value alone => exact absurd rfl (notSingle value alone)
  | blank | comment | name | number | dots | string | block => cases place <;> rfl

/-- Blanks and comments do not change the place. -/
theorem Place.next_of_isIgnored (ignored : element.isIgnored = true) :
    place.next element = place := by
  cases element with
  | blank | comment => cases place <;> rfl
  | name | number | dots | string | block | single => cases ignored

end Facing

/-! ## Blanks and comments -/

/-- A comment up to the end of its line. -/
theorem blankLength_comment {text : Text} (oneLine : ∀ value ∈ text, value ≠ 10) (rest : Text) :
    blankLength true (text ++ 10 :: rest) = text.length + 1 + blankLength false rest := by
  induction text with
  | nil =>
      rw [List.nil_append, blankLength]
      simp
      omega
  | cons value text inductionHypothesis =>
      have here := oneLine value List.mem_cons_self
      rw [List.cons_append, blankLength, if_pos rfl, if_neg here, inductionHypothesis
        fun value member => oneLine value (List.mem_cons_of_mem _ member), List.length_cons]
      omega

theorem blankLength_last {text : Text} (oneLine : ∀ value ∈ text, value ≠ 10) :
    blankLength true text = text.length := by
  induction text with
  | nil => rfl
  | cons value text inductionHypothesis =>
      have here := oneLine value List.mem_cons_self
      rw [blankLength, if_pos rfl, if_neg here, inductionHypothesis
        fun value member => oneLine value (List.mem_cons_of_mem _ member), List.length_cons]

theorem blankLength_hash (rest : Text) :
    blankLength false (byte '#' :: rest) = blankLength true rest + 1 := by
  rw [blankLength]
  rfl

/-- The elements from the first token on. -/
def settle (elements : List Element) : List Element := elements.dropWhile Element.isIgnored

theorem ne_newline_of_oneLine {text : Text} (oneLine : text.all (!isLineEnd ·) = true) :
    ∀ value ∈ text, value ≠ 10 := by
  intro value member isNewline
  have notEnd := List.all_eq_true.mp oneLine value member
  rw [isNewline] at notEnd
  cases notEnd

/-- A comment with its line end. -/
theorem blankLength_comment_text {text : Text} (oneLine : text.all (!isLineEnd ·) = true)
    {ending : LineEnd} (ends : ending = .newline ∨ ending = .both) (rest : Text) :
    blankLength false ((Element.comment text oneLine ending).text ++ rest) =
      (Element.comment text oneLine ending).text.length + blankLength false rest := by
  have noNewline := ne_newline_of_oneLine oneLine
  rcases ends with rfl | rfl
  · have split : (Element.comment text oneLine .newline).text ++ rest =
        byte '#' :: (text ++ 10 :: rest) := by
      simp [Element.text, LineEnd.text]
    rw [split, blankLength_hash, blankLength_comment noNewline]
    simp [Element.text, LineEnd.text]
    omega
  · have split : (Element.comment text oneLine .both).text ++ rest =
        byte '#' :: ((text ++ [13]) ++ 10 :: rest) := by
      simp [Element.text, LineEnd.text]
    have noNewlineBefore : ∀ value ∈ text ++ [13], value ≠ 10 := by
      intro value member
      rcases List.mem_append.mp member with inside | last
      · exact noNewline value inside
      · rw [List.mem_singleton.mp last]
        decide
    rw [split, blankLength_hash, blankLength_comment noNewlineBefore]
    simp [Element.text, LineEnd.text]
    omega

theorem blankLength_visible {value : UInt8} (seen : isVisible value = true) (rest : Text) :
    blankLength false (value :: rest) = 0 := by
  obtain ⟨notBlank, notComment⟩ := Bool.and_eq_true_iff.mp seen
  rw [blankLength]
  simp [Bool.not_eq_true' _ ▸ notBlank, of_decide_eq_true notComment]

/-- `skipWS` goes to the first token. -/
theorem blankLength_elements {cut : Bool} {place : Place} {elements : List Element}
    (apart : Apart elements) (outside : place.isSkipped = false)
    (agrees : place.AgreesUntil cut elements) :
    ∃ blanks, elementsText elements = blanks ++ elementsText (settle elements) ∧
      blankLength false (elementsText elements) = blanks.length ∧ Apart (settle elements) ∧
      place.AgreesUntil cut (settle elements) := by
  induction elements with
  | nil => exact ⟨[], rfl, rfl, apart, agrees⟩
  | cons element rest inductionHypothesis =>
      cases ignored : element.isIgnored with
      | false =>
          have same : settle (element :: rest) = element :: rest :=
            List.dropWhile_cons_of_neg (by simp [ignored])
          obtain ⟨others, textEq⟩ := element.text_eq_cons
          rw [same]
          refine ⟨[], rfl, ?_, apart, agrees⟩
          rw [elementsText_cons, textEq, List.cons_append,
            blankLength_visible (Element.isVisible_first ignored)]
          rfl
      | true =>
          have drops : settle (element :: rest) = settle rest :=
            List.dropWhile_cons_of_pos ignored
          obtain ⟨agreesHere, agreesLater⟩ := agrees.step outside
          rw [Place.next_of_isIgnored ignored] at agreesLater
          obtain ⟨blanks, textEq, length, later⟩ := inductionHypothesis apart.tail agreesLater
          have whole : blankLength false (element.text ++ elementsText rest) =
              element.text.length + blankLength false (elementsText rest) := by
            cases element with
            | blank value => cases value <;> exact Nat.add_comm _ _
            | comment text oneLine ending =>
                cases ending with
                | newline => exact blankLength_comment_text oneLine (Or.inl rfl) _
                | both => exact blankLength_comment_text oneLine (Or.inr rfl) _
                | carriageReturn => exact absurd rfl agreesHere.1
                | endOfText =>
                    cases rest with
                    | nil =>
                        have last := blankLength_last (ne_newline_of_oneLine oneLine)
                        simp [elementsText, Element.text, LineEnd.text, blankLength_hash, last,
                          blankLength]
                    | cons next rest => cases (List.isChain_cons_cons.mp apart).1
            | name | number | dots | string | block | single => cases ignored
          refine ⟨element.text ++ blanks, ?_, ?_, ?_⟩
          · rw [drops, elementsText_cons, textEq, List.append_assoc]
          · rw [elementsText_cons, whole, length, List.length_append]
          · rw [drops]
            exact later

theorem Facing.skipWS_ok {cut : Bool} {source : Text} {position : Nat} {place : Place}
    {elements : List Element} (facing : Facing cut source position place elements) :
    ∃ next, skipWS source position = .ok () next ∧
      Facing cut source next place (settle elements) := by
  obtain ⟨blanks, textEq, length, apart, agrees⟩ :=
    blankLength_elements facing.apart facing.outside facing.agrees
  have here := facing.here
  refine ⟨position + blankLength false (source.drop position), rfl, ⟨?_, apart⟩,
    facing.outside, agrees⟩
  rw [here.2, length]
  rw [textEq] at here
  exact here.append

/-! ## Names -/

theorem IsNumber.drop {text : Text} (isNumber : IsNumber text) {taken : Nat}
    (more : text.drop taken ≠ []) : IsNumber (text.drop taken) := by
  refine ⟨more, ?_, ?_⟩
  · exact List.all_eq_true.mpr fun value member =>
      List.all_eq_true.mp isNumber.numeric value (List.mem_of_mem_drop member)
  · exact List.IsChain.drop isNumber.points taken

/-- What is left of a number after some of its bytes. -/
def numberTail (text : Text) (isNumber : IsNumber text) (taken : Nat) (rest : List Element) :
    List Element :=
  if done : text.drop taken = [] then rest
  else .number (text.drop taken) (isNumber.drop done) :: rest

/-- The name that is read at the first element; it may be the start of a number. -/
def identText : List Element → Text
  | .name name :: _ => name.text
  | .number text _ :: _ => text.takeWhile isNameByte
  | _ => []

def afterIdent : List Element → List Element
  | .name _ :: rest => rest
  | .number text isNumber :: rest =>
      numberTail text isNumber (text.takeWhile isNameByte).length rest
  | elements => elements

/-- A number that does not start like a name is left. -/
theorem afterIdent_number_empty {text : Text} {isNumber : IsNumber text} {rest : List Element}
    (empty : text.takeWhile isNameByte = []) :
    afterIdent (.number text isNumber :: rest) = .number text isNumber :: rest := by
  simp [afterIdent, numberTail, empty, isNumber.nonempty]

def Place.afterIdent (place : Place) : List Element → Place
  | .name name :: _ => place.next (.name name)
  | .number text isNumber :: _ =>
      if text.takeWhile isNameByte = [] then place else place.next (.number text isNumber)
  | _ => place

section Idents

variable {cut : Bool} {source : Text} {position : Nat} {place : Place}
  {rest elements : List Element}

/-- Some bytes of a number are passed. -/
theorem Facing.numberTail {text : Text} {isNumber : IsNumber text} {taken : Nat}
    (facing : Facing cut source position place (.number text isNumber :: rest))
    (inside : taken ≤ text.length)
    (keeps : text.drop taken ≠ [] → ∀ suffix (isSuffix : IsNumber suffix),
      (place.next (.number text isNumber)).next (.number suffix isSuffix) =
        place.next (.number text isNumber)) :
    Facing cut source (position + taken) (place.next (.number text isNumber))
      (numberTail text isNumber taken rest) := by
  unfold GraphQL.numberTail
  have outside : (place.next (.number text isNumber)).isSkipped = false :=
    (Place.isSkipped_next (by simp)).trans facing.outside
  have next := facing.next outside
  split
  next done =>
    have whole : taken = text.length :=
      Nat.le_antisymm inside (List.drop_eq_nil_iff.mp done)
    rw [whole]
    exact next
  next more =>
    refine ⟨⟨?_, ?_⟩, outside, Or.inr ⟨trivial, ?_⟩⟩
    · have here := facing.here
      rw [elementsText_cons, Element.text, ← List.take_append_drop taken text,
        List.append_assoc] at here
      have later := here.append
      rwa [List.length_take_of_le inside] at later
    · cases rest with
      | nil => exact List.isChain_singleton _
      | cons following rest =>
          have apart := List.isChain_cons_cons.mp facing.apart
          exact List.isChain_cons_cons.mpr apart
    · rw [keeps more]
      exact next.agrees

theorem takeWhile_append_of_ends {test : UInt8 → Bool} {text rest : Text}
    (stop : ∀ value ∈ rest.head?, test value = false) :
    (text ++ rest).takeWhile test = text.takeWhile test := by
  induction text with
  | nil =>
      cases rest with
      | nil => rfl
      | cons value rest => simp [stop value rfl]
  | cons value text inductionHypothesis =>
      rw [List.cons_append, List.takeWhile_cons, List.takeWhile_cons, inductionHypothesis]

/-- The run of name bytes at some elements. -/
theorem takeWhile_isNameByte (apart : Apart elements) :
    (elementsText elements).takeWhile isNameByte = identText elements := by
  have other : ∀ {element : Element} {rest : List Element},
      isNameByte element.first = false →
        (elementsText (element :: rest)).takeWhile isNameByte = [] := by
    intro element rest notName
    obtain ⟨others, textEq⟩ := element.text_eq_cons
    rw [elementsText_cons, textEq, List.cons_append, List.takeWhile_cons, notName]
    rfl
  cases elements with
  | nil => rfl
  | cons element rest =>
      cases element with
      | blank value => cases value <;> exact other rfl
      | comment text oneLine ending => exact other rfl
      | name name => exact takeWhile_append_of_stop name.bytes apart.name_stop
      | number text isNumber =>
          exact takeWhile_append_of_ends fun value head => (apart.number_stop value head).1
      | dots => exact other rfl
      | string body isBody => exact other rfl
      | block body closed => exact other rfl
      | single value alone =>
          have table : ∀ value, isSingle value = true → isNameByte value = false :=
            forall_byte (by decide)
          exact other (table value alone)

theorem identText_length_le (text : Text) : (text.takeWhile isNameByte).length ≤ text.length :=
  (List.takeWhile_prefix isNameByte).length_le

/-- After part of a number there is no directive to be named. -/
theorem Place.next_number {text suffix : Text} (isNumber : IsNumber text)
    (isSuffix : IsNumber suffix) (partly : text.all isNameByte = false) :
    (place.next (.number text isNumber)).next (.number suffix isSuffix) =
      place.next (.number text isNumber) := by
  cases place with
  | level depth mark =>
      simp only [Place.next, partly]
      split <;> rfl
  | arguments depth => rfl
  | skipped opening closing count outer => rfl

/-- The name at the first element is passed. -/
theorem Facing.afterIdent (facing : Facing cut source position place elements) :
    Facing cut source (position + (identText elements).length) (place.afterIdent elements)
      (afterIdent elements) := by
  cases elements with
  | nil => exact facing
  | cons element rest =>
      cases element with
      | name name => exact facing.next ((Place.isSkipped_next (by simp)).trans facing.outside)
      | number text isNumber =>
          unfold Place.afterIdent
          dsimp only
          split
          next empty =>
            rw [afterIdent_number_empty empty, identText, empty]
            exact facing
          next =>
            refine facing.numberTail (identText_length_le text) ?_
            intro more suffix isSuffix
            apply Place.next_number
            cases all : text.all isNameByte with
            | false => rfl
            | true =>
                have whole : text.takeWhile isNameByte = text := by
                  have taken : (text ++ []).takeWhile isNameByte = text :=
                    takeWhile_append_of_stop all (by simp)
                  rwa [List.append_nil] at taken
                rw [identText, whole, List.drop_length] at more
                exact absurd rfl more
      | blank | comment | dots | string | block | single => exact facing

theorem Facing.readIdent_ok (facing : Facing cut source position place elements) :
    ∃ next, readIdent source position = .ok (ofBytes (identText (settle elements))) next ∧
      Facing cut source next (place.afterIdent (settle elements))
        (GraphQL.afterIdent (settle elements)) := by
  obtain ⟨start, skips, settled⟩ := facing.skipWS_ok
  have taken := takeWhile_isNameByte settled.apart
  have advances : (advanceWhile isNameByte : Parser Unit) source start =
      .ok () (start + (identText (settle elements)).length) := by
    unfold advanceWhile advanceBy
    dsimp only
    rw [settled.here.2, taken]
  have slices : (slice start : Parser Text) source
      (start + (identText (settle elements)).length) =
        .ok (identText (settle elements)) (start + (identText (settle elements)).length) := by
    apply slice_of_drop settled.here.1
    rw [settled.here.2, ← taken]
    exact (List.takeWhile_append_dropWhile).symm
  refine ⟨start + (identText (settle elements)).length, ?_, settled.afterIdent⟩
  have starts : (Reader.position : Parser Nat) source start = .ok start start := rfl
  unfold readIdent
  refine (bind_eq_of_ok skips).trans ?_
  refine (bind_eq_of_ok starts).trans ?_
  refine (bind_eq_of_ok advances).trans ?_
  exact bind_eq_of_ok slices

end Idents

/-! ## Strings and numbers -/

section Values

variable {source : Text} {position : Nat} {place : Place} {rest elements : List Element}

/-- The two kinds of strings. -/
def Element.isString : Element → Bool
  | .string _ _ => true
  | .block _ _ => true
  | _ => false

theorem Lexed.readString_ok {element : Element} (lexed : Lexed source position (element :: rest))
    (agrees : place.Agrees element) (isString : element.isString = true) :
    readString source position = .ok element.text (position + element.text.length) := by
  have more : position < source.length := lt_of_getElem? lexed.current_eq
  have accepted : Accepts source position readString fun raw next =>
      raw = element.text ∧ next = position + element.text.length := by
    cases element with
    | string body isBody =>
        refine accepts_readString (.plain isBody) ?_ lexed.here.1 lexed.here.2
        intro empty
        have noBody : body = [] := by
          cases body with
          | nil => rfl
          | cons value body => simp [Element.text] at empty
        subst noBody
        have stop : ∀ value ∈ (elementsText rest).head?, value ≠ quote := by
          refine lexed.apart.head ?_
          intro next stops
          exact of_decide_eq_true stops
        intro head
        exact stop quote head rfl
    | block body closed =>
        refine accepts_readString (.block agrees) ?_ lexed.here.1 lexed.here.2
        intro short
        have length := congrArg List.length short
        simp [Element.text, quotes] at length
    | blank | comment | name | number | dots | single => cases isString
  obtain ⟨raw, next, returns, rfl, rfl⟩ := accepted.ok_of_reads (reads_readString more)
  exact returns

/-- The length of the sign at the start of a text. -/
def signLength (text : Text) : Nat := if text.head? = some (byte '-') then 1 else 0

/-- The length of the digits and the sign at the start of a text. -/
def wholeLength (text : Text) : Nat :=
  signLength text + ((text.drop (signLength text)).takeWhile isDigit).length

/-- Whether a point comes after the digits. -/
def hasPoint (text : Text) : Bool := text[wholeLength text]? = some (byte '.')

/-- The length of the number that is read at the start of a text. -/
def numberLength (text : Text) : Nat :=
  if hasPoint text then
    wholeLength text + 1 + ((text.drop (wholeLength text + 1)).takeWhile isDigit).length
  else wholeLength text

/-- The number that is read at the start of a text. -/
def numberValue (text : Text) : ArgValue :=
  let raw := ofBytes (text.take (numberLength text))
  if hasPoint text then ⟨none, raw⟩ else ⟨parseInt raw.toList, raw⟩

theorem signLength_le {text : Text} : signLength text ≤ text.length := by
  unfold signLength
  split
  next negative =>
    cases text with
    | nil => cases negative
    | cons value text => simp
  next => exact Nat.zero_le _

theorem takeWhile_length_drop_le (text : Text) {start : Nat} (inside : start ≤ text.length) :
    start + ((text.drop start).takeWhile isDigit).length ≤ text.length := by
  have bounded := (List.takeWhile_prefix isDigit : (text.drop start).takeWhile isDigit <+: _).length_le
  rw [List.length_drop] at bounded
  omega

theorem wholeLength_le (text : Text) : wholeLength text ≤ text.length :=
  takeWhile_length_drop_le text signLength_le

theorem lt_of_hasPoint {text : Text} (point : hasPoint text = true) :
    wholeLength text < text.length :=
  lt_of_getElem? (of_decide_eq_true point)

theorem numberLength_le (text : Text) : numberLength text ≤ text.length := by
  unfold numberLength
  split
  next point => exact takeWhile_length_drop_le text (lt_of_hasPoint point)
  next => exact wholeLength_le text

theorem advanceWhile_at (test : UInt8 → Bool) (start : Nat) :
    (advanceWhile test : Parser Unit) source start =
      .ok () (start + ((source.drop start).takeWhile test).length) := rfl

theorem readNumber_eq {first : UInt8} (here : source[position]? = some first) :
    readNumber source position =
      .ok (numberValue (source.drop position))
        (position + numberLength (source.drop position)) := by
  have inside : position ≤ source.length := (lt_of_getElem? here).le
  have sign : (if first = byte '-' then 1 else 0) = signLength (source.drop position) := by
    simp [signLength, List.head?_drop, here]
  have starts : (Reader.position : Parser Nat) source position = .ok position position := rfl
  have items : (item : Parser UInt8) source position = .ok first position := by
    simp only [item, here]
  have signed : (advance (if first = byte '-' then 1 else 0) : Parser Unit) source position =
      .ok () (position + signLength (source.drop position)) := by
    rw [sign]
    rfl
  have digits : (advanceWhile isDigit : Parser Unit) source
      (position + signLength (source.drop position)) =
        .ok () (position + wholeLength (source.drop position)) := by
    rw [advanceWhile_at, ← List.drop_drop, Nat.add_assoc]
    rfl
  have after : (current : Parser (Option UInt8)) source
      (position + wholeLength (source.drop position)) =
        .ok (source.drop position)[wholeLength (source.drop position)]?
          (position + wholeLength (source.drop position)) := by
    rw [List.getElem?_drop]
    rfl
  have slices : (slice position : Parser Text) source
      (position + numberLength (source.drop position)) =
        .ok ((source.drop position).take (numberLength (source.drop position)))
          (position + numberLength (source.drop position)) := by
    have bounded := numberLength_le (source.drop position)
    rw [List.length_drop] at bounded
    unfold slice
    rw [if_pos ⟨Nat.le_add_right _ _, by omega⟩, Nat.add_sub_cancel_left]
  unfold readNumber
  refine (bind_eq_of_ok starts).trans ?_
  refine (bind_eq_of_ok items).trans ?_
  refine (bind_eq_of_ok signed).trans ?_
  refine (bind_eq_of_ok digits).trans ?_
  refine (bind_eq_of_ok after).trans ?_
  by_cases point : hasPoint (source.drop position) = true
  · have isPoint := of_decide_eq_true point
    have fraction : (advanceWhile isDigit : Parser Unit) source
        (position + wholeLength (source.drop position) + 1) =
          .ok () (position + numberLength (source.drop position)) := by
      rw [advanceWhile_at, numberLength, if_pos point, Nat.add_assoc position, ← List.drop_drop,
        Nat.add_assoc]
    have passes : (advance 1 : Parser Unit) source
        (position + wholeLength (source.drop position)) =
          .ok () (position + wholeLength (source.drop position) + 1) := rfl
    rw [if_pos isPoint, numberValue, if_pos point]
    refine (bind_eq_of_ok passes).trans ?_
    refine (bind_eq_of_ok fraction).trans ?_
    exact bind_eq_of_ok slices
  · have notPoint : ¬ (source.drop position)[wholeLength (source.drop position)]? =
        some (byte '.') := fun same => point (decide_eq_true same)
    have length : numberLength (source.drop position) = wholeLength (source.drop position) :=
      if_neg point
    rw [if_neg notPoint, numberValue, if_neg point]
    rw [← length]
    exact bind_eq_of_ok slices

section Suffix

variable {text after : Text}
  (stop : ∀ value ∈ after.head?, isNameByte value = false ∧ value ≠ byte '.')

include stop

theorem isDigit_stop : ∀ value ∈ after.head?, isDigit value = false := by
  have table : ∀ value, isNameByte value = false → isDigit value = false :=
    forall_byte (by decide)
  intro value head
  exact table value (stop value head).1

theorem takeWhile_digits_append {start : Nat} (inside : start ≤ text.length) :
    ((text ++ after).drop start).takeWhile isDigit = (text.drop start).takeWhile isDigit := by
  rw [List.drop_append_of_le_length inside]
  exact takeWhile_append_of_ends (isDigit_stop stop)

theorem wholeLength_append (nonempty : text ≠ []) :
    wholeLength (text ++ after) = wholeLength text := by
  have sign : signLength (text ++ after) = signLength text := by
    cases text with
    | nil => exact absurd rfl nonempty
    | cons value text => rfl
  unfold wholeLength
  rw [sign, takeWhile_digits_append stop signLength_le]

theorem hasPoint_append (nonempty : text ≠ []) : hasPoint (text ++ after) = hasPoint text := by
  unfold hasPoint
  rw [wholeLength_append stop nonempty]
  rcases Nat.lt_or_eq_of_le (wholeLength_le text) with inside | ended
  · rw [List.getElem?_append_left inside]
  · rw [ended, List.getElem?_append_right (Nat.le_refl _), Nat.sub_self,
      List.getElem?_eq_none (Nat.le_refl _)]
    cases after with
    | nil => rfl
    | cons value after => simp [(stop value rfl).2]

theorem numberLength_append (nonempty : text ≠ []) :
    numberLength (text ++ after) = numberLength text := by
  unfold numberLength
  rw [hasPoint_append stop nonempty, wholeLength_append stop nonempty]
  split
  next point => rw [takeWhile_digits_append stop (lt_of_hasPoint point)]
  next => rfl

theorem numberValue_append (nonempty : text ≠ []) :
    numberValue (text ++ after) = numberValue text := by
  unfold numberValue
  rw [hasPoint_append stop nonempty, numberLength_append stop nonempty,
    List.take_append_of_le_length (numberLength_le text)]

end Suffix

theorem Lexed.readNumber_ok {text : Text} {isNumber : IsNumber text}
    (lexed : Lexed source position (.number text isNumber :: rest)) :
    readNumber source position = .ok (numberValue text) (position + numberLength text) := by
  have remains : source.drop position = text ++ elementsText rest := lexed.here.2
  have stop := lexed.apart.number_stop
  rw [readNumber_eq lexed.current_eq, remains, numberValue_append stop isNumber.nonempty,
    numberLength_append stop isNumber.nonempty]

end Values

/-! ## Parts that are skipped -/

/-- The number of open brackets after an element. -/
def Element.count (opening closing : UInt8) (count : Nat) : Element → Nat
  | .single value _ =>
      if value = opening then count + 1 else if value = closing then count - 1 else count
  | _ => count

/-- The elements up to the closing bracket and those after it. -/
def skipRegion (opening closing : UInt8) : Nat → List Element → Option (List Element × List Element)
  | _, [] => none
  | count, element :: rest =>
      if element.count opening closing count = 0 then some ([element], rest)
      else (fun found => (element :: found.1, found.2)) <$>
        skipRegion opening closing (element.count opening closing count) rest

/-- Brackets that are elements by themselves. -/
structure IsBrackets (opening closing : UInt8) : Prop where
  opens : isSingle opening = true
  closes : isSingle closing = true
  differ : closing ≠ opening

theorem isBrackets_parentheses : IsBrackets (byte '(') (byte ')') := ⟨rfl, rfl, by decide⟩
theorem isBrackets_list : IsBrackets (byte '[') (byte ']') := ⟨rfl, rfl, by decide⟩
theorem isBrackets_object : IsBrackets (byte '\x7b') (byte '\x7d') := ⟨rfl, rfl, by decide⟩

section Regions

variable {opening closing : UInt8} {count : Nat} {outer : Place} {element : Element} {cut : Bool}
  {source : Text} {position : Nat} {elements rest region : List Element}

theorem skipRegion_eq_append
    (found : skipRegion opening closing count elements = some (region, rest)) :
    elements = region ++ rest := by
  induction elements generalizing count region with
  | nil => cases found
  | cons element others inductionHypothesis =>
      unfold skipRegion at found
      split at found
      next =>
        cases found
        rfl
      next =>
        obtain ⟨⟨inner, after⟩, foundLater, same⟩ := Option.map_eq_some_iff.mp found
        cases same
        rw [inductionHypothesis foundLater]
        rfl

theorem Place.next_skipped (positive : 0 < count) :
    (Place.skipped opening closing count outer).next element =
      if element.count opening closing count = 0 then outer
      else .skipped opening closing (element.count opening closing count) outer := by
  have same : ¬ count = 0 := Nat.pos_iff_ne_zero.mp positive
  cases element with
  | single value alone =>
      simp only [Place.next, skippedNext, Element.count]
      split
      next => rw [if_neg (Nat.succ_ne_zero _)]
      next =>
        split
        next =>
          split
          next one => rw [if_pos (by omega)]
          next more => rw [if_neg (by omega)]
        next => rfl
  | blank | comment | name | number | dots | string | block => exact (if_neg same).symm

/-! The loop of `skipBalanced` along the elements. -/

/-- The loop goes on from one position and depth to others, if its fuel lasts. -/
def Passes (opening closing : UInt8) (source : Text) (position : Nat) (depth : Int)
    (position' : Nat) (depth' : Int) : Prop :=
  ∀ fuel, skipBalancedLoop opening closing fuel depth source position = .exhausted ∨
    ∃ fuel', skipBalancedLoop opening closing fuel depth source position =
      skipBalancedLoop opening closing fuel' depth' source position'

theorem Passes.refl (depth : Int) : Passes opening closing source position depth position depth :=
  fun fuel => Or.inr ⟨fuel, rfl⟩

theorem Passes.trans {depth depth' depth'' : Int} {position' position'' : Nat}
    (first : Passes opening closing source position depth position' depth')
    (second : Passes opening closing source position' depth' position'' depth'') :
    Passes opening closing source position depth position'' depth'' := by
  intro fuel
  rcases first fuel with exhausted | ⟨fuel', same⟩
  · exact Or.inl exhausted
  · rw [same]
    exact second fuel'

/-- One iteration at a byte. -/
theorem skipBalancedLoop_succ {value : UInt8} {depth : Int} (fuel : Nat)
    (here : source[position]? = some value) :
    skipBalancedLoop opening closing (fuel + 1) depth source position =
      (if value = opening then do
        advance 1
        skipBalancedLoop opening closing fuel (depth + 1)
      else if value = closing then
        if depth - 1 = 0 then advance 1
        else do
          advance 1
          skipBalancedLoop opening closing fuel (depth - 1)
      else if value = quote then do
        let _ ← readString
        skipBalancedLoop opening closing fuel depth
      else do
        advance 1
        skipBalancedLoop opening closing fuel depth : Parser Unit) source position := by
  have looks : (current : Parser (Option UInt8)) source position = .ok (some value) position := by
    rw [← here]
    rfl
  exact bind_eq_of_ok looks

theorem skipBalancedLoop_end {depth : Int} (fuel : Nat) (ended : source[position]? = none) :
    skipBalancedLoop opening closing (fuel + 1) depth source position =
      errf ("unbalanced " ++ quoteByte opening ++ "…" ++ quoteByte closing) source position := by
  have looks : (current : Parser (Option UInt8)) source position = .ok none position := by
    rw [← ended]
    rfl
  exact bind_eq_of_ok looks

theorem passes_byte {value : UInt8} (depth : Int) (here : source[position]? = some value)
    (notOpening : value ≠ opening) (notClosing : value ≠ closing) (notQuote : value ≠ quote) :
    Passes opening closing source position depth (position + 1) depth := by
  intro fuel
  cases fuel with
  | zero => exact Or.inl rfl
  | succ fuel =>
      refine Or.inr ⟨fuel, ?_⟩
      rw [skipBalancedLoop_succ fuel here, if_neg notOpening, if_neg notClosing, if_neg notQuote]
      rfl

/-- A text without quotes and brackets. -/
theorem passes_text {text after : Text} (depth : Int) (here : At source position (text ++ after))
    (plain : ∀ value ∈ text, value ≠ opening ∧ value ≠ closing ∧ value ≠ quote) :
    Passes opening closing source position depth (position + text.length) depth := by
  induction text generalizing position with
  | nil => exact Passes.refl depth
  | cons value text inductionHypothesis =>
      obtain ⟨notOpening, notClosing, notQuote⟩ := plain value List.mem_cons_self
      have later := inductionHypothesis here.tail
        fun value member => plain value (List.mem_cons_of_mem _ member)
      rw [List.length_cons, Nat.add_comm text.length, ← Nat.add_assoc]
      exact (passes_byte depth here.head notOpening notClosing notQuote).trans later

/-- Bytes that are neither elements by themselves nor quotes. -/
theorem IsBrackets.plain (brackets : IsBrackets opening closing) {text : Text}
    (bytes : ∀ value ∈ text, isSingle value = false ∧ value ≠ quote) :
    ∀ value ∈ text, value ≠ opening ∧ value ≠ closing ∧ value ≠ quote := by
  intro value member
  obtain ⟨notSingle, notQuote⟩ := bytes value member
  refine ⟨?_, ?_, notQuote⟩
  · rintro rfl
    rw [brackets.opens] at notSingle
    cases notSingle
  · rintro rfl
    rw [brackets.closes] at notSingle
    cases notSingle

/-- The bytes of an element that is skipped as plain text. -/
theorem Element.plain_text (brackets : IsBrackets opening closing)
    (agrees : (Place.skipped opening closing count outer).Agrees element)
    (notString : element.isString = false) (notSingle : ∀ value alone, element ≠ .single value alone) :
    ∀ value ∈ element.text, value ≠ opening ∧ value ≠ closing ∧ value ≠ quote := by
  cases element with
  | blank blank =>
      apply brackets.plain
      intro value member
      rw [List.mem_singleton.mp member]
      cases blank <;> decide
  | comment text oneLine ending =>
      have tolerated := List.all_eq_true.mp agrees.2
      have edges : ∀ value ∈ byte '#' :: ending.text,
          value ≠ opening ∧ value ≠ closing ∧ value ≠ quote := by
        apply brackets.plain
        cases ending <;> decide +kernel
      intro value member
      rcases List.mem_cons.mp member with rfl | inside
      · exact edges _ List.mem_cons_self
      · rcases List.mem_append.mp inside with inText | inEnding
        · have checked := tolerated value inText
          simp only [Bool.and_eq_true, decide_eq_true_eq] at checked
          exact ⟨checked.1.1, checked.1.2, checked.2⟩
        · exact edges value (List.mem_cons_of_mem _ inEnding)
  | name name =>
      have table : ∀ value, isNameByte value = true → isSingle value = false ∧ value ≠ quote :=
        forall_byte (by decide)
      apply brackets.plain
      intro value member
      exact table value (List.all_eq_true.mp name.bytes value member)
  | number text isNumber =>
      have table : ∀ value, isNumeric value = true → isSingle value = false ∧ value ≠ quote :=
        forall_byte (by decide)
      apply brackets.plain
      intro value member
      exact table value (List.all_eq_true.mp isNumber.numeric value member)
  | dots =>
      apply brackets.plain
      decide +kernel
  | string | block => cases notString
  | single value alone => exact absurd rfl (notSingle value alone)

theorem passes_single {value : UInt8} (positive : 0 < count)
    (here : source[position]? = some value) (alone : isSingle value = true)
    (more : (Element.single value alone).count opening closing count ≠ 0) :
    Passes opening closing source position count (position + 1)
      ((Element.single value alone).count opening closing count) := by
  have notQuote : value ≠ quote := by
    rintro rfl
    exact absurd alone (by decide)
  simp only [Element.count] at more ⊢
  by_cases isOpening : value = opening
  · rw [if_pos isOpening]
    intro fuel
    cases fuel with
    | zero => exact Or.inl rfl
    | succ fuel =>
        refine Or.inr ⟨fuel, ?_⟩
        rw [skipBalancedLoop_succ fuel here, if_pos isOpening]
        rfl
  · rw [if_neg isOpening] at more ⊢
    by_cases isClosing : value = closing
    · rw [if_pos isClosing] at more ⊢
      have deeper : ¬ (count : Int) - 1 = 0 := by omega
      have depth : ((count - 1 : Nat) : Int) = (count : Int) - 1 := by omega
      intro fuel
      cases fuel with
      | zero => exact Or.inl rfl
      | succ fuel =>
          refine Or.inr ⟨fuel, ?_⟩
          rw [skipBalancedLoop_succ fuel here, if_neg isOpening, if_pos isClosing,
            if_neg deeper, depth]
          rfl
    · rw [if_neg isClosing]
      exact passes_byte count here isOpening isClosing notQuote

theorem passes_element (brackets : IsBrackets opening closing) (positive : 0 < count)
    (lexed : Lexed source position (element :: rest))
    (agrees : (Place.skipped opening closing count outer).Agrees element)
    (more : element.count opening closing count ≠ 0) :
    Passes opening closing source position count (position + element.text.length)
      (element.count opening closing count) := by
  cases isString : element.isString with
  | true =>
      have same : element.count opening closing count = count := by
        cases element with
        | string | block => rfl
        | blank | comment | name | number | dots | single => cases isString
      have quoted : element.first = quote := by
        cases element with
        | string | block => rfl
        | blank | comment | name | number | dots | single => cases isString
      have here := lexed.current_eq
      have reads := lexed.readString_ok agrees isString
      have notOpening : quote ≠ opening := by
        rintro rfl
        exact absurd brackets.opens (by decide)
      have notClosing : quote ≠ closing := by
        rintro rfl
        exact absurd brackets.closes (by decide)
      rw [quoted] at here
      rw [same]
      intro fuel
      cases fuel with
      | zero => exact Or.inl rfl
      | succ fuel =>
          refine Or.inr ⟨fuel, ?_⟩
          rw [skipBalancedLoop_succ fuel here, if_neg notOpening, if_neg notClosing, if_pos rfl]
          exact bind_eq_of_ok reads
  | false =>
      cases element with
      | single value alone => exact passes_single positive lexed.current_eq alone more
      | blank | comment | name | number | dots =>
          refine passes_text _ lexed.here ?_
          exact Element.plain_text brackets agrees isString (by simp)
      | string | block => cases isString

/-- The closing bracket of the part ends the loop. -/
theorem closes_element (positive : 0 < count)
    (lexed : Lexed source position (element :: rest))
    (last : element.count opening closing count = 0) (fuel : Nat) :
    skipBalancedLoop opening closing fuel count source position = .exhausted ∨
      skipBalancedLoop opening closing fuel count source position =
        .ok () (position + element.text.length) := by
  cases element with
  | single value alone =>
      have here : source[position]? = some value := lexed.current_eq
      simp only [Element.count] at last
      by_cases isOpening : value = opening
      · rw [if_pos isOpening] at last
        cases last
      · rw [if_neg isOpening] at last
        by_cases isClosing : value = closing
        · rw [if_pos isClosing] at last
          have outermost : (count : Int) - 1 = 0 := by omega
          cases fuel with
          | zero => exact Or.inl rfl
          | succ fuel =>
              refine Or.inr ?_
              rw [skipBalancedLoop_succ fuel here, if_neg isOpening, if_pos isClosing,
                if_pos outermost]
              rfl
        · rw [if_neg isClosing] at last
          omega
  | blank | comment | name | number | dots | string | block =>
      exact absurd last (Nat.pos_iff_ne_zero.mp positive)

/-- A part that is closed is skipped. -/
theorem skipBalancedLoop_of_skipRegion (brackets : IsBrackets opening closing)
    (positive : 0 < count) (lexed : Lexed source position elements)
    (agrees : (Place.skipped opening closing count outer).AgreesAll elements)
    (found : skipRegion opening closing count elements = some (region, rest)) (fuel : Nat) :
    skipBalancedLoop opening closing fuel count source position = .exhausted ∨
      skipBalancedLoop opening closing fuel count source position =
        .ok () (position + (elementsText region).length) := by
  induction elements generalizing count region position fuel with
  | nil => cases found
  | cons element others inductionHypothesis =>
      unfold skipRegion at found
      split at found
      next last =>
        cases found
        have text : elementsText [element] = element.text := List.append_nil _
        rw [text]
        exact closes_element positive lexed last fuel
      next more =>
        obtain ⟨⟨inner, after⟩, foundLater, same⟩ := Option.map_eq_some_iff.mp found
        cases same
        have agreesLater := agrees.2
        rw [Place.next_skipped positive, if_neg more] at agreesLater
        rcases passes_element brackets positive lexed agrees.1 more fuel with
          exhausted | ⟨fuel', passes⟩
        · exact Or.inl exhausted
        · rw [passes, elementsText_cons, List.length_append, ← Nat.add_assoc]
          exact inductionHypothesis (Nat.pos_of_ne_zero more) lexed.next agreesLater foundLater fuel'

/-- More brackets than bytes are never closed. -/
theorem skipBalancedLoop_deep {depth : Int} (deep : (source.length : Int) < position + depth)
    (fuel next : Nat) : skipBalancedLoop opening closing fuel depth source position ≠ .ok () next := by
  induction fuel generalizing position depth with
  | zero =>
      intro returns
      cases returns
  | succ fuel inductionHypothesis =>
      cases here : source[position]? with
      | none =>
          rw [skipBalancedLoop_end fuel here]
          intro returns
          cases returns
      | some value =>
          have more := lt_of_getElem? here
          rw [skipBalancedLoop_succ fuel here]
          split
          next =>
            exact inductionHypothesis (by push_cast; omega)
          next =>
            split
            next =>
              split
              next => omega
              next => exact inductionHypothesis (by push_cast; omega)
            next =>
              split
              next =>
                rcases (reads_readString more).ok_or_failed with
                  ⟨raw, middle, returns, beyond⟩ | ⟨error, fails⟩
                · have ordered := beyond.1
                  rw [bind_eq_of_ok returns]
                  exact inductionHypothesis (by omega)
                · rw [bind_eq_of_failed fails]
                  intro returns
                  cases returns
              next => exact inductionHypothesis (by push_cast; omega)

theorem passes_openings {text after : Text} (depth : Int)
    (here : At source position (text ++ after)) (same : ∀ value ∈ text, value = opening) :
    Passes opening closing source position depth (position + text.length)
      (depth + text.length) := by
  induction text generalizing position depth with
  | nil =>
      have stays : depth + ([] : Text).length = depth := by simp
      rw [stays]
      exact Passes.refl depth
  | cons value text inductionHypothesis =>
      have opens : Passes opening closing source position depth (position + 1) (depth + 1) := by
        intro fuel
        cases fuel with
        | zero => exact Or.inl rfl
        | succ fuel =>
            refine Or.inr ⟨fuel, ?_⟩
            rw [skipBalancedLoop_succ fuel here.head, if_pos (same value List.mem_cons_self)]
            rfl
      have later := inductionHypothesis (depth + 1) here.tail
        fun value member => same value (List.mem_cons_of_mem _ member)
      have length : depth + (value :: text).length = depth + 1 + text.length := by
        rw [List.length_cons]
        push_cast
        omega
      rw [length, List.length_cons, Nat.add_comm text.length, ← Nat.add_assoc]
      exact opens.trans later

/-- A part is not skipped whose brackets are too many. -/
theorem skipBalancedLoop_overflow (brackets : IsBrackets opening closing) (positive : 0 < count)
    (lexed : Lexed source position elements)
    (overflows : (Place.skipped opening closing count outer).Overflows elements)
    (fuel next : Nat) : skipBalancedLoop opening closing fuel count source position ≠ .ok () next := by
  cases elements with
  | nil => cases overflows
  | cons element rest =>
      cases element with
      | comment text oneLine ending =>
          obtain ⟨same, few⟩ := overflows
          have here : At source position (byte '#' :: (text ++ (ending.text ++ elementsText rest))) := by
            have here := lexed.here
            rwa [elementsText_cons, Element.text, List.cons_append, List.append_assoc] at here
          have length := congrArg List.length here.2
          have inside := here.1
          rw [List.length_drop, List.length_cons, List.length_append] at length
          have hash : ∀ value ∈ [byte '#'], isSingle value = false ∧ value ≠ quote := by
            decide +kernel
          obtain ⟨notOpening, notClosing, notQuote⟩ := brackets.plain hash _ List.mem_cons_self
          have passes := (passes_byte count here.head notOpening notClosing notQuote).trans
            (passes_openings count here.tail same)
          rcases passes fuel with exhausted | ⟨fuel', onward⟩
          · rw [exhausted]
            intro returns
            cases returns
          · rw [onward]
            apply skipBalancedLoop_deep
            push_cast
            omega
      | blank | name | number | dots | string | block | single => cases overflows

/-- Only a part that is closed is skipped. -/
theorem skipRegion_of_skipBalancedLoop (brackets : IsBrackets opening closing)
    (positive : 0 < count) (lexed : Lexed source position elements)
    (agrees : (Place.skipped opening closing count outer).AgreesUntil cut elements)
    {fuel next : Nat}
    (returns : skipBalancedLoop opening closing fuel count source position = .ok () next) :
    ∃ region rest, skipRegion opening closing count elements = some (region, rest) ∧
      next = position + (elementsText region).length ∧ outer.AgreesUntil cut rest := by
  induction elements generalizing count position fuel with
  | nil =>
      cases fuel with
      | zero => cases returns
      | succ fuel =>
          rw [skipBalancedLoop_end fuel lexed.ended] at returns
          cases returns
  | cons element others inductionHypothesis =>
      rcases agrees with ⟨-, overflows⟩ | ⟨agreesHere, agreesLater⟩
      · exact absurd returns (skipBalancedLoop_overflow brackets positive lexed overflows fuel next)
      · unfold skipRegion
        rw [Place.next_skipped positive] at agreesLater
        split
        next last =>
          rw [if_pos last] at agreesLater
          refine ⟨_, _, rfl, ?_, agreesLater⟩
          have text : elementsText [element] = element.text := List.append_nil _
          rw [text]
          rcases closes_element positive lexed last fuel with exhausted | closes
          · rw [exhausted] at returns
            cases returns
          · rw [closes] at returns
            cases returns
            rfl
        next more =>
          rw [if_neg more] at agreesLater
          rcases passes_element brackets positive lexed agreesHere more fuel with
            exhausted | ⟨fuel', passes⟩
          · rw [exhausted] at returns
            cases returns
          · rw [passes] at returns
            obtain ⟨region, rest, found, nextEq, agreesRest⟩ :=
              inductionHypothesis (Nat.pos_of_ne_zero more) lexed.next agreesLater returns
            refine ⟨element :: region, rest, ?_, ?_, agreesRest⟩
            · rw [found]
              rfl
            · rw [nextEq, elementsText_cons, List.length_append, Nat.add_assoc]

/-! A part with its opening bracket. -/

theorem skipBalanced_eq_loop (here : source[position]? = some opening) :
    skipBalanced opening closing source position =
      skipBalancedLoop opening closing source.length 1 source (position + 1) := by
  have looks : peek source position = .ok opening position := by
    change Outcome.ok (source[position]?.getD 0) position = _
    rw [here]
    rfl
  have measures : (sourceLength : Parser Nat) source position =
      .ok source.length position := rfl
  refine (bind_eq_of_ok looks).trans ?_
  rw [if_pos rfl]
  refine (bind_eq_of_ok measures).trans ?_
  rw [skipBalancedLoop_succ source.length here, if_pos rfl]
  rfl

section Brackets

variable {place : Place} (brackets : IsBrackets opening closing)
  (opens : place.next (.single opening brackets.opens) = .skipped opening closing 1 outer)

include opens

/-- A part in brackets that is closed is skipped. -/
theorem Facing.skipBalanced_ok
    (facing : Facing false source position place (.single opening brackets.opens :: elements))
    (found : skipRegion opening closing 1 elements = some (region, rest)) :
    skipBalanced opening closing source position =
      .ok () (position + 1 + (elementsText region).length) := by
  have here : source[position]? = some opening := facing.current_eq
  have loops : skipBalanced opening closing source position = _ := skipBalanced_eq_loop here
  have agrees := (facing.agrees.step facing.outside).2
  rw [opens, Place.agreesUntil_end] at agrees
  have reads := reads_skipBalanced opening closing facing.here.1
  rw [Reads, loops] at reads
  rw [loops]
  rcases skipBalancedLoop_of_skipRegion brackets (Nat.le_refl 1) facing.toLexed.next agrees found
    source.length with exhausted | returns
  · have exhausted' : skipBalancedLoop opening closing source.length 1 source (position + 1) =
        .exhausted := exhausted
    rw [exhausted'] at reads
    exact reads.elim
  · exact returns

/-- A part in brackets that is skipped is closed. -/
theorem Facing.of_skipBalanced
    (facing : Facing cut source position place (.single opening brackets.opens :: elements))
    (outside : outer.isSkipped = false) {next : Nat}
    (returns : skipBalanced opening closing source position = .ok () next) :
    ∃ region rest, skipRegion opening closing 1 elements = some (region, rest) ∧
      next = position + 1 + (elementsText region).length ∧ Facing cut source next outer rest := by
  have agrees := (facing.agrees.step facing.outside).2
  rw [opens] at agrees
  have here : source[position]? = some opening := facing.current_eq
  rw [skipBalanced_eq_loop here] at returns
  obtain ⟨region, rest, found, nextEq, agreesRest⟩ :=
    skipRegion_of_skipBalancedLoop brackets (Nat.le_refl 1) facing.toLexed.next agrees returns
  have next := facing.toLexed.next
  rw [skipRegion_eq_append found] at next
  have here := next.here
  rw [elementsText_append] at here
  subst nextEq
  exact ⟨region, rest, found, rfl, ⟨here.append, (List.isChain_append.mp next.apart).2.1⟩,
    outside, agreesRest⟩

end Brackets

end Regions

end GitScale.GraphQL
