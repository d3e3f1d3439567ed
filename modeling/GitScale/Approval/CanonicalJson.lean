import GitScale.Approval.FloatText
import GitScale.Approval.JsonText
import GitScale.Go.JsonString

/-!
# Canonical payloads

`CanonicalPayload` decodes a text into an `any`, where each number is a `float64`, and writes the
value again with sorted keys.  So two texts give the same bytes exactly if they mean the same
after their numbers are rounded and what is no character is replaced.
-/

namespace GitScale.Approval

open Foundation Go GraphQL

/-! ## Decoding -/

/-- The fields of a map after `m[key] = value` for each entry in turn. -/
def assigned {Value : Type} (entries : List (String × Value)) : List (String × Value) :=
  entries.foldl (fun fields entry => setEntry fields entry.1 entry.2) []

mutual

/-- What `json.Unmarshal` stores in an `any`. -/
def valueInterface : JsonTree → JsonValue
  | .null => .null
  | .bool value => .bool value
  | .number numeral => .number (parsedBits numeral)
  | .string body => .string (unquote body)
  | .array elements => .array (arrayInterface elements)
  | .object members => .object (assigned (objectInterface members))

def arrayInterface : List JsonTree → List JsonValue
  | [] => []
  | element :: rest => valueInterface element :: arrayInterface rest

def objectInterface : List (Text × JsonTree) → List (String × JsonValue)
  | [] => []
  | (key, value) :: rest => (unquote key, valueInterface value) :: objectInterface rest

end

/-- `maxNestingDepth` of the scanner. -/
def maxNestingDepth : Nat := 10000

/-- `json.Unmarshal` into an `any`.  A number out of range is reported after the whole text is
decoded. -/
def unmarshal (describe : Bytes → String) (text : Bytes) : Except String JsonValue :=
  match readJson text with
  | none => .error (describe text)
  | some tree =>
      if tree.depth ≤ maxNestingDepth ∧
          tree.numerals.all (fun numeral => (parseFloat numeral).isSome) then
        .ok (valueInterface tree)
      else .error (describe text)

/-- `encoding/json`, with the texts of its errors left open. -/
def encodingJson (describe : Bytes → String) : JsonCodec where
  unmarshal := unmarshal describe
  marshalString text := .ok (appendString (utf8 text))
  marshalNumber := marshalNumber

/-! ## What is written -/

mutual

/-- The text of a value, with the fields of an object in the order of the list. -/
def JsonValue.text : JsonValue → Text
  | .null => utf8 "null"
  | .bool value => utf8 (if value then "true" else "false")
  | .number bits => (numberNumeral bits).text
  | .string text => appendString (utf8 text)
  | .array elements => byte '[' :: separated (byte ',') (byte ']') id (elementTexts elements)
  | .object fields => byte '\x7b' :: separated (byte ',') (byte '\x7d') id (fieldTexts fields)

def elementTexts : List JsonValue → List Text
  | [] => []
  | element :: rest => element.text :: elementTexts rest

def fieldTexts : List (String × JsonValue) → List Text
  | [] => []
  | (key, value) :: rest => (appendString (utf8 key) ++ byte ':' :: value.text) :: fieldTexts rest

end

/-- The fields in the order of their keys. -/
def sortFields {Value : Type} (fields : List (String × Value)) : List (String × Value) :=
  fields.insertionSort fun left right => left.1 ≤ right.1

mutual

/-- A value with the fields of each object in order. -/
def JsonValue.sorted : JsonValue → JsonValue
  | .null => .null
  | .bool value => .bool value
  | .number bits => .number bits
  | .string text => .string text
  | .array elements => .array (sortedElements elements)
  | .object fields => .object (sortFields (sortedFields fields))

def sortedElements : List JsonValue → List JsonValue
  | [] => []
  | element :: rest => element.sorted :: sortedElements rest

def sortedFields : List (String × JsonValue) → List (String × JsonValue)
  | [] => []
  | (key, value) :: rest => (key, value.sorted) :: sortedFields rest

end

/-- All numbers of the value are finite. -/
inductive JsonValue.Finite : JsonValue → Prop where
  | null : Finite .null
  | bool (value : Bool) : Finite (.bool value)
  | number {bits : UInt64} (written : marshalNumber bits = .ok (numberNumeral bits).text) :
      Finite (.number bits)
  | string (text : String) : Finite (.string text)
  | array {elements : List JsonValue} (inside : ∀ element ∈ elements, Finite element) :
      Finite (.array elements)
  | object {fields : List (String × JsonValue)} (inside : ∀ field ∈ fields, Finite field.2) :
      Finite (.object fields)

theorem elementTexts_eq (elements : List JsonValue) :
    elementTexts elements = elements.map JsonValue.text := by
  induction elements with
  | nil => rfl
  | cons element rest inductionHypothesis => rw [elementTexts, inductionHypothesis, List.map_cons]

/-- The text of one field. -/
def writtenField (field : String × JsonValue) : Text :=
  appendString (utf8 field.1) ++ byte ':' :: field.2.text

theorem fieldTexts_eq (fields : List (String × JsonValue)) :
    fieldTexts fields = fields.map writtenField := by
  induction fields with
  | nil => rfl
  | cons field rest inductionHypothesis => rw [fieldTexts, inductionHypothesis, List.map_cons]; rfl

theorem sortedElements_eq (elements : List JsonValue) :
    sortedElements elements = elements.map JsonValue.sorted := by
  induction elements with
  | nil => rfl
  | cons element rest inductionHypothesis =>
      rw [sortedElements, inductionHypothesis, List.map_cons]

theorem sortedFields_eq (fields : List (String × JsonValue)) :
    sortedFields fields = fields.map fun field => (field.1, field.2.sorted) := by
  induction fields with
  | nil => rfl
  | cons field rest inductionHypothesis =>
      rw [sortedFields, inductionHypothesis, List.map_cons]

/-! ## `canonicalize` -/

/-- Texts with commas between them. -/
def joined : List Text → Text
  | [] => []
  | [text] => text
  | text :: rest => text ++ byte ',' :: joined rest

theorem emitElements_ok (texts : List Text) :
    emitElements (texts.map .ok) = .ok (joined texts) := by
  induction texts with
  | nil => rfl
  | cons text rest inductionHypothesis =>
      cases rest with
      | nil => rfl
      | cons other rest =>
          have comma : ",".toUTF8.toList = [byte ','] := toList_toUTF8 _
          have later : emitElements (.ok other :: rest.map .ok) = .ok (joined (other :: rest)) :=
            inductionHypothesis
          rw [List.map_cons, List.map_cons, emitElements, later]
          · show Except.ok (text ++ ",".toUTF8.toList ++ joined (other :: rest)) = _
            rw [comma, List.append_assoc]
            rfl
          · simp

theorem joined_append (close : UInt8) (texts : List Text) :
    joined texts ++ [close] = separated (byte ',') close id texts := by
  induction texts with
  | nil => rfl
  | cons text rest inductionHypothesis =>
      cases rest with
      | nil => rfl
      | cons other rest =>
          rw [separated] at inductionHypothesis
          rw [joined, separated, separatedTail, ← inductionHypothesis]
          · simp
          · simp

theorem canonicalizeElements_eq (codec : JsonCodec) (elements : List JsonValue) :
    canonicalizeElements codec elements = elements.map (canonicalize codec) := by
  induction elements with
  | nil => rfl
  | cons element rest inductionHypothesis =>
      rw [canonicalizeElements, inductionHypothesis, List.map_cons]

theorem canonicalizeFields_eq (codec : JsonCodec) (fields : List (String × JsonValue)) :
    canonicalizeFields codec fields =
      fields.map fun field => (field.1, canonicalize codec field.2) := by
  induction fields with
  | nil => rfl
  | cons field rest inductionHypothesis =>
      rw [canonicalizeFields, inductionHypothesis, List.map_cons]

theorem sortFields_map {Value Image : Type} (image : Value → Image)
    (fields : List (String × Value)) :
    sortFields (fields.map fun field => (field.1, image field.2)) =
      (sortFields fields).map fun field => (field.1, image field.2) := by
  exact (List.map_insertionSort (fun left right : String × Value => left.1 ≤ right.1)
    (fun left right : String × Image => left.1 ≤ right.1) _ fields fun _ _ _ _ => Iff.rfl).symm

theorem canonicalize_array {describe : Bytes → String} {elements : List JsonValue}
    (written : ∀ element ∈ elements,
      canonicalize (encodingJson describe) element = .ok element.sorted.text) :
    canonicalize (encodingJson describe) (.array elements) =
      .ok (JsonValue.array elements).sorted.text := by
  have opening : "[".toUTF8.toList = [byte '['] := toList_toUTF8 _
  have closing : "]".toUTF8.toList = [byte ']'] := toList_toUTF8 _
  have parts : canonicalizeElements (encodingJson describe) elements =
      (elementTexts (sortedElements elements)).map .ok := by
    rw [canonicalizeElements_eq, elementTexts_eq, sortedElements_eq, List.map_map, List.map_map]
    exact List.map_congr_left written
  rw [canonicalize, parts, emitElements_ok, JsonValue.sorted, JsonValue.text, ← joined_append]
  show Except.ok ("[".toUTF8.toList ++ joined (elementTexts (sortedElements elements)) ++
    "]".toUTF8.toList) = _
  rw [opening, closing, List.append_assoc]
  rfl

theorem canonicalize_object {describe : Bytes → String} {fields : List (String × JsonValue)}
    (written : ∀ field ∈ fields,
      canonicalize (encodingJson describe) field.2 = .ok field.2.sorted.text) :
    canonicalize (encodingJson describe) (.object fields) =
      .ok (JsonValue.object fields).sorted.text := by
  have opening : "\x7b".toUTF8.toList = [byte '\x7b'] := toList_toUTF8 _
  have closing : "\x7d".toUTF8.toList = [byte '\x7d'] := toList_toUTF8 _
  have colon : ":".toUTF8.toList = [byte ':'] := toList_toUTF8 _
  have parts : (sortFields (canonicalizeFields (encodingJson describe) fields)).map
      (emitField (encodingJson describe)) =
        (fieldTexts (sortFields (sortedFields fields))).map .ok := by
    have values : canonicalizeFields (encodingJson describe) fields =
        fields.map fun field => (field.1, Except.ok field.2.sorted.text) := by
      rw [canonicalizeFields_eq]
      apply List.map_congr_left
      intro field inside
      rw [written field inside]
    rw [values, sortedFields_eq, fieldTexts_eq, sortFields_map JsonValue.sorted,
      sortFields_map fun value : JsonValue => Except.ok value.sorted.text, List.map_map,
      List.map_map, List.map_map]
    apply List.map_congr_left
    intro field inside
    show Except.ok (appendString (utf8 field.1) ++ ":".toUTF8.toList ++ field.2.sorted.text) = _
    rw [colon, List.append_assoc]
    rfl
  rw [sortFields] at parts
  rw [canonicalize, parts, emitElements_ok, JsonValue.sorted, JsonValue.text, ← joined_append]
  show Except.ok ("\x7b".toUTF8.toList ++ joined (fieldTexts (sortFields (sortedFields fields))) ++
    "\x7d".toUTF8.toList) = _
  rw [opening, closing, List.append_assoc]
  rfl

/-- The canonical text of a finite value. -/
theorem JsonValue.Finite.canonicalize_eq (describe : Bytes → String) {value : JsonValue}
    (finite : value.Finite) :
    canonicalize (encodingJson describe) value = .ok value.sorted.text := by
  induction finite with
  | null => exact congrArg Except.ok (toList_toUTF8 _)
  | bool value => exact congrArg Except.ok (toList_toUTF8 _)
  | number written => exact written
  | string text => rfl
  | array inside inductionHypothesis => exact canonicalize_array inductionHypothesis
  | object inside inductionHypothesis => exact canonicalize_object inductionHypothesis

/-! ## What the text determines -/

/-- Induction with the elements and the fields at hand. -/
theorem JsonValue.induction {property : JsonValue → Prop} (null : property .null)
    (bool : ∀ value, property (.bool value)) (number : ∀ bits, property (.number bits))
    (string : ∀ text, property (.string text))
    (array : ∀ elements, (∀ element ∈ elements, property element) → property (.array elements))
    (object : ∀ fields, (∀ field ∈ fields, property field.2) → property (.object fields))
    (value : JsonValue) : property value := by
  refine @JsonValue.rec property (fun elements => ∀ element ∈ elements, property element)
    (fun fields => ∀ field ∈ fields, property field.2) (fun field => property field.2)
    null bool number string array object ?_ ?_ ?_ ?_ ?_ value
  · simp
  · intro first others holds later
    exact List.forall_mem_cons.mpr ⟨holds, later⟩
  · simp
  · intro first others holds later
    exact List.forall_mem_cons.mpr ⟨holds, later⟩
  · intro key value holds
    exact holds

/-- What a text starts with. -/
inductive Start where
  | null
  | true
  | false
  | number
  | string
  | array
  | object
  deriving DecidableEq

/-- A value shows what it is with its first byte. -/
def startOf (first : UInt8) : Start :=
  if first = byte 'n' then .null
  else if first = byte 't' then .true
  else if first = byte 'f' then .false
  else if first = quotation then .string
  else if first = byte '[' then .array
  else if first = byte '\x7b' then .object
  else .number

def JsonValue.start : JsonValue → Start
  | .null => .null
  | .bool true => .true
  | .bool false => .false
  | .number _ => .number
  | .string _ => .string
  | .array _ => .array
  | .object _ => .object

/-- A number starts with a sign or a digit. -/
theorem startOf_number : ∀ first : UInt8, (first = byte '-' ∨ isDigit first = true) →
    startOf first = .number ∧ first ≠ byte ']' := forall_byte (by decide)

theorem JsonValue.text_start (value : JsonValue) :
    ∃ first others, value.text = first :: others ∧ startOf first = value.start ∧
      first ≠ byte ']' := by
  cases value with
  | null => exact ⟨byte 'n', _, rfl, by decide, by decide⟩
  | bool value =>
      cases value with
      | true => exact ⟨byte 't', _, rfl, by decide, by decide⟩
      | false => exact ⟨byte 'f', _, rfl, by decide, by decide⟩
  | number bits =>
      have valid := floatNumeral_valid (signOf bits) (magnitudeBits bits)
      obtain ⟨first, others, mantissa, starts, -⟩ := mantissa_eq_cons valid
      obtain ⟨number, different⟩ := startOf_number first starts
      refine ⟨first, others ++ (numberNumeral bits).exponent.elim [] Exponent.text, ?_, number,
        different⟩
      rw [JsonValue.text, Numeral.text, ← List.cons_append, ← mantissa]
      rfl
  | string text => exact ⟨quotation, _, rfl, rfl, by decide⟩
  | array elements => exact ⟨byte '[', _, by rw [JsonValue.text], rfl, by decide⟩
  | object fields => exact ⟨byte '\x7b', _, by rw [JsonValue.text], rfl, by decide⟩

theorem JsonValue.start_eq_of_text {value other : JsonValue} {rest rest' : Text}
    (same : value.text ++ rest = other.text ++ rest') : value.start = other.start := by
  obtain ⟨first, others, text, start, -⟩ := value.text_start
  obtain ⟨first', others', text', start', -⟩ := other.text_start
  rw [text, text', List.cons_append, List.cons_append] at same
  rw [← start, ← start', (List.cons.inj same).1]

theorem broken_not_mem_pieces (characters : List Char) :
    .broken ∉ pieces (characters.flatMap String.utf8EncodeChar) := by
  induction characters with
  | nil => exact List.not_mem_nil
  | cons character characters inductionHypothesis =>
      have encoded := encoded_utf8EncodeChar character
      rw [List.flatMap_cons, pieces_rune ⟨_, _, encoded⟩, List.mem_cons]
      rintro (wrong | later)
      · cases wrong
      · exact inductionHypothesis later

theorem validUTF8_utf8 (text : String) : validUTF8 (utf8 text) = true := by
  have whole := broken_not_mem_pieces text.toList
  rw [← utf8_eq_flatMap] at whole
  simpa [validUTF8] using whole

/-- The text of a string determines the string. -/
theorem delimits_appendString (text : String) :
    Delimits anywhere (fun text => appendString (utf8 text)) text := by
  intro other rest rest' _ _ same
  obtain ⟨parts, remaining⟩ := delimits_stringText (pieces (utf8 text)) trivial trivial same
  exact ⟨utf8_injective (eq_of_pieces (validUTF8_utf8 text) parts), remaining⟩

theorem delimits_writtenField {field : String × JsonValue}
    (delimits : Delimits EndsNumber JsonValue.text field.2) :
    Delimits EndsNumber writtenField field :=
  (delimits_appendString field.1).pair (delimits.prepend [byte ':']) fun _ _ _ => trivial

theorem endsNumber_cons {first : UInt8} (ends : endsNumber first = true) (rest : Text) :
    EndsNumber (first :: rest) := by
  intro value head
  cases head
  exact ends

theorem delimits_elements {elements : List JsonValue}
    (delimits : ∀ element ∈ elements, Delimits EndsNumber JsonValue.text element) :
    Delimits anywhere (separated (byte ',') (byte ']') JsonValue.text) elements := by
  refine delimits_separated (by decide) (endsNumber_cons (by decide))
    (endsNumber_cons (by decide)) ?_ delimits
  intro value rest start
  obtain ⟨first, others, text, -, different⟩ := value.text_start
  rw [text] at start
  exact different (Option.some.inj start)

theorem delimits_fields {fields : List (String × JsonValue)}
    (delimits : ∀ field ∈ fields, Delimits EndsNumber JsonValue.text field.2) :
    Delimits anywhere (separated (byte ',') (byte '\x7d') writtenField) fields := by
  refine delimits_separated (by decide) (endsNumber_cons (by decide))
    (endsNumber_cons (by decide)) ?_
    fun field inside => delimits_writtenField (delimits field inside)
  intro field rest start
  have opening : quotation = byte '\x7d' := Option.some.inj start
  exact absurd opening (by decide)

theorem JsonValue.text_array (elements : List JsonValue) :
    (JsonValue.array elements).text =
      byte '[' :: separated (byte ',') (byte ']') JsonValue.text elements := by
  rw [JsonValue.text, elementTexts_eq, separated_map]
  rfl

theorem JsonValue.text_object (fields : List (String × JsonValue)) :
    (JsonValue.object fields).text =
      byte '\x7b' :: separated (byte ',') (byte '\x7d') writtenField fields := by
  rw [JsonValue.text, fieldTexts_eq, separated_map]
  rfl

/-- The text of a value determines the value. -/
theorem delimits_text (value : JsonValue) : Delimits EndsNumber JsonValue.text value := by
  induction value using JsonValue.induction with
  | null =>
      intro other rest rest' ends ends' same
      have start := JsonValue.start_eq_of_text same
      cases other with
      | null => exact ⟨rfl, List.append_cancel_left same⟩
      | bool value => cases value <;> cases start
      | number | string | array | object => cases start
  | bool value =>
      intro other rest rest' ends ends' same
      have start := JsonValue.start_eq_of_text same
      cases other with
      | bool value' =>
          have equal : value = value' := by
            cases value <;> cases value' <;> first | rfl | cases start
          cases equal
          exact ⟨rfl, List.append_cancel_left same⟩
      | null | number | string | array | object => cases value <;> cases start
  | number bits =>
      intro other rest rest' ends ends' same
      have start := JsonValue.start_eq_of_text same
      cases other with
      | number bits' =>
          obtain ⟨equal, remaining⟩ := delimits_numberText bits ends ends' same
          exact ⟨congrArg JsonValue.number equal, remaining⟩
      | bool value => cases value <;> cases start
      | null | string | array | object => cases start
  | string text =>
      intro other rest rest' ends ends' same
      have start := JsonValue.start_eq_of_text same
      cases other with
      | string text' =>
          obtain ⟨equal, remaining⟩ := delimits_appendString text trivial trivial same
          exact ⟨congrArg JsonValue.string equal, remaining⟩
      | bool value => cases value <;> cases start
      | null | number | array | object => cases start
  | array elements inductionHypothesis =>
      intro other rest rest' ends ends' same
      have start := JsonValue.start_eq_of_text same
      cases other with
      | array elements' =>
          rw [JsonValue.text_array, JsonValue.text_array] at same
          obtain ⟨equal, remaining⟩ := ((delimits_elements inductionHypothesis).prepend [byte '['])
            trivial trivial same
          exact ⟨congrArg JsonValue.array equal, remaining⟩
      | bool value => cases value <;> cases start
      | null | number | string | object => cases start
  | object fields inductionHypothesis =>
      intro other rest rest' ends ends' same
      have start := JsonValue.start_eq_of_text same
      cases other with
      | object fields' =>
          rw [JsonValue.text_object, JsonValue.text_object] at same
          obtain ⟨equal, remaining⟩ := ((delimits_fields inductionHypothesis).prepend [byte '\x7b'])
            trivial trivial same
          exact ⟨congrArg JsonValue.object equal, remaining⟩
      | bool value => cases value <;> cases start
      | null | number | string | array => cases start

theorem text_injective : Function.Injective JsonValue.text :=
  Delimits.injective delimits_text fun _ head => by cases head

/-! ## Rounded meanings -/

/-- The two trees mean the same after rounding: numbers, as they are read, to the nearest
`float64` with their sign, and what is no character to the replacement character. -/
def SameRounded (tree tree' : JsonTree) : Prop :=
  tree.meaning parsedBits unquote = tree'.meaning parsedBits unquote

/-- The text can be decoded: it is not nested too deep, and no number is out of range. -/
structure JsonTree.Decodable (tree : JsonTree) : Prop where
  depth : tree.depth ≤ maxNestingDepth
  range : ∀ numeral ∈ tree.numerals, readMagnitude numeral < outOfRange

theorem arrayInterface_eq (elements : List JsonTree) :
    arrayInterface elements = elements.map valueInterface := by
  induction elements with
  | nil => rfl
  | cons element rest inductionHypothesis =>
      rw [arrayInterface, inductionHypothesis, List.map_cons]

theorem objectInterface_eq (members : List (Text × JsonTree)) :
    objectInterface members =
      members.map fun entry => (unquote entry.1, valueInterface entry.2) := by
  induction members with
  | nil => rfl
  | cons entry rest inductionHypothesis =>
      rw [objectInterface, inductionHypothesis, List.map_cons]

section Assigned

variable {Value : Type}

theorem lookup_setEntry (fields : List (String × Value)) (key other : String) (value : Value) :
    (setEntry fields key value).lookup other =
      if key = other then some value else fields.lookup other := by
  unfold setEntry
  induction fields with
  | nil =>
      by_cases same : key = other
      · subst same
        simp
      · have differs : (other == key) = false := beq_false_of_ne (Ne.symm same)
        simp [List.lookup_cons, differs, same]
  | cons field fields inductionHypothesis =>
      obtain ⟨name, old⟩ := field
      by_cases replaced : name = key
      · rw [List.filter_cons_of_neg (by simpa using replaced), inductionHypothesis]
        by_cases same : key = other
        · rw [if_pos same, if_pos same]
        · have differs : (other == name) = false := beq_false_of_ne fun equal =>
            same (replaced.symm.trans equal.symm)
          rw [if_neg same, if_neg same, List.lookup_cons, differs]
      · rw [List.filter_cons_of_pos (by simpa using replaced), List.cons_append, List.lookup_cons,
          List.lookup_cons, inductionHypothesis]
        by_cases found : other = name
        · simp [found, Ne.symm replaced]
        · have differs : (other == name) = false := beq_false_of_ne found
          rw [differs]

theorem lookup_foldl_setEntry (entries fields : List (String × Value)) (key : String) :
    (entries.foldl (fun fields entry => setEntry fields entry.1 entry.2) fields).lookup key =
      (lastEntry key entries).or (fields.lookup key) := by
  induction entries generalizing fields with
  | nil => rfl
  | cons entry entries inductionHypothesis =>
      rw [List.foldl_cons, inductionHypothesis, lookup_setEntry, lastEntry, Option.or_assoc]
      split_ifs <;> rfl

/-- The last value that was assigned to a key is the one in the map. -/
theorem lookup_assigned (entries : List (String × Value)) (key : String) :
    (assigned entries).lookup key = lastEntry key entries := by
  rw [assigned, lookup_foldl_setEntry, List.lookup_nil, Option.or_none]

theorem distinct_setEntry {fields : List (String × Value)} (key : String) (value : Value)
    (distinct : (fields.map Prod.fst).Nodup) :
    ((setEntry fields key value).map Prod.fst).Nodup := by
  unfold setEntry
  rw [List.map_append, List.nodup_append]
  refine ⟨distinct.sublist (List.filter_sublist.map _), List.nodup_singleton key, ?_⟩
  intro name member other last
  simp only [List.mem_map, List.mem_filter, decide_eq_true_eq] at member
  obtain ⟨field, ⟨-, different⟩, rfl⟩ := member
  simp only [List.map_cons, List.map_nil, List.mem_singleton] at last
  rw [last]
  exact different

theorem assigned_distinct (entries : List (String × Value)) :
    ((assigned entries).map Prod.fst).Nodup := by
  have kept : ∀ fields : List (String × Value), (fields.map Prod.fst).Nodup →
      ((entries.foldl (fun fields entry => setEntry fields entry.1 entry.2) fields).map
        Prod.fst).Nodup := by
    induction entries with
    | nil => exact fun fields distinct => distinct
    | cons entry entries inductionHypothesis =>
        intro fields distinct
        exact inductionHypothesis _ (distinct_setEntry entry.1 entry.2 distinct)
  exact kept [] List.nodup_nil

/-- A field of the map is one of the entries. -/
theorem mem_of_mem_assigned {entries : List (String × Value)} {field : String × Value}
    (inside : field ∈ assigned entries) : field ∈ entries := by
  have found : (assigned entries).lookup field.1 = some field.2 :=
    (lookup_eq_some_iff_mem (assigned_distinct entries)).mpr inside
  rw [lookup_assigned] at found
  exact mem_of_lastEntry found

end Assigned

/-- A number is in range if the nearest `float64` is finite. -/
theorem parseFloat_isSome_iff (numeral : Numeral) :
    (parseFloat numeral).isSome = true ↔ readMagnitude numeral < outOfRange := by
  rw [← nearest_lt_infinityBits_iff (readMagnitude_nonneg numeral), parseFloat]
  split_ifs with finite
  · simp [finite]
  · simp [finite]

theorem finite_valueInterface {tree : JsonTree}
    (range : ∀ numeral ∈ tree.numerals, readMagnitude numeral < outOfRange) :
    (valueInterface tree).Finite := by
  induction tree using JsonTree.induction with
  | null => exact .null
  | bool value => exact .bool value
  | number numeral =>
      have occurs : numeral ∈ (JsonTree.number numeral).numerals := by simp [JsonTree.numerals]
      have parsed := (parseFloat_isSome_iff numeral).mpr (range numeral occurs)
      obtain ⟨bits, found⟩ := Option.isSome_iff_exists.mp parsed
      have same : parsedBits numeral = bits := by
        rw [parseFloat] at found
        split_ifs at found
        exact Option.some.inj found
      rw [valueInterface, same]
      exact .number (marshalNumber_of_parseFloat found)
  | string body => exact .string _
  | array elements inductionHypothesis =>
      rw [valueInterface, arrayInterface_eq]
      apply JsonValue.Finite.array
      intro value inside
      obtain ⟨element, member, rfl⟩ := List.mem_map.mp inside
      exact inductionHypothesis element member fun numeral occurs =>
        range numeral (mem_elementNumerals member occurs)
  | object members inductionHypothesis =>
      rw [valueInterface, objectInterface_eq]
      apply JsonValue.Finite.object
      intro field inside
      obtain ⟨entry, member, rfl⟩ := List.mem_map.mp (mem_of_mem_assigned inside)
      exact inductionHypothesis entry member fun numeral occurs =>
        range numeral (mem_memberNumerals member occurs)

theorem lookup_map_value {Value Image : Type} (image : Value → Image)
    (fields : List (String × Value)) (key : String) :
    (fields.map fun field => (field.1, image field.2)).lookup key =
      (fields.lookup key).map image := by
  induction fields with
  | nil => rfl
  | cons field fields inductionHypothesis =>
      rw [List.map_cons, List.lookup_cons, List.lookup_cons, inductionHypothesis]
      cases key == field.1 <;> rfl

/-- The field of a key, in order, comes from the last member with the key. -/
theorem lookup_sortedFields (members : List (Text × JsonTree)) (key : String) :
    (sortedFields (assigned (objectInterface members))).lookup key =
      (lastTree unquote key members).map fun tree => (valueInterface tree).sorted := by
  have entries : objectInterface members = (members.map fun entry => (unquote entry.1, entry.2)).map
      fun entry => (entry.1, valueInterface entry.2) := by
    rw [objectInterface_eq, List.map_map]
    rfl
  rw [sortedFields_eq, lookup_map_value, lookup_assigned, entries, lastEntry_map, lastTree,
    Option.map_map]
  rfl

theorem sortedFields_distinct (members : List (Text × JsonTree)) :
    ((sortedFields (assigned (objectInterface members))).map Prod.fst).Nodup := by
  rw [sortedFields_eq, List.map_map]
  exact assigned_distinct _

/-- Lists with the same images under one map have the same images under another one. -/
theorem map_eq_map_iff_of {First Second : Type} {elements elements' : List JsonTree}
    {image : JsonTree → First} {image' : JsonTree → Second}
    (alike : ∀ element ∈ elements, ∀ other ∈ elements',
      image element = image other ↔ image' element = image' other) :
    elements.map image = elements'.map image ↔ elements.map image' = elements'.map image' := by
  induction elements generalizing elements' with
  | nil => simp
  | cons element elements inductionHypothesis =>
      cases elements' with
      | nil => simp
      | cons other elements' =>
          have first := alike element List.mem_cons_self other List.mem_cons_self
          have others := inductionHypothesis fun element later other later' =>
            alike element (List.mem_cons_of_mem _ later) other (List.mem_cons_of_mem _ later')
          rw [List.map_cons, List.map_cons, List.map_cons, List.map_cons, List.cons.injEq,
            List.cons.injEq, first, others]

theorem sorted_array_eq_iff {elements elements' : List JsonTree}
    (alike : ∀ element ∈ elements, ∀ tree',
      (valueInterface element).sorted = (valueInterface tree').sorted ↔ SameRounded element tree') :
    (valueInterface (.array elements)).sorted = (valueInterface (.array elements')).sorted ↔
      SameRounded (.array elements) (.array elements') := by
  unfold SameRounded at alike ⊢
  simp only [valueInterface, JsonValue.sorted, JsonTree.meaning, JsonValue.array.injEq,
    JsonMeaning.array.injEq, arrayInterface_eq, sortedElements_eq, elementMeanings_eq, List.map_map]
  exact map_eq_map_iff_of fun element inside other _ => alike element inside other

theorem sorted_object_eq_iff {members members' : List (Text × JsonTree)}
    (alike : ∀ entry ∈ members, ∀ tree',
      (valueInterface entry.2).sorted = (valueInterface tree').sorted ↔
        SameRounded entry.2 tree') :
    (valueInterface (.object members)).sorted = (valueInterface (.object members')).sorted ↔
      SameRounded (.object members) (.object members') := by
  unfold SameRounded at alike ⊢
  simp only [valueInterface, JsonValue.sorted, JsonTree.meaning, JsonValue.object.injEq,
    JsonMeaning.object.injEq]
  rw [sortFields, sortFields, insertionSort_eq_iff_lookup (sortedFields_distinct members)
    (sortedFields_distinct members'), funext_iff]
  apply forall_congr'
  intro key
  rw [lookup_sortedFields, lookup_sortedFields, lastEntry_memberMeanings, lastEntry_memberMeanings]
  cases found : lastTree unquote key members with
  | none =>
      cases lastTree unquote key members' with
      | none => simp
      | some tree' => simp
  | some tree =>
      obtain ⟨entry, inside, rfl⟩ := exists_of_lastTree unquote found
      cases lastTree unquote key members' with
      | none => simp
      | some tree' =>
          rw [Option.map_some, Option.map_some, Option.map_some, Option.map_some,
            Option.some.injEq, Option.some.injEq]
          exact alike entry inside tree'

/-- The values of two trees are equal, up to the order of fields, exactly if the trees mean the
same after rounding. -/
theorem sorted_eq_iff (tree tree' : JsonTree) :
    (valueInterface tree).sorted = (valueInterface tree').sorted ↔ SameRounded tree tree' := by
  induction tree using JsonTree.induction generalizing tree' with
  | null =>
      cases tree' <;> simp [SameRounded, valueInterface, JsonValue.sorted, JsonTree.meaning]
  | bool value =>
      cases tree' <;> simp [SameRounded, valueInterface, JsonValue.sorted, JsonTree.meaning]
  | number numeral =>
      cases tree' <;> simp [SameRounded, valueInterface, JsonValue.sorted, JsonTree.meaning]
  | string body =>
      cases tree' <;> simp [SameRounded, valueInterface, JsonValue.sorted, JsonTree.meaning]
  | array elements inductionHypothesis =>
      cases tree' with
      | array elements' => exact sorted_array_eq_iff inductionHypothesis
      | null | bool | number | string | object =>
          simp [SameRounded, valueInterface, JsonValue.sorted, JsonTree.meaning]
  | object members inductionHypothesis =>
      cases tree' with
      | object members' => exact sorted_object_eq_iff inductionHypothesis
      | null | bool | number | string | array =>
          simp [SameRounded, valueInterface, JsonValue.sorted, JsonTree.meaning]

/-! ## Payloads -/

theorem ne_nil_of_denotes {text : Text} {tree : JsonTree} (denotes : Denotes text tree) :
    text ≠ [] := by
  intro empty
  obtain ⟨first, others, tokens, -⟩ := tree.tokens_eq_cons
  rw [Denotes, empty, tokens] at denotes
  cases denotes

theorem decodable_iff (tree : JsonTree) :
    (tree.depth ≤ maxNestingDepth ∧
      tree.numerals.all (fun numeral => (parseFloat numeral).isSome) = true) ↔ tree.Decodable := by
  rw [List.all_eq_true]
  constructor
  · intro accepted
    exact ⟨accepted.1, fun numeral occurs =>
      (parseFloat_isSome_iff numeral).mp (accepted.2 numeral occurs)⟩
  · intro decodable
    exact ⟨decodable.depth, fun numeral occurs =>
      (parseFloat_isSome_iff numeral).mpr (decodable.range numeral occurs)⟩

/-- A text that can be decoded has a canonical payload, and no other one has. -/
theorem canonicalPayload_eq_ok_iff (describe : Bytes → String) {text : Text} {tree : JsonTree}
    (denotes : Denotes text tree) (bytes : Bytes) :
    canonicalPayload (encodingJson describe) text = .ok bytes ↔
      tree.Decodable ∧ (valueInterface tree).sorted.text = bytes := by
  have read := readJson_of_denotes denotes
  have decoded : (encodingJson describe).unmarshal text =
      if tree.depth ≤ maxNestingDepth ∧
        tree.numerals.all (fun numeral => (parseFloat numeral).isSome) = true
      then .ok (valueInterface tree) else .error (describe text) := by
    show unmarshal describe text = _
    rw [unmarshal, read]
  rw [canonicalPayload, if_neg (ne_nil_of_denotes denotes), decoded]
  by_cases decodable : tree.Decodable
  · have written := (finite_valueInterface decodable.range).canonicalize_eq describe
    rw [if_pos ((decodable_iff tree).mpr decodable)]
    simp [written, decodable]
  · rw [if_neg (mt (decodable_iff tree).mp decodable)]
    simp [decodable]

/-- `CanonicalPayload` returns the same bytes for both texts. -/
def SameBytes (describe : Bytes → String) (first second : Text) : Prop :=
  ∃ bytes, canonicalPayload (encodingJson describe) first = .ok bytes ∧
    canonicalPayload (encodingJson describe) second = .ok bytes

section Texts

variable (describe : Bytes → String) {first second : Text} {tree tree' : JsonTree}
  (denotes : Denotes first tree) (denotes' : Denotes second tree')

include denotes denotes'

theorem sameBytes_iff :
    SameBytes describe first second ↔
      tree.Decodable ∧ tree'.Decodable ∧ SameRounded tree tree' := by
  unfold SameBytes
  simp only [canonicalPayload_eq_ok_iff describe denotes,
    canonicalPayload_eq_ok_iff describe denotes', ← sorted_eq_iff]
  constructor
  · rintro ⟨bytes, ⟨decodable, text⟩, decodable', text'⟩
    exact ⟨decodable, decodable', text_injective (text.trans text'.symm)⟩
  · rintro ⟨decodable, decodable', same⟩
    exact ⟨_, ⟨decodable, rfl⟩, decodable', by rw [same]⟩

end Texts

end GitScale.Approval
