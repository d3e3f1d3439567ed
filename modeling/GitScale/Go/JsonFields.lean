import GitScale.Basic
import GitScale.Go.JsonWriter
import GitScale.Go.RFC3339
import GitScale.Go.UUID

/-!
# Reading structs from JSON

`json.Unmarshal` into a struct: a member goes to the field of its name, upper and lower case
alike, a later member overwrites an earlier one, and members without a field are skipped.
-/

namespace GitScale.Go

open GraphQL Approval

/-- The folding of `encoding/json` on the letters that fold to ASCII. -/
def foldChar (character : Char) : Char :=
  if character = 'ſ' then 'S' else if character = 'K' then 'K' else character.toUpper

/-- A key of an object names a field. -/
def namesField (key name : String) : Bool :=
  key.toList.map foldChar = name.toList.map foldChar

section Fields

variable {Value : Type}

/-- The value of a field after the members of an object.  `read` gets the value that the field
has so far, which null leaves as it is. -/
def decodeField (name : String) (read : Value → JsonTree → Option Value) (value : Value)
    (members : List (Text × JsonTree)) : Option Value :=
  members.foldlM (fun value member =>
    if namesField (GraphQL.unquote member.1) name then read value member.2 else some value) value

def readString (value : String) : JsonTree → Option String
  | .string body => some (GraphQL.unquote body)
  | .null => some value
  | _ => none

/-- An `int` or an `int64`. -/
def readInt (value : Int) : JsonTree → Option Int
  | .number numeral => parseInt (ofBytes numeral.text).toList
  | .null => some value
  | _ => none

def readBool (value : Bool) : JsonTree → Option Bool
  | .bool read => some read
  | .null => some value
  | _ => none

/-- A `uuid.UUID`, which decodes itself from a string. -/
def readUUID (parseUUID : String → Option UUID) (value : UUID) : JsonTree → Option UUID
  | .string body => parseUUID (GraphQL.unquote body)
  | .null => some value
  | _ => none

/-- A `[]uuid.UUID`; null makes it nil. -/
def readUUIDs (parseUUID : String → Option UUID) (_ : List UUID) : JsonTree → Option (List UUID)
  | .array elements => elements.mapM (readUUID parseUUID UUID.nil)
  | .null => some []
  | _ => none

/-- The members of an object, of which null has none. -/
def objectMembers : JsonTree → Option (List (Text × JsonTree))
  | .object members => some members
  | .null => some []
  | _ => none

variable {name : String} {read : Value → JsonTree → Option Value}

@[simp] theorem decodeField_nil (value : Value) : decodeField name read value [] = some value := rfl

theorem decodeField_member (value : Value) (member : Text × JsonTree)
    (others : List (Text × JsonTree)) :
    decodeField name read value (member :: others) =
      if namesField (GraphQL.unquote member.1) name then
        (read value member.2).bind fun value => decodeField name read value others
      else decodeField name read value others := by
  rw [decodeField, List.foldlM_cons]
  split <;> rfl

/-- How many of the keys go to a field. -/
def occurrences (name : String) (keys : List String) : Nat :=
  keys.countP fun key => namesField key name

theorem occurrences_cons (key : String) (others : List String) :
    occurrences name (key :: others) =
      occurrences name others + if namesField key name then 1 else 0 := by
  rw [occurrences, List.countP_cons]
  rfl

/-- Members under other names leave a field alone. -/
theorem decodeField_of_unnamed {members : List (Text × JsonTree)}
    (absent : occurrences name (members.map fun member => GraphQL.unquote member.1) = 0)
    (value : Value) : decodeField name read value members = some value := by
  induction members with
  | nil => rfl
  | cons member others inductionHypothesis =>
      rw [List.map_cons, occurrences_cons] at absent
      have other : ¬ namesField (GraphQL.unquote member.1) name = true := by
        intro names
        rw [if_pos names] at absent
        omega
      rw [if_neg other, Nat.add_zero] at absent
      rw [decodeField_member, if_neg other]
      exact inductionHypothesis absent

/-- A field whose name occurs once is read from that member, wherever it stands. -/
theorem decodeField_of_named {members : List (Text × JsonTree)} {key : Text} {tree : JsonTree}
    (once : occurrences name (members.map fun member => GraphQL.unquote member.1) = 1)
    (occurs : (key, tree) ∈ members) (names : namesField (GraphQL.unquote key) name = true)
    (value : Value) : decodeField name read value members = read value tree := by
  induction members with
  | nil => cases occurs
  | cons member others inductionHypothesis =>
      rw [List.map_cons, occurrences_cons] at once
      rw [decodeField_member]
      rcases List.mem_cons.mp occurs with same | later
      · cases same
        rw [if_pos names] at once ⊢
        simp only [decodeField_of_unnamed (Nat.succ.inj once)]
        cases read value tree <;> rfl
      · have positive : 0 < occurrences name (others.map fun member =>
            GraphQL.unquote member.1) := by
          apply List.countP_pos_iff.mpr
          exact ⟨GraphQL.unquote key, List.mem_map.mpr ⟨_, later, rfl⟩, names⟩
        have different : ¬ namesField (GraphQL.unquote member.1) name = true := by
          intro named
          rw [if_pos named] at once
          omega
        rw [if_neg different] at once ⊢
        exact inductionHypothesis once later

/-- The keys of a struct are read back as its field names. -/
theorem unquote_keys {members : List (String × JsonTree)} {keys : List String}
    (listed : members.map Prod.fst = keys) :
    (members.map fun member => (bodyOf member.1, member.2)).map (fun member =>
      GraphQL.unquote member.1) = keys := by
  rw [← listed, List.map_map]
  apply List.map_congr_left
  intro member _
  exact unquote_bodyOf member.1

theorem decodeField_of_absent {members : List (String × JsonTree)} {keys : List String}
    (listed : members.map Prod.fst = keys) (absent : occurrences name keys = 0) (value : Value) :
    decodeField name read value (members.map fun member => (bodyOf member.1, member.2)) =
      some value := by
  apply decodeField_of_unnamed
  rw [unquote_keys listed, absent]

theorem decodeField_of_once {members : List (String × JsonTree)} {keys : List String}
    {key : String} {tree : JsonTree} (listed : members.map Prod.fst = keys)
    (once : occurrences name keys = 1) (occurs : (key, tree) ∈ members)
    (names : namesField key name = true) (value : Value) :
    decodeField name read value (members.map fun member => (bodyOf member.1, member.2)) =
      read value tree := by
  apply decodeField_of_named
  · rw [unquote_keys listed, once]
  · exact List.mem_map.mpr ⟨(key, tree), occurs, rfl⟩
  · rw [unquote_bodyOf, names]

end Fields

theorem readString_jsonString (value text : String) :
    readString value (jsonString text) = some text := by
  rw [jsonString, readString, unquote_bodyOf]

theorem readInt_jsonInt {number : Int} (fits : -(int64Bound : Int) ≤ number ∧ number < int64Bound)
    (value : Int) : readInt value (jsonInt number) = some number := by
  rw [jsonInt, readInt, text_jsonInt, parseInt_ofBytes_formatInt fits]

/-- What the code relies on from `uuid.Parse`: it reads what `String` writes. -/
def ReadsUUIDs (parseUUID : String → Option UUID) : Prop :=
  ∀ id, parseUUID (formatUUID id) = some id

/-- The JSON of a `[]uuid.UUID`. -/
def jsonUUIDs (ids : List UUID) : JsonTree := .array (ids.map fun id => jsonString (formatUUID id))

theorem marshals_jsonUUIDs (ids : List UUID) : Marshals (jsonUUIDs ids) := by
  apply marshals_array.mpr
  intro element member
  rcases List.mem_map.mp member with ⟨id, _, rfl⟩
  exact marshals_jsonString _

/-! ## Identifiers and times -/

/-- A `uuid.UUID`. -/
def jsonUUID (id : UUID) : JsonTree := jsonString (formatUUID id)

theorem readUUID_jsonUUID {parseUUID : String → Option UUID} (value id : UUID) :
    readUUID parseUUID value (jsonUUID id) = parseUUID (formatUUID id) := by
  rw [jsonUUID, jsonString, readUUID, unquote_bodyOf]

/-- `Time.MarshalJSON`; an instant outside of the years 0 to 9999 is an error. -/
def jsonTime (instant : Time) : Option JsonTree :=
  if yearFits instant then some (.string (formatRFC3339 instant)) else none

/-- `Time.UnmarshalJSON`, on the text between the quotes.  `parseTime` is `time.Parse` with the
layout `time.RFC3339`, which is asked only about texts that `parseRFC3339` rejects. -/
def readTime (parseTime : Text → Option Time) (value : Time) : JsonTree → Option Time
  | .string body => (parseRFC3339 body).or (parseTime body)
  | .null => some value
  | _ => none

theorem isPlain_of_isDecimal : ∀ value, isDecimal value = true → isPlain value = true :=
  forall_byte (by decide)

theorem isPlain_digitsText (width value : Nat) : (digitsText width value).all isPlain = true := by
  apply List.all_eq_true.mpr
  intro digit member
  exact isPlain_of_isDecimal digit (List.all_eq_true.mp (all_digitsText width value) digit member)

theorem isPlain_fractionOf (nanos : Nat) : (fractionOf nanos).all isPlain = true := by
  obtain ⟨cut, whole, -⟩ := trimRight_append [byte '0'] (digitsText 9 nanos)
  have plain := isPlain_digitsText 9 nanos
  rw [whole, List.all_append, Bool.and_eq_true] at plain
  unfold fractionOf
  split
  · rfl
  · rw [List.all_cons, plain.1]
    decide

theorem isPlain_formatRFC3339 (instant : Time) :
    (formatRFC3339 instant).all isPlain = true := by
  simp only [formatRFC3339, layoutRFC3339, List.all_append, List.all_cons, List.all_nil,
    isPlain_digitsText, isPlain_fractionOf]
  decide

theorem jsonTime_eq_some {instant : Time} {tree : JsonTree}
    (written : jsonTime instant = some tree) :
    yearFits instant = true ∧ tree = .string (formatRFC3339 instant) := by
  unfold jsonTime at written
  split at written
  · rename_i fits
    cases written
    exact ⟨fits, rfl⟩
  · cases written

theorem marshals_jsonTime {instant : Time} {tree : JsonTree}
    (written : jsonTime instant = some tree) : Marshals tree := by
  rw [(jsonTime_eq_some written).2]
  intro token member
  rw [JsonTree.tokens, List.mem_singleton] at member
  rw [member]
  intro rest
  exact readBody_of_isPlain (isPlain_formatRFC3339 instant)

theorem readTime_jsonTime {parseTime : Text → Option Time} {instant : Time} {tree : JsonTree}
    (written : jsonTime instant = some tree) (value : Time) :
    readTime parseTime value tree = some instant := by
  obtain ⟨fits, rfl⟩ := jsonTime_eq_some written
  rw [readTime, parseRFC3339_formatRFC3339 fits, Option.some_or]

end GitScale.Go
