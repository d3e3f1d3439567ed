import GitScale.Go.Base64
import GitScale.Go.JsonFields

/-!
# Cursors as tokens

`EncodeCursor` and `DecodeCursor`: the JSON form of a position in a listing, in base64.  The
empty token stands for the zero cursor, which is the start of the listing.
-/

namespace GitScale.RestApi

open Approval Go

/-! ## Cursors -/

/-- `Cursor`. -/
structure Cursor where
  afterCreatedAt : Time
  afterID : UUID
  deriving DecidableEq, Repr

/-- `Cursor{}`. -/
def Cursor.zero : Cursor := ⟨0, UUID.nil⟩

/-- `Cursor.IsZero`. -/
def Cursor.isZero (cursor : Cursor) : Bool :=
  cursor.afterID = UUID.nil && cursor.afterCreatedAt.isZero

theorem Cursor.isZero_iff {cursor : Cursor} : cursor.isZero = true ↔ cursor = .zero := by
  cases cursor
  simp [Cursor.isZero, Cursor.zero, Time.isZero, and_comm]

/-! ## The JSON form -/

def cursorMembers (createdAt : JsonTree) (cursor : Cursor) : List (String × JsonTree) :=
  [("after_created_at", createdAt), ("after_id", jsonUUID cursor.afterID)]

/-- `json.Marshal` of a cursor; an instant outside of the years 0 to 9999 is an error. -/
def marshalCursor (cursor : Cursor) : Option Text :=
  (jsonTime cursor.afterCreatedAt).map fun createdAt =>
    compact (jsonObject (cursorMembers createdAt cursor))

/-- `EncodeCursor`. -/
def encodeCursor (cursor : Cursor) : Text :=
  if cursor.isZero then []
  else
    match marshalCursor cursor with
    | none => []
    | some raw => base64Encode raw

/-! ## Reading it -/

/-- `uuid.Parse`, and `time.Parse` with the layout `time.RFC3339`, which is asked only about
texts that `parseRFC3339` rejects. -/
structure Parsers where
  parseUUID : String → Option UUID
  parseTime : Text → Option Time

/-- `json.Unmarshal` into a zero cursor. -/
def unmarshalCursor (parsers : Parsers) (text : Text) : Option Cursor := do
  let members ← (readJson text).bind objectMembers
  let afterCreatedAt ← decodeField "after_created_at" (readTime parsers.parseTime) 0 members
  let afterID ← decodeField "after_id" (readUUID parsers.parseUUID) UUID.nil members
  return ⟨afterCreatedAt, afterID⟩

/-- `DecodeCursor`; `none` is `errInvalidCursor`. -/
def decodeCursor (parsers : Parsers) (token : Text) : Option Cursor :=
  if token = [] then some .zero
  else (base64Decode token).bind (unmarshalCursor parsers)

/-! ## Round trip -/

theorem unmarshalCursor_marshalCursor {parsers : Parsers} {cursor : Cursor} {raw : Text}
    (parses : parsers.parseUUID (formatUUID cursor.afterID) = some cursor.afterID)
    (marshalled : marshalCursor cursor = some raw) :
    unmarshalCursor parsers raw = some cursor := by
  obtain ⟨createdAt, written, rfl⟩ := Option.map_eq_some_iff.mp marshalled
  let members := (cursorMembers createdAt cursor).map fun member => (bodyOf member.1, member.2)
  have listed : (cursorMembers createdAt cursor).map Prod.fst =
      ["after_created_at", "after_id"] := rfl
  have read : readJson (compact (jsonObject (cursorMembers createdAt cursor))) =
      some (.object members) := by
    apply readJson_compact
    apply marshals_jsonObject
    simp [cursorMembers, jsonUUID, marshals_jsonTime written, marshals_jsonString]
  have instant : decodeField "after_created_at" (readTime parsers.parseTime) 0 members =
      some cursor.afterCreatedAt := by
    rw [decodeField_of_once listed (by decide) List.mem_cons_self rfl]
    exact readTime_jsonTime written 0
  have identifier : decodeField "after_id" (readUUID parsers.parseUUID) UUID.nil members =
      some cursor.afterID := by
    rw [decodeField_of_once listed (by decide) (.tail _ List.mem_cons_self) rfl,
      readUUID_jsonUUID]
    exact parses
  rw [unmarshalCursor, read]
  simp only [Option.bind_some, objectMembers, bind, instant, identifier]
  rfl

theorem exists_marshalCursor {cursor : Cursor} (fits : yearFits cursor.afterCreatedAt = true) :
    ∃ raw, marshalCursor cursor = some raw ∧ raw ≠ [] := by
  have written : jsonTime cursor.afterCreatedAt =
      some (.string (formatRFC3339 cursor.afterCreatedAt)) := if_pos fits
  refine ⟨_, by rw [marshalCursor, written, Option.map_some], ?_⟩
  exact compact_jsonObject_ne_nil _

/-- Within the years that JSON has room for, only the zero cursor has the empty token. -/
theorem encodeCursor_eq_nil_iff {cursor : Cursor}
    (fits : yearFits cursor.afterCreatedAt = true) :
    encodeCursor cursor = [] ↔ cursor = .zero := by
  rw [encodeCursor, ← Cursor.isZero_iff]
  obtain ⟨raw, marshalled, nonempty⟩ := exists_marshalCursor fits
  cases cursor.isZero with
  | true => simp
  | false => simp [marshalled, base64Encode_eq_nil_iff, nonempty]

/-- `DecodeCursor` undoes `EncodeCursor`. -/
theorem decodeCursor_encodeCursor {parsers : Parsers} {cursor : Cursor}
    (parses : parsers.parseUUID (formatUUID cursor.afterID) = some cursor.afterID)
    (fits : yearFits cursor.afterCreatedAt = true) :
    decodeCursor parsers (encodeCursor cursor) = some cursor := by
  by_cases zero : cursor = .zero
  · rw [(encodeCursor_eq_nil_iff fits).mpr zero, zero]
    rfl
  · have nonempty := fun empty => zero ((encodeCursor_eq_nil_iff fits).mp empty)
    rw [decodeCursor, if_neg nonempty]
    have nonzero : cursor.isZero = false := by
      rw [Bool.eq_false_iff]
      exact fun isZero => zero (Cursor.isZero_iff.mp isZero)
    obtain ⟨raw, marshalled, -⟩ := exists_marshalCursor fits
    simp only [encodeCursor, nonzero, marshalled, Bool.false_eq_true, if_false]
    rw [base64Decode_base64Encode, Option.bind_some]
    exact unmarshalCursor_marshalCursor parses marshalled

end GitScale.RestApi
