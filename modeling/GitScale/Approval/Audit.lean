import GitScale.Basic
import Mathlib.Data.Int.Init
import Mathlib.Data.List.Sort

/-!
# The audit chain

Every policy has a chain of audit rows; a row carries the hash of its predecessor and a
hash over its own content.
-/

namespace GitScale.Approval

abbrev Bytes := List UInt8

/-- `AuditEventKind`. -/
inductive AuditEventKind where
  | submitted
  | approved
  | rejected
  | escalated
  | expired
  | autoApprovedNoRule
  | autoDenied
  deriving DecidableEq, Repr

def AuditEventKind.text : AuditEventKind → String
  | .submitted => "submitted"
  | .approved => "approved"
  | .rejected => "rejected"
  | .escalated => "escalated"
  | .expired => "expired"
  | .autoApprovedNoRule => "auto_approved_no_rule"
  | .autoDenied => "auto_denied"

/-- `ActorKind`. -/
inductive ActorKind where
  | human
  | agent
  | service
  | system
  deriving DecidableEq, Repr

def ActorKind.text : ActorKind → String
  | .human => "human"
  | .agent => "agent"
  | .service => "service"
  | .system => "system"

/-- The JSON objects that the service marshals into a row. -/
inductive AuditPayload where
  | submission (planID : UUID) (matchedRuleIndex : Int) (planHash : Bytes)
      (proposerKind : String)
  | expiry
  | rejection (rung : Int) (reason : String)
  | approval (rung : Int) (approvals : Nat)
  | partialVote (rung : Int) (approvals : Nat)
  | denial (rung : Int) (reason : String)
  | escalation (fromRung toRung : Int) (kind : String)
  deriving DecidableEq, Repr

/-- `AuditRow`. -/
structure AuditRow where
  id : Int
  policyID : UUID
  planID : Option UUID
  eventKind : AuditEventKind
  actorID : Option UUID
  actorKind : ActorKind
  payload : Bytes
  prevHash : Bytes
  rowHash : Bytes
  createdAt : Time
  deriving DecidableEq, Repr

/-- `GenesisHash`. -/
def genesisHash : Bytes := List.replicate 32 0

/-- The functions on bytes that the chain is built with: `sha256.Sum256`, `json.Marshal`
on a payload, and `CanonicalPayload`. -/
structure Digest where
  sha256 : Bytes → Bytes
  marshal : AuditPayload → Bytes
  canonicalPayload : Bytes → Except String Bytes

/-- The big-endian bytes of a number. -/
def bigEndian (width : Nat) (value : Nat) : Bytes :=
  (List.range width).map fun index => UInt8.ofNat (value >>> (8 * (width - 1 - index)))

/-- The zero value of `time.Time` counted from the Unix epoch, in seconds. -/
def zeroTimeUnix : Int := -62135596800

/-- `UnixNano`, which wraps in 64 bits. -/
def unixNano (instant : Time) : Int :=
  (instant + zeroTimeUnix * 1000000000).bmod (2 ^ 64)

/-- `ComputeRowHash`. -/
def computeRowHash (digest : Digest) (prev : Bytes) (row : AuditRow) :
    Except String Bytes :=
  match digest.canonicalPayload row.payload with
  | .error message => .error message
  | .ok canonical =>
      .ok (digest.sha256 (prev ++ canonical ++ row.actorKind.text.toUTF8.toList ++ [0x1f] ++
        row.eventKind.text.toUTF8.toList ++ [0x1f] ++
        bigEndian 16 (row.actorID.getD UUID.nil).toNat ++
        bigEndian 8 ((unixNano row.createdAt) % 2 ^ 64).toNat))

/-- `AppendRow`.  A zero instant is replaced by the wall clock. -/
def appendRow (digest : Digest) (prev : Bytes) (wallClock : Time) (row : AuditRow) :
    Except String AuditRow :=
  let row := { row with
    prevHash := prev
    createdAt := if row.createdAt.isZero then wallClock else row.createdAt }
  match computeRowHash digest prev row with
  | .error message => .error message
  | .ok hash => .ok { row with rowHash := hash }

/-! ## Verification -/

/-- The loop of `VerifyChain` from row `index` on. -/
def verifyFrom (digest : Digest) : Nat → Bytes → List AuditRow → Int × Option String
  | _, _, [] => (-1, none)
  | index, prev, row :: rest =>
      if row.prevHash ≠ prev then
        (index, some ("policy: row " ++ toString index ++ " prev_hash mismatch"))
      else
        match computeRowHash digest prev row with
        | .error message => (index, some message)
        | .ok got =>
            if got ≠ row.rowHash then
              (index, some ("policy: row " ++ toString index ++
                " row_hash mismatch (tampering detected)"))
            else verifyFrom digest (index + 1) got rest

/-- `VerifyChain`. -/
def verifyChain (digest : Digest) (rows : List AuditRow) : Int × Option String :=
  verifyFrom digest 0 genesisHash rows

/-! ## Canonical payloads -/

/-- What `json.Unmarshal` stores in an `any`.  A number is given by the bits of its
`float64`; an object has one entry for each key. -/
inductive JsonValue where
  | null
  | bool (value : Bool)
  | number (bits : UInt64)
  | string (text : String)
  | array (elements : List JsonValue)
  | object (fields : List (String × JsonValue))

/-- `encoding/json` on texts and scalars. -/
structure JsonCodec where
  unmarshal : Bytes → Except String JsonValue
  marshalString : String → Except String Bytes
  marshalNumber : UInt64 → Except String Bytes

variable (codec : JsonCodec)

/-- The elements of an array with their commas. -/
def emitElements : List (Except String Bytes) → Except String Bytes
  | [] => .ok []
  | [element] => element
  | element :: rest => do
      let first ← element
      let others ← emitElements rest
      return first ++ ",".toUTF8.toList ++ others

/-- The entry of one key. -/
def emitField (field : String × Except String Bytes) : Except String Bytes := do
  let key ← codec.marshalString field.1
  let value ← field.2
  return key ++ ":".toUTF8.toList ++ value

mutual

/-- `canonicalize`. -/
def canonicalize : JsonValue → Except String Bytes
  | .object fields => do
      -- `sort.Strings` on the keys
      let sorted := (canonicalizeFields fields).insertionSort fun left right =>
        left.1 ≤ right.1
      let body ← emitElements (sorted.map (emitField codec))
      return "\x7b".toUTF8.toList ++ body ++ "\x7d".toUTF8.toList
  | .array elements => do
      let body ← emitElements (canonicalizeElements elements)
      return "[".toUTF8.toList ++ body ++ "]".toUTF8.toList
  | .null => .ok "null".toUTF8.toList
  | .bool value => .ok (if value then "true" else "false").toUTF8.toList
  | .number bits => codec.marshalNumber bits
  | .string text => codec.marshalString text

def canonicalizeFields : List (String × JsonValue) → List (String × Except String Bytes)
  | [] => []
  | (key, value) :: rest => (key, canonicalize value) :: canonicalizeFields rest

def canonicalizeElements : List JsonValue → List (Except String Bytes)
  | [] => []
  | value :: rest => canonicalize value :: canonicalizeElements rest

end

/-- `CanonicalPayload`. -/
def canonicalPayload (payload : Bytes) : Except String Bytes :=
  if payload = [] then .ok "null".toUTF8.toList
  else
    match codec.unmarshal payload with
    | .error message => .error ("policy: audit payload not valid JSON: " ++ message)
    | .ok value => canonicalize codec value

end GitScale.Approval
