import GitScale.Approval.FloatText
import GitScale.Go.JsonFields
import GitScale.Go.JsonRaw
import GitScale.Go.RFC3339
import GitScale.Identity.Store
import GitScale.Invalidator.Consumer

/-!
# Identity events on the wire

The payload of an identity event is marshalled into a `JSONB` column.  The outbox consumer copies
the text of the column into an `EventEnvelope` and publishes it, and the invalidator reads the
envelope and then `affected_principal_ids` of the payload.  The column gives back a text of the
same value, with its keys in an order of its own.
-/

namespace GitScale.Invalidator

open Approval Foundation Go GraphQL

/-! ## Payloads -/

/-- A `[]string` that is not nil. -/
def jsonStrings (texts : List String) : JsonTree := .array (texts.map jsonString)

/-- A `float64`. -/
def jsonFloat (value : Rat) : JsonTree := .number (floatNumeral (value < 0) (nearest |value|))

/-- A pointer with `omitempty`. -/
def optionalMember {α : Type} (name : String) (write : α → JsonTree) :
    Option α → List (String × JsonTree)
  | none => []
  | some value => [(name, write value)]

/-- `_envelope_version` of every payload. -/
def versionMember : String × JsonTree := ("_envelope_version", jsonInt 1)

/-- The members of a payload, in the order of its struct. -/
def payloadMembers : Identity.Payload → Option (List (String × JsonTree))
  | .userCreated userID email rateBucket quotaAccountID createdAt =>
      (jsonTime createdAt).map fun createdAt =>
        [("user_id", jsonUUID userID), ("email", jsonString email),
          ("rate_bucket", jsonString rateBucket)] ++
        optionalMember "quota_account_id" jsonUUID quotaAccountID ++
        [("principal_class", jsonString "user"), ("created_at", createdAt), versionMember]
  | .agentCreated agentID parentUserID displayName permissionScope rateBucket sessionQuota
      tokensPerWeekCap reputationScore quotaAccountID createdAt =>
      (jsonTime createdAt).map fun createdAt =>
        [("agent_id", jsonUUID agentID), ("parent_user_id", jsonUUID parentUserID),
          ("display_name", jsonString displayName),
          ("permission_scope", jsonStrings permissionScope),
          ("rate_bucket", jsonString rateBucket)] ++
        optionalMember "session_quota" jsonInt sessionQuota ++
        optionalMember "tokens_per_week_cap" jsonInt tokensPerWeekCap ++
        [("reputation_score", jsonFloat reputationScore)] ++
        optionalMember "quota_account_id" jsonUUID quotaAccountID ++
        [("principal_class", jsonString "agent"), ("created_at", createdAt), versionMember]
  | .agentReputationUpdated agentID oldScore newScore delta computedAt =>
      (jsonTime computedAt).map fun computedAt =>
        [("agent_id", jsonUUID agentID), ("old_score", jsonFloat oldScore),
          ("new_score", jsonFloat newScore), ("delta", jsonFloat delta),
          ("computed_at", computedAt), versionMember]
  | .userDisabled userID reason affectedPrincipalIDs disabledAt =>
      (jsonTime disabledAt).map fun disabledAt =>
        [("user_id", jsonUUID userID), ("reason", jsonString reason),
          ("affected_principal_ids", jsonUUIDs affectedPrincipalIDs),
          ("disabled_at", disabledAt), versionMember]
  | .agentRevoked agentID parentUserID reason affectedPrincipalIDs revokedAt =>
      (jsonTime revokedAt).map fun revokedAt =>
        [("agent_id", jsonUUID agentID), ("parent_user_id", jsonUUID parentUserID),
          ("reason", jsonString reason),
          ("affected_principal_ids", jsonUUIDs affectedPrincipalIDs),
          ("revoked_at", revokedAt), versionMember]
  | .principalPermissionsChanged agentID oldScope newScope affectedPrincipalIDs changedAt =>
      (jsonTime changedAt).map fun changedAt =>
        [("agent_id", jsonUUID agentID), ("old_scope", jsonStrings oldScope),
          ("new_scope", jsonStrings newScope),
          ("affected_principal_ids", jsonUUIDs affectedPrincipalIDs),
          ("changed_at", changedAt), versionMember]
  | .orgMemberAdded orgID userID role affectedPrincipalIDs addedAt =>
      (jsonTime addedAt).map fun addedAt =>
        [("org_id", jsonUUID orgID), ("user_id", jsonUUID userID), ("role", jsonString role),
          ("affected_principal_ids", jsonUUIDs affectedPrincipalIDs),
          ("added_at", addedAt), versionMember]
  | .orgMemberRemoved orgID userID affectedPrincipalIDs removedAt =>
      (jsonTime removedAt).map fun removedAt =>
        [("org_id", jsonUUID orgID), ("user_id", jsonUUID userID),
          ("affected_principal_ids", jsonUUIDs affectedPrincipalIDs),
          ("removed_at", removedAt), versionMember]
  | .cloneTokenMinted tokenID principalID repoID expiresAt mintedAt =>
      (jsonTime expiresAt).bind fun expiresAt => (jsonTime mintedAt).map fun mintedAt =>
        [("token_id", jsonUUID tokenID), ("principal_id", jsonUUID principalID),
          ("repo_id", jsonUUID repoID), ("expires_at", expiresAt), ("minted_at", mintedAt),
          versionMember]

/-- The text that `WriteOutbox` hands to the column. -/
def payloadValue (payload : Identity.Payload) : Option Text :=
  (payloadMembers payload).map fun members => compact (jsonObject members)

/-- The `affected_principal_ids` of the payloads that have them. -/
def affectedPrincipalIDs : Identity.Payload → Option (List UUID)
  | .userDisabled _ _ affected _ | .agentRevoked _ _ _ affected _
  | .principalPermissionsChanged _ _ _ affected _ | .orgMemberAdded _ _ _ affected _
  | .orgMemberRemoved _ _ affected _ => some affected
  | _ => none

/-! ## Envelopes -/

/-- `EventEnvelope`. -/
structure EventEnvelope where
  eventID : String
  aggregateType : String
  aggregateID : String
  eventType : String
  schemaVersion : String
  payload : Text
  occurredAt : Time
  publishedAt : Time
  principalType : String
  rateBucket : String
  deriving DecidableEq

/-- What `PublishBatch` makes of a row.  The principal type and the rate bucket stay empty. -/
def envelopeOf (event : Identity.OutboxEvent) (stored : Text) (publishedAt : Time) :
    EventEnvelope where
  eventID := formatUUID event.eventID
  aggregateType := event.aggregateType
  aggregateID := formatUUID event.aggregateID
  eventType := event.eventType
  schemaVersion := "v1"
  payload := stored
  occurredAt := event.createdAt
  publishedAt := publishedAt
  principalType := ""
  rateBucket := ""

/-- The members of an envelope, in the order of its struct. -/
def envelopeMembers (envelope : EventEnvelope) (payload occurredAt publishedAt : JsonTree) :
    List (String × JsonTree) :=
  [("event_id", jsonString envelope.eventID),
    ("aggregate_type", jsonString envelope.aggregateType),
    ("aggregate_id", jsonString envelope.aggregateID),
    ("event_type", jsonString envelope.eventType),
    ("schema_version", jsonString envelope.schemaVersion),
    ("payload", payload),
    ("occurred_at", occurredAt),
    ("published_at", publishedAt),
    ("principal_type", jsonString envelope.principalType),
    ("rate_bucket", jsonString envelope.rateBucket)]

/-- `json.Marshal` of an envelope. -/
def marshalEnvelope (envelope : EventEnvelope) : Option Text := do
  let payload ← marshalRaw envelope.payload
  let occurredAt ← jsonTime envelope.occurredAt
  let publishedAt ← jsonTime envelope.publishedAt
  some (compact (jsonObject (envelopeMembers envelope payload occurredAt publishedAt)))

/-- The value of the message for a row of the outbox; `jsonb` is the payload column. -/
def messageValue (jsonb : Text → Option Text) (publishedAt : Time)
    (event : Identity.OutboxEvent) : Option Text := do
  let stored ← (payloadValue event.payload).bind jsonb
  marshalEnvelope (envelopeOf event stored publishedAt)

section Reading

-- `uuid.Parse`, and `time.Parse` with the layout `time.RFC3339`, which is asked only about
-- texts that `parseRFC3339` rejects.
variable (parseUUID : String → Option UUID) (parseTime : Text → Option Time)

/-- A `json.RawMessage`, without the blanks of the message. -/
def readRaw (_ : Text) (tree : JsonTree) : Option Text := some (compact tree)

/-- `UnmarshalEnvelope`. -/
def unmarshalEnvelope (data : Text) : Option EventEnvelope := do
  let members ← (readJson data).bind objectMembers
  let eventID ← decodeField "event_id" readString "" members
  let aggregateType ← decodeField "aggregate_type" readString "" members
  let aggregateID ← decodeField "aggregate_id" readString "" members
  let eventType ← decodeField "event_type" readString "" members
  let schemaVersion ← decodeField "schema_version" readString "" members
  let payload ← decodeField "payload" readRaw [] members
  let occurredAt ← decodeField "occurred_at" (readTime parseTime) 0 members
  let publishedAt ← decodeField "published_at" (readTime parseTime) 0 members
  let principalType ← decodeField "principal_type" readString "" members
  let rateBucket ← decodeField "rate_bucket" readString "" members
  some ⟨eventID, aggregateType, aggregateID, eventType, schemaVersion, payload, occurredAt,
    publishedAt, principalType, rateBucket⟩

/-- `affectedPrincipalsHandler.Affected`, on the payload of the envelope. -/
def affectedOf (payload : Text) : Option (List UUID) := do
  let members ← (readJson payload).bind objectMembers
  decodeField "affected_principal_ids" (readUUIDs parseUUID) [] members

/-- A byte string that the consumer's model holds as a string, one character a byte. -/
def bytesOf (text : String) : Text := text.toList.map byte

/-- The decoders that the invalidator runs with. -/
def productionConfig : Config where
  unmarshalEnvelope value :=
    (unmarshalEnvelope parseTime (bytesOf value)).map fun envelope =>
      ⟨envelope.eventID, envelope.eventType, ofBytes envelope.payload⟩
  handlers := defaultHandlers fun payload => affectedOf parseUUID (bytesOf payload)

end Reading

variable {parseUUID : String → Option UUID} {parseTime : Text → Option Time}

@[simp] theorem bytesOf_ofBytes (text : Text) : bytesOf (ofBytes text) = text := by
  have back : ∀ value : UInt8, byte (Char.ofNat value.toNat) = value := forall_byte (by decide)
  rw [bytesOf, ofBytes, String.toList_ofList, List.map_map]
  exact (List.map_congr_left fun value _ => back value).trans (List.map_id text)

/-! ## The envelope is read back -/

def envelopeKeys : List String :=
  ["event_id", "aggregate_type", "aggregate_id", "event_type", "schema_version", "payload",
    "occurred_at", "published_at", "principal_type", "rate_bucket"]

/-- Every key of the envelope names one field. -/
theorem occurrences_envelopeKeys :
    ∀ name ∈ envelopeKeys, occurrences name envelopeKeys = 1 ∧ namesField name name = true := by
  decide +kernel

/-- A field of the envelope is read from the member at its place. -/
theorem decodeField_envelopeMembers {envelope : EventEnvelope}
    {payload occurredAt publishedAt tree : JsonTree} {Value : Type}
    {read : Value → JsonTree → Option Value} {name : String} (index : Nat)
    (there : (envelopeMembers envelope payload occurredAt publishedAt)[index]? = some (name, tree))
    (value : Value) :
    decodeField name read value ((envelopeMembers envelope payload occurredAt publishedAt).map
      fun member => (bodyOf member.1, member.2)) = read value tree := by
  have member := List.mem_of_getElem? there
  have keys : (envelopeMembers envelope payload occurredAt publishedAt).map Prod.fst =
      envelopeKeys := rfl
  have listed : name ∈ envelopeKeys := by
    rw [← keys]
    exact List.mem_map.mpr ⟨_, member, rfl⟩
  obtain ⟨once, names⟩ := occurrences_envelopeKeys name listed
  exact decodeField_of_once keys once member names value

/-- `UnmarshalEnvelope` undoes `json.Marshal`, up to the spelling of the payload. -/
theorem unmarshalEnvelope_marshalEnvelope {envelope : EventEnvelope} {payload : JsonTree}
    {data : Text} (raw : marshalRaw envelope.payload = some payload) (marshals : Marshals payload)
    (marshalled : marshalEnvelope envelope = some data) :
    unmarshalEnvelope parseTime data = some { envelope with payload := compact payload } := by
  unfold marshalEnvelope at marshalled
  simp only [raw, Option.bind_eq_bind, Option.bind_some, Option.bind_eq_some_iff,
    Option.some.injEq] at marshalled
  obtain ⟨occurredAt, occurred, publishedAt, published, rfl⟩ := marshalled
  have written :
      Marshals (jsonObject (envelopeMembers envelope payload occurredAt publishedAt)) := by
    apply marshals_jsonObject
    simp only [envelopeMembers, List.forall_mem_cons, marshals_jsonString, marshals,
      marshals_jsonTime occurred, marshals_jsonTime published, List.not_mem_nil, true_and,
      IsEmpty.forall_iff, implies_true]
  rw [unmarshalEnvelope, readJson_compact written, jsonObject]
  simp only [objectMembers, Option.bind_eq_bind, Option.bind_some,
    decodeField_envelopeMembers 0 rfl, decodeField_envelopeMembers 1 rfl,
    decodeField_envelopeMembers 2 rfl, decodeField_envelopeMembers 3 rfl,
    decodeField_envelopeMembers 4 rfl, decodeField_envelopeMembers 5 rfl,
    decodeField_envelopeMembers 6 rfl, decodeField_envelopeMembers 7 rfl,
    decodeField_envelopeMembers 8 rfl, decodeField_envelopeMembers 9 rfl,
    readString_jsonString, readRaw, readTime_jsonTime occurred, readTime_jsonTime published]

/-! ## The payload is read back -/

/-- What a `JSONB` column makes of a value: the same value, with the keys of the outermost object
distinct. -/
structure Normalised (tree stored : JsonTree) : Prop where
  value : decodedMeaning stored = decodedMeaning tree
  distinct : ∀ members, stored = .object members → (decodedKeys members).Nodup

/-- What the code relies on from a `JSONB` column. -/
def KeepsValues (jsonb : Text → Option Text) : Prop :=
  ∀ text stored tree, Denotes text tree → jsonb text = some stored →
    ∃ kept, Denotes stored kept ∧ Normalised tree kept

/-- A token, with the blank that a `JSONB` column prints after it. -/
def spacedText : JsonToken → Text
  | .comma => [byte ',', byte ' ']
  | .mark .colon => [byte ':', byte ' ']
  | token => tokenText token

/-- The text that a `JSONB` column prints for a value whose keys it has put in order. -/
def columnText (tree : JsonTree) : Text := tree.tokens.flatMap spacedText

theorem readsTokens_spacedText : ReadsTokens spacedText where
  lexed := by
    intro token rest written stop
    have blank : lexJson (byte ' ' :: rest) = lexJson rest := lexJson_blank (by decide)
    by_cases comma : token = .comma
    · rw [comma, spacedText, List.cons_append, lexJson_comma, List.singleton_append, blank]
    · by_cases colon : token = .mark .colon
      · rw [colon, spacedText, List.cons_append, List.singleton_append]
        exact (lexJson_mark .colon).trans (by rw [blank])
      · have plain : spacedText token = tokenText token := by
          unfold spacedText
          split
          · exact absurd rfl comma
          · exact absurd rfl colon
          · rfl
        rw [plain]
        exact lexJson_tokenText written stop
  ends := by
    intro token member rest value head
    simp only [List.mem_cons, List.not_mem_nil, or_false] at member
    rcases member with rfl | rfl | rfl <;> cases head <;> decide

theorem denotes_columnText {tree : JsonTree} (marshals : Marshals tree) :
    Denotes (columnText tree) tree :=
  lexJson_flatMap readsTokens_spacedText (spans_tokens tree).ordered marshals

/-- A column may put the members of an object in any order. -/
theorem Normalised.of_perm {members others : List (String × JsonTree)}
    (permuted : members.Perm others) (distinct : (members.map Prod.fst).Nodup) :
    Normalised (jsonObject members) (jsonObject others) where
  value := by
    have keys : ((members.map fun member => (bodyOf member.1, member.2)).map fun member =>
        (unquote member.1, decodedMeaning member.2)).map Prod.fst = members.map Prod.fst := by
      rw [List.map_map, List.map_map]
      apply List.map_congr_left
      intro member _
      exact unquote_bodyOf member.1
    rw [jsonObject, jsonObject, decodedMeaning_object, decodedMeaning_object]
    congr 1
    funext key
    exact (lastEntry_eq_of_perm (by rw [keys]; exact distinct)
      ((permuted.map _).map _) key).symm
  distinct inner same := by
    rw [← JsonTree.object.inj same, decodedKeys, unquote_keys rfl]
    exact (permuted.map Prod.fst).nodup_iff.mp distinct

theorem marshals_of_perm {members others : List (String × JsonTree)}
    (permuted : members.Perm others) (marshals : Marshals (jsonObject members)) :
    Marshals (jsonObject others) := by
  rw [jsonObject, marshals_object] at marshals ⊢
  intro member inside
  exact marshals member ((permuted.map _).mem_iff.mpr inside)

/-- The copy of the column's text in the envelope is normalised too. -/
theorem Normalised.escapeTree {tree stored : JsonTree} (marshals : Marshals stored)
    (normalised : Normalised tree stored) : Normalised tree (escapeTree stored) where
  value := by rw [decodedMeaning_escapeTree stored marshals, normalised.value]
  distinct members escaped := by
    cases stored with
    | object inner =>
        rw [Go.escapeTree, escapeMembers_eq, JsonTree.object.injEq] at escaped
        have keys : decodedKeys members = decodedKeys inner := by
          rw [← escaped, decodedKeys, List.map_map]
          apply List.map_congr_left
          intro member inside
          exact unquote_escapeBody (marshals_object.mp marshals member inside).1
        rw [keys]
        exact normalised.distinct inner rfl
    | null | bool | number | string | array => simp [Go.escapeTree] at escaped

theorem decodedMeaning_jsonUUIDs (ids : List UUID) :
    decodedMeaning (jsonUUIDs ids) = .array (ids.map fun id => .string (formatUUID id)) := by
  rw [jsonUUIDs, decodedMeaning, JsonTree.meaning, elementMeanings_eq, List.map_map]
  refine congrArg JsonMeaning.array (List.map_congr_left ?_)
  intro id _
  rw [Function.comp_apply, jsonString, JsonTree.meaning, unquote_bodyOf]

/-- The ids are read from any spelling of the array. -/
theorem readUUIDs_of_decodedMeaning (reads : ReadsUUIDs parseUUID) {ids : List UUID}
    {tree : JsonTree} (same : decodedMeaning tree = decodedMeaning (jsonUUIDs ids))
    (value : List UUID) : readUUIDs parseUUID value tree = some ids := by
  rw [decodedMeaning_jsonUUIDs] at same
  cases tree with
  | array elements =>
      rw [decodedMeaning, JsonTree.meaning, elementMeanings_eq, JsonMeaning.array.injEq] at same
      rw [readUUIDs]
      induction elements generalizing ids with
      | nil =>
          rw [List.map_nil, eq_comm, List.map_eq_nil_iff] at same
          rw [same]
          rfl
      | cons element others inductionHypothesis =>
          cases ids with
          | nil => cases same
          | cons id ids =>
              rw [List.map_cons, List.map_cons, List.cons.injEq] at same
              cases element with
              | string body =>
                  rw [JsonTree.meaning, JsonMeaning.string.injEq] at same
                  rw [List.mapM_cons, inductionHypothesis same.2, readUUID, same.1, reads id]
                  rfl
              | null | bool | number | array | object =>
                  simp [JsonTree.meaning] at same
  | null | bool | number | string | object => simp [decodedMeaning, JsonTree.meaning] at same

/-- The handler reads the ids of a payload from every normalised form of it. -/
theorem affectedOf_of_normalised (reads : ReadsUUIDs parseUUID)
    {members : List (String × JsonTree)} {ids : List UUID}
    (distinct : (members.map Prod.fst).Nodup)
    (once : occurrences "affected_principal_ids" (members.map Prod.fst) = 1)
    (occurs : ("affected_principal_ids", jsonUUIDs ids) ∈ members) {stored : JsonTree}
    (normalised : Normalised (jsonObject members) stored) (marshals : Marshals stored) :
    affectedOf parseUUID (compact stored) = some ids := by
  have keys : decodedKeys (members.map fun member => (bodyOf member.1, member.2)) =
      members.map Prod.fst := unquote_keys rfl
  have same := normalised.value
  rw [jsonObject] at same
  cases stored with
  | object inner =>
      have permuted := perm_of_decodedMeaning same (normalised.distinct inner rfl)
        (by rw [keys]; exact distinct)
      have occurs' : (bodyOf "affected_principal_ids", jsonUUIDs ids) ∈
          members.map fun member => (bodyOf member.1, member.2) :=
        List.mem_map.mpr ⟨_, occurs, rfl⟩
      rcases exists_of_decodedMeaning same (by rw [keys]; exact distinct) occurs' with
        ⟨⟨key, tree⟩, inside, named, value⟩
      rw [unquote_bodyOf] at named
      have onceInner : occurrences "affected_principal_ids" (decodedKeys inner) = 1 := by
        rw [← once, ← keys]
        exact permuted.countP_eq _
      rw [affectedOf, readJson_compact marshals]
      simp only [objectMembers, Option.bind_eq_bind, Option.bind_some]
      rw [decodeField_of_named onceInner inside (by rw [named]; decide)]
      exact readUUIDs_of_decodedMeaning reads value []
  | null | bool | number | string | array =>
      simp [decodedMeaning, JsonTree.meaning] at same

/-! ## What a message affects -/

theorem marshals_jsonStrings (texts : List String) : Marshals (jsonStrings texts) := by
  apply marshals_array.mpr
  intro element member
  rcases List.mem_map.mp member with ⟨text, _, rfl⟩
  exact marshals_jsonString text

theorem marshals_jsonFloat (value : Rat) : Marshals (jsonFloat value) := by
  intro token member
  rw [jsonFloat, JsonTree.tokens, List.mem_singleton] at member
  rw [member]
  exact floatNumeral_valid _ _

theorem marshals_optionalMember {α : Type} {name : String} {write : α → JsonTree}
    (writes : ∀ value, Marshals (write value)) (value : Option α) :
    ∀ member ∈ optionalMember name write value, Marshals member.2 := by
  cases value with
  | none => simp [optionalMember]
  | some value => simpa [optionalMember] using writes value

theorem marshals_payloadMembers {payload : Identity.Payload} {members : List (String × JsonTree)}
    (written : payloadMembers payload = some members) : Marshals (jsonObject members) := by
  apply marshals_jsonObject
  cases payload with
  | cloneTokenMinted =>
      rcases Option.bind_eq_some_iff.mp written with ⟨expires, expiresAt, written⟩
      rcases Option.map_eq_some_iff.mp written with ⟨minted, mintedAt, rfl⟩
      simp only [List.forall_mem_cons, jsonUUID, versionMember, marshals_jsonString,
        marshals_jsonInt, marshals_jsonTime expiresAt, marshals_jsonTime mintedAt,
        List.not_mem_nil, true_and, IsEmpty.forall_iff, implies_true]
  | userCreated userID email rateBucket quotaAccountID createdAt =>
      rcases Option.map_eq_some_iff.mp written with ⟨time, instant, rfl⟩
      simp only [List.forall_mem_append, List.forall_mem_cons, jsonUUID, versionMember,
        marshals_jsonString, marshals_jsonInt, marshals_jsonTime instant, List.not_mem_nil,
        true_and, and_true, IsEmpty.forall_iff, implies_true]
      exact marshals_optionalMember (fun id => marshals_jsonString _) quotaAccountID
  | agentCreated agentID parentUserID displayName permissionScope rateBucket sessionQuota
      tokensPerWeekCap reputationScore quotaAccountID createdAt =>
      rcases Option.map_eq_some_iff.mp written with ⟨time, instant, rfl⟩
      simp only [List.forall_mem_append, List.forall_mem_cons, jsonUUID, versionMember,
        marshals_jsonString, marshals_jsonStrings, marshals_jsonFloat, marshals_jsonInt,
        marshals_jsonTime instant, List.not_mem_nil, true_and, and_true, IsEmpty.forall_iff,
        implies_true]
      exact ⟨⟨marshals_optionalMember marshals_jsonInt sessionQuota,
        marshals_optionalMember marshals_jsonInt tokensPerWeekCap⟩,
        marshals_optionalMember (fun id => marshals_jsonString _) quotaAccountID⟩
  | agentReputationUpdated | userDisabled | agentRevoked | principalPermissionsChanged
  | orgMemberAdded | orgMemberRemoved =>
      rcases Option.map_eq_some_iff.mp written with ⟨time, instant, rfl⟩
      simp only [List.forall_mem_cons, jsonUUID, versionMember, marshals_jsonString,
        marshals_jsonStrings, marshals_jsonFloat, marshals_jsonInt, marshals_jsonUUIDs,
        marshals_jsonTime instant, List.not_mem_nil, true_and, IsEmpty.forall_iff, implies_true]

/-- The members of a payload name the affected principals, under one key. -/
structure Names (members : List (String × JsonTree)) (ids : List UUID) : Prop where
  distinct : (members.map Prod.fst).Nodup
  once : occurrences "affected_principal_ids" (members.map Prod.fst) = 1
  occurs : ("affected_principal_ids", jsonUUIDs ids) ∈ members

theorem names_payloadMembers {payload : Identity.Payload} {members : List (String × JsonTree)}
    {ids : List UUID} (affects : affectedPrincipalIDs payload = some ids)
    (written : payloadMembers payload = some members) : Names members ids := by
  cases payload with
  | userCreated | agentCreated | agentReputationUpdated | cloneTokenMinted => cases affects
  | userDisabled | agentRevoked | principalPermissionsChanged | orgMemberAdded
  | orgMemberRemoved =>
      cases affects
      rcases Option.map_eq_some_iff.mp written with ⟨time, instant, rfl⟩
      constructor
      · simp only [List.map_cons, List.map_nil, versionMember]
        decide
      · simp only [List.map_cons, List.map_nil, versionMember]
        decide
      · simp

variable {jsonb : Text → Option Text}

variable (parseTime) in
/-- A published event is read back, its payload up to what the column made of it. -/
theorem unmarshalEnvelope_messageValue (keeps : KeepsValues jsonb) {event : Identity.OutboxEvent}
    {publishedAt : Time} {value : Text}
    (published : messageValue jsonb publishedAt event = some value) :
    ∃ members stored, payloadMembers event.payload = some members ∧
      Normalised (jsonObject members) stored ∧ Marshals stored ∧
      unmarshalEnvelope parseTime value =
        some (envelopeOf event (compact stored) publishedAt) := by
  rcases Option.bind_eq_some_iff.mp published with ⟨column, stored, marshalled⟩
  rcases Option.bind_eq_some_iff.mp stored with ⟨text, payload, stored⟩
  rcases Option.map_eq_some_iff.mp payload with ⟨members, written, rfl⟩
  have denotesPayload := denotes_compact (marshals_payloadMembers written)
  rcases keeps _ column _ denotesPayload stored with ⟨kept, denotes, normalised⟩
  have marshals : Marshals kept := written_of_lexJson denotes
  have raw : marshalRaw column = some (Go.escapeTree kept) := by
    rw [marshalRaw, readJson_of_denotes denotes]
    rfl
  have escaped := marshals_escapeTree kept marshals
  exact ⟨members, Go.escapeTree kept, written, normalised.escapeTree marshals, escaped,
    unmarshalEnvelope_marshalEnvelope raw escaped marshalled⟩

/-- The message at an offset is one that was published for the event. -/
def Carries (jsonb : Text → Option Text) (log : List String) (offset : Nat)
    (event : Identity.OutboxEvent) : Prop :=
  ∃ publishedAt value, messageValue jsonb publishedAt event = some value ∧
    log[offset]? = some (ofBytes value)

/-- The event is one of those that the invalidator handles, and its payload names the
principal. -/
def Announces (event : Identity.OutboxEvent) (ids : List UUID) : Prop :=
  event.eventType ∈ eventTypes ∧ affectedPrincipalIDs event.payload = some ids

variable (parseTime) in
/-- A message for a revocation affects the principals that the revocation names. -/
theorem affects_of_carries (reads : ReadsUUIDs parseUUID) (keeps : KeepsValues jsonb)
    {log : List String} {offset : Nat} {event : Identity.OutboxEvent} {ids : List UUID}
    (announces : Announces event ids) (carries : Carries jsonb log offset event) :
    Affects (productionConfig parseUUID parseTime) log offset (formatUUID event.eventID) ids := by
  rcases carries with ⟨publishedAt, value, published, there⟩
  rcases unmarshalEnvelope_messageValue parseTime keeps published with
    ⟨members, stored, written, normalised, marshals, decoded⟩
  have names := names_payloadMembers announces.2 written
  have affected := affectedOf_of_normalised reads names.distinct names.once names.occurs
    normalised marshals
  refine ⟨⟨formatUUID event.eventID, event.eventType, ofBytes (compact stored)⟩, _, ?_,
    if_pos announces.1, ?_, rfl⟩
  · rw [there, Option.bind_some, productionConfig]
    simp only [bytesOf_ofBytes, decoded, Option.map_some, envelopeOf]
  · simp only [bytesOf_ofBytes, affected]

/-- What a message affects is under the id of the event that it carries. -/
theorem eventID_of_affects (keeps : KeepsValues jsonb) {log : List String} {offset : Nat}
    {event : Identity.OutboxEvent} (carries : Carries jsonb log offset event) {eventID : String}
    {ids : List UUID}
    (affects : Affects (productionConfig parseUUID parseTime) log offset eventID ids) :
    eventID = formatUUID event.eventID := by
  rcases carries with ⟨publishedAt, value, published, there⟩
  rcases unmarshalEnvelope_messageValue parseTime keeps published with ⟨_, _, _, _, _, decoded⟩
  rcases affects with ⟨envelope, handler, found, -, -, rfl⟩
  rw [there, Option.bind_some, productionConfig] at found
  simp only [bytesOf_ofBytes, decoded, Option.map_some, Option.some.injEq] at found
  rw [← found]
  rfl

end GitScale.Invalidator
