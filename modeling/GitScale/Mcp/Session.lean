import GitScale.Go.Base64
import GitScale.Go.Strconv
import GitScale.Go.UUID

/-!
# Session tokens

`MintSession` and `VerifySession` of the MCP server: a session is carried by its token alone,
which is a payload of three parts and the HMAC of the payload.
-/

namespace GitScale.Mcp

open Go

/-! ## Instants -/

/-- `time.Time`: seconds since the first of January of year one, and nanoseconds. -/
structure Instant where
  seconds : Int64
  nanoseconds : Fin 1000000000
  deriving DecidableEq, Repr

namespace Instant

/-- `unixToInternal`. -/
def unixToInternal : Int64 := 62135596800

/-- `Time.Unix`. -/
def unix (instant : Instant) : Int64 := instant.seconds - unixToInternal

/-- `time.Unix(seconds, 0)`. -/
def ofUnix (seconds : Int64) : Instant := ⟨seconds + unixToInternal, 0⟩

/-- `Time.Truncate(time.Second)`. -/
def truncate (instant : Instant) : Instant := ⟨instant.seconds, 0⟩

/-- `Time.Before`. -/
def before (instant other : Instant) : Bool :=
  instant.seconds < other.seconds ||
    (instant.seconds = other.seconds && instant.nanoseconds < other.nanoseconds)

theorem ofUnix_unix (instant : Instant) : ofUnix instant.unix = instant.truncate := by
  simp [ofUnix, unix, truncate]

end Instant

/-! ## Minting -/

/-- `MinSessionHMACSecretBytes`. -/
def minSessionHMACSecretBytes : Nat := 32

/-- `Session`. -/
structure Session where
  principalID : UUID
  protocolVersion : Text
  expiresAt : Instant
  deriving DecidableEq, Repr

/-- The session with its expiry in whole seconds. -/
def Session.truncated (session : Session) : Session :=
  { session with expiresAt := session.expiresAt.truncate }

/-- The errors of both functions; those that wrap another error are named after what was
read. -/
inductive SessionError where
  /-- `mcp: session secret < 32 bytes` -/
  | weakSecret
  /-- `mcp: session secret too short` -/
  | secretTooShort
  /-- `mcp: malformed session token` -/
  | malformedToken
  /-- `mcp: decode session payload: ...` -/
  | decodePayload
  /-- `mcp: decode session sig: ...` -/
  | decodeSig
  /-- `mcp: session signature mismatch` -/
  | signatureMismatch
  /-- `mcp: malformed session payload` -/
  | malformedPayload
  /-- `mcp: session principal id: ...` -/
  | principalID
  /-- `mcp: session expiry: ...` -/
  | expiry
  /-- `mcp: session expired` -/
  | expired
  deriving DecidableEq, Repr

/-- `|`, which separates the parts of a payload. -/
def bar : UInt8 := byte '|'

/-- `.`, which separates the halves of a token. -/
def dot : UInt8 := byte '.'

/-- The payload that `MintSession` signs. -/
def sessionPayload (session : Session) : Text :=
  ascii (formatUUID session.principalID) ++ bar :: (session.protocolVersion ++ bar ::
    (formatInt session.expiresAt.unix.toInt).map byte)

/-- `MintSession`. -/
def mintSession (secret : Text) (session : Session) : Except SessionError Text :=
  if secret.length < minSessionHMACSecretBytes then .error .weakSecret
  else
    let payload := sessionPayload session
    .ok (base64Encode payload ++ dot :: base64Encode (hmacSha256 secret payload))

/-! ## Verifying -/

/-- The payload and the signature that a token presents: the halves around its last dot,
neither of which is empty, decoded. -/
def presented (token : Text) : Except SessionError (Text × Text) :=
  match lastIndexByte token dot with
  | none => .error .malformedToken
  | some index =>
      if index = 0 ∨ index = token.length - 1 then .error .malformedToken
      else
        match base64Decode (token.take index) with
        | none => .error .decodePayload
        | some payload =>
            match base64Decode (token.drop (index + 1)) with
            | none => .error .decodeSig
            | some signature => .ok (payload, signature)

/-- The session of a payload whose signature matched.  `parseUUID` stands for `uuid.Parse`. -/
def readPayload (parseUUID : String → Option UUID) (now : Instant) (payload : Text) :
    Except SessionError Session :=
  match splitByte payload bar with
  | [principal, version, expiry] =>
      match parseUUID (ofBytes principal) with
      | none => .error .principalID
      | some id =>
          match parseInt (ofBytes expiry).toList with
          | none => .error .expiry
          | some seconds =>
              let expiresAt := Instant.ofUnix (Int64.ofInt seconds)
              if now.before expiresAt then .ok ⟨id, version, expiresAt⟩ else .error .expired
  | _ => .error .malformedPayload

/-- `VerifySession`. -/
def verifySession (parseUUID : String → Option UUID) (secret : Text) (now : Instant)
    (token : Text) : Except SessionError Session :=
  if secret.length < minSessionHMACSecretBytes then .error .secretTooShort
  else
    match presented token with
    | .error error => .error error
    | .ok (payload, signature) =>
        if signature ≠ hmacSha256 secret payload then .error .signatureMismatch
        else readPayload parseUUID now payload

/-! ## What is read from a token -/

theorem presented_encoded {payload signature : Text} (nonempty : payload ≠ [])
    (signed : signature ≠ []) :
    presented (base64Encode payload ++ dot :: base64Encode signature) =
      .ok (payload, signature) := by
  have position : lastIndexByte (base64Encode payload ++ dot :: base64Encode signature) dot =
      some (base64Encode payload).length :=
    lastIndexByte_append (not_mem_base64Encode (by decide) signature)
  have payloadLength : (base64Encode payload).length ≠ 0 := fun empty =>
    nonempty (base64Encode_eq_nil_iff.mp (List.length_eq_zero_iff.mp empty))
  have signatureLength : (base64Encode signature).length ≠ 0 := fun empty =>
    signed (base64Encode_eq_nil_iff.mp (List.length_eq_zero_iff.mp empty))
  have inside : ¬ ((base64Encode payload).length = 0 ∨ (base64Encode payload).length =
      (base64Encode payload ++ dot :: base64Encode signature).length - 1) := by
    rw [List.length_append, List.length_cons]
    omega
  have rest : (base64Encode payload ++ dot :: base64Encode signature).drop
      ((base64Encode payload).length + 1) = base64Encode signature := by
    rw [← List.drop_drop, List.drop_left, List.drop_succ_cons, List.drop_zero]
  simp only [presented, position, if_neg inside, List.take_left, rest,
    base64Decode_base64Encode]

/-- The characters of a printed integer are bytes up to the digit nine. -/
theorem byte_toNat_of_mem_formatInt {value : Int} {character : Char}
    (member : character ∈ formatInt value) :
    character.toNat ≤ 57 ∧ (byte character).toNat = character.toNat := by
  have bound : character.toNat ≤ 57 := by
    cases mem_formatInt member with
    | inl sign =>
        rw [sign]
        decide
    | inr digit =>
        simp only [Char.isDigit, Bool.and_eq_true, decide_eq_true_eq] at digit
        exact UInt32.le_iff_toNat_le.mp digit.2
  refine ⟨bound, ?_⟩
  rw [byte, Char.toUInt8, UInt32.toNat_toUInt8]
  exact Nat.mod_eq_of_lt (Nat.lt_of_le_of_lt bound (by decide))

theorem ofBytes_formatInt (value : Int) :
    (ofBytes ((formatInt value).map byte)).toList = formatInt value := by
  have same : ∀ character ∈ formatInt value,
      Char.ofNat (byte character).toNat = character := by
    intro character member
    rw [(byte_toNat_of_mem_formatInt member).2, Char.ofNat_toNat]
  rw [ofBytes, String.toList_ofList, List.map_map]
  exact (List.map_congr_left same).trans (List.map_id _)

/-- The middle part of a payload may come apart; the others do not. -/
theorem splitByte_sessionPayload (session : Session) :
    splitByte (sessionPayload session) bar =
      ascii (formatUUID session.principalID) :: (splitByte session.protocolVersion bar ++
        [(formatInt session.expiresAt.unix.toInt).map byte]) := by
  have principal : bar ∉ ascii (formatUUID session.principalID) := by
    intro member
    obtain ⟨character, present, same⟩ := List.mem_map.mp member
    have table : "-0123456789abcdef".toList.all (fun character => byte character ≠ bar) = true := by
      decide
    exact of_decide_eq_true (List.all_eq_true.mp table character (mem_formatUUID present)) same
  have expiry : bar ∉ (formatInt session.expiresAt.unix.toInt).map byte := by
    intro member
    obtain ⟨character, present, same⟩ := List.mem_map.mp member
    have bound := byte_toNat_of_mem_formatInt present
    have wanted : bar.toNat = 124 := by decide
    rw [same] at bound
    omega
  rw [splitByte, sessionPayload, List.splitOn_append_cons_self_of_not_mem principal,
    List.splitOn_append_cons_self, List.splitOn_eq_singleton expiry, splitByte]

theorem splitByte_eq_singleton_iff {text part : Text} {separator : UInt8} :
    splitByte text separator = [part] ↔ separator ∉ text ∧ part = text := by
  constructor
  · intro single
    have joined : [separator].intercalate (splitByte text separator) = text :=
      List.intercalate_splitOn separator
    have absent : separator ∉ part := not_mem_of_mem_splitByte (by rw [single]; simp)
    rw [single] at joined
    have same : part = text := by simpa using joined
    exact ⟨same ▸ absent, same⟩
  · rintro ⟨absent, rfl⟩
    exact List.splitOn_eq_singleton absent

/-- `parseUUID` reads what `UUID.String` writes. -/
def ReadsIDs (parseUUID : String → Option UUID) : Prop :=
  ∀ id, parseUUID (formatUUID id) = some id

theorem parseInt_unix (instant : Instant) :
    (parseInt (ofBytes ((formatInt instant.unix.toInt).map byte)).toList).map
      (fun seconds => Instant.ofUnix (Int64.ofInt seconds)) = some instant.truncate := by
  have fits : -(int64Bound : Int) ≤ instant.unix.toInt ∧ instant.unix.toInt < int64Bound :=
    ⟨Int64.le_toInt _, Int64.toInt_lt _⟩
  rw [ofBytes_formatInt, parseInt_formatInt fits, Option.map_some, Int64.ofInt_toInt,
    Instant.ofUnix_unix]

theorem readPayload_of_length {parseUUID : String → Option UUID} {now : Instant} {payload : Text}
    (different : (splitByte payload bar).length ≠ 3) :
    readPayload parseUUID now payload = .error .malformedPayload := by
  unfold readPayload
  split
  case h_1 principal version expiry parts =>
      rw [parts] at different
      exact absurd rfl different
  case h_2 => rfl

/-- A signed payload gives the session back exactly when its version has no bar in it and it
has not expired. -/
theorem readPayload_sessionPayload_iff {parseUUID : String → Option UUID}
    (reads : ReadsIDs parseUUID) {now : Instant} {session returned : Session} :
    readPayload parseUUID now (sessionPayload session) = .ok returned ↔
      bar ∉ session.protocolVersion ∧ now.before session.expiresAt.truncate ∧
        returned = session.truncated := by
  have parts := splitByte_sessionPayload session
  by_cases whole : bar ∈ session.protocolVersion
  · have several : (splitByte session.protocolVersion bar).length ≠ 1 := by
      intro one
      obtain ⟨part, single⟩ := List.length_eq_one_iff.mp one
      exact (splitByte_eq_singleton_iff.mp single).1 whole
    have different : (splitByte (sessionPayload session) bar).length ≠ 3 := by
      rw [parts, List.length_cons, List.length_append, List.length_singleton]
      omega
    simp [readPayload_of_length different, whole]
  · rw [splitByte_eq_singleton_iff.mpr ⟨whole, rfl⟩] at parts
    obtain ⟨seconds, read, instant⟩ := Option.map_eq_some_iff.mp (parseInt_unix session.expiresAt)
    simp only [readPayload, parts, List.cons_append, List.nil_append, ofBytes_ascii_formatUUID,
      reads session.principalID, read, instant, whole, not_false_iff, true_and]
    split
    case isTrue valid => simp [valid, Session.truncated, eq_comm]
    case isFalse late => simp [late]

/-! ## Tokens that are accepted -/

section Tokens

variable {parseUUID : String → Option UUID} {secret : Text}

/-- A session whose token is accepted, with its expiry in whole seconds. -/
def RoundTrips (parseUUID : String → Option UUID) (secret : Text) (now : Instant)
    (session : Session) : Prop :=
  ∃ token, mintSession secret session = .ok token ∧
    verifySession parseUUID secret now token = .ok session.truncated

/-- A token with a matching signature presents the payload of a session that was minted. -/
def Unforged (secret : Text) (minted : Session → Prop) (token : Text) : Prop :=
  ∀ payload signature, presented token = .ok (payload, signature) →
    signature = hmacSha256 secret payload →
    ∃ session, minted session ∧ sessionPayload session = payload

theorem presented_mintSession {session : Session} {token : Text}
    (minted : mintSession secret session = .ok token) :
    presented token =
      .ok (sessionPayload session, hmacSha256 secret (sessionPayload session)) := by
  have nonempty : sessionPayload session ≠ [] := by simp [sessionPayload]
  have signed : hmacSha256 secret (sessionPayload session) ≠ [] := by
    intro empty
    have length := length_hmacSha256 secret (sessionPayload session)
    rw [empty] at length
    exact absurd length (by decide)
  unfold mintSession at minted
  split at minted
  · cases minted
  · rw [← Except.ok.inj minted]
    exact presented_encoded nonempty signed

theorem verifySession_mintSession (now : Instant) {session : Session} {token : Text}
    (long : minSessionHMACSecretBytes ≤ secret.length)
    (minted : mintSession secret session = .ok token) :
    verifySession parseUUID secret now token =
      readPayload parseUUID now (sessionPayload session) := by
  rw [verifySession, if_neg (Nat.not_lt.mpr long), presented_mintSession minted]
  simp

theorem exists_mintSession (long : minSessionHMACSecretBytes ≤ secret.length)
    (session : Session) : ∃ token, mintSession secret session = .ok token :=
  ⟨_, if_neg (Nat.not_lt.mpr long)⟩

theorem roundTrips_iff (reads : ReadsIDs parseUUID)
    (long : minSessionHMACSecretBytes ≤ secret.length) {now : Instant} {session : Session}
    (valid : now.before session.expiresAt.truncate) :
    RoundTrips parseUUID secret now session ↔ bar ∉ session.protocolVersion := by
  have accepted : readPayload parseUUID now (sessionPayload session) = .ok session.truncated ↔
      bar ∉ session.protocolVersion := by
    rw [readPayload_sessionPayload_iff reads]
    simp [valid]
  constructor
  · rintro ⟨token, minted, verified⟩
    rw [verifySession_mintSession now long minted] at verified
    exact accepted.mp verified
  · intro absent
    obtain ⟨token, minted⟩ := exists_mintSession long session
    refine ⟨token, minted, ?_⟩
    rw [verifySession_mintSession now long minted]
    exact accepted.mpr absent

/-- What a token is accepted for. -/
theorem verifySession_cases {now : Instant} {token : Text} {returned : Session}
    (verified : verifySession parseUUID secret now token = .ok returned) :
    ∃ payload, presented token = .ok (payload, hmacSha256 secret payload) ∧
      readPayload parseUUID now payload = .ok returned := by
  unfold verifySession at verified
  split at verified
  · cases verified
  · cases shown : presented token with
    | error error => simp [shown] at verified
    | ok halves =>
        obtain ⟨payload, signature⟩ := halves
        simp only [shown] at verified
        split at verified
        · cases verified
        · next matching =>
            rw [not_not.mp matching]
            exact ⟨payload, rfl, verified⟩

/-- A token gives its session back exactly when no bar in the version takes the payload apart;
and, as long as signatures are not forged, only the sessions that were minted are returned. -/
theorem verifySession_mintSession_iff (reads : ReadsIDs parseUUID)
    (long : minSessionHMACSecretBytes ≤ secret.length) :
    (∀ (now : Instant) (session : Session), session.protocolVersion ≠ [] →
      now.before session.expiresAt.truncate →
      (RoundTrips parseUUID secret now session ↔ bar ∉ session.protocolVersion)) ∧
    ∀ (minted : Session → Prop) (now : Instant) (token : Text) (returned : Session),
      Unforged secret minted token →
      verifySession parseUUID secret now token = .ok returned →
      ∃ session signature, minted session ∧
        presented token = .ok (sessionPayload session, signature) ∧
        returned = session.truncated := by
  constructor
  · intro now session _ valid
    exact roundTrips_iff reads long valid
  · intro minted now token returned unforged verified
    obtain ⟨payload, shown, read⟩ := verifySession_cases verified
    obtain ⟨session, member, rfl⟩ := unforged payload _ shown rfl
    exact ⟨session, _, member, shown, ((readPayload_sessionPayload_iff reads).mp read).2.2⟩

end Tokens

/-- A secret of the least length. -/
def leastSecret : Text := List.replicate minSessionHMACSecretBytes 7

/-- A session of the version, which expires an hour after the instant zero of Unix. -/
def hourSession (version : String) : Session :=
  ⟨0x0123456789abcdef0123456789abcdef#128, ascii version, ⟨Instant.unixToInternal + 3600, 5⟩⟩

theorem verifySession_mintSession_iff_hour :
    ReadsIDs parseHyphenated ∧ minSessionHMACSecretBytes ≤ leastSecret.length ∧
      ∃ token, mintSession leastSecret (hourSession "2025-06-18") = .ok token ∧
        verifySession parseHyphenated leastSecret (.ofUnix 0) token =
          .ok (hourSession "2025-06-18").truncated ∧
        Unforged leastSecret (· = hourSession "2025-06-18") token ∧
        ∃ session signature, session = hourSession "2025-06-18" ∧
          presented token = .ok (sessionPayload session, signature) ∧
          (hourSession "2025-06-18").truncated = session.truncated := by
  have reads : ReadsIDs parseHyphenated := parseHyphenated_formatUUID
  have long : minSessionHMACSecretBytes ≤ leastSecret.length := by decide
  have both := verifySession_mintSession_iff reads long
  have trip : RoundTrips parseHyphenated leastSecret (.ofUnix 0) (hourSession "2025-06-18") :=
    (both.1 _ _ (by decide) (by decide)).mpr (by decide)
  obtain ⟨token, minted, verified⟩ := trip
  have unforged : Unforged leastSecret (· = hourSession "2025-06-18") token := by
    intro payload signature shown _
    rw [presented_mintSession minted] at shown
    exact ⟨_, rfl, (Prod.mk.inj (Except.ok.inj shown)).1⟩
  exact ⟨reads, long, token, minted, verified, unforged,
    both.2 _ (.ofUnix 0) token _ unforged verified⟩

/-- A version with a bar in it is minted, and its token is rejected. -/
theorem barred_version_rejected :
    minSessionHMACSecretBytes ≤ leastSecret.length ∧
      (hourSession "2025|06").protocolVersion ≠ [] ∧
      (Instant.ofUnix 0).before (hourSession "2025|06").expiresAt.truncate ∧
      ¬ RoundTrips parseHyphenated leastSecret (.ofUnix 0) (hourSession "2025|06") := by
  have valid : (Instant.ofUnix 0).before (hourSession "2025|06").expiresAt.truncate := by decide
  refine ⟨by decide, by decide, valid, fun trip => ?_⟩
  have absent := (roundTrips_iff parseHyphenated_formatUUID (by decide) valid).mp trip
  exact absent (by decide)

end GitScale.Mcp
