import GitScale.Basic
import GitScale.Billing.TransitKey
import GitScale.Foundation.Chunks
import GitScale.Go.Binary
import GitScale.Go.Sha256
import GitScale.Go.Strings
import Mathlib.Logic.Encodable.Basic
import Mathlib.Logic.Equiv.List

/-!
# The archive of one month

An archived month is three objects of the data lake: the rows as Parquet, cut into chunks
that are sealed one by one, a manifest, and the checksum of the sealed bytes.  The export
writes them and the restore reads them back.
-/

namespace GitScale.Billing

open Foundation

abbrev Bytes := List UInt8

/-- `UsageEventRow`. -/
structure UsageEventRow where
  id : String
  accountID : String
  principalID : String
  principalType : String
  surface : String
  costVector : String
  value : Int
  repoID : Option String
  eventSource : String
  externalEventID : Option String
  ts : Time
  createdAt : Time
  deriving DecidableEq, Repr

/-- `archiveManifest`. -/
structure ArchiveManifest where
  schemaVersion : Int
  sourcePartition : String
  rowCount : Int
  bytesWritten : Int
  kekHint : String
  encFormat : String
  archiveTS : String
  checksumAlg : String
  deriving DecidableEq, Repr

/-- The functions from elsewhere and what is known about them: AES-256-GCM, `encoding/json`
on a manifest, the Parquet writer and reader, the key that Vault derives for a month from a
version of the transit key, and the `%q` verb. -/
structure Codec where
  sealChunk : Bytes → Bytes → Bytes → Bytes → Bytes
  openChunk : Bytes → Bytes → Bytes → Bytes → Option Bytes
  marshalManifest : ArchiveManifest → Bytes
  unmarshalManifest : Bytes → Except String ArchiveManifest
  writeParquet : List UsageEventRow → Bytes
  readParquet : Bytes → Except String (List UsageEventRow)
  deriveDEK : Nat → Int → Int → Bytes
  quote : String → String
  open_seal : ∀ key nonce plaintext aad,
    openChunk key nonce (sealChunk key nonce plaintext aad) aad = some plaintext
  length_seal : ∀ key nonce plaintext aad,
    (sealChunk key nonce plaintext aad).length = plaintext.length + 16
  unmarshal_marshal : ∀ manifest, unmarshalManifest (marshalManifest manifest) = .ok manifest
  read_write : ∀ rows, readParquet (writeParquet rows) = .ok rows
  length_deriveDEK : ∀ version year month, (deriveDEK version year month).length = 32

section Inhabited

instance encodableString : Encodable String :=
  Encodable.ofLeftInverse (fun text => text.toList.map Char.toNat)
    (fun codes => String.ofList (codes.map Char.ofNat)) (by
      intro text
      have chars : text.toList.map (Char.ofNat ∘ Char.toNat) = text.toList := by
        rw [show Char.ofNat ∘ Char.toNat = id from funext Char.ofNat_toNat, List.map_id]
      rw [List.map_map, chars, String.ofList_toList])

instance : Encodable ArchiveManifest :=
  Encodable.ofLeftInverse
    (fun ⟨schemaVersion, sourcePartition, rowCount, bytesWritten, kekHint, encFormat, archiveTS,
        checksumAlg⟩ =>
      (schemaVersion, sourcePartition, rowCount, bytesWritten, kekHint, encFormat, archiveTS,
        checksumAlg))
    (fun (schemaVersion, sourcePartition, rowCount, bytesWritten, kekHint, encFormat, archiveTS,
        checksumAlg) =>
      ⟨schemaVersion, sourcePartition, rowCount, bytesWritten, kekHint, encFormat, archiveTS,
        checksumAlg⟩)
    fun _ => rfl

instance : Encodable UsageEventRow :=
  Encodable.ofLeftInverse
    (fun ⟨id, accountID, principalID, principalType, surface, costVector, value, repoID,
        eventSource, externalEventID, ts, createdAt⟩ =>
      (id, accountID, principalID, principalType, surface, costVector, value, repoID,
        eventSource, externalEventID, (show Int from ts), (show Int from createdAt)))
    (fun (id, accountID, principalID, principalType, surface, costVector, value, repoID,
        eventSource, externalEventID, ts, createdAt) =>
      ⟨id, accountID, principalID, principalType, surface, costVector, value, repoID,
        eventSource, externalEventID, ts, createdAt⟩)
    fun _ => rfl

/-- A value in unary. -/
def unary {Value : Type} [Encodable Value] (value : Value) : Bytes :=
  List.replicate (Encodable.encode value) 0

def ofUnary {Value : Type} [Encodable Value] (bytes : Bytes) : Except String Value :=
  match Encodable.decode bytes.length with
  | some value => .ok value
  | none => .error "not a number of a value"

theorem ofUnary_unary {Value : Type} [Encodable Value] (value : Value) :
    ofUnary (unary value) = .ok value := by
  rw [ofUnary, unary, List.length_replicate, Encodable.encodek]

/-- The laws can be met: without encryption, and with everything in unary. -/
instance : Inhabited Codec where
  default := {
    sealChunk := fun _ _ plaintext _ => plaintext ++ List.replicate 16 0
    openChunk := fun _ _ ciphertext _ => some (ciphertext.take (ciphertext.length - 16))
    marshalManifest := unary
    unmarshalManifest := ofUnary
    writeParquet := unary
    readParquet := ofUnary
    deriveDEK := fun _ _ _ => List.replicate 32 0
    quote := fun text => "\"" ++ text ++ "\""
    open_seal := by simp
    length_seal := by simp
    unmarshal_marshal := ofUnary_unary
    read_write := ofUnary_unary
    length_deriveDEK := by simp }

end Inhabited

/-- How a statement ends: a lost answer comes after the effect. -/
inductive Effect where
  | ok
  | failed (message : String)
  | lost (message : String)
  deriving DecidableEq, Repr

/-! ## Names -/

/-- `fmt.Sprintf("billing.usage_events_%04d_%02d", year, month)`. -/
def partitionName (year month : Int) : String :=
  "billing.usage_events_" ++ Go.zeroPadded 4 year ++ "_" ++ Go.zeroPadded 2 month

/-- `archivedSidecarKey`. -/
def archivedSidecarKey (year month : Int) (suffix : String) : String :=
  "billing/usage_events/year=" ++ Go.zeroPadded 4 year ++ "/month=" ++
    Go.zeroPadded 2 month ++ "/usage_events_" ++ Go.zeroPadded 4 year ++ "_" ++
    Go.zeroPadded 2 month ++ suffix

/-- `archivedParquetKey`. -/
def archivedParquetKey (year month : Int) : String := archivedSidecarKey year month ".parquet"

def manifestKey (year month : Int) : String := archivedSidecarKey year month ".manifest.json"

def checksumKey (year month : Int) : String := archivedSidecarKey year month ".checksum.sha256"

/-- `encFormatV1`. -/
def encFormatV1 : String := "aes-256-gcm-v1-4mib"

/-! ## Sealing -/

/-- The size of a plaintext chunk. -/
def chunkSize : Nat := 4194304

/-- The associated data of a chunk. -/
def chunkAAD (partition : String) (index : Nat) : Bytes :=
  Go.utf8 (partition ++ ":" ++ toString index)

/-- Length, nonce and ciphertext. -/
def frameOf (nonce ciphertext : Bytes) : Bytes :=
  Go.putUint32 (nonce.length + ciphertext.length) ++ nonce ++ ciphertext

section Streams

variable (codec : Codec) (key : Bytes) (partition : String)

/-- The frames of the chunks from number `index` on. -/
def encryptChunks (nonces : Nat → Bytes) : Nat → List Bytes → Bytes
  | _, [] => []
  | index, chunk :: rest =>
      frameOf (nonces index)
          (codec.sealChunk key (nonces index) chunk (chunkAAD partition index)) ++
        encryptChunks nonces (index + 1) rest

/-- The encrypt loop of `ExportActivity.Execute`. -/
def encryptStream (nonces : Nat → Bytes) (plaintext : Bytes) : Bytes :=
  encryptChunks codec key partition nonces 0 (chunks chunkSize plaintext)

/-- The errors of the restore; Temporal does not retry the first four. -/
inductive RestoreError where
  | unsupportedEncFormat (message : String)
  | checksumMismatch (message : String)
  | frameTampered (message : String)
  | objectNotFound (message : String)
  | other (message : String)
  deriving DecidableEq, Repr

def tampered (message : String) (index : Nat) : RestoreError :=
  .frameTampered ("billing/restore: frame tampered or DEK mismatch: " ++ message ++
    " at chunk " ++ toString index)

/-- `maxFramePayloadBytes`. -/
def maxFramePayloadBytes : Nat := 4194304 + 1024

/-- The loop of `DecodeStream`; every frame takes something off the stream. -/
def decodeFrames : Nat → Nat → Bytes → Except RestoreError Bytes
  | 0, _, _ => .ok []
  | fuel + 1, index, stream =>
      if stream = [] then .ok []
      else
        match readFull 4 stream with
        | none => .error (tampered "truncated length prefix" index)
        | some (header, rest) =>
            let payloadLen := Go.uint32 header
            if payloadLen < 28 then
              .error (tampered ("payload_len " ++ toString payloadLen ++ " < nonce+tag") index)
            else if maxFramePayloadBytes < payloadLen then
              .error (tampered ("payload_len " ++ toString payloadLen ++ " exceeds cap") index)
            else
              match readFull payloadLen rest with
              | none => .error (tampered "truncated payload" index)
              | some (payload, rest) =>
                  match codec.openChunk key (payload.take 12) (payload.drop 12)
                      (chunkAAD partition index) with
                  | none =>
                      .error (.frameTampered
                        ("billing/restore: frame tampered or DEK mismatch: chunk " ++
                          toString index ++ " open: cipher: message authentication failed"))
                  | some plaintext =>
                      match decodeFrames fuel (index + 1) rest with
                      | .error error => .error error
                      | .ok later => .ok (plaintext ++ later)

/-- `DecodeStream`. -/
def decodeStream (stream : Bytes) : Except RestoreError Bytes :=
  if key.length ≠ 32 then
    .error (.other ("billing/restore: DEK must be 32 bytes, got " ++ toString key.length))
  else decodeFrames codec key partition stream.length 0 stream

variable {codec key partition} {nonces : Nat → Bytes}

/-- Reading one frame back. -/
theorem decodeFrames_frame {fuel index : Nat} {chunk : Bytes} (rest : Bytes)
    (nonce : (nonces index).length = 12) (small : chunk.length ≤ chunkSize) :
    decodeFrames codec key partition (fuel + 1) index
        (frameOf (nonces index)
          (codec.sealChunk key (nonces index) chunk (chunkAAD partition index)) ++ rest) =
      match decodeFrames codec key partition fuel (index + 1) rest with
      | .error error => .error error
      | .ok later => .ok (chunk ++ later) := by
  have length := codec.length_seal key (nonces index) chunk (chunkAAD partition index)
  generalize ciphertext :
    codec.sealChunk key (nonces index) chunk (chunkAAD partition index) = sealed at length
  have payloadLen : (nonces index ++ sealed).length = 28 + chunk.length := by
    rw [List.length_append, nonce, length]
    omega
  have number : (nonces index).length + sealed.length = 28 + chunk.length := by
    rw [← List.length_append]
    exact payloadLen
  have split : frameOf (nonces index) sealed ++ rest =
      Go.putUint32 (28 + chunk.length) ++ (nonces index ++ sealed ++ rest) := by
    simp only [frameOf, number, List.append_assoc]
  have bounded : 28 + chunk.length ≤ maxFramePayloadBytes := by
    simp only [chunkSize] at small
    simp only [maxFramePayloadBytes]
    omega
  have read : Go.uint32 (Go.putUint32 (28 + chunk.length)) = 28 + chunk.length := by
    apply Go.uint32_putUint32
    simp only [maxFramePayloadBytes] at bounded
    omega
  have nonempty : Go.putUint32 (28 + chunk.length) ++ (nonces index ++ sealed ++ rest) ≠ [] := by
    simp [Go.putUint32]
  rw [split, decodeFrames, if_neg nonempty,
    readFull_append (Go.length_putUint32 _) (nonces index ++ sealed ++ rest)]
  simp only [read, if_neg (show ¬ 28 + chunk.length < 28 by omega),
    if_neg (Nat.not_lt.mpr bounded), readFull_append payloadLen rest]
  rw [List.take_append_of_le_length (Nat.le_of_eq nonce.symm),
    List.drop_append_of_le_length (Nat.le_of_eq nonce.symm),
    List.take_of_length_le (Nat.le_of_eq nonce), List.drop_of_length_le (Nat.le_of_eq nonce),
    List.nil_append, ← ciphertext, codec.open_seal]

theorem decodeFrames_encryptChunks (lengths : ∀ index, (nonces index).length = 12)
    {parts : List Bytes} (small : ∀ chunk ∈ parts, chunk.length ≤ chunkSize) {fuel : Nat}
    (enough : parts.length ≤ fuel) (index : Nat) :
    decodeFrames codec key partition fuel index
      (encryptChunks codec key partition nonces index parts) = .ok parts.flatten := by
  induction parts generalizing fuel index with
  | nil =>
      cases fuel with
      | zero => rfl
      | succ fuel => simp [encryptChunks, decodeFrames]
  | cons chunk rest inductionHypothesis =>
      cases fuel with
      | zero => cases enough
      | succ fuel =>
          rw [encryptChunks, decodeFrames_frame _ (lengths index)
            (small chunk List.mem_cons_self)]
          rw [inductionHypothesis
            (fun later member => small later (List.mem_cons_of_mem _ member))
            (Nat.le_of_succ_le_succ enough)]
          simp only [List.flatten_cons]

/-- A frame is at least as long as its header. -/
theorem length_le_length_encryptChunks (parts : List Bytes) (index : Nat) :
    parts.length ≤ (encryptChunks codec key partition nonces index parts).length := by
  induction parts generalizing index with
  | nil => exact Nat.zero_le _
  | cons chunk rest inductionHypothesis =>
      have later := inductionHypothesis (index + 1)
      simp only [encryptChunks, frameOf, List.length_cons, List.length_append,
        Go.length_putUint32]
      omega

/-- What was encrypted is decoded. -/
theorem decodeStream_encryptStream (fits : key.length = 32)
    (lengths : ∀ index, (nonces index).length = 12) (plaintext : Bytes) :
    decodeStream codec key partition (encryptStream codec key partition nonces plaintext) =
      .ok plaintext := by
  rw [decodeStream, if_neg (not_not.mpr fits), encryptStream,
    decodeFrames_encryptChunks lengths (fun chunk member => length_le_of_mem_chunks member)
      (length_le_length_encryptChunks _ 0), flatten_chunks (by decide)]

end Streams

/-! ## Reading the objects -/

/-- The content of the object store. -/
abbrev Objects := String → Option Bytes

/-- The text of `ErrObjectNotFound` for a key. -/
def objectNotFound (key : String) : String := "object store: not found: " ++ key

/-- `FetchManifestResult`. -/
structure FetchManifestResult where
  sourcePartition : String
  rowCount : Int
  bytesWritten : Int
  kekHint : String
  encFormat : String
  checksumAlg : String
  parquetKey : String
  checksumKey : String
  deriving DecidableEq, Repr

section Activities

variable (codec : Codec) (objects : Objects)

/-- `FetchManifestActivity.Execute`. -/
def fetchManifest (year month : Int) : Except RestoreError FetchManifestResult :=
  match objects (manifestKey year month) with
  | none =>
      .error (.objectNotFound ("fetch manifest: " ++ objectNotFound (manifestKey year month)))
  | some raw =>
      match codec.unmarshalManifest raw with
      | .error message =>
          .error (.other ("fetch manifest: parse " ++ manifestKey year month ++ ": " ++ message))
      | .ok manifest =>
          if manifest.sourcePartition ≠ partitionName year month then
            .error (.other ("fetch manifest: source_partition=" ++
              codec.quote manifest.sourcePartition ++ " want " ++
              codec.quote (partitionName year month) ++
              " (manifest does not match requested partition)"))
          else if manifest.schemaVersion ≠ 1 then
            .error (.other ("fetch manifest: schema_version=" ++
              toString manifest.schemaVersion ++ " unsupported (this worker reads only v1)"))
          else
            .ok {
              sourcePartition := manifest.sourcePartition
              rowCount := manifest.rowCount
              bytesWritten := manifest.bytesWritten
              kekHint := manifest.kekHint
              encFormat := manifest.encFormat
              checksumAlg := manifest.checksumAlg
              parquetKey := archivedParquetKey year month
              checksumKey := Billing.checksumKey year month }

/-- `VerifyChecksumActivity.Execute`. -/
def verifyChecksum (parquetKey checksumKey : String) : Except RestoreError Unit :=
  match objects checksumKey with
  | none =>
      .error (.other ("verify checksum: fetch sidecar: " ++ objectNotFound checksumKey))
  | some expectedRaw =>
      match objects parquetKey with
      | none =>
          .error (.other ("verify checksum: download parquet: " ++ objectNotFound parquetKey))
      | some body =>
          let actual := Go.hexEncode (Go.sha256 body)
          -- bytes that are no text differ from every hexadecimal text
          if (Go.ofUTF8 expectedRaw).map Go.trimSpace = some actual then .ok ()
          else
            .error (.checksumMismatch ("billing/restore: parquet checksum mismatch: expected=" ++
              ((Go.ofUTF8 expectedRaw).map Go.trimSpace).getD "" ++ " actual=" ++ actual ++
              " key=" ++ parquetKey))

/-- `DEK`. -/
structure DEK where
  bytes : Bytes
  kekHint : String
  deriving DecidableEq, Repr

/-- `VaultKeyProvider.GetDEK` at a version of the transit key. -/
def getDEK (version : Nat) (year month : Int) : Except String DEK :=
  if year < 2026 ∨ 2100 < year then
    .error ("vault keyprovider: year " ++ toString year ++ " out of range")
  else if month < 1 ∨ 12 < month then
    .error ("vault keyprovider: month " ++ toString month ++ " out of range")
  else .ok ⟨codec.deriveDEK version year month, String.ofList (kekHint version)⟩

/-- `DownloadAndDecryptActivity.Execute` up to the scratch file, which gets the result. -/
def downloadDecrypt (version : Nat) (year month : Int) (manifest : FetchManifestResult) :
    Except RestoreError Bytes :=
  if manifest.encFormat ≠ encFormatV1 then
    .error (.unsupportedEncFormat ("billing/restore: unsupported enc_format: " ++
      codec.quote manifest.encFormat ++ " (worker only reads " ++ codec.quote encFormatV1 ++
      ")"))
  else
    match getDEK codec version year month with
    | .error message => .error (.other ("download+decrypt: get dek: " ++ message))
    | .ok dek =>
        if dek.kekHint ≠ manifest.kekHint then
          .error (.other ("download+decrypt: kek_hint mismatch — manifest=" ++
            codec.quote manifest.kekHint ++ " worker=" ++ codec.quote dek.kekHint ++
            " (operator must pin the historical key version; see runbook)"))
        else
          match objects manifest.parquetKey with
          | none =>
              .error (.other ("download+decrypt: download: " ++
                objectNotFound manifest.parquetKey))
          | some body =>
              match decodeStream codec dek.bytes manifest.sourcePartition body with
              | .error (.frameTampered message) =>
                  .error (.frameTampered ("download+decrypt: decode: " ++ message))
              | .error (.other message) =>
                  .error (.other ("download+decrypt: decode: " ++ message))
              | .error error => .error error
              | .ok plaintext => .ok plaintext

/-- The manifest is found under the name of the month, and so are the other objects. -/
theorem fetchManifest_keys {codec : Codec} {objects : Objects} {year month : Int}
    {manifest : FetchManifestResult}
    (fetched : fetchManifest codec objects year month = .ok manifest) :
    manifest.parquetKey = archivedParquetKey year month ∧
      manifest.checksumKey = checksumKey year month := by
  unfold fetchManifest at fetched
  repeat' split at fetched
  all_goals cases fetched
  exact ⟨rfl, rfl⟩

end Activities

/-! ## An archived month -/

/-- What one complete export of a month wrote. -/
structure ArchivedMonth where
  year : Int
  month : Int
  rows : List UsageEventRow
  version : Nat
  nonces : Nat → Bytes
  archiveTS : String
  year_supported : 2026 ≤ year ∧ year ≤ 2099
  month_valid : 1 ≤ month ∧ month ≤ 12
  nonces_length : ∀ index, (nonces index).length = 12

/-- A month with one event. -/
def oneEvent : ArchivedMonth where
  year := 2026
  month := 5
  rows := [{
    id := "7d0f7a52-5f0e-4c6c-9c2b-0d5f4f1f5b11"
    accountID := "3c8f5d1e-2f2a-4a27-8a35-6f0d3c9d7a01"
    principalID := "9b1d9c5c-7a1e-4f0e-a4a4-1d1f0e2c3b02"
    principalType := "human"
    surface := "api_requests"
    costVector := "\x7b\x7d"
    value := 1
    repoID := none
    eventSource := "gateway"
    externalEventID := none
    ts := 63913190400000000000
    createdAt := 63913190400000000000 }]
  version := 1
  nonces := fun _ => List.replicate 12 0
  archiveTS := "2027-09-02T00:00:00Z"
  year_supported := by decide
  month_valid := by decide
  nonces_length := fun _ => rfl

section Archived

variable (codec : Codec) (archived : ArchivedMonth)

namespace ArchivedMonth

def ciphertext : Bytes :=
  encryptStream codec (codec.deriveDEK archived.version archived.year archived.month)
    (partitionName archived.year archived.month) archived.nonces
    (codec.writeParquet archived.rows)

def manifest : ArchiveManifest where
  schemaVersion := 1
  sourcePartition := partitionName archived.year archived.month
  rowCount := archived.rows.length
  bytesWritten := (archived.ciphertext codec).length
  kekHint := String.ofList (kekHint archived.version)
  encFormat := encFormatV1
  archiveTS := archived.archiveTS
  checksumAlg := "sha256"

def checksum : Bytes := Go.utf8 (Go.hexEncode (Go.sha256 (archived.ciphertext codec)))

/-- The objects of the month. -/
def objects : Objects := fun key =>
  if key = archivedParquetKey archived.year archived.month then
    some (archived.ciphertext codec)
  else if key = manifestKey archived.year archived.month then
    some (codec.marshalManifest (archived.manifest codec))
  else if key = checksumKey archived.year archived.month then some (archived.checksum codec)
  else none

end ArchivedMonth

theorem archivedSidecarKey_inj {year month : Int} {suffix suffix' : String}
    (equal : archivedSidecarKey year month suffix = archivedSidecarKey year month suffix') :
    suffix = suffix' := by
  unfold archivedSidecarKey at equal
  exact (String.append_right_inj _).mp equal

theorem manifestKey_ne_parquetKey (year month : Int) :
    manifestKey year month ≠ archivedParquetKey year month := by
  intro equal
  exact absurd (archivedSidecarKey_inj equal) (by decide)

theorem checksumKey_ne_parquetKey (year month : Int) :
    checksumKey year month ≠ archivedParquetKey year month := by
  intro equal
  exact absurd (archivedSidecarKey_inj equal) (by decide)

theorem checksumKey_ne_manifestKey (year month : Int) :
    checksumKey year month ≠ manifestKey year month := by
  intro equal
  exact absurd (archivedSidecarKey_inj equal) (by decide)

theorem objects_parquet :
    archived.objects codec (archivedParquetKey archived.year archived.month) =
      some (archived.ciphertext codec) :=
  if_pos rfl

theorem objects_manifest :
    archived.objects codec (manifestKey archived.year archived.month) =
      some (codec.marshalManifest (archived.manifest codec)) := by
  rw [ArchivedMonth.objects, if_neg (manifestKey_ne_parquetKey _ _), if_pos rfl]

theorem objects_checksum :
    archived.objects codec (checksumKey archived.year archived.month) =
      some (archived.checksum codec) := by
  rw [ArchivedMonth.objects, if_neg (checksumKey_ne_parquetKey _ _),
    if_neg (checksumKey_ne_manifestKey _ _), if_pos rfl]

/-- The checksum of one stream is accepted for another exactly when the digests agree. -/
theorem verifyChecksum_iff {objects : Objects} {parquetKey checksumKey : String}
    {body sealed : Bytes} (parquet : objects parquetKey = some body)
    (checksum : objects checksumKey = some (Go.utf8 (Go.hexEncode (Go.sha256 sealed)))) :
    verifyChecksum objects parquetKey checksumKey = .ok () ↔
      Go.hexEncode (Go.sha256 sealed) = Go.hexEncode (Go.sha256 body) := by
  have trimmed : Go.trimSpace (Go.hexEncode (Go.sha256 sealed)) =
      Go.hexEncode (Go.sha256 sealed) :=
    Go.trimSpace_eq_self fun char member => Go.isSpace_of_mem_hexEncode member
  simp only [verifyChecksum, checksum, parquet, Go.ofUTF8_utf8, Option.map_some, trimmed,
    Option.some.injEq]
  split
  · rename_i equal
    exact iff_of_true rfl equal
  · rename_i different
    exact iff_of_false nofun different

/-- The checksum of what was uploaded is accepted. -/
theorem verifyChecksum_ok {objects : Objects} {parquetKey checksumKey : String} {body : Bytes}
    (parquet : objects parquetKey = some body)
    (checksum : objects checksumKey = some (Go.utf8 (Go.hexEncode (Go.sha256 body)))) :
    verifyChecksum objects parquetKey checksumKey = .ok () :=
  (verifyChecksum_iff parquet checksum).mpr rfl

/-- What the restore learns from the manifest. -/
def ArchivedMonth.fetched : FetchManifestResult where
  sourcePartition := partitionName archived.year archived.month
  rowCount := archived.rows.length
  bytesWritten := (archived.ciphertext codec).length
  kekHint := String.ofList (kekHint archived.version)
  encFormat := encFormatV1
  checksumAlg := "sha256"
  parquetKey := archivedParquetKey archived.year archived.month
  checksumKey := checksumKey archived.year archived.month

theorem fetchManifest_archived :
    fetchManifest codec (archived.objects codec) archived.year archived.month =
      .ok (archived.fetched codec) := by
  simp only [fetchManifest, objects_manifest, codec.unmarshal_marshal,
    ArchivedMonth.manifest, ne_eq, not_true_eq_false, if_false]
  rfl

theorem verifyChecksum_archived :
    verifyChecksum (archived.objects codec) (archived.fetched codec).parquetKey
      (archived.fetched codec).checksumKey = .ok () := by
  have parquet : archived.objects codec (archived.fetched codec).parquetKey =
      some (archived.ciphertext codec) := objects_parquet codec archived
  have checksum : archived.objects codec (archived.fetched codec).checksumKey =
      some (archived.checksum codec) := objects_checksum codec archived
  rw [ArchivedMonth.checksum] at checksum
  exact verifyChecksum_ok parquet checksum

theorem kekHint_inj {version version' : Nat} (equal : kekHint version = kekHint version') :
    version = version' := by
  have texts : "platform-billing".toList ++ '-' :: 'v' :: Nat.toDigits 10 version =
      "platform-billing".toList ++ '-' :: 'v' :: Nat.toDigits 10 version' := equal
  generalize "platform-billing".toList = front at texts
  have digits := (List.cons.inj (List.cons.inj (List.append_cancel_left texts)).2).2
  have read := Go.parseUint_toDigits version
  rw [digits, Go.parseUint_toDigits version'] at read
  exact (Option.some.inj read).symm

/-- The key of the version that the manifest names opens what was sealed with it. -/
theorem downloadDecrypt_ok {codec : Codec} {objects : Objects} {version : Nat}
    {year month : Int} {manifest : FetchManifestResult} {nonces : Nat → Bytes}
    {plaintext : Bytes} (year_supported : 2026 ≤ year ∧ year ≤ 2099)
    (month_valid : 1 ≤ month ∧ month ≤ 12) (format : manifest.encFormat = encFormatV1)
    (hint : manifest.kekHint = String.ofList (kekHint version))
    (lengths : ∀ index, (nonces index).length = 12)
    (body : objects manifest.parquetKey =
      some (encryptStream codec (codec.deriveDEK version year month) manifest.sourcePartition
        nonces plaintext)) :
    downloadDecrypt codec objects version year month manifest = .ok plaintext := by
  have decoded : decodeStream codec (codec.deriveDEK version year month)
      manifest.sourcePartition
      (encryptStream codec (codec.deriveDEK version year month) manifest.sourcePartition nonces
        plaintext) = .ok plaintext :=
    decodeStream_encryptStream (codec.length_deriveDEK ..) lengths plaintext
  rw [downloadDecrypt, if_neg (not_not.mpr format), getDEK, if_neg (by omega),
    if_neg (by omega)]
  simp only [hint, ne_eq, not_true_eq_false, if_false, body, decoded]

theorem downloadDecrypt_own :
    downloadDecrypt codec (archived.objects codec) archived.version archived.year archived.month
      (archived.fetched codec) = .ok (codec.writeParquet archived.rows) :=
  downloadDecrypt_ok archived.year_supported archived.month_valid rfl rfl archived.nonces_length
    (objects_parquet codec archived)

/-- The decryption is refused or yields the rows. -/
theorem downloadDecrypt_archived {version : Nat} {plaintext : Bytes}
    (decrypted : downloadDecrypt codec (archived.objects codec) version archived.year
      archived.month (archived.fetched codec) = .ok plaintext) :
    plaintext = codec.writeParquet archived.rows := by
  have year := archived.year_supported
  have month := archived.month_valid
  have same : version = archived.version := by
    by_contra different
    have hint : String.ofList (kekHint version) ≠ (archived.fetched codec).kekHint := by
      intro equal
      exact different (kekHint_inj (String.ofList_injective equal))
    have format : (archived.fetched codec).encFormat = encFormatV1 := rfl
    rw [downloadDecrypt, if_neg (not_not.mpr format), getDEK, if_neg (by omega),
      if_neg (by omega)] at decrypted
    simp only [if_pos hint] at decrypted
    cases decrypted
  rw [same, downloadDecrypt_own] at decrypted
  exact (Except.ok.inj decrypted).symm

end Archived

end GitScale.Billing
