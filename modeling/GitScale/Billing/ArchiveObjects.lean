import GitScale.Billing.Archive

/-!
# The objects of a month

The file, the manifest and the checksum of a month are written one by one, by attempts of
the export that overlap.  What is kept by every call of every attempt: an object comes from
the attempt that wrote it last, and a checksum belongs to the file if one attempt wrote
both.  That is enough for the restore to recover the rows.
-/

namespace GitScale.Billing

open Foundation

variable (codec : Codec) (target : ArchiveTarget)

/-- The restore accepts the checksum and, with the version of the key that the manifest
names, reads a file with these rows. -/
def Recoverable (objects : Objects) (rows : List UsageEventRow) : Prop :=
  ∃ manifest version recovered,
    fetchManifest codec objects target.year target.month = .ok manifest ∧
    verifyChecksum objects manifest.parquetKey manifest.checksumKey = .ok () ∧
    recovered.Perm rows ∧
    downloadDecrypt codec objects version target.year target.month manifest =
      .ok (codec.writeParquet recovered)

/-- One attempt wrote the file and the checksum, and the manifest names the version of its
key. -/
def Writers.BelongTogether (writers : Writers) : Prop :=
  writers.parquet = writers.checksum ∧
    writers.manifest.map Writer.version = writers.parquet.map Writer.version

instance (writers : Writers) : Decidable writers.BelongTogether :=
  inferInstanceAs (Decidable (_ ∧ _))

/-! ## Invariant -/

def ArchiveTarget.Supported : Prop :=
  (2026 ≤ target.year ∧ target.year ≤ 2099) ∧ 1 ≤ target.month ∧ target.month ≤ 12

def Placement.Separate (placement : Placement) : Prop :=
  placement = .detached ∨ placement = .dropped

/-- The ciphertext of all the rows under a version of the key. -/
def SealsRows (rows : List UsageEventRow) (version : Nat) (ciphertext : Bytes) : Prop :=
  ∃ nonces : Nonces,
    ciphertext = sealed codec target version nonces
      (codec.writeParquet (scanPartitionRows rows))

/-- What the restore looks at in a manifest. -/
structure ArchiveManifest.Names (manifest : ArchiveManifest) (version : Nat) : Prop where
  sourcePartition : manifest.sourcePartition = partitionName target.year target.month
  schemaVersion : manifest.schemaVersion = 1
  encFormat : manifest.encFormat = encFormatV1
  kekHint : manifest.kekHint = String.ofList (Billing.kekHint version)

section Sound

variable (rows : List UsageEventRow) (objects : Objects) (writers : Writers)

/-- The attempt has not written a checksum that is still there. -/
def NoChecksum (attempt : Nat) : Prop :=
  ∀ writer, writers.checksum = some writer → writer.attempt ≠ attempt

/-- What an attempt holds.  Until it writes its checksum, the file is its own ciphertext if
it wrote the file last. -/
def StageSound (attempt : Nat) : ExportStage → Prop
  | .begun | .keyed _ => NoChecksum writers attempt
  | .scanned _ scanned => scanned = scanPartitionRows rows ∧ NoChecksum writers attempt
  | .uploaded version ciphertext _ | .described version ciphertext _ =>
      SealsRows codec target rows version ciphertext ∧ NoChecksum writers attempt ∧
        ∀ writer, writers.parquet = some writer → writer.attempt = attempt →
          objects (archivedParquetKey target.year target.month) = some ciphertext
  | .finished _ => writers.checksum ≠ none
  | .failed _ => True

/-- The checksum is the one of the file if they are from one attempt. -/
def ChecksumSound (writer : Writer) : Prop :=
  ∃ ciphertext, SealsRows codec target rows writer.version ciphertext ∧
    objects (checksumKey target.year target.month) =
      some (Go.utf8 (Go.hexEncode (Go.sha256 ciphertext))) ∧
    (writers.parquet = some writer →
      objects (archivedParquetKey target.year target.month) = some ciphertext)

def ManifestSound (writer : Writer) : Prop :=
  ∃ manifest : ArchiveManifest, manifest.Names target writer.version ∧
    objects (manifestKey target.year target.month) = some (codec.marshalManifest manifest)

structure StoreSound (attempts : List ExportStage) : Prop where
  stage : ∀ (attempt : Nat) stage, attempts[attempt]? = some stage →
    StageSound codec target rows objects writers attempt stage
  checksum : ∀ writer, writers.checksum = some writer →
    writer.attempt < attempts.length ∧ ChecksumSound codec target rows objects writers writer
  manifest : ∀ writer, writers.manifest = some writer →
    ManifestSound codec target objects writer

end Sound

variable {codec target}

/-! ## Objects that belong together -/

theorem fetchManifest_of_names {manifest : ArchiveManifest} {version : Nat}
    {objects : Objects} (names : manifest.Names target version)
    (stored : objects (manifestKey target.year target.month) =
      some (codec.marshalManifest manifest)) :
    fetchManifest codec objects target.year target.month = .ok {
      sourcePartition := manifest.sourcePartition
      rowCount := manifest.rowCount
      bytesWritten := manifest.bytesWritten
      kekHint := manifest.kekHint
      encFormat := manifest.encFormat
      checksumAlg := manifest.checksumAlg
      parquetKey := archivedParquetKey target.year target.month
      checksumKey := checksumKey target.year target.month } := by
  simp only [fetchManifest, stored, codec.unmarshal_marshal, names.sourcePartition,
    names.schemaVersion, ne_eq, not_true_eq_false, if_false]

/-- Objects that belong together are enough to recover the rows. -/
theorem StoreSound.recoverable {rows : List UsageEventRow} {objects : Objects}
    {writers : Writers} {attempts : List ExportStage}
    (sound : StoreSound codec target rows objects writers attempts)
    (supported : target.Supported) (present : writers.checksum ≠ none)
    (together : writers.BelongTogether) : Recoverable codec target objects rows := by
  rcases Option.ne_none_iff_exists'.mp present with ⟨writer, checksum⟩
  have parquet : writers.parquet = some writer := together.1.trans checksum
  have versions : writers.manifest.map Writer.version = some writer.version := by
    rw [together.2, parquet]
    rfl
  rcases Option.map_eq_some_iff.mp versions with ⟨describer, manifest, version⟩
  rcases (sound.checksum writer checksum).2 with ⟨ciphertext, ⟨nonces, seals⟩, digest, body⟩
  rcases sound.manifest describer manifest with ⟨manifest, names, stored⟩
  refine ⟨_, writer.version, scanPartitionRows rows, fetchManifest_of_names names stored,
    verifyChecksum_ok (body parquet) digest, List.mergeSort_perm .., ?_⟩
  apply downloadDecrypt_ok supported.1 supported.2 names.encFormat
  · rw [← version]
    exact names.kekHint
  · exact nonces.length_nonce
  · rw [names.sourcePartition, body parquet, seals]
    rfl

/-! ## Writing objects -/

section Store

variable {rows : List UsageEventRow} {objects objects' : Objects} {writers writers' : Writers}
  {attempts : List ExportStage} {attempt version : Nat} {next : ExportStage}

/-- What an attempt holds does not depend on objects that others write. -/
theorem StageSound.frame {stage : ExportStage}
    (sound : StageSound codec target rows objects writers attempt stage)
    (fresh : NoChecksum writers attempt → NoChecksum writers' attempt)
    (file : ∀ writer, writers'.parquet = some writer → writer.attempt = attempt →
      writers.parquet = some writer ∧
        objects' (archivedParquetKey target.year target.month) =
          objects (archivedParquetKey target.year target.month))
    (present : writers.checksum ≠ none → writers'.checksum ≠ none) :
    StageSound codec target rows objects' writers' attempt stage := by
  cases stage with
  | begun | keyed version => exact fresh sound
  | scanned version scanned => exact ⟨sound.1, fresh sound.2⟩
  | uploaded version ciphertext rowCount | described version ciphertext rowCount =>
      rcases sound with ⟨seals, unwritten, own⟩
      refine ⟨seals, fresh unwritten, ?_⟩
      intro writer written equal
      rcases file writer written equal with ⟨before, same⟩
      rw [same]
      exact own writer before equal
  | finished result => exact present sound
  | failed error => trivial

/-- One attempt makes a call. -/
theorem StoreSound.update (sound : StoreSound codec target rows objects writers attempts)
    (others : ∀ other stage, other ≠ attempt →
      StageSound codec target rows objects writers other stage →
      StageSound codec target rows objects' writers' other stage)
    (own : StageSound codec target rows objects' writers' attempt next)
    (checksum : ∀ writer, writers'.checksum = some writer →
      writer.attempt < attempts.length ∧
        ChecksumSound codec target rows objects' writers' writer)
    (manifest : ∀ writer, writers'.manifest = some writer →
      ManifestSound codec target objects' writer) :
    StoreSound codec target rows objects' writers' (attempts.set attempt next) := by
  refine ⟨?_, ?_, manifest⟩
  · intro other stage present
    by_cases same : attempt = other
    · subst same
      rw [List.getElem?_set_self'] at present
      rcases Option.map_eq_some_iff.mp present with ⟨before, _, equal⟩
      exact equal ▸ own
    · rw [List.getElem?_set_ne same] at present
      exact others other stage (Ne.symm same) (sound.stage other stage present)
  · intro writer written
    rw [List.length_set]
    exact checksum writer written

/-- An attempt goes on without writing an object. -/
theorem StoreSound.set (sound : StoreSound codec target rows objects writers attempts)
    (own : StageSound codec target rows objects writers attempt next) :
    StoreSound codec target rows objects writers (attempts.set attempt next) :=
  sound.update (fun _ _ _ holds => holds) own sound.checksum sound.manifest

/-- A new attempt. -/
theorem StoreSound.begin (sound : StoreSound codec target rows objects writers attempts) :
    StoreSound codec target rows objects writers (attempts ++ [.begun]) := by
  refine ⟨?_, ?_, sound.manifest⟩
  · intro attempt stage present
    rcases Nat.lt_or_ge attempt attempts.length with before | after
    · rw [List.getElem?_append_left before] at present
      exact sound.stage attempt stage present
    · have begun : stage = .begun := by
        rw [List.getElem?_append_right after, List.getElem?_singleton] at present
        split at present
        · exact (Option.some.inj present).symm
        · cases present
      rw [begun]
      intro writer written equal
      have bound := (sound.checksum writer written).1
      omega
  · intro writer written
    rcases sound.checksum writer written with ⟨bound, checksum⟩
    refine ⟨?_, checksum⟩
    rw [List.length_append]
    omega

/-- The attempt replaces the file.  It has no checksum yet, so no checksum is taken for the
one of the new file. -/
theorem StoreSound.storeParquet (sound : StoreSound codec target rows objects writers attempts)
    (body : Bytes) (fresh : NoChecksum writers attempt)
    (own : StageSound codec target rows
      (Function.update objects (archivedParquetKey target.year target.month) (some body))
      { writers with parquet := some ⟨attempt, version⟩ } attempt next) :
    StoreSound codec target rows
      (Function.update objects (archivedParquetKey target.year target.month) (some body))
      { writers with parquet := some ⟨attempt, version⟩ } (attempts.set attempt next) := by
  apply sound.update _ own
  · intro writer written
    rcases sound.checksum writer written with ⟨bound, ciphertext, seals, digest, -⟩
    refine ⟨bound, ciphertext, seals, ?_, ?_⟩
    · rw [Function.update_of_ne (checksumKey_ne_parquetKey _ _)]
      exact digest
    · intro same
      cases Option.some.inj same
      exact absurd rfl (fresh _ written)
  · intro writer written
    rcases sound.manifest writer written with ⟨manifest, names, stored⟩
    refine ⟨manifest, names, ?_⟩
    rw [Function.update_of_ne (manifestKey_ne_parquetKey _ _)]
    exact stored
  · intro other stage different holds
    refine holds.frame (fun unwritten => unwritten) ?_ (fun present => present)
    intro writer written equal
    cases Option.some.inj written
    exact absurd equal (Ne.symm different)

/-- The attempt replaces the manifest. -/
theorem StoreSound.storeManifest (sound : StoreSound codec target rows objects writers attempts)
    {manifest : ArchiveManifest} (names : manifest.Names target version)
    (own : StageSound codec target rows
      (Function.update objects (manifestKey target.year target.month)
        (some (codec.marshalManifest manifest)))
      { writers with manifest := some ⟨attempt, version⟩ } attempt next) :
    StoreSound codec target rows
      (Function.update objects (manifestKey target.year target.month)
        (some (codec.marshalManifest manifest)))
      { writers with manifest := some ⟨attempt, version⟩ } (attempts.set attempt next) := by
  have file := Function.update_of_ne (manifestKey_ne_parquetKey target.year target.month).symm
    (some (codec.marshalManifest manifest)) objects
  apply sound.update _ own
  · intro writer written
    rcases sound.checksum writer written with ⟨bound, ciphertext, seals, digest, body⟩
    refine ⟨bound, ciphertext, seals, ?_, ?_⟩
    · rw [Function.update_of_ne (checksumKey_ne_manifestKey _ _)]
      exact digest
    · rw [file]
      exact body
  · intro writer written
    cases Option.some.inj written
    exact ⟨manifest, names, Function.update_self ..⟩
  · intro other stage different holds
    exact holds.frame (fun unwritten => unwritten) (fun writer written _ => ⟨written, file⟩)
      (fun present => present)

/-- The attempt replaces the checksum, with the one of the file if that is its own. -/
theorem StoreSound.storeChecksum (sound : StoreSound codec target rows objects writers attempts)
    {ciphertext : Bytes} (bound : attempt < attempts.length)
    (seals : SealsRows codec target rows version ciphertext)
    (body : writers.parquet = some ⟨attempt, version⟩ →
      objects (archivedParquetKey target.year target.month) = some ciphertext)
    (own : StageSound codec target rows
      (Function.update objects (checksumKey target.year target.month)
        (some (Go.utf8 (Go.hexEncode (Go.sha256 ciphertext)))))
      { writers with checksum := some ⟨attempt, version⟩ } attempt next) :
    StoreSound codec target rows
      (Function.update objects (checksumKey target.year target.month)
        (some (Go.utf8 (Go.hexEncode (Go.sha256 ciphertext)))))
      { writers with checksum := some ⟨attempt, version⟩ } (attempts.set attempt next) := by
  have file := Function.update_of_ne (checksumKey_ne_parquetKey target.year target.month).symm
    (some (Go.utf8 (Go.hexEncode (Go.sha256 ciphertext)))) objects
  apply sound.update _ own
  · intro writer written
    cases Option.some.inj written
    refine ⟨bound, ciphertext, seals, Function.update_self .., ?_⟩
    rw [file]
    exact body
  · intro writer written
    rcases sound.manifest writer written with ⟨manifest, names, stored⟩
    refine ⟨manifest, names, ?_⟩
    rw [Function.update_of_ne (checksumKey_ne_manifestKey _ _).symm]
    exact stored
  · intro other stage different holds
    apply holds.frame
    · intro _ writer written equal
      cases Option.some.inj written
      exact different equal.symm
    · exact fun writer written _ => ⟨written, file⟩
    · exact fun _ => nofun

end Store

/-! ## Steps of an attempt -/

section Steps

variable {state next : ArchiveState} {attempt : Nat} {call : ExportCall}

/-- What a call of an attempt leaves alone. -/
structure ExportFrame (state next : ArchiveState) : Prop where
  rows : next.rows = state.rows
  placement : next.placement = state.placement
  late : next.late = state.late
  phase : next.phase = state.phase
  length : next.attempts.length = state.attempts.length
  checksum : state.writers.checksum ≠ none → next.writers.checksum ≠ none

theorem exportFrame_stage (stage : ExportStage) : ExportFrame state (state.stage attempt stage) :=
  ⟨rfl, rfl, rfl, rfl, List.length_set .., fun present => present⟩

theorem exportStep_frame (taken : exportStep codec target attempt call state = some next) :
    ExportFrame state next := by
  unfold exportStep at taken
  split at taken
  case h_1 | h_2 =>
    cases taken
    exact exportFrame_stage _
  case h_3 version rows nonces cut effect present =>
    cases taken
    unfold ArchiveState.storeParquet
    split
    · exact ⟨rfl, rfl, rfl, rfl, List.length_set .., fun present => present⟩
    · exact exportFrame_stage _
  case h_4 version ciphertext rowCount archiveTS effect present =>
    cases taken
    unfold ArchiveState.storeManifest
    split
    · exact ⟨rfl, rfl, rfl, rfl, List.length_set .., fun present => present⟩
    · exact exportFrame_stage _
  case h_5 version ciphertext rowCount effect present =>
    cases taken
    unfold ArchiveState.storeChecksum
    split
    · exact ⟨rfl, rfl, rfl, rfl, List.length_set .., fun _ => nofun⟩
    · exact exportFrame_stage _
  case h_6 => cases taken

/-- Every call keeps what is known of the attempts and the objects. -/
theorem exportStep_store
    (sound : StoreSound codec target state.rows state.objects state.writers state.attempts)
    (taken : exportStep codec target attempt call state = some next) :
    StoreSound codec target next.rows next.objects next.writers next.attempts := by
  unfold exportStep at taken
  split at taken
  case h_1 fault present =>
    cases taken
    have fresh : NoChecksum state.writers attempt := sound.stage attempt _ present
    apply sound.set
    unfold afterGetDEK
    split
    · trivial
    · trivial
    · exact fresh
  case h_2 version fault present =>
    cases taken
    have fresh : NoChecksum state.writers attempt := sound.stage attempt _ present
    apply sound.set
    unfold afterScan
    split
    · trivial
    · trivial
    all_goals exact ⟨rfl, fresh⟩
  case h_3 version rows nonces cut effect present =>
    cases taken
    rcases sound.stage attempt _ present with ⟨scanned, fresh⟩
    subst scanned
    cases effect with
    | failed message => exact sound.set trivial
    | lost message => exact sound.storeParquet _ fresh trivial
    | ok =>
        apply sound.storeParquet _ fresh
        cases cut with
        | some cut => trivial
        | none =>
            refine ⟨⟨nonces, rfl⟩, fresh, ?_⟩
            intro writer written equal
            exact Function.update_self ..
  case h_4 version ciphertext rowCount archiveTS effect present =>
    cases taken
    rcases sound.stage attempt _ present with ⟨seals, fresh, own⟩
    cases effect with
    | failed message => exact sound.set trivial
    | lost message => exact sound.storeManifest ⟨rfl, rfl, rfl, rfl⟩ trivial
    | ok =>
        refine sound.storeManifest ⟨rfl, rfl, rfl, rfl⟩ ⟨seals, fresh, ?_⟩
        intro writer written equal
        rw [Function.update_of_ne (manifestKey_ne_parquetKey _ _).symm]
        exact own writer written equal
  case h_5 version ciphertext rowCount effect present =>
    cases taken
    rcases sound.stage attempt _ present with ⟨seals, fresh, own⟩
    have bound : attempt < state.attempts.length :=
      (List.getElem?_eq_some_iff.mp present).1
    have body : state.writers.parquet = some ⟨attempt, version⟩ →
        state.objects (archivedParquetKey target.year target.month) = some ciphertext :=
      fun written => own _ written rfl
    cases effect with
    | failed message => exact sound.set trivial
    | lost message => exact sound.storeChecksum bound seals body trivial
    | ok => exact sound.storeChecksum bound seals body nofun
  case h_6 => cases taken

end Steps

end GitScale.Billing
