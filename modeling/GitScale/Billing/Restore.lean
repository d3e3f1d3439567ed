import GitScale.Billing.ArchiveFormat
import GitScale.Foundation.Transition
import Mathlib.Data.List.Perm.Basic

/-!
# Restoring an archived month

`RestorePartitionWorkflow` fetches the manifest, verifies the checksum, decrypts the rows
into a scratch file and loads them into a quarantine table.  An activity is attempted up to
five times, an attempt may have had its effect although it is reported as failed, and the
workflow may be run again for the same month.  A step is the start of a run or one attempt
of one activity.
-/

namespace GitScale.Billing

open Foundation

/-- `RestoreResult`. -/
structure RestoreResult where
  quarantineTable : String
  rowsImported : Nat
  dekVersionUsed : Int
  deriving DecidableEq, Repr

/-- Where a run stands, with the attempts that its activity has left after the next one. -/
inductive RestorePhase where
  | idle (last : Option (Except RestoreError RestoreResult))
  | fetching (retries : Nat)
  | verifying (manifest : FetchManifestResult) (retries : Nat)
  | decrypting (manifest : FetchManifestResult) (retries : Nat)
  | loading (manifest : FetchManifestResult) (retries : Nat)
  | dropping (cause : RestoreError) (retries : Nat)

/-- The quarantine table, the scratch file of the worker, and the workflow. -/
structure RestoreState where
  quarantine : Option (List UsageEventRow)
  scratch : Option Bytes
  phase : RestorePhase

def initialRestore : RestoreState := ⟨none, none, .idle none⟩

/-- How an attempt of `DownloadAndDecrypt` ends, apart from its own errors.  One that is cut
off leaves anything in the scratch file. -/
inductive DecryptEffect where
  | ok
  | failed (message : String) (left : Option Bytes)
  | lost (message : String)
  deriving DecidableEq, Repr

/-- How the statements of an attempt of `LoadIntoQuarantine` end, whether the scratch file
could be removed, and whether the success was reported. -/
structure LoadAttempt where
  ensure : Effect
  openFault : Option String
  readFault : Option String
  copy : Effect
  sealing : Effect
  removed : Bool
  reportFault : Option String
  deriving DecidableEq, Repr

/-- One step of a run. -/
inductive RestoreLabel where
  | start
  | fetch (fault : Option String)
  | verify (fault : Option String)
  | decrypt (version : Nat) (effect : DecryptEffect)
  | load (attempt : LoadAttempt)
  | drop (effect : Effect)
  deriving DecidableEq, Repr

/-! ## Activities -/

/-- The error types of `nonRetryableRestoreErrors`. -/
def RestoreError.retryable : RestoreError → Bool
  | .other _ => true
  | .unsupportedEncFormat _ | .checksumMismatch _ | .frameTampered _ | .objectNotFound _ =>
      false

/-- `fmt.Errorf(context + ": %w", err)`. -/
def RestoreError.wrap (context : String) : RestoreError → RestoreError
  | .unsupportedEncFormat message => .unsupportedEncFormat (context ++ message)
  | .checksumMismatch message => .checksumMismatch (context ++ message)
  | .frameTampered message => .frameTampered (context ++ message)
  | .objectNotFound message => .objectNotFound (context ++ message)
  | .other message => .other (context ++ message)

/-- `parseKEKVersion`. -/
def parseKEKVersion (hint : String) : Int :=
  if "platform-billing-v".toList.isPrefixOf hint.toList then
    (Go.parseInt (hint.toList.drop "platform-billing-v".length)).getD 0
  else 0

/-- The table of `EnsureQuarantineTable`. -/
def quarantineTable (year month : Int) : Except String String :=
  if year < 2026 ∨ 2099 < year then
    .error ("restorer: year " ++ toString year ++ " out of range")
  else if month < 1 ∨ 12 < month then
    .error ("restorer: month " ++ toString month ++ " out of range")
  else
    .ok ("usage_events_restore_" ++ Go.zeroPadded 4 year ++ "_" ++ Go.zeroPadded 2 month)

/-- `LoadQuarantineResult`. -/
structure LoadQuarantineResult where
  quarantineTable : String
  rowsImported : Nat
  deriving DecidableEq, Repr

/-- What an attempt of `LoadIntoQuarantine` leaves. -/
structure Loaded where
  result : Except RestoreError LoadQuarantineResult
  quarantine : Option (List UsageEventRow)
  scratch : Option Bytes

/-- `LoadIntoQuarantineActivity.Execute`: an existing table is kept, and the copy appends. -/
def loadIntoQuarantine (codec : Codec) (plaintextPath : String) (attempt : LoadAttempt)
    (year month : Int) (quarantine : Option (List UsageEventRow)) (scratch : Option Bytes) :
    Loaded :=
  match quarantineTable year month with
  | .error message =>
      ⟨.error (.other ("load quarantine: ensure: " ++ message)), quarantine, scratch⟩
  | .ok table =>
      let rows := quarantine.getD []
      match attempt.ensure with
      | .failed message =>
          ⟨.error (.other ("load quarantine: ensure: restorer: create quarantine " ++ table ++
            ": " ++ message)), quarantine, scratch⟩
      | .lost message =>
          ⟨.error (.other ("load quarantine: ensure: restorer: create quarantine " ++ table ++
            ": " ++ message)), some rows, scratch⟩
      | .ok =>
          match attempt.openFault, scratch with
          | some message, _ =>
              ⟨.error (.other ("load quarantine: open scratch " ++ plaintextPath ++ ": " ++
                message)), some rows, scratch⟩
          | none, none =>
              ⟨.error (.other ("load quarantine: open scratch " ++ plaintextPath ++ ": open " ++
                plaintextPath ++ ": no such file or directory")), some rows, none⟩
          | none, some plaintext =>
              match attempt.readFault, codec.readParquet plaintext with
              | some message, _ =>
                  ⟨.error (.other ("load quarantine: copy: restorer: read parquet: " ++
                    message)), some rows, scratch⟩
              | none, .error message =>
                  ⟨.error (.other ("load quarantine: copy: restorer: parquet read: " ++
                    message)), some rows, scratch⟩
              | none, .ok copied =>
                  match attempt.copy, attempt.sealing, attempt.reportFault with
                  | .failed message, _, _ =>
                      ⟨.error (.other ("load quarantine: copy: restorer: copy into " ++ table ++
                        ": " ++ message)), some rows, scratch⟩
                  | .lost message, _, _ =>
                      ⟨.error (.other ("load quarantine: copy: restorer: copy into " ++ table ++
                        ": " ++ message)), some (rows ++ copied), scratch⟩
                  | .ok, .failed message, _ | .ok, .lost message, _ =>
                      ⟨.error (.other ("load quarantine: seal: restorer: seal " ++ table ++
                        ": " ++ message)), some (rows ++ copied), scratch⟩
                  | .ok, .ok, some message =>
                      ⟨.error (.other message), some (rows ++ copied),
                        if attempt.removed then none else scratch⟩
                  | .ok, .ok, none =>
                      ⟨.ok ⟨"billing." ++ table, copied.length⟩, some (rows ++ copied),
                        if attempt.removed then none else scratch⟩

/-! ## The workflow -/

variable (codec : Codec) (archived : ArchivedMonth) (plaintextPath : String)

/-- After a failed attempt: try again, or go on to `failed`. -/
def retryOr (error : RestoreError) (retries : Nat) (again : Nat → RestorePhase)
    (failed : RestorePhase) : RestorePhase :=
  match error.retryable, retries with
  | true, retries + 1 => again retries
  | _, _ => failed

/-- The run returns an error. -/
def fails (context : String) (error : RestoreError) : RestorePhase :=
  .idle (some (.error (error.wrap context)))

/-- The answer of an activity without effects, unless it is lost. -/
def answered {Answer : Type} (fault : Option String) (answer : Except RestoreError Answer) :
    Except RestoreError Answer :=
  match fault with
  | some message => .error (.other message)
  | none => answer

/-- An attempt of `FetchManifest`, and the check of the workflow that follows. -/
def fetchStep (fault : Option String) (retries : Nat) : RestorePhase :=
  match answered fault
      (fetchManifest codec (archived.objects codec) archived.year archived.month) with
  | .error error =>
      retryOr error retries .fetching (fails "restore: fetch manifest: " error)
  | .ok manifest =>
      if manifest.encFormat ≠ encFormatV1 then
        .idle (some (.error (.other ("restore: unsupported enc_format " ++
          codec.quote manifest.encFormat ++ " in manifest (worker reads only " ++
          codec.quote encFormatV1 ++ ")"))))
      else .verifying manifest maximumRetries

/-- An attempt of `VerifyChecksum`. -/
def verifyStep (fault : Option String) (manifest : FetchManifestResult) (retries : Nat) :
    RestorePhase :=
  match answered fault
      (verifyChecksum (archived.objects codec) manifest.parquetKey manifest.checksumKey) with
  | .error error =>
      retryOr error retries (.verifying manifest) (fails "restore: verify checksum: " error)
  | .ok _ => .decrypting manifest maximumRetries

/-- An attempt of `DownloadAndDecrypt`: what it leaves in the scratch file, and its error.
Only a stream that does not decode takes the file away again. -/
def decryptAttempt (version : Nat) (effect : DecryptEffect) (manifest : FetchManifestResult)
    (scratch : Option Bytes) : Option Bytes × Option RestoreError :=
  match effect, downloadDecrypt codec (archived.objects codec) version archived.year
      archived.month manifest with
  | .failed message left, _ => (left, some (.other message))
  | _, .error (.frameTampered message) => (none, some (.frameTampered message))
  | _, .error error => (scratch, some error)
  | .lost message, .ok plaintext => (some plaintext, some (.other message))
  | .ok, .ok plaintext => (some plaintext, none)

def decryptStep (version : Nat) (effect : DecryptEffect) (manifest : FetchManifestResult)
    (retries : Nat) (state : RestoreState) : RestoreState :=
  match decryptAttempt codec archived version effect manifest state.scratch with
  | (scratch, some error) =>
      { state with
        scratch := scratch
        phase := retryOr error retries (.decrypting manifest)
          (fails "restore: decrypt: " error) }
  | (scratch, none) =>
      { state with scratch := scratch, phase := .loading manifest maximumRetries }

/-- An attempt of `LoadIntoQuarantine`. -/
def loadStep (attempt : LoadAttempt) (manifest : FetchManifestResult) (retries : Nat)
    (state : RestoreState) : RestoreState :=
  let loaded := loadIntoQuarantine codec plaintextPath attempt archived.year archived.month
    state.quarantine state.scratch
  { quarantine := loaded.quarantine
    scratch := loaded.scratch
    phase :=
      match loaded.result with
      | .ok result =>
          .idle (some (.ok ⟨result.quarantineTable, result.rowsImported,
            parseKEKVersion manifest.kekHint⟩))
      | .error error =>
          retryOr error retries (.loading manifest) (.dropping error maximumRetries) }

/-- An attempt of `DropQuarantine`; its failure is not reported. -/
def dropStep (effect : Effect) (cause : RestoreError) (retries : Nat) (state : RestoreState) :
    RestoreState :=
  let failed := fails "restore: load quarantine: " cause
  match effect with
  | .ok => { state with quarantine := none, phase := failed }
  | .failed message =>
      { state with phase := retryOr (.other message) retries (.dropping cause) failed }
  | .lost message =>
      { state with
        quarantine := none
        phase := retryOr (.other message) retries (.dropping cause) failed }

/-- One step of `RestorePartitionWorkflow` for the archived month. -/
def restoreStep (state : RestoreState) (label : RestoreLabel) : Option RestoreState :=
  match label, state.phase with
  | .start, .idle _ => some { state with phase := .fetching maximumRetries }
  | .fetch fault, .fetching retries =>
      some { state with phase := fetchStep codec archived fault retries }
  | .verify fault, .verifying manifest retries =>
      some { state with phase := verifyStep codec archived fault manifest retries }
  | .decrypt version effect, .decrypting manifest retries =>
      some (decryptStep codec archived version effect manifest retries state)
  | .load attempt, .loading manifest retries =>
      some (loadStep codec archived plaintextPath attempt manifest retries state)
  | .drop effect, .dropping cause retries => some (dropStep effect cause retries state)
  | _, _ => none

/-! ## Exactness -/

/-- The run that returned has loaded the rows of the month, each once. -/
def RestoreExact (state : RestoreState) : Prop :=
  ∀ result, state.phase = .idle (some (.ok result)) →
    ∃ rows, state.quarantine = some rows ∧ rows.Perm archived.rows ∧
      result.rowsImported = archived.rows.length

/-- Nothing keeps the attempt from reporting success. -/
def LoadAttempt.Completes (attempt : LoadAttempt) (scratch : Option Bytes) : Prop :=
  attempt.ensure = .ok ∧ attempt.openFault = none ∧ attempt.readFault = none ∧
    attempt.copy = .ok ∧ attempt.sealing = .ok ∧ attempt.reportFault = none ∧ scratch ≠ none

/-- An attempt of `LoadIntoQuarantine` that completes starts with an empty or a missing
table, unless the month has no rows. -/
def StartsEmpty (state : RestoreState) (label : RestoreLabel) : Prop :=
  match label, state.phase with
  | .load attempt, .loading _ _ =>
      attempt.Completes state.scratch → state.quarantine.getD [] = [] ∨ archived.rows = []
  | _, _ => True

/-- The table holds copies of the month. -/
def Copies (quarantine : Option (List UsageEventRow)) : Prop :=
  ∃ count, quarantine.getD [] = (List.replicate count archived.rows).flatten

/-- The manifest is the one of the month, and a scratch file to be loaded holds its rows. -/
def PhaseSound (scratch : Option Bytes) : RestorePhase → Prop
  | .verifying manifest _ | .decrypting manifest _ => manifest = archived.fetched codec
  | .loading _ _ =>
      ∀ plaintext, scratch = some plaintext → plaintext = codec.writeParquet archived.rows
  | .idle _ | .fetching _ | .dropping _ _ => True

structure RestoreSound (state : RestoreState) : Prop where
  copies : Copies archived state.quarantine
  phase : PhaseSound codec archived state.scratch state.phase

section Steps

variable {codec archived}

theorem Copies.append {quarantine : Option (List UsageEventRow)}
    (copies : Copies archived quarantine) :
    Copies archived (some (quarantine.getD [] ++ archived.rows)) := by
  rcases copies with ⟨count, equal⟩
  refine ⟨count + 1, ?_⟩
  rw [Option.getD_some, equal, List.replicate_succ', List.flatten_append, List.flatten_singleton]

/-- Another copy makes up the month exactly when there was none, or nothing to copy. -/
theorem Copies.perm_iff {quarantine : Option (List UsageEventRow)}
    (copies : Copies archived quarantine) :
    (quarantine.getD [] ++ archived.rows).Perm archived.rows ↔
      quarantine.getD [] = [] ∨ archived.rows = [] := by
  constructor
  · intro perm
    have length := perm.length_eq
    rw [List.length_append] at length
    exact Or.inl (List.length_eq_zero_iff.mp (by omega))
  · rintro (none | empty)
    · rw [none, List.nil_append]
    · rcases copies with ⟨count, equal⟩
      rw [equal, empty]
      simp

theorem retryOr_cases (error : RestoreError) (retries : Nat) (again : Nat → RestorePhase)
    (failed : RestorePhase) :
    retryOr error retries again failed = failed ∨
      ∃ left, retryOr error retries again failed = again left := by
  unfold retryOr
  split
  · exact Or.inr ⟨_, rfl⟩
  · exact Or.inl rfl

theorem quarantineTable_archived (archived : ArchivedMonth) :
    ∃ table, quarantineTable archived.year archived.month = .ok table := by
  have year := archived.year_supported
  have month := archived.month_valid
  rw [quarantineTable, if_neg (by omega), if_neg (by omega)]
  exact ⟨_, rfl⟩

section Load

variable (plaintextPath : String) (attempt : LoadAttempt)
  (quarantine : Option (List UsageEventRow)) {scratch : Option Bytes}

/-- An attempt appends the rows, creates the table or does nothing, and at most takes the
scratch file away. -/
theorem loadIntoQuarantine_leaves
    (sound : ∀ plaintext, scratch = some plaintext →
      plaintext = codec.writeParquet archived.rows) :
    let loaded := loadIntoQuarantine codec plaintextPath attempt archived.year archived.month
      quarantine scratch
    (loaded.quarantine.getD [] = quarantine.getD [] ∨
        loaded.quarantine = some (quarantine.getD [] ++ archived.rows)) ∧
      (loaded.scratch = scratch ∨ loaded.scratch = none) := by
  rcases quarantineTable_archived archived with ⟨table, named⟩
  simp only [loadIntoQuarantine, named]
  cases attempt.ensure with
  | failed message | lost message => exact ⟨Or.inl rfl, Or.inl rfl⟩
  | ok =>
      cases attempt.openFault with
      | some message => exact ⟨Or.inl rfl, Or.inl rfl⟩
      | none =>
          cases scratch with
          | none => exact ⟨Or.inl rfl, Or.inl rfl⟩
          | some plaintext =>
              simp only [sound plaintext rfl, codec.read_write]
              cases attempt.readFault with
              | some message => exact ⟨Or.inl rfl, Or.inl rfl⟩
              | none =>
                  dsimp only
                  repeat' split
                  all_goals first
                    | exact ⟨Or.inl rfl, Or.inl rfl⟩
                    | exact ⟨Or.inr rfl, Or.inl rfl⟩
                    | exact ⟨Or.inr rfl, Or.inr rfl⟩

/-- An attempt succeeds exactly when it completes. -/
theorem loadIntoQuarantine_result
    (sound : ∀ plaintext, scratch = some plaintext →
      plaintext = codec.writeParquet archived.rows) :
    let loaded := loadIntoQuarantine codec plaintextPath attempt archived.year archived.month
      quarantine scratch
    (attempt.Completes scratch ∧
        loaded.quarantine = some (quarantine.getD [] ++ archived.rows) ∧
        ∃ table, loaded.result = .ok ⟨table, archived.rows.length⟩) ∨
      (¬ attempt.Completes scratch ∧ ∃ error, loaded.result = .error error) := by
  rcases quarantineTable_archived archived with ⟨table, named⟩
  simp only [loadIntoQuarantine, named, LoadAttempt.Completes]
  cases attempt.ensure with
  | failed message | lost message => exact Or.inr ⟨by simp, _, rfl⟩
  | ok =>
      cases attempt.openFault with
      | some message => exact Or.inr ⟨by simp, _, rfl⟩
      | none =>
          cases scratch with
          | none => exact Or.inr ⟨by simp, _, rfl⟩
          | some plaintext =>
              simp only [sound plaintext rfl, codec.read_write]
              cases attempt.readFault with
              | some message => exact Or.inr ⟨by simp, _, rfl⟩
              | none =>
                  cases attempt.copy with
                  | failed message | lost message => exact Or.inr ⟨by simp, _, rfl⟩
                  | ok =>
                      cases attempt.sealing with
                      | failed message | lost message => exact Or.inr ⟨by simp, _, rfl⟩
                      | ok =>
                          cases attempt.reportFault with
                          | some message => exact Or.inr ⟨by simp, _, rfl⟩
                          | none => exact Or.inl ⟨by simp, rfl, _, rfl⟩

end Load

/-- What a failed attempt goes on with satisfies what both ways of going on satisfy. -/
theorem retryOr_induction {motive : RestorePhase → Prop} {error : RestoreError}
    {retries : Nat} {again : Nat → RestorePhase} {failed : RestorePhase}
    (ends : motive failed) (goes : ∀ left, motive (again left)) :
    motive (retryOr error retries again failed) := by
  rcases retryOr_cases error retries again failed with equal | ⟨left, equal⟩
  · rw [equal]
    exact ends
  · rw [equal]
    exact goes left

/-- The run has not returned success. -/
def Unfinished (phase : RestorePhase) : Prop := ∀ result, phase ≠ .idle (some (.ok result))

theorem unfinished_fails (context : String) (error : RestoreError) :
    Unfinished (fails context error) := by
  intro result equal
  cases equal

section Phases

variable {manifest : FetchManifestResult} (retries : Nat)

theorem fetchStep_spec (fault : Option String) (scratch : Option Bytes) :
    PhaseSound codec archived scratch (fetchStep codec archived fault retries) ∧
      Unfinished (fetchStep codec archived fault retries) := by
  unfold fetchStep
  split
  · exact ⟨retryOr_induction trivial fun _ => trivial,
      retryOr_induction (unfinished_fails _ _) fun _ _ => nofun⟩
  · rename_i manifest answer
    have fetched : manifest = archived.fetched codec := by
      rw [fetchManifest_archived] at answer
      cases fault with
      | some message => cases answer
      | none =>
          cases answer
          rfl
    split
    · exact ⟨trivial, nofun⟩
    · exact ⟨fetched, nofun⟩

theorem verifyStep_spec (fault : Option String) (scratch : Option Bytes)
    (fetched : manifest = archived.fetched codec) :
    PhaseSound codec archived scratch (verifyStep codec archived fault manifest retries) ∧
      Unfinished (verifyStep codec archived fault manifest retries) := by
  unfold verifyStep
  split
  · exact ⟨retryOr_induction trivial fun _ => fetched,
      retryOr_induction (unfinished_fails _ _) fun _ _ => nofun⟩
  · exact ⟨fetched, nofun⟩

/-- An attempt without an error has put the rows of the month into the scratch file. -/
theorem decryptAttempt_spec {version : Nat} {effect : DecryptEffect} {before after : Option Bytes}
    (attempted : decryptAttempt codec archived version effect (archived.fetched codec) before =
      (after, none)) : after = some (codec.writeParquet archived.rows) := by
  unfold decryptAttempt at attempted
  split at attempted
  case h_5 plaintext decrypted =>
    cases attempted
    rw [downloadDecrypt_archived codec archived decrypted]
  all_goals cases attempted

theorem decryptStep_spec (version : Nat) (effect : DecryptEffect) (state : RestoreState)
    (fetched : manifest = archived.fetched codec) :
    let next := decryptStep codec archived version effect manifest retries state
    next.quarantine = state.quarantine ∧
      PhaseSound codec archived next.scratch next.phase ∧ Unfinished next.phase := by
  unfold decryptStep
  subst fetched
  split
  · exact ⟨rfl, retryOr_induction trivial fun _ => rfl,
      retryOr_induction (unfinished_fails _ _) fun _ _ => nofun⟩
  · rename_i scratch attempted
    refine ⟨rfl, ?_, nofun⟩
    rw [decryptAttempt_spec attempted]
    rintro plaintext ⟨⟩
    rfl

variable (codec archived) in
theorem dropStep_spec (effect : Effect) (cause : RestoreError) (state : RestoreState) :
    let next := dropStep effect cause retries state
    (next.quarantine = state.quarantine ∨ next.quarantine = none) ∧
      PhaseSound codec archived next.scratch next.phase ∧ Unfinished next.phase := by
  cases effect with
  | ok => exact ⟨Or.inr rfl, trivial, unfinished_fails _ _⟩
  | failed message =>
      exact ⟨Or.inl rfl, retryOr_induction trivial fun _ => trivial,
        retryOr_induction (unfinished_fails _ _) fun _ _ => nofun⟩
  | lost message =>
      exact ⟨Or.inr rfl, retryOr_induction trivial fun _ => trivial,
        retryOr_induction (unfinished_fails _ _) fun _ _ => nofun⟩

/-- An attempt that fails leaves the file to the next one or takes it away. -/
theorem loadStep_sound (attempt : LoadAttempt) (state : RestoreState)
    (copies : Copies archived state.quarantine)
    (loadable : ∀ plaintext, state.scratch = some plaintext →
      plaintext = codec.writeParquet archived.rows) :
    RestoreSound codec archived
      (loadStep codec archived plaintextPath attempt manifest retries state) := by
  rcases loadIntoQuarantine_leaves plaintextPath attempt state.quarantine loadable with
    ⟨table, file⟩
  constructor
  · rcases table with kept | appended
    · rcases copies with ⟨count, equal⟩
      exact ⟨count, kept.trans equal⟩
    · simp only [loadStep, appended]
      exact copies.append
  · simp only [loadStep]
    split
    · trivial
    · apply retryOr_induction trivial
      intro left plaintext present
      rcases file with kept | removed
      · exact loadable plaintext (kept.symm.trans present)
      · rw [removed] at present
        cases present

end Phases

/-! ## Runs -/

/-- Every step keeps what is known of the table, the manifest and the file. -/
theorem restoreSound_step (state : RestoreState) (label : RestoreLabel) (next : RestoreState)
    (sound : RestoreSound codec archived state)
    (taken : restoreStep codec archived plaintextPath state label = some next) :
    RestoreSound codec archived next := by
  rcases sound with ⟨copies, phase⟩
  unfold restoreStep at taken
  split at taken
  case h_1 =>
    cases taken
    exact ⟨copies, trivial⟩
  case h_2 fault retries at_phase =>
    cases taken
    exact ⟨copies, (fetchStep_spec retries fault state.scratch).1⟩
  case h_3 fault manifest retries at_phase =>
    cases taken
    rw [at_phase] at phase
    exact ⟨copies, (verifyStep_spec retries fault state.scratch phase).1⟩
  case h_4 version effect manifest retries at_phase =>
    cases taken
    rw [at_phase] at phase
    rcases decryptStep_spec retries version effect state phase with ⟨kept, sound, -⟩
    exact ⟨kept ▸ copies, sound⟩
  case h_5 attempt manifest retries at_phase =>
    cases taken
    rw [at_phase] at phase
    exact loadStep_sound plaintextPath retries attempt state copies phase
  case h_6 effect cause retries at_phase =>
    cases taken
    rcases dropStep_spec codec archived retries effect cause state with ⟨table, sound, -⟩
    refine ⟨?_, sound⟩
    rcases table with kept | dropped
    · exact kept ▸ copies
    · exact ⟨0, by rw [dropped]; rfl⟩
  case h_7 => cases taken

theorem restoreExact_of_unfinished {state : RestoreState} (unfinished : Unfinished state.phase) :
    RestoreExact archived state := by
  intro result returned
  exact absurd returned (unfinished result)

/-- The table of an attempt that completes is exact when it was empty before. -/
theorem restoreExact_loadStep_iff (attempt : LoadAttempt) (manifest : FetchManifestResult)
    (retries : Nat) (state : RestoreState) (copies : Copies archived state.quarantine)
    (loadable : ∀ plaintext, state.scratch = some plaintext →
      plaintext = codec.writeParquet archived.rows) :
    RestoreExact archived
        (loadStep codec archived plaintextPath attempt manifest retries state) ↔
      (attempt.Completes state.scratch →
        state.quarantine.getD [] = [] ∨ archived.rows = []) := by
  rcases loadIntoQuarantine_result plaintextPath attempt state.quarantine loadable with
    ⟨completes, appended, table, answer⟩ | ⟨incomplete, error, answer⟩
  · rw [← copies.perm_iff]
    simp only [RestoreExact, loadStep, appended, answer, completes, true_implies,
      RestorePhase.idle.injEq, Option.some.injEq, Except.ok.injEq, forall_eq', and_true,
      exists_eq_left']
  · refine iff_of_true (restoreExact_of_unfinished ?_) (absurd · incomplete)
    simp only [loadStep, answer]
    exact retryOr_induction nofun fun _ => nofun

/-- A step from a sound state is exact exactly when it loads into an empty table. -/
theorem restoreExact_step_iff (state : RestoreState) (label : RestoreLabel)
    (next : RestoreState) (sound : RestoreSound codec archived state)
    (taken : restoreStep codec archived plaintextPath state label = some next) :
    RestoreExact archived next ↔ StartsEmpty archived state label := by
  rcases sound with ⟨copies, phase⟩
  unfold restoreStep at taken
  split at taken
  case h_1 =>
    cases taken
    exact iff_of_true (restoreExact_of_unfinished nofun) trivial
  case h_2 fault retries at_phase =>
    cases taken
    exact iff_of_true (restoreExact_of_unfinished (fetchStep_spec retries fault none).2) trivial
  case h_3 fault manifest retries at_phase =>
    cases taken
    rw [at_phase] at phase
    exact iff_of_true
      (restoreExact_of_unfinished (verifyStep_spec retries fault none phase).2) trivial
  case h_4 version effect manifest retries at_phase =>
    cases taken
    rw [at_phase] at phase
    exact iff_of_true
      (restoreExact_of_unfinished (decryptStep_spec retries version effect state phase).2.2)
      trivial
  case h_5 attempt manifest retries at_phase =>
    cases taken
    rw [at_phase] at phase
    simp only [restoreExact_loadStep_iff plaintextPath attempt manifest retries state copies
      phase, StartsEmpty, at_phase]
  case h_6 effect cause retries at_phase =>
    cases taken
    exact iff_of_true
      (restoreExact_of_unfinished
        (dropStep_spec codec archived retries effect cause state).2.2) trivial
  case h_7 => cases taken

/-- A label that cannot be taken asks for nothing. -/
theorem startsEmpty_of_disabled (state : RestoreState) (label : RestoreLabel)
    (disabled : restoreStep codec archived plaintextPath state label = none) :
    StartsEmpty archived state label := by
  unfold StartsEmpty
  split
  · rename_i attempt manifest retries at_phase
    simp only [restoreStep, at_phase] at disabled
    cases disabled
  · trivial

end Steps

/-- Whatever fails, is retried or is run again: the runs that return success have restored
the rows of the month, each once, exactly when every attempt to load them that completes
starts with an empty table. -/
theorem restoreExact_iff_startsEmpty (schedule : List RestoreLabel) :
    Throughout (restoreStep codec archived plaintextPath) (RestoreExact archived)
        initialRestore schedule ↔
      Meets (restoreStep codec archived plaintextPath) (StartsEmpty archived) initialRestore
        schedule := by
  have sound : RestoreSound codec archived initialRestore := ⟨⟨0, rfl⟩, trivial⟩
  have unfinished : Unfinished initialRestore.phase := nofun
  rw [← throughout_and_iff (restoreSound_step plaintextPath) sound]
  apply throughout_iff_meets
  · intro state label next both taken
    rw [← restoreExact_step_iff plaintextPath state label next both.1 taken]
    exact and_iff_right (restoreSound_step plaintextPath state label next both.1 taken)
  · exact startsEmpty_of_disabled plaintextPath
  · exact ⟨sound, restoreExact_of_unfinished unfinished⟩

/-- Every statement of the attempt succeeds. -/
def smoothLoad : LoadAttempt := ⟨.ok, none, none, .ok, .ok, true, none⟩

/-- The rows are copied, but the table is not sealed; the next attempt copies them again. -/
def copiedTwice : List RestoreLabel :=
  [.start, .fetch none, .verify none, .decrypt 1 .ok,
    .load { smoothLoad with sealing := .failed "connection reset by peer" }, .load smoothLoad]

/-- The attempts to load begin with the rows in the scratch file. -/
theorem run_until_loading (plaintextPath : String) :
    run (restoreStep codec archived plaintextPath) initialRestore
        [.start, .fetch none, .verify none, .decrypt archived.version .ok] =
      some ⟨none, some (codec.writeParquet archived.rows),
        .loading (archived.fetched codec) maximumRetries⟩ := by
  have format : (archived.fetched codec).encFormat = encFormatV1 := rfl
  have fetched : fetchStep codec archived none maximumRetries =
      .verifying (archived.fetched codec) maximumRetries := by
    simp only [fetchStep, answered, fetchManifest_archived, format, ne_eq, not_true_eq_false,
      if_false]
  have verified : verifyStep codec archived none (archived.fetched codec) maximumRetries =
      .decrypting (archived.fetched codec) maximumRetries := by
    simp only [verifyStep, answered, verifyChecksum_archived]
  have decrypted : decryptAttempt codec archived archived.version .ok (archived.fetched codec)
      none = (some (codec.writeParquet archived.rows), none) := by
    simp only [decryptAttempt, downloadDecrypt_own]
  simp only [run, restoreStep, initialRestore, fetched, verified, decryptStep, decrypted]

/-- The second attempt reports success, and the table holds the event twice. -/
theorem copiedTwice_not_exact :
    Nonempty Codec ∧ ∀ codec : Codec,
      ¬ Throughout (restoreStep codec oneEvent "/tmp/usage_events_2026_05_restore.parquet")
        (RestoreExact oneEvent) initialRestore copiedTwice := by
  refine ⟨inferInstance, ?_⟩
  intro codec throughout
  generalize "/tmp/usage_events_2026_05_restore.parquet" = plaintextPath at throughout
  let copied : RestoreState :=
    ⟨some oneEvent.rows, some (codec.writeParquet oneEvent.rows),
      .loading (oneEvent.fetched codec) 3⟩
  rcases quarantineTable_archived oneEvent with ⟨table, named⟩
  have loaded : loadStep codec oneEvent plaintextPath
      { smoothLoad with sealing := .failed "connection reset by peer" }
      (oneEvent.fetched codec) maximumRetries
      ⟨none, some (codec.writeParquet oneEvent.rows),
        .loading (oneEvent.fetched codec) maximumRetries⟩ = copied := by
    simp only [loadStep, loadIntoQuarantine, named, smoothLoad, codec.read_write]
    rfl
  have exactly : RestoreExact oneEvent
      (loadStep codec oneEvent plaintextPath smoothLoad (oneEvent.fetched codec) 3 copied) := by
    apply throughout copiedTwice [] _ rfl
    refine (run_append (run_until_loading codec oneEvent plaintextPath)
      (copiedTwice.drop 4)).trans ?_
    simp only [copiedTwice, List.drop, run, restoreStep, loaded]
    rfl
  rw [restoreExact_loadStep_iff plaintextPath smoothLoad (oneEvent.fetched codec) 3 copied
    ⟨1, rfl⟩ (by rintro plaintext ⟨⟩; rfl)] at exactly
  have completes : smoothLoad.Completes copied.scratch :=
    ⟨rfl, rfl, rfl, rfl, rfl, rfl, Option.some_ne_none _⟩
  rcases exactly completes with empty | empty
  · cases empty
  · cases empty

end GitScale.Billing
