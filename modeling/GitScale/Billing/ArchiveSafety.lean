import GitScale.Billing.ArchiveObjects

/-!
# No billing data is lost

A dropped table must be recoverable from the three objects of its month.  They are written
one by one, by attempts that overlap, so they need not come from the same attempt.  The
table stays recoverable as long as the ones present at the drop belong together and no
attempt writes after it.
-/

namespace GitScale.Billing

open Foundation

variable (codec : Codec) (target : ArchiveTarget)

def SafelyDropped (state : ArchiveState) : Prop :=
  state.placement = .dropped → Recoverable codec target state.objects state.rows

/-- The label drops the table if it is taken. -/
def ArchiveLabel.drops : ArchiveLabel → Bool
  | .drop .ok | .drop (.lost _) | .land .drop => true
  | _ => false

/-- The label writes no object but a manifest with the same version of the key. -/
def leavesObjects (state : ArchiveState) : ArchiveLabel → Bool
  | .advance attempt call =>
      match state.attempts[attempt]?, call with
      | some (.scanned _ _), .upload _ _ effect => !effect.stores
      | some (.uploaded version _ _), .putManifest _ effect =>
          !effect.stores || decide (state.writers.parquet.map Writer.version = some version)
      | some (.described _ _ _), .putChecksum effect => !effect.stores
      | _, _ => true
  | _ => true

/-- The table is dropped when the objects belong together, and they are left alone
afterwards. -/
def KeepsTogether (state : ArchiveState) (label : ArchiveLabel) : Prop :=
  if state.placement = .dropped then leavesObjects state label = true
  else label.drops = true → state.writers.BelongTogether

instance (state : ArchiveState) (label : ArchiveLabel) : Decidable (KeepsTogether state label) :=
  inferInstanceAs (Decidable (if state.placement = .dropped then leavesObjects state label = true
    else label.drops = true → state.writers.BelongTogether))

/-! ## Invariant -/

def ArchivePhase.Sound (attempts : List ExportStage) (writers : Writers) :
    ArchivePhase → Prop
  | .idle _ => True
  | .detaching _ => target.Supported
  | .exporting _ _ => attempts ≠ []
  | .emitting _ _ | .registering _ _ | .dropping _ _ => writers.checksum ≠ none

structure ArchiveSound (state : ArchiveState) : Prop where
  store : StoreSound codec target state.rows state.objects state.writers state.attempts
  begun : state.attempts ≠ [] → target.Supported ∧ state.placement.Separate
  phase : state.phase.Sound target state.attempts state.writers
  late : .drop ∈ state.late → state.writers.checksum ≠ none
  dropped : state.placement = .dropped → state.writers.checksum ≠ none

variable {codec target}

theorem ArchiveSound.safelyDropped {state : ArchiveState} (sound : ArchiveSound codec target state)
    (together : state.placement = .dropped → state.writers.BelongTogether) :
    SafelyDropped codec target state := by
  intro dropped
  have present := sound.dropped dropped
  rcases Option.ne_none_iff_exists'.mp present with ⟨writer, checksum⟩
  have begun : state.attempts ≠ [] := by
    intro empty
    have bound := (sound.store.checksum writer checksum).1
    rw [empty] at bound
    exact Nat.not_lt_zero _ bound
  exact sound.store.recoverable (sound.begun begun).1 present (together dropped)

/-! ## Steps of the workflow -/

theorem ArchiveState.retry_induction {motive : ArchiveState → Prop} {state : ArchiveState}
    {retries : Nat} {again : ArchiveState → Nat → ArchiveState} {message : String}
    (ends : motive (state.fails message)) (goes : ∀ left, motive (again state left)) :
    motive (state.retry retries again message) := by
  cases retries with
  | zero => exact ends
  | succ left => exact goes left

/-- What a settled attempt goes on with satisfies what all ways of going on satisfy. -/
theorem ArchiveState.settle_induction {motive : ArchiveState → Prop}
    {state done : ArchiveState} {error? : Option String} {retries : Nat}
    {again : ArchiveState → Nat → ArchiveState} {context : String}
    (finished : error? = none → motive done) (ends : ∀ message, motive (state.fails message))
    (goes : ∀ left, motive (again state left)) :
    motive (state.settle error? retries done again context) := by
  cases error? with
  | none => exact finished rfl
  | some message => exact ArchiveState.retry_induction (ends _) goes

section Sound

variable {state next : ArchiveState} (sound : ArchiveSound codec target state)
include sound

/-- The workflow goes on to another phase. -/
theorem ArchiveSound.enter {phase : ArchivePhase}
    (enters : phase.Sound target state.attempts state.writers) :
    ArchiveSound codec target { state with phase := phase } :=
  ⟨sound.store, sound.begun, enters, sound.late, sound.dropped⟩

theorem ArchiveSound.fails (message : String) :
    ArchiveSound codec target (state.fails message) :=
  sound.enter trivial

theorem ArchiveSound.beginExport (supported : target.Supported)
    (separate : state.placement.Separate) (retries : Nat) :
    ArchiveSound codec target (state.beginExport retries) where
  store := sound.store.begin
  begun := fun _ => ⟨supported, separate⟩
  phase := List.append_ne_nil_of_right_ne_nil _ (List.cons_ne_nil _ _)
  late := sound.late
  dropped := sound.dropped

/-- A statement leaves the table where it was or takes it further away. -/
theorem ArchiveSound.move {placement : Placement} {late : List Statement}
    (separate : state.placement.Separate → placement.Separate)
    (dropped : placement = .dropped → state.writers.checksum ≠ none)
    (under_way : .drop ∈ late → state.writers.checksum ≠ none) :
    ArchiveSound codec target { state with placement := placement, late := late } where
  store := sound.store
  begun := fun begun => ⟨(sound.begun begun).1, separate (sound.begun begun).2⟩
  phase := sound.phase
  late := under_way
  dropped := dropped

end Sound

theorem Statement.apply_separate (statement : Statement) {placement : Placement}
    (separate : placement.Separate) : (statement.apply placement).Separate := by
  rcases separate with rfl | rfl
  · cases statement with
    | detach => exact Or.inl rfl
    | drop => exact Or.inr rfl
  · cases statement with
    | detach | drop => exact Or.inr rfl

/-- After a detach that succeeds the table is separate. -/
theorem Statement.detach_separate (placement : Placement) :
    (Statement.detach.apply placement).Separate := by
  cases placement with
  | attached | pending | detached => exact Or.inl rfl
  | dropped => exact Or.inr rfl

theorem Statement.applyHalfway_separate (statement : Statement) {placement : Placement}
    (separate : placement.Separate) : (statement.applyHalfway placement).Separate := by
  rcases separate with rfl | rfl
  · cases statement with
    | detach | drop => exact Or.inl rfl
  · cases statement with
    | detach | drop => exact Or.inr rfl

theorem Statement.apply_eq_dropped {statement : Statement} {placement : Placement}
    (dropped : statement.apply placement = .dropped) :
    statement = .drop ∨ placement = .dropped := by
  cases statement with
  | drop => exact Or.inl rfl
  | detach =>
      cases placement with
      | attached | pending | detached => cases dropped
      | dropped => exact Or.inr rfl

theorem Statement.applyHalfway_eq_dropped {statement : Statement} {placement : Placement}
    (dropped : statement.applyHalfway placement = .dropped) : placement = .dropped := by
  cases statement with
  | drop => exact dropped
  | detach =>
      cases placement with
      | attached | pending | detached => cases dropped
      | dropped => rfl

section Statements

variable {state : ArchiveState} (sound : ArchiveSound codec target state) {statement : Statement}
  (allowed : statement = .drop → state.writers.checksum ≠ none)
include sound allowed

/-- A statement takes effect. -/
theorem ArchiveSound.apply {late : List Statement}
    (under_way : .drop ∈ late → state.writers.checksum ≠ none) :
    ArchiveSound codec target
      { state with placement := statement.apply state.placement, late := late } := by
  refine sound.move statement.apply_separate ?_ under_way
  intro dropped
  rcases Statement.apply_eq_dropped dropped with drops | before
  · exact allowed drops
  · exact sound.dropped before

theorem ArchiveSound.issue (ending : Ending) :
    ArchiveSound codec target (state.issue statement ending) := by
  cases ending with
  | ok | lost message => exact sound.apply allowed sound.late
  | failed message => exact sound
  | halfway message =>
      refine sound.move statement.applyHalfway_separate ?_ sound.late
      intro dropped
      exact sound.dropped (Statement.applyHalfway_eq_dropped dropped)
  | late message =>
      refine sound.move (fun separate => separate) sound.dropped ?_
      intro member
      rcases List.mem_cons.mp member with drops | before
      · exact allowed drops.symm
      · exact sound.late before

end Statements

section Run

variable {state next : ArchiveState} {label : ArchiveLabel}

theorem archiveSound_initial : ArchiveSound codec target initialArchive where
  store := ⟨nofun, nofun, nofun⟩
  begun := fun begun => absurd rfl begun
  phase := trivial
  late := nofun
  dropped := nofun

theorem ArchiveSound.exportStep {attempt : Nat} {call : ExportCall}
    (sound : ArchiveSound codec target state)
    (taken : exportStep codec target attempt call state = some next) :
    ArchiveSound codec target next := by
  have frame := exportStep_frame taken
  have nonempty : next.attempts ≠ [] ↔ state.attempts ≠ [] := by
    rw [← List.length_pos_iff, ← List.length_pos_iff, frame.length]
  refine ⟨exportStep_store sound.store taken, ?_, ?_, ?_, ?_⟩
  · intro begun
    rw [frame.placement]
    exact sound.begun (nonempty.mp begun)
  · have phase := sound.phase
    rw [frame.phase]
    cases at_phase : state.phase with
    | idle last => trivial
    | detaching retries =>
        rw [at_phase] at phase
        exact phase
    | exporting attempt retries =>
        rw [at_phase] at phase
        exact nonempty.mpr phase
    | emitting result retries | registering result retries | dropping result retries =>
        rw [at_phase] at phase
        exact frame.checksum phase
  · intro member
    rw [frame.late] at member
    exact frame.checksum (sound.late member)
  · intro dropped
    rw [frame.placement] at dropped
    exact frame.checksum (sound.dropped dropped)

/-- Rows come only while no attempt has begun. -/
theorem ArchiveSound.insert (sound : ArchiveSound codec target state)
    (open_table : ¬ state.placement.Separate) (row : UsageEventRow) :
    ArchiveSound codec target { state with rows := row :: state.rows } := by
  have empty : state.attempts = [] := by
    by_contra begun
    exact open_table (sound.begun begun).2
  refine ⟨⟨?_, ?_, sound.store.manifest⟩, sound.begun, sound.phase, sound.late, sound.dropped⟩
  · intro attempt stage present
    rw [empty] at present
    cases present
  · intro writer written
    have bound := (sound.store.checksum writer written).1
    rw [empty] at bound
    exact absurd bound (Nat.not_lt_zero _)

theorem ArchiveSound.start (sound : ArchiveSound codec target state) :
    ArchiveSound codec target (startArchive target state) := by
  unfold startArchive
  split
  · exact sound.fails _
  · split
    · exact sound.fails _
    · apply sound.enter
      refine ⟨⟨?_, ?_⟩, ?_, ?_⟩ <;> omega

theorem ArchiveSound.detachStep {retries : Nat} (sound : ArchiveSound codec target state)
    (supported : target.Supported) (ending : Ending) :
    ArchiveSound codec target (detachStep ending retries state) := by
  have issued : ArchiveSound codec target (state.issue .detach ending) :=
    sound.issue (by rintro ⟨⟩) ending
  refine ArchiveState.settle_induction ?_ issued.fails fun left => issued.enter supported
  intro succeeded
  cases ending with
  | ok => exact issued.beginExport supported (Statement.detach_separate _) _
  | failed message | halfway message | lost message | late message => cases succeeded

theorem ArchiveSound.exportedStep {timeout : Option String} {attempt retries : Nat}
    (sound : ArchiveSound codec target state) (begun : state.attempts ≠ [])
    (taken : exportedStep timeout attempt retries state = some next) :
    ArchiveSound codec target next := by
  rcases sound.begun begun with ⟨supported, separate⟩
  have retried (message : String) :
      ArchiveSound codec target
        (state.retry retries ArchiveState.beginExport message) :=
    ArchiveState.retry_induction (sound.fails _) (sound.beginExport supported separate)
  unfold Billing.exportedStep at taken
  split at taken
  case h_1 | h_2 =>
    cases taken
    exact retried _
  case h_3 result present =>
    cases taken
    exact sound.enter (sound.store.stage attempt _ present)
  case h_4 => cases taken

theorem ArchiveSound.dropPartitionStep {result : ExportResult} {retries : Nat}
    (sound : ArchiveSound codec target state) (present : state.writers.checksum ≠ none)
    (ending : Ending) :
    ArchiveSound codec target (dropPartitionStep target ending result retries state) := by
  have issued : ArchiveSound codec target (state.issue .drop ending) :=
    sound.issue (fun _ => present) ending
  have kept : (state.issue .drop ending).writers.checksum ≠ none := by
    cases ending with
    | ok | failed message | halfway message | lost message | late message => exact present
  exact ArchiveState.settle_induction (fun _ => issued.enter trivial) issued.fails
    fun left => issued.enter kept

/-- Every step keeps what is known of the month. -/
theorem archiveSound_step (sound : ArchiveSound codec target state)
    (taken : archiveStep codec target state label = some next) :
    ArchiveSound codec target next := by
  have phase := sound.phase
  unfold archiveStep at taken
  split at taken
  case h_1 row =>
    split at taken
    case h_1 placement | h_2 placement =>
      cases taken
      apply sound.insert
      rw [placement]
      rintro (equal | equal) <;> cases equal
    case h_3 | h_4 => cases taken
  case h_2 =>
    cases taken
    exact ⟨sound.store, sound.begun, phase, sound.late, sound.dropped⟩
  case h_3 last at_phase =>
    cases taken
    exact sound.start
  case h_4 ending retries at_phase =>
    cases taken
    rw [at_phase] at phase
    exact sound.detachStep phase ending
  case h_5 attempt call => exact sound.exportStep taken
  case h_6 timeout attempt retries at_phase =>
    rw [at_phase] at phase
    exact sound.exportedStep phase taken
  case h_7 fault result retries at_phase =>
    cases taken
    rw [at_phase] at phase
    exact ArchiveState.settle_induction (fun _ => sound.enter phase) sound.fails
      fun left => sound.enter phase
  case h_8 fault result retries at_phase =>
    cases taken
    rw [at_phase] at phase
    exact ArchiveState.settle_induction (fun _ => sound.enter phase) sound.fails
      fun left => sound.enter phase
  case h_9 ending result retries at_phase =>
    cases taken
    rw [at_phase] at phase
    exact sound.dropPartitionStep phase ending
  case h_10 statement =>
    split at taken
    case isTrue member =>
      cases taken
      refine sound.apply ?_ fun remains => sound.late (List.mem_of_mem_erase remains)
      rintro rfl
      exact sound.late member
    case isFalse => cases taken
  case h_11 => cases taken

/-! ## Objects stay together -/

/-- No object is written, and the table is dropped only if the label says so. -/
def KeepsObjects (state : ArchiveState) (drops : Bool) (next : ArchiveState) : Prop :=
  next.writers = state.writers ∧
    (next.placement = .dropped → state.placement = .dropped ∨ drops = true)

theorem keepsObjects_detach (ending : Ending) :
    KeepsObjects state false (state.issue .detach ending) := by
  cases ending with
  | ok | lost message =>
      refine ⟨rfl, ?_⟩
      intro dropped
      rcases Statement.apply_eq_dropped dropped with drops | before
      · cases drops
      · exact Or.inl before
  | halfway message =>
      exact ⟨rfl, fun dropped => Or.inl (Statement.applyHalfway_eq_dropped dropped)⟩
  | failed message | late message => exact ⟨rfl, Or.inl⟩

theorem keepsObjects_drop (ending : Ending) :
    KeepsObjects state (ArchiveLabel.drop ending).drops (state.issue .drop ending) := by
  cases ending with
  | ok | lost message => exact ⟨rfl, fun _ => Or.inr rfl⟩
  | failed message | halfway message | late message => exact ⟨rfl, Or.inl⟩

/-- Only the calls of the export write objects. -/
theorem archiveStep_keepsObjects (taken : archiveStep codec target state label = some next) :
    (∃ attempt call, label = .advance attempt call ∧
        exportStep codec target attempt call state = some next) ∨
      KeepsObjects state label.drops next := by
  have same : KeepsObjects state label.drops state := ⟨rfl, Or.inl⟩
  unfold archiveStep at taken
  split at taken
  case h_1 row =>
    split at taken
    case h_1 | h_2 =>
      cases taken
      exact Or.inr same
    case h_3 | h_4 => cases taken
  case h_2 =>
    cases taken
    exact Or.inr same
  case h_3 last at_phase =>
    cases taken
    unfold startArchive
    repeat' split
    all_goals exact Or.inr same
  case h_4 ending retries at_phase =>
    cases taken
    have kept : KeepsObjects state false (state.issue .detach ending) :=
      keepsObjects_detach ending
    exact Or.inr (ArchiveState.settle_induction (fun _ => kept) (fun _ => kept) fun _ => kept)
  case h_5 attempt call => exact Or.inl ⟨attempt, call, rfl, taken⟩
  case h_6 timeout attempt retries at_phase =>
    refine Or.inr ?_
    unfold exportedStep at taken
    split at taken
    case h_1 | h_2 =>
      cases taken
      exact ArchiveState.retry_induction same fun _ => same
    case h_3 =>
      cases taken
      exact same
    case h_4 => cases taken
  case h_7 fault result retries at_phase =>
    cases taken
    exact Or.inr (ArchiveState.settle_induction (fun _ => same) (fun _ => same) fun _ => same)
  case h_8 fault result retries at_phase =>
    cases taken
    exact Or.inr (ArchiveState.settle_induction (fun _ => same) (fun _ => same) fun _ => same)
  case h_9 ending result retries at_phase =>
    cases taken
    have kept : KeepsObjects state (ArchiveLabel.drop ending).drops
        (state.issue .drop ending) := keepsObjects_drop ending
    exact Or.inr (ArchiveState.settle_induction (fun _ => kept) (fun _ => kept) fun _ => kept)
  case h_10 statement =>
    split at taken
    case isTrue =>
      cases taken
      refine Or.inr ⟨rfl, ?_⟩
      intro dropped
      rcases Statement.apply_eq_dropped dropped with rfl | before
      · exact Or.inr rfl
      · exact Or.inl before
    case isFalse => cases taken
  case h_11 => cases taken

/-- A call that leaves the objects of a dropped table alone leaves them together. -/
theorem belongTogether_exportStep {attempt : Nat} {call : ExportCall}
    (leaves : leavesObjects state (.advance attempt call) = true)
    (together : state.writers.BelongTogether)
    (taken : exportStep codec target attempt call state = some next) :
    next.writers.BelongTogether := by
  unfold exportStep at taken
  split at taken
  case h_1 | h_2 =>
    cases taken
    exact together
  case h_3 version rows nonces cut effect present =>
    cases taken
    simp only [leavesObjects, present, Bool.not_eq_true'] at leaves
    simp only [ArchiveState.storeParquet, leaves]
    exact together
  case h_4 version ciphertext rowCount archiveTS effect present =>
    cases taken
    simp only [leavesObjects, present] at leaves
    unfold ArchiveState.storeManifest
    split
    · rename_i stored
      have same : state.writers.parquet.map Writer.version = some version := by
        simpa [stored] using leaves
      exact ⟨together.1, same.symm⟩
    · exact together
  case h_5 version ciphertext rowCount effect present =>
    cases taken
    simp only [leavesObjects, present, Bool.not_eq_true'] at leaves
    simp only [ArchiveState.storeChecksum, leaves]
    exact together
  case h_6 => cases taken

theorem belongTogether_step (keeps : KeepsTogether state label)
    (together : state.placement = .dropped → state.writers.BelongTogether)
    (taken : archiveStep codec target state label = some next) :
    next.placement = .dropped → next.writers.BelongTogether := by
  intro dropped
  rcases archiveStep_keepsObjects taken with ⟨attempt, call, rfl, called⟩ | ⟨writers, drops⟩
  · rw [(exportStep_frame called).placement] at dropped
    rw [KeepsTogether, if_pos dropped] at keeps
    exact belongTogether_exportStep keeps (together dropped) called
  · rw [writers]
    by_cases before : state.placement = .dropped
    · exact together before
    · rw [KeepsTogether, if_neg before] at keeps
      exact keeps ((drops dropped).resolve_left before)

end Run

/-- Whatever the attempts of the export and of the statements do, and however often the
workflow is run: a dropped month can be recovered, as long as the objects belong together
when it is dropped and are left alone afterwards. -/
theorem safelyDropped_of_keepsTogether (schedule : List ArchiveLabel)
    (meets : Meets (archiveStep codec target) KeepsTogether initialArchive schedule) :
    Throughout (archiveStep codec target) (SafelyDropped codec target) initialArchive
      schedule := by
  have throughout : Throughout (archiveStep codec target)
      (fun state => ArchiveSound codec target state ∧
        (state.placement = .dropped → state.writers.BelongTogether))
      initialArchive schedule := by
    refine throughout_of_meets ?_ schedule initialArchive meets ⟨archiveSound_initial, nofun⟩
    intro state label next keeps both taken
    exact ⟨archiveSound_step both.1 taken, belongTogether_step keeps both.2 taken⟩
  intro front rest reached split completed
  rcases throughout front rest reached split completed with ⟨sound, together⟩
  exact sound.safelyDropped together

/-! ## Two runs -/

def may2026 : ArchiveTarget := ⟨2026, 5, "gitscale-billing"⟩

def firstNonces : Nonces := ⟨oneEvent.nonces, oneEvent.nonces_length⟩

def secondNonces : Nonces := ⟨fun _ => List.replicate 12 1, fun _ => rfl⟩

/-- An attempt without faults. -/
def wholeExport (attempt : Nat) (nonces : Nonces) : List ArchiveLabel :=
  [.advance attempt (.getDEK none), .advance attempt (.scan none),
    .advance attempt (.upload nonces none .ok),
    .advance attempt (.putManifest "2027-09-02T00:00:00Z" .ok),
    .advance attempt (.putChecksum .ok)]

/-- A run without faults. -/
def wholeArchive : List ArchiveLabel :=
  oneEvent.rows.map ArchiveLabel.insert ++ ([.start, .detach .ok] : List ArchiveLabel) ++
    wholeExport 0 firstNonces ++
    ([.exported none, .emit none, .register none, .drop .ok] : List ArchiveLabel)

theorem safelyDropped_wholeArchive :
    Nonempty Codec ∧ ∀ codec : Codec,
      Meets (archiveStep codec may2026) KeepsTogether initialArchive wholeArchive ∧
        (run (archiveStep codec may2026) initialArchive wholeArchive).map
          ArchiveState.placement = some .dropped ∧
        Throughout (archiveStep codec may2026) (SafelyDropped codec may2026) initialArchive
          wholeArchive := by
  refine ⟨inferInstance, ?_⟩
  intro codec
  have meets : Meets (archiveStep codec may2026) KeepsTogether initialArchive wholeArchive :=
    of_decide_eq_true rfl
  exact ⟨meets, rfl, safelyDropped_of_keepsTogether wholeArchive meets⟩

/-- The first attempt is given up after it has read the rows.  The second one archives the
month, the table is dropped, and then the upload of the first one arrives. -/
def lateUpload : List ArchiveLabel :=
  oneEvent.rows.map ArchiveLabel.insert ++
    ([.start, .detach .ok, .advance 0 (.getDEK none), .advance 0 (.scan none),
      .exported (some "activity Heartbeat timeout")] : List ArchiveLabel) ++
    wholeExport 1 secondNonces ++
    ([.exported none, .emit none, .register none, .drop .ok,
      .advance 0 (.upload firstNonces none .ok)] : List ArchiveLabel)

/-- The ciphertext of the month in the attempt with these nonces. -/
def monthSealed (codec : Codec) (nonces : Nonces) : Bytes :=
  sealed codec may2026 1 nonces (codec.writeParquet (scanPartitionRows oneEvent.rows))

/-- A codec with a short file for the month. -/
def shortCodec : Codec :=
  { (default : Codec) with
    writeParquet := fun rows => if rows = oneEvent.rows then [1] else 0 :: unary rows
    readParquet := fun bytes =>
      match bytes with
      | 0 :: rest => ofUnary rest
      | _ => .ok oneEvent.rows
    read_write := by
      intro rows
      by_cases month : rows = oneEvent.rows
      · simp [month]
      · simp [month, ofUnary_unary] }

/-- The objects that are left: two of the second attempt and the file of the first. -/
def lateObjects (codec : Codec) : Objects :=
  let written : Objects := Function.update (fun _ => none) (archivedParquetKey 2026 5)
    (some (monthSealed codec secondNonces))
  let described := Function.update written (manifestKey 2026 5)
    (some (codec.marshalManifest (exportManifest may2026 1 (monthSealed codec secondNonces)
      (scanPartitionRows oneEvent.rows).length "2027-09-02T00:00:00Z")))
  let checked := Function.update described (checksumKey 2026 5)
    (some (Go.utf8 (Go.hexEncode (Go.sha256 (monthSealed codec secondNonces)))))
  Function.update checked (archivedParquetKey 2026 5) (some (monthSealed codec firstNonces))

theorem lateUpload_reaches (codec : Codec) :
    (run (archiveStep codec may2026) initialArchive lateUpload).map
      (fun final => (final.placement, final.objects)) = some (.dropped, lateObjects codec) :=
  rfl

/-- The file is the one of the first attempt and the checksum the one of the second.  Unless
their digests happen to agree, the restore rejects the month, and the table is gone. -/
theorem lateUpload_not_safelyDropped :
    (∃ codec, Go.hexEncode (Go.sha256 (monthSealed codec secondNonces)) ≠
        Go.hexEncode (Go.sha256 (monthSealed codec firstNonces))) ∧
      ∀ codec, Go.hexEncode (Go.sha256 (monthSealed codec secondNonces)) ≠
          Go.hexEncode (Go.sha256 (monthSealed codec firstNonces)) →
        ¬ Throughout (archiveStep codec may2026) (SafelyDropped codec may2026) initialArchive
          lateUpload := by
  constructor
  · refine ⟨shortCodec, ?_⟩
    have file : shortCodec.writeParquet (scanPartitionRows oneEvent.rows) = [1] := by
      simp [shortCodec, scanPartitionRows, oneEvent]
    simp only [monthSealed, file]
    decide +kernel
  · intro codec different throughout
    rcases Option.map_eq_some_iff.mp (lateUpload_reaches codec) with ⟨final, completed, left⟩
    have dropped : final.placement = .dropped := congrArg Prod.fst left
    have objects : final.objects = lateObjects codec := congrArg Prod.snd left
    have parquet : lateObjects codec (archivedParquetKey 2026 5) =
        some (monthSealed codec firstNonces) := by
      rw [lateObjects, Function.update_self]
    have checksum : lateObjects codec (checksumKey 2026 5) =
        some (Go.utf8 (Go.hexEncode (Go.sha256 (monthSealed codec secondNonces)))) := by
      rw [lateObjects, Function.update_of_ne (checksumKey_ne_parquetKey _ _),
        Function.update_self]
    have safe := throughout lateUpload [] final (List.append_nil _).symm completed
    rcases safe dropped with ⟨manifest, version, recovered, fetched, verified, -, -⟩
    rcases fetchManifest_keys fetched with ⟨parquetKey, checksumKey⟩
    rw [parquetKey, checksumKey, objects] at verified
    exact different ((verifyChecksum_iff parquet checksum).mp verified)

end GitScale.Billing
