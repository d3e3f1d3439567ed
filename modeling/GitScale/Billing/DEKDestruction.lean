import GitScale.Basic
import GitScale.Billing.TransitKey
import GitScale.Foundation.History
import GitScale.Foundation.Transition
import Mathlib.Data.List.Sort

/-!
# The DEK destruction workflow

`DEKDestructionWorkflow` lists the archives older than a cutoff and, for each one
that clears the legal-hold and the approval gate, trims the transit key past the
version that the archive was encrypted with.  Trimming is cumulative, so what it
does to one archive depends on the versions of all the others.
-/

namespace GitScale.Billing

/-- A row of `billing.partition_archives`, with the key version that its manifest
names. -/
structure PartitionArchive where
  id : UUID
  year : Nat
  month : Nat
  partitionName : String
  lakeURI : String
  archivedAt : Time
  version : Nat
  version_pos : 1 ≤ version
  version_fits : version + 1 < Go.int64Bound
  deriving DecidableEq

/-- `EligiblePartition`; the hint is empty when the resolver failed. -/
structure EligiblePartition extends PartitionArchive where
  kekHint : List Char

/-- `LegalHoldCheckResult`. -/
structure LegalHoldCheckResult where
  held : Bool
  reason : String
  deriving DecidableEq, Repr

/-- `OperatorApprovalResult`. -/
structure OperatorApprovalResult where
  approved : Bool
  reason : String
  deriving DecidableEq, Repr

/-- Everything that one workflow run depends on besides the stored rows and the
key: its cutoff and what each activity answers for each partition. -/
structure DestructionRun where
  cutoff : Time
  list : Option String
  resolve : UUID → Bool
  checkLegalHold : UUID → Except String LegalHoldCheckResult
  requestApproval : UUID → Except String OperatorApprovalResult
  destroy : UUID → Attempt × List Attempt
  emit : UUID → Option String

/-- `DEKDestructionResult`. -/
structure DEKDestructionResult where
  partitionsScanned : Nat
  keysDestroyed : Nat
  skipped : List String
  deriving DecidableEq, Repr

/-- The database, the key, and the archives destroyed so far. -/
structure World where
  key : Option TransitKey
  archives : List PartitionArchive
  destroyed : List UUID
  unique : (archives.map PartitionArchive.id).Nodup

/-! ## Listing -/

/-- `ORDER BY year ASC, month ASC, id ASC`. -/
def PartitionArchive.Before (left right : PartitionArchive) : Prop :=
  left.year < right.year ∨ (left.year = right.year ∧
    (left.month < right.month ∨ (left.month = right.month ∧ left.id ≤ right.id)))

instance : DecidableRel PartitionArchive.Before := fun left right =>
  inferInstanceAs (Decidable (left.year < right.year ∨ (left.year = right.year ∧
    (left.month < right.month ∨ (left.month = right.month ∧ left.id ≤ right.id)))))

/-- `ListPartitionArchivesArchivedBefore`. -/
def listPartitionArchivesArchivedBefore (cutoff : Time)
    (archives : List PartitionArchive) : List PartitionArchive :=
  (archives.filter fun row => row.archivedAt < cutoff).insertionSort
    PartitionArchive.Before

/-- The rows that a run iterates over: none if it stops at its cutoff or at the
list activity. -/
def listed (run : DestructionRun) (archives : List PartitionArchive) :
    List PartitionArchive :=
  if run.cutoff.isZero ∨ run.list.isSome then []
  else listPartitionArchivesArchivedBefore run.cutoff archives

/-- `ListEligiblePartitionsActivity` resolves the hint of each row best-effort. -/
def eligibleOf (run : DestructionRun) (row : PartitionArchive) : EligiblePartition where
  toPartitionArchive := row
  kekHint := if run.resolve row.id then kekHint row.version else []

/-! ## The workflow -/

/-- Decimal digits, padded with zeros. -/
def padded (width value : Nat) : String :=
  let digits := Nat.toDigits 10 value
  String.ofList (List.replicate (width - digits.length) '0' ++ digits)

/-- `fmt.Sprintf("%04d-%02d-%s", year, month, name)`. -/
def tag (partition : EligiblePartition) : String :=
  padded 4 partition.year ++ "-" ++ padded 2 partition.month ++ "-" ++
    partition.partitionName

/-- What the loop of the workflow carries along. -/
structure Progress where
  result : DEKDestructionResult
  key : Option TransitKey
  destroyed : List UUID

/-- Record why a partition was skipped. -/
def skip (progress : Progress) (partition : EligiblePartition) (reason : String) :
    Progress :=
  { progress with
    result := { progress.result with
      skipped := progress.result.skipped ++ [tag partition ++ ": " ++ reason] } }

/-- Count a destruction. -/
def count (progress : Progress) : Progress :=
  { progress with
    result := { progress.result with
      keysDestroyed := progress.result.keysDestroyed + 1 } }

/-- Steps 3 and 4 of the loop body: destroy, then emit the audit event. -/
def destroyAndEmit (activity : DestroyDEKActivity) (run : DestructionRun)
    (progress : Progress) (partition : EligiblePartition) : Progress :=
  let faults := run.destroy partition.id
  let execution := activity.execute partition.kekHint faults.1 faults.2 progress.key
  let progress := { progress with
    key := execution.key
    destroyed :=
      if execution.destroyed then progress.destroyed ++ [partition.id]
      else progress.destroyed }
  match execution.answer with
  | .error message => skip progress partition ("destroy_error:" ++ message)
  | .ok _ =>
      match run.emit partition.id with
      | some message => count (skip progress partition ("emit_error:" ++ message))
      | none => count progress

/-- The loop body of `DEKDestructionWorkflow`. -/
def destroyPartition (activity : DestroyDEKActivity) (run : DestructionRun)
    (progress : Progress) (partition : EligiblePartition) : Progress :=
  if partition.kekHint = [] then skip progress partition "missing_kek_hint"
  else
    match run.checkLegalHold partition.id with
    | .error message => skip progress partition ("legal_hold_error:" ++ message)
    | .ok hold =>
        if hold.held then skip progress partition ("legal_hold:" ++ hold.reason)
        else
          match run.requestApproval partition.id with
          | .error message => skip progress partition ("approval_error:" ++ message)
          | .ok approval =>
              if !approval.approved then
                skip progress partition ("approval_rejected:" ++ approval.reason)
              else destroyAndEmit activity run progress partition

/-- The loop of the workflow over the listed rows. -/
def destroyAll (activity : DestroyDEKActivity) (run : DestructionRun)
    (rows : List PartitionArchive) (progress : Progress) : Progress :=
  rows.foldl (fun progress row => destroyPartition activity run progress (eligibleOf run row))
    progress

/-- `DEKDestructionWorkflow`: its answer and the world that it leaves. -/
def dekDestructionWorkflow (activity : DestroyDEKActivity) (run : DestructionRun)
    (world : World) : Except String DEKDestructionResult × World :=
  if run.cutoff.isZero then (.error "dek destruction: cutoff is zero", world)
  else
    match run.list with
    | some message =>
        (.error ("dek destruction: list: billing.ListEligiblePartitions: " ++ message), world)
    | none =>
        let rows := listPartitionArchivesArchivedBefore run.cutoff world.archives
        let progress := destroyAll activity run rows
          ⟨⟨rows.length, 0, []⟩, world.key, world.destroyed⟩
        (.ok progress.result,
          { world with key := progress.key, destroyed := progress.destroyed })

/-! ## What the answers of the activities amount to -/

/-- The hint resolves, there is no legal hold, and the operator approves. -/
def Cleared (run : DestructionRun) (row : PartitionArchive) : Prop :=
  run.resolve row.id ∧
    (∃ reason, run.checkLegalHold row.id = .ok ⟨false, reason⟩) ∧
    ∃ reason, run.requestApproval row.id = .ok ⟨true, reason⟩

/-- Some attempt of the destroy activity gets its Vault read through. -/
def Reads (run : DestructionRun) (row : PartitionArchive) : Prop :=
  ∃ faults ∈ (run.destroy row.id).1 :: (run.destroy row.id).2, faults.read = none

/-- Some attempt of the destroy activity gets all three Vault calls through. -/
def Effective (run : DestructionRun) (row : PartitionArchive) : Prop :=
  ∃ faults ∈ (run.destroy row.id).1 :: (run.destroy row.id).2, faults.effective

/-- The run trims the key past the version of the row. -/
def Shreds (run : DestructionRun) (row : PartitionArchive) : Prop :=
  Cleared run row ∧ Effective run row

/-- Some earlier row of the run is shredded with a version at least as new. -/
def Overtaken (run : DestructionRun) (earlier : List PartitionArchive)
    (row : PartitionArchive) : Prop :=
  ∃ other ∈ earlier, Shreds run other ∧ row.version ≤ other.version

theorem destroyPartition_of_not_cleared (activity : DestroyDEKActivity)
    (run : DestructionRun) (progress : Progress) (row : PartitionArchive)
    (stopped : ¬ Cleared run row) :
    (destroyPartition activity run progress (eligibleOf run row)).key = progress.key ∧
      (destroyPartition activity run progress (eligibleOf run row)).destroyed =
        progress.destroyed := by
  simp only [destroyPartition]
  split
  · exact ⟨rfl, rfl⟩
  · rename_i hinted
    cases held : run.checkLegalHold (eligibleOf run row).id with
    | error message => exact ⟨rfl, rfl⟩
    | ok hold =>
        rcases hold with ⟨isHeld, holdReason⟩
        cases isHeld with
        | true => exact ⟨rfl, rfl⟩
        | false =>
            cases approved : run.requestApproval (eligibleOf run row).id with
            | error message => exact ⟨rfl, rfl⟩
            | ok approval =>
                rcases approval with ⟨isApproved, approvalReason⟩
                cases isApproved with
                | false => exact ⟨rfl, rfl⟩
                | true =>
                    refine absurd ⟨?_, ⟨_, held⟩, ⟨_, approved⟩⟩ stopped
                    cases resolved : run.resolve row.id with
                    | true => rfl
                    | false =>
                        refine absurd ?_ hinted
                        simp [eligibleOf, resolved]

theorem destroyPartition_of_cleared (activity : DestroyDEKActivity)
    (run : DestructionRun) (progress : Progress) (row : PartitionArchive)
    (cleared : Cleared run row) :
    destroyPartition activity run progress (eligibleOf run row) =
      destroyAndEmit activity run progress (eligibleOf run row) := by
  rcases cleared with ⟨resolved, ⟨holdReason, held⟩, ⟨approvalReason, approved⟩⟩
  have hinted : (eligibleOf run row).kekHint ≠ [] := by
    simp only [eligibleOf, resolved, ↓reduceIte]
    exact kekHint_ne_nil row.version
  have unheld : run.checkLegalHold (eligibleOf run row).id = .ok ⟨false, holdReason⟩ := held
  have permitted : run.requestApproval (eligibleOf run row).id =
      .ok ⟨true, approvalReason⟩ := approved
  simp [destroyPartition, hinted, unheld, permitted]

theorem destroyAndEmit_frame (activity : DestroyDEKActivity) (run : DestructionRun)
    (progress : Progress) (partition : EligiblePartition) :
    let execution := activity.execute partition.kekHint (run.destroy partition.id).1
      (run.destroy partition.id).2 progress.key
    (destroyAndEmit activity run progress partition).key = execution.key ∧
      (destroyAndEmit activity run progress partition).destroyed =
        if execution.destroyed then progress.destroyed ++ [partition.id]
        else progress.destroyed := by
  simp only [destroyAndEmit]
  split
  · exact ⟨rfl, rfl⟩
  · split
    · exact ⟨rfl, rfl⟩
    · exact ⟨rfl, rfl⟩

/-- One turn of the loop. -/
structure Turn (run : DestructionRun) (row : PartitionArchive)
    (progress next : Progress) : Prop where
  trims : Trims progress.key next.key row.version (Shreds run row)
  destroyed : ∀ id, id ∈ next.destroyed ↔ id ∈ progress.destroyed ∨
    (id = row.id ∧ Cleared run row ∧
      (Effective run row ∨ (Reads run row ∧ Gone progress.key row.version)))

theorem destroyPartition_turn (activity : DestroyDEKActivity) (run : DestructionRun)
    (progress : Progress) (row : PartitionArchive) :
    Turn run row progress (destroyPartition activity run progress (eligibleOf run row)) := by
  by_cases cleared : Cleared run row
  · have executes : activity.execute (eligibleOf run row).kekHint (run.destroy row.id).1
        (run.destroy row.id).2 progress.key =
        activity.attempts row.version (run.destroy row.id).1 (run.destroy row.id).2
          progress.key := by
      have fits : row.version < Go.int64Bound := Nat.lt_of_succ_lt row.version_fits
      have parsed := parseKEKHintVersion_kekHint activity.quote row.version_pos fits
      simp [DestroyDEKActivity.execute, eligibleOf, cleared.1, parsed]
    have spec := activity.attempts_spec row.version (run.destroy row.id).1
      (run.destroy row.id).2 progress.key
    have frame := destroyAndEmit_frame activity run progress (eligibleOf run row)
    have sameID : (eligibleOf run row).id = row.id := rfl
    simp only [sameID, executes] at frame
    rw [destroyPartition_of_cleared activity run progress row cleared]
    constructor
    · rw [frame.1]
      exact spec.trims.congr (by simp [Shreds, cleared, Effective])
    · intro id
      have counted := spec.destroyed
      rw [frame.2]
      split
      · rename_i happened
        rw [List.mem_append, List.mem_singleton]
        have reason := counted.mp happened
        simp only [cleared, true_and]
        exact or_congr_right (iff_self_and.mpr fun _ => reason)
      · rename_i missed
        have nothing := fun reason => missed (counted.mpr reason)
        constructor
        · exact Or.inl
        · intro either
          rcases either with old | new
          · exact old
          · exact absurd new.2.2 nothing
  · have frame := destroyPartition_of_not_cleared activity run progress row cleared
    constructor
    · rw [frame.1]
      exact Trims.same fun shreds => absurd shreds.1 cleared
    · intro id
      rw [frame.2]
      constructor
      · exact Or.inl
      · intro either
        rcases either with old | new
        · exact old
        · exact absurd new.2.1 cleared

/-! ## The whole loop -/

/-- What the loop has done after the rows `front`. -/
structure Processed (run : DestructionRun) (start : Progress)
    (front : List PartitionArchive) (progress : Progress) : Prop where
  live : ∀ version, version ∈ liveVersions progress.key ↔
    version ∈ liveVersions start.key ∧
      ∀ row ∈ front, Shreds run row → row.version < version
  gone : ∀ version, Gone progress.key version ↔ Gone start.key version ∨
    ∃ row ∈ front, Shreds run row ∧ version ≤ row.version
  destroyed : ∀ id, id ∈ progress.destroyed ↔ id ∈ start.destroyed ∨
    ∃ earlier row later, front = earlier ++ row :: later ∧ id = row.id ∧
      Cleared run row ∧ (Effective run row ∨
        (Reads run row ∧ (Gone start.key row.version ∨ Overtaken run earlier row)))

theorem processed_nil (run : DestructionRun) (start : Progress) :
    Processed run start [] start where
  live := by simp
  gone := by simp
  destroyed := by simp

/-- The loop takes one more turn. -/
theorem Processed.concat {run : DestructionRun} {start progress next : Progress}
    {front : List PartitionArchive} {row : PartitionArchive}
    (processed : Processed run start front progress)
    (turn : Turn run row progress next) : Processed run start (front ++ [row]) next where
  live version := by
    rw [turn.trims.live, processed.live, List.forall_mem_append, List.forall_mem_singleton,
      and_assoc, not_and, Nat.not_le]
  gone version := by
    rw [turn.trims.gone, processed.gone, or_assoc]
    simp only [List.mem_append, List.mem_singleton, or_and_right, exists_or,
      exists_eq_left]
  destroyed id := by
    rw [turn.destroyed, processed.destroyed, processed.gone]
    constructor
    · intro either
      rcases either with (old | ⟨earlier, other, later, split, rest⟩) |
        ⟨same, cleared, reason⟩
      · exact Or.inl old
      · refine Or.inr ⟨earlier, other, later ++ [row], ?_, rest⟩
        rw [split, List.append_assoc, List.cons_append]
      · exact Or.inr ⟨front, row, [], rfl, same, cleared, reason⟩
    · intro either
      rcases either with old | ⟨earlier, other, later, split, same, rest⟩
      · exact Or.inl (Or.inl old)
      · rcases Foundation.concat_eq_append_cons split with ⟨tail, shorter, -⟩ |
          ⟨rfl, rfl, -⟩
        · exact Or.inl (Or.inr ⟨earlier, other, tail, shorter, same, rest⟩)
        · exact Or.inr ⟨same, rest⟩

theorem destroyAll_processed (activity : DestroyDEKActivity) (run : DestructionRun)
    (rows : List PartitionArchive) (start : Progress) :
    Processed run start rows (destroyAll activity run rows start) := by
  induction rows using List.reverseRecOn with
  | nil => exact processed_nil run start
  | append_singleton front row inductionHypothesis =>
      rw [destroyAll, List.foldl_concat]
      exact inductionHypothesis.concat (destroyPartition_turn activity run _ row)

/-! ## Sparing the archives that are kept -/

/-- The key version of every archive that was not itself destroyed is live. -/
def AllLive (world : World) : Prop :=
  ∀ row ∈ world.archives, row.id ∉ world.destroyed → row.version ∈ liveVersions world.key

instance (world : World) : Decidable (AllLive world) :=
  inferInstanceAs (Decidable (∀ row ∈ world.archives, row.id ∉ world.destroyed →
    row.version ∈ liveVersions world.key))

/-- An archive whose version is not newer than one that the run shreds is itself
destroyed by the run: it is listed and clears both gates, and its own Vault calls
get through, or at least its read does after such a version was shredded. -/
def Spares (world : World) (run : DestructionRun) : Prop :=
  ∀ row ∈ world.archives, row.id ∉ world.destroyed →
    Overtaken run (listed run world.archives) row →
      ∃ earlier later, listed run world.archives = earlier ++ row :: later ∧
        Cleared run row ∧
        (Effective run row ∨ (Reads run row ∧ Overtaken run earlier row))

theorem mem_archives_of_mem_listed {run : DestructionRun}
    {archives : List PartitionArchive} {row : PartitionArchive}
    (membership : row ∈ listed run archives) : row ∈ archives := by
  rw [listed] at membership
  split at membership
  · exact absurd membership List.not_mem_nil
  · rw [listPartitionArchivesArchivedBefore, List.mem_insertionSort] at membership
    exact List.mem_of_mem_filter membership

/-- The archives are untouched, and the loop over the listed rows decides the
rest. -/
theorem dekDestructionWorkflow_processed (activity : DestroyDEKActivity)
    (run : DestructionRun) (world : World) :
    ∃ start progress, start.key = world.key ∧ start.destroyed = world.destroyed ∧
      Processed run start (listed run world.archives) progress ∧
      (dekDestructionWorkflow activity run world).2 =
        { world with key := progress.key, destroyed := progress.destroyed } := by
  have idle : listed run world.archives = [] →
      ∃ start progress, start.key = world.key ∧ start.destroyed = world.destroyed ∧
        Processed run start (listed run world.archives) progress ∧
        world = { world with key := progress.key, destroyed := progress.destroyed } := by
    intro empty
    rw [empty]
    let start : Progress := ⟨⟨0, 0, []⟩, world.key, world.destroyed⟩
    exact ⟨start, start, rfl, rfl, processed_nil run start, rfl⟩
  rw [dekDestructionWorkflow]
  split
  · rename_i zero
    exact idle (by simp [listed, zero])
  · rename_i nonzero
    split
    · rename_i message failed
      exact idle (by simp [listed, failed])
    · rename_i succeeded
      have rows : listed run world.archives =
          listPartitionArchivesArchivedBefore run.cutoff world.archives := by
        simp [listed, nonzero, succeeded]
      have processed := destroyAll_processed activity run (listed run world.archives)
        ⟨⟨(listed run world.archives).length, 0, []⟩, world.key, world.destroyed⟩
      refine ⟨_, _, rfl, rfl, processed, ?_⟩
      rw [rows]

/-- A run keeps every kept archive decryptable exactly when it spares them. -/
theorem allLive_workflow_iff (activity : DestroyDEKActivity) (run : DestructionRun)
    (world : World) (before : AllLive world) :
    AllLive (dekDestructionWorkflow activity run world).2 ↔ Spares world run := by
  obtain ⟨start, progress, startKey, startDestroyed, processed, outcome⟩ :=
    dekDestructionWorkflow_processed activity run world
  rw [outcome]
  constructor
  · intro after row membership kept overtaken
    rcases overtaken with ⟨other, otherListed, shreds, newer⟩
    have dead : row.version ∉ liveVersions progress.key := by
      intro live
      have above := ((processed.live row.version).mp live).2 other otherListed shreds
      omega
    have destroyed : row.id ∈ progress.destroyed := by
      by_contra absent
      exact dead (after row membership absent)
    rcases (processed.destroyed row.id).mp destroyed with old | found
    · rw [startDestroyed] at old
      exact absurd old kept
    · rcases found with ⟨earlier, same, later, split, sameID, cleared, reason⟩
      have sameListed : same ∈ listed run world.archives := by simp [split]
      have equal : row = same :=
        List.inj_on_of_nodup_map world.unique membership
          (mem_archives_of_mem_listed sameListed) sameID
      subst equal
      refine ⟨earlier, later, split, cleared, ?_⟩
      rcases reason with effective | ⟨reads, gone | overtaken⟩
      · exact Or.inl effective
      · rw [startKey] at gone
        exact absurd gone (not_gone_of_live (before row membership kept))
      · exact Or.inr ⟨reads, overtaken⟩
  · intro spares row membership kept
    have keptBefore : row.id ∉ world.destroyed := by
      intro old
      apply kept
      rw [← startDestroyed] at old
      exact (processed.destroyed row.id).mpr (Or.inl old)
    apply (processed.live row.version).mpr
    rw [startKey]
    refine ⟨before row membership keptBefore, ?_⟩
    intro other otherListed shreds
    by_contra notAbove
    have overtaken : Overtaken run (listed run world.archives) row :=
      ⟨other, otherListed, shreds, Nat.le_of_not_lt notAbove⟩
    obtain ⟨earlier, later, split, cleared, reason⟩ :=
      spares row membership keptBefore overtaken
    apply kept
    apply (processed.destroyed row.id).mpr
    exact Or.inr ⟨earlier, row, later, split, rfl, cleared,
      reason.imp_right fun both => ⟨both.1, Or.inr both.2⟩⟩

/-! ## Sequences of runs -/

/-- What happens to the archives and the key over the years: a run of the
workflow, a rotation of the key, or a newly archived month under a live version. -/
inductive Step where
  | run (run : DestructionRun)
  | rotate (version : Nat)
  | archive (row : PartitionArchive)

/-- Add a version to the key. -/
def TransitKey.rotate (key : TransitKey) (version : Nat)
    (available : key.minAvailable ≤ version) : TransitKey :=
  { key with
    live := insert version key.live
    available := by
      intro other membership
      rcases Finset.mem_insert.mp membership with same | old
      · rw [same]
        exact available
      · exact key.available other old }

/-- One step of the world. -/
def step (activity : DestroyDEKActivity) (world : World) : Step → Option World
  | .run run => some (dekDestructionWorkflow activity run world).2
  | .rotate version =>
      match world.key with
      | none => none
      | some key =>
          if available : key.minAvailable ≤ version then
            some { world with key := some (key.rotate version available) }
          else none
  | .archive row =>
      if fresh : row.id ∉ world.archives.map PartitionArchive.id then
        if row.version ∈ liveVersions world.key then
          some { world with
            archives := row :: world.archives
            unique := List.nodup_cons.mpr ⟨fresh, world.unique⟩ }
        else none
      else none

/-- The condition on a step: a run must spare the archives that are kept. -/
def SparesKept (world : World) : Step → Prop
  | .run run => Spares world run
  | .rotate _ | .archive _ => True

theorem allLive_step_iff (activity : DestroyDEKActivity) (world : World) (label : Step)
    (next : World) (before : AllLive world) (taken : step activity world label = some next) :
    AllLive next ↔ SparesKept world label := by
  cases label with
  | run run =>
      cases taken
      exact allLive_workflow_iff activity run world before
  | rotate version =>
      refine iff_of_true ?_ trivial
      simp only [step] at taken
      split at taken
      · cases taken
      · rename_i key present
        split at taken
        · cases taken
          intro row membership kept
          have live := before row membership kept
          rw [present] at live
          exact Finset.mem_insert_of_mem live
        · cases taken
  | archive row =>
      refine iff_of_true ?_ trivial
      simp only [step] at taken
      split at taken
      · split at taken
        · rename_i live
          cases taken
          intro other membership kept
          rcases List.mem_cons.mp membership with same | old
          · rw [same]
            exact live
          · exact before other old kept
        · cases taken
      · cases taken

/-- From a world in which every kept archive is decryptable, it stays so through
every sequence of runs, rotations and archivals exactly when every run spares the
archives that are kept. -/
theorem allLive_throughout_iff (activity : DestroyDEKActivity) (world : World)
    (schedule : List Step) (before : AllLive world) :
    Foundation.Throughout (step activity) AllLive world schedule ↔
      Foundation.Meets (step activity) SparesKept world schedule := by
  apply Foundation.throughout_iff_meets
  · intro state label next holds taken
    exact allLive_step_iff activity state label next holds taken
  · intro state label disabled
    cases label with
    | run run => cases disabled
    | rotate version => trivial
    | archive row => trivial
  · exact before

/-- January 2026 was archived under version 1 and February 2026 under version 2;
version 3 is the latest. -/
def twoMonths : World where
  key := some ⟨{1, 2, 3}, 1, 1, 0, by decide⟩
  archives :=
    [⟨1, 2026, 1, "billing.usage_events_2026_01", "s3://lake/2026-01", 100, 1,
        by decide, by decide⟩,
      ⟨2, 2026, 2, "billing.usage_events_2026_02", "s3://lake/2026-02", 200, 2,
        by decide, by decide⟩]
  destroyed := []
  unique := by decide

/-- January is under legal hold, February clears both gates, and Vault never
fails. -/
def januaryHeld : DestructionRun where
  cutoff := 1000
  list := none
  resolve _ := true
  checkLegalHold id := .ok ⟨id == 1, "litigation"⟩
  requestApproval _ := .ok ⟨true, "approved"⟩
  destroy _ := (⟨none, none, .ok⟩, [])
  emit _ := none

theorem allLive_throughout_twoMonths :
    AllLive twoMonths ∧
      (Foundation.Throughout (step {}) AllLive twoMonths [.rotate 4, .run januaryHeld] ↔
        Foundation.Meets (step {}) SparesKept twoMonths [.rotate 4, .run januaryHeld]) :=
  ⟨by decide, allLive_throughout_iff {} twoMonths [.rotate 4, .run januaryHeld] (by decide)⟩

theorem keyLost_januaryHeld :
    AllLive twoMonths ∧
      ¬ AllLive (dekDestructionWorkflow {} januaryHeld twoMonths).2 := by
  decide

end GitScale.Billing
