import GitScale.Billing.DEKDestruction
import GitScale.Billing.Rollover
import GitScale.Go.AddDate

/-!
# The routers

A schedule cannot compute the arguments of the workflow that it starts, so two routers do it
at fire time: they read `workflow.Now`, which is in UTC, count back from it and start the
workflow proper as a child.
-/

namespace GitScale.Billing

/-- What a router asks for with `ExecuteChildWorkflow`. -/
structure ChildWorkflow (Input : Type) where
  workflowID : String
  input : Input
  deriving DecidableEq, Repr

/-! ## The month to archive -/

/-- `ArchiveInput`. -/
structure ArchiveInput where
  runTime : Time
  year : Int
  month : Int
  deriving DecidableEq, Repr

/-- `ArchiveRouterWorkflow`. -/
def archiveRouterWorkflow (now : Time) : ChildWorkflow ArchiveInput :=
  let target := Go.addDate now 0 (-18) 0
  let year := (Go.dateOfTime target).year
  let month := (Go.dateOfTime target).month
  { workflowID :=
      "billing-archive-" ++ Go.zeroPadded 4 year ++ "-" ++ Go.zeroPadded 2 month
    input := ⟨now, year, month⟩ }

/-- `EnsureArchiveSchedule`. -/
def ensureArchiveSchedule (faults : ScheduleFaults) (live : Option ScheduleOptions) :
    Except String Unit × Option ScheduleOptions :=
  ensureSchedule faults {
    id := "billing-partition-archive"
    spec := {
      cronExpressions := ["0 14 24 * *"]
      timeZoneName := "UTC" }
    action := {
      id := "billing-partition-archive"
      workflow := "ArchiveRouterWorkflow"
      taskQueue := "billing-maintenance"
      args := [] } } live

/-- The child archives the month that is eighteen months before the month of `now`. -/
def ArchivesEighteenMonthsBack (now : Time) : Prop :=
  12 * (archiveRouterWorkflow now).input.year + (archiveRouterWorkflow now).input.month =
    12 * (Go.dateOfTime now).year + (Go.dateOfTime now).month - 18

instance (now : Time) : Decidable (ArchivesEighteenMonthsBack now) :=
  inferInstanceAs (Decidable (_ = _))

/-- The router is right on the days that the month eighteen months back has as well. -/
theorem archivesEighteenMonthsBack_iff (now : Time) :
    ArchivesEighteenMonthsBack now ↔
      (Go.dateOfTime now).day ≤
        Go.lengthOfMonth (12 * (Go.dateOfTime now).year + (Go.dateOfTime now).month - 18) :=
  Go.monthNumber_addDate_iff now (-18)

/-- The 31st of August 2025: the 31st of February 2024 is the 2nd of March. -/
theorem august_archives_march :
    ¬ ∀ now : Time, ArchivesEighteenMonthsBack now := by
  intro always
  have august := always (739493 * Go.nanosPerDay)
  exact absurd august (by decide)

/-- Every month has 28 days. -/
theorem archivesEighteenMonthsBack_of_le {now : Time} (early : (Go.dateOfTime now).day ≤ 28) :
    ArchivesEighteenMonthsBack now := by
  apply (Go.monthNumber_addDate_iff now (-18)).mpr
  exact le_trans early (Go.lengthOfMonth_bounds _).1

/-- A run that starts when the schedule fires is right. -/
theorem archivesEighteenMonthsBack_of_fires {faults : ScheduleFaults}
    {previous : Option ScheduleOptions} {live : ScheduleOptions}
    (registered : ensureArchiveSchedule faults previous = (.ok (), some live))
    {now : Time} (fires : live.fires now) : ArchivesEighteenMonthsBack now := by
  apply archivesEighteenMonthsBack_of_le
  rw [ScheduleOptions.fires, (ensureSchedule_ok registered).1] at fires
  have fields : "0 14 24 * *".toList.splitOn ' ' =
      [['0'], ['1', '4'], ['2', '4'], ['*'], ['*']] := by decide
  simp only [List.any_cons, List.any_nil, Bool.or_false, cronMatches, fields,
    Bool.and_eq_true] at fires
  have day : cronField ['2', '4'] (Go.dateOfTime now).day = true := fires.1.1.2
  have bounds : 1 ≤ (Go.dateOfTime now).day ∧ (Go.dateOfTime now).day ≤ 31 := Go.day_bounds _
  generalize (Go.dateOfTime now).day = value at day bounds ⊢
  by_contra late
  have last : value = 29 ∨ value = 30 ∨ value = 31 := by omega
  rcases last with rfl | rfl | rfl
  all_goals exact absurd day (by decide)

/-! ## The cutoff for destruction -/

/-- `DEKDestructionRetentionDays`. -/
def dekDestructionRetentionDays : Int := 365 * 7 + 30

/-- `DEKDestructionInput`. -/
structure DEKDestructionInput where
  runTime : Time
  cutoff : Time
  deriving DecidableEq, Repr

/-- `time.RFC3339` in UTC, for a year from zero on. -/
def rfc3339 (instant : Time) : String :=
  let date := Go.dateOfTime instant
  let seconds := instant % Go.nanosPerDay / 1000000000
  Go.zeroPadded 4 date.year ++ "-" ++ Go.zeroPadded 2 date.month ++ "-" ++
    Go.zeroPadded 2 date.day ++ "T" ++ Go.zeroPadded 2 (seconds / 3600) ++ ":" ++
    Go.zeroPadded 2 (seconds / 60 % 60) ++ ":" ++ Go.zeroPadded 2 (seconds % 60) ++ "Z"

/-- `DEKDestructionRouterWorkflow`. -/
def dekDestructionRouterWorkflow (now : Time) : ChildWorkflow DEKDestructionInput where
  workflowID := "billing-dek-destruction-" ++ rfc3339 now
  input := ⟨now, Go.addDate now 0 0 (-dekDestructionRetentionDays)⟩

/-- Seven calendar years and thirty days before an instant. -/
def retentionFloor (now : Time) : Time := Go.addDate now (-7) 0 (-30)

/-- The cutoff is not later than the floor, and whatever a run with this cutoff lists was
archived by then. -/
def KeepsRetention (now : Time) : Prop :=
  (dekDestructionRouterWorkflow now).input.cutoff ≤ retentionFloor now ∧
    ∀ (run : DestructionRun) (archives : List PartitionArchive),
      run.cutoff = (dekDestructionRouterWorkflow now).input.cutoff →
      ∀ row ∈ listed run archives, row.archivedAt ≤ retentionFloor now

/-- No 29th of February lies in the seven calendar years before the day of an instant. -/
def SevenYearsWithoutLeapDay (now : Time) : Prop :=
  ∀ year, Go.isLeap year = true →
    ¬ (Go.dateDays ((Go.dateOfTime now).year - 7) (Go.dateOfTime now).month
        (Go.dateOfTime now).day ≤ Go.leapDayOf year ∧
      Go.leapDayOf year < now / Go.nanosPerDay)

theorem archivedAt_lt_of_mem_listed {run : DestructionRun} {archives : List PartitionArchive}
    {row : PartitionArchive} (member : row ∈ listed run archives) :
    row.archivedAt < run.cutoff := by
  unfold listed at member
  split at member
  · cases member
  · rw [listPartitionArchivesArchivedBefore, List.mem_insertionSort, List.mem_filter] at member
    exact of_decide_eq_true member.2

theorem sevenYearsWithoutLeapDay_iff (now : Time) :
    SevenYearsWithoutLeapDay now ↔
      Go.leapYears (Go.marchYear (Go.dateOfTime now)) ≤
        Go.leapYears (Go.marchYear (Go.dateOfTime now) - 7) := by
  rw [Go.leapYears_le_iff (by omega)]
  apply forall_congr'
  intro year
  constructor
  · intro outside leap between
    exact outside leap ((Go.leapDay_in_sevenYears_iff _ leap).mpr between)
  · intro outside leap between
    exact outside leap ((Go.leapDay_in_sevenYears_iff _ leap).mp between)

/-- Such instants are rare: the next ones are those from the first of March 2103 to the 29th
of February 2104. -/
theorem sevenYearsWithoutLeapDay_iff_century (now : Time) :
    SevenYearsWithoutLeapDay now ↔
      Go.marchYear (Go.dateOfTime now) % 100 = 3 ∧
        Go.marchYear (Go.dateOfTime now) % 400 ≠ 3 := by
  rw [sevenYearsWithoutLeapDay_iff, Go.leapYears_le_iff (by omega), Go.sevenYears_common_iff]

theorem cutoff_le_retentionFloor_iff (now : Time) :
    (dekDestructionRouterWorkflow now).input.cutoff ≤ retentionFloor now ↔
      SevenYearsWithoutLeapDay now := by
  have floor : retentionFloor now =
      (now / Go.nanosPerDay - 365 * 7 - (Go.leapYears (Go.marchYear (Go.dateOfTime now)) -
        Go.leapYears (Go.marchYear (Go.dateOfTime now) - 7)) - 30) * Go.nanosPerDay +
        now % Go.nanosPerDay := by
    have back := Go.dateDays_years_back (now / Go.nanosPerDay) 7
    rw [Go.dateDays_eq, ← Go.dateOfTime] at back
    rw [retentionFloor, Go.addDate, Go.dateDays_eq]
    congr 2
    simp only [Int.add_zero, ← Int.sub_eq_add_neg]
    omega
  have cutoff : (dekDestructionRouterWorkflow now).input.cutoff =
      (now / Go.nanosPerDay + -dekDestructionRetentionDays) * Go.nanosPerDay +
        now % Go.nanosPerDay := Go.addDate_days _ _
  rw [sevenYearsWithoutLeapDay_iff, floor, cutoff, Int.add_le_add_iff_right,
    Int.mul_le_mul_iff_of_pos_right (by decide), dekDestructionRetentionDays]
  constructor
  · intro early
    omega
  · intro none
    omega

/-- The fixed number of days reaches the floor only over seven years without a leap day. -/
theorem keepsRetention_iff (now : Time) :
    KeepsRetention now ↔ SevenYearsWithoutLeapDay now := by
  rw [← cutoff_le_retentionFloor_iff]
  constructor
  · intro keeps
    exact keeps.1
  · intro early
    refine ⟨early, fun run archives same row member => ?_⟩
    have listed := archivedAt_lt_of_mem_listed member
    rw [same] at listed
    exact le_trans (le_of_lt listed) early

/-- The 24th of May 2026: the cutoff is the 26th of April 2019, two days after the floor. -/
def mayRun : Time := 739759 * Go.nanosPerDay

/-- An archive of the 25th of April 2019. -/
def youngArchive : PartitionArchive where
  id := UUID.nil
  year := 2017
  month := 10
  partitionName := "usage_events_2017_10"
  lakeURI := "s3://lake/2017/10"
  archivedAt := 737173 * Go.nanosPerDay
  version := 19
  version_pos := by decide
  version_fits := by decide

def mayListing : DestructionRun where
  cutoff := (dekDestructionRouterWorkflow mayRun).input.cutoff
  list := none
  resolve _ := true
  checkLegalHold _ := .ok ⟨false, ""⟩
  requestApproval _ := .ok ⟨true, ""⟩
  destroy _ := (⟨none, none, .ok⟩, [])
  emit _ := none

/-- The archive is eligible a day before it may be. -/
theorem may_lists_youngArchive :
    youngArchive ∈ listed mayListing [youngArchive] ∧
      retentionFloor mayRun < youngArchive.archivedAt ∧ ¬ ∀ now : Time, KeepsRetention now := by
  have eligible : youngArchive ∈ listed mayListing [youngArchive] := by decide
  have young : retentionFloor mayRun < youngArchive.archivedAt := by decide
  refine ⟨eligible, young, fun always => ?_⟩
  exact absurd ((always mayRun).2 mayListing [youngArchive] rfl youngArchive eligible)
    (not_le.mpr young)

end GitScale.Billing
