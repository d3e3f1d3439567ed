import GitScale.Go.Calendar
import GitScale.Go.Strconv

/-!
# Partition rollover

A schedule starts `PartitionRolloverWorkflow` once a month, so that the partition of the
following month exists in time.  The workflow counts from the `RunTime` of its input, and
the input comes from the arguments of the schedule's action.
-/

namespace GitScale.Billing

/-! ## The partitioner -/

/-- What `CreateUsageEventsPartition` asks the database for. -/
structure PartitionTable where
  name : String
  startDate : String
  endDate : String
  deriving DecidableEq, Repr

/-- `fmt.Sprintf("%04d-%02d-01", year, month)`. -/
def firstOf (month : Int × Int) : String :=
  Go.zeroPadded 4 month.1 ++ "-" ++ Go.zeroPadded 2 month.2 ++ "-01"

/-- The checks and the names of `CreateUsageEventsPartition`. -/
def partitionTable (year month : Int) : Except String PartitionTable :=
  if year < 2026 ∨ 2099 < year then
    .error ("billing.CreateUsageEventsPartition: year " ++ toString year ++
      " out of supported range")
  else if month < 1 ∨ 12 < month then
    .error ("billing.CreateUsageEventsPartition: month " ++ toString month ++ " out of range")
  else
    let next := if 12 < month + 1 then (year + 1, 1) else (year, month + 1)
    .ok {
      name := "usage_events_" ++ Go.zeroPadded 4 year ++ "_" ++ Go.zeroPadded 2 month
      startDate := firstOf (year, month)
      endDate := firstOf next }

/-- The errors of the statements of one attempt; a failed commit may have taken effect. -/
structure DatabaseFaults where
  begin : Option String
  advisoryLock : Option String
  probe : Option String
  create : Option String
  commit : Option (String × Bool)
  deriving DecidableEq, Repr

/-- `CREATE TABLE IF NOT EXISTS`. -/
def createIfNotExists (table : PartitionTable) (catalog : List PartitionTable) :
    List PartitionTable :=
  if table.name ∈ catalog.map PartitionTable.name then catalog else catalog ++ [table]

/-- `CreateUsageEventsPartition`.  The lock only makes attempts wait for each other. -/
def createUsageEventsPartition (faults : DatabaseFaults) (year month : Int)
    (catalog : List PartitionTable) : Except String Bool × List PartitionTable :=
  match partitionTable year month with
  | .error message => (.error message, catalog)
  | .ok table =>
      match faults.begin, faults.advisoryLock, faults.probe, faults.create, faults.commit with
      | some message, _, _, _, _ => (.error ("billing: begin: " ++ message), catalog)
      | none, some message, _, _, _ =>
          (.error ("billing: advisory_lock: " ++ message), catalog)
      | none, none, some message, _, _ =>
          (.error ("billing: probe pg_class: " ++ message), catalog)
      | none, none, none, some message, _ =>
          (.error ("billing: create partition " ++ table.name ++ ": " ++ message), catalog)
      | none, none, none, none, some (message, applied) =>
          (.error ("billing: commit: " ++ message),
            if applied then createIfNotExists table catalog else catalog)
      | none, none, none, none, none =>
          (.ok (table.name ∉ catalog.map PartitionTable.name),
            createIfNotExists table catalog)

/-! ## The workflow -/

/-- `CreatePartitionInput`. -/
structure CreatePartitionInput where
  year : Int
  month : Int
  deriving DecidableEq, Repr

/-- `CreatePartitionResult`. -/
structure CreatePartitionResult where
  partitionName : String
  created : Bool
  deriving DecidableEq, Repr

/-- `CreatePartitionActivity.Execute`. -/
def createPartition (faults : DatabaseFaults) (input : CreatePartitionInput)
    (catalog : List PartitionTable) :
    Except String CreatePartitionResult × List PartitionTable :=
  match createUsageEventsPartition faults input.year input.month catalog with
  | (.error message, catalog) => (.error message, catalog)
  | (.ok created, catalog) =>
      (.ok ⟨"billing.usage_events_" ++ Go.zeroPadded 4 input.year ++ "_" ++
        Go.zeroPadded 2 input.month, created⟩, catalog)

/-- A workflow run: what it asked the partitioner for, in order, and how it ended. -/
structure RolloverRun where
  requests : List CreatePartitionInput
  result : Except String CreatePartitionResult
  catalog : List PartitionTable

/-- An activity is attempted until it succeeds or the attempts are used up. -/
def attempt (input : CreatePartitionInput) (faults : Nat → DatabaseFaults) :
    Nat → List PartitionTable → RolloverRun
  | 0, catalog =>
      let outcome := createPartition (faults 0) input catalog
      ⟨[input], outcome.1, outcome.2⟩
  | retries + 1, catalog =>
      match createPartition (faults (retries + 1)) input catalog with
      | (.ok result, catalog) => ⟨[input], .ok result, catalog⟩
      | (.error _, catalog) =>
          let rest := attempt input faults retries catalog
          { rest with requests := input :: rest.requests }

/-- `PartitionRolloverInput`. -/
structure PartitionRolloverInput where
  runTime : Time
  deriving DecidableEq, Repr

/-- `nextMonthFrom`. -/
def nextMonthFrom (instant : Time) : Int × Int :=
  let (year, month) := Go.monthOf instant
  if 12 < month + 1 then (year + 1, 1) else (year, month + 1)

/-- `PartitionRolloverWorkflow`. -/
def partitionRolloverWorkflow (faults : Nat → DatabaseFaults) (input : PartitionRolloverInput)
    (catalog : List PartitionTable) : RolloverRun :=
  let (year, month) := nextMonthFrom input.runTime
  attempt ⟨year, month⟩ faults maximumRetries catalog

/-! ## The schedule -/

/-- `ScheduleWorkflowAction` for a workflow with one argument. -/
structure ScheduleWorkflowAction where
  id : String
  workflow : String
  taskQueue : String
  args : List PartitionRolloverInput
  deriving DecidableEq, Repr

/-- `ScheduleSpec`. -/
structure ScheduleSpec where
  cronExpressions : List String
  timeZoneName : String
  deriving DecidableEq, Repr

/-- `ScheduleOptions`. -/
structure ScheduleOptions where
  id : String
  spec : ScheduleSpec
  action : ScheduleWorkflowAction
  deriving DecidableEq, Repr

/-- The answers of the schedule service; `create` fails by itself on an existing
schedule. -/
structure ScheduleFaults where
  create : Option String
  update : Option String
  deriving DecidableEq, Repr

/-- `EnsureSchedule`: create the schedule, or give the existing one this spec and action. -/
def ensureSchedule (faults : ScheduleFaults) (options : ScheduleOptions)
    (live : Option ScheduleOptions) : Except String Unit × Option ScheduleOptions :=
  if options.id = "" then (.error "workflow: EnsureSchedule: opts.ID is required", live)
  else
    match faults.create, live with
    | some message, _ =>
        (.error ("workflow: EnsureSchedule: create " ++ options.id ++ ": " ++ message), live)
    | none, none => (.ok (), some options)
    | none, some existing =>
        match faults.update with
        | some message =>
            (.error ("workflow: EnsureSchedule: update " ++ options.id ++ ": " ++ message),
              live)
        | none =>
            (.ok (), some { existing with spec := options.spec, action := options.action })

/-- `EnsureRolloverSchedule`. -/
def ensureRolloverSchedule (faults : ScheduleFaults) (live : Option ScheduleOptions) :
    Except String Unit × Option ScheduleOptions :=
  ensureSchedule faults {
    id := "billing-partition-rollover"
    spec := {
      cronExpressions := ["0 12 24 * *"]
      timeZoneName := "UTC" }
    action := {
      id := "billing-partition-rollover"
      workflow := "PartitionRolloverWorkflow"
      taskQueue := "billing-maintenance"
      args := [] } } live

/-- A field of a cron expression admits a value. -/
def cronField (field : List Char) (value : Int) : Bool :=
  field = ['*'] || field = (toString value).toList

/-- The instants of a cron expression, to the minute; the first of January of year one is a
Monday. -/
def cronMatches (expression : String) (instant : Time) : Bool :=
  let days := instant / Go.nanosPerDay
  let seconds := instant % Go.nanosPerDay / 1000000000
  let date := Go.dateOf days
  match expression.toList.splitOn ' ' with
  | [minute, hour, day, month, weekday] =>
      instant % (60 * 1000000000) = 0 && cronField minute (seconds / 60 % 60) &&
        cronField hour (seconds / 3600) && cronField day date.day &&
        cronField month date.month && cronField weekday ((days + 1) % 7)
  | _ => false

/-- The schedule fires at this instant. -/
def ScheduleOptions.fires (options : ScheduleOptions) (instant : Time) : Bool :=
  options.spec.cronExpressions.any fun expression => cronMatches expression instant

/-- The run that a fire of the schedule starts.  A missing argument is the zero value. -/
def ScheduleOptions.start (options : ScheduleOptions) (faults : Nat → DatabaseFaults)
    (catalog : List PartitionTable) : RolloverRun :=
  partitionRolloverWorkflow faults (options.action.args.headD ⟨0⟩) catalog

/-! ## What a fire has to do -/

/-- The run asks for the month after the month of the instant, and for nothing else; the
range goes from the first of that month to the first of the next. -/
def RollsOver (instant : Time) (run : RolloverRun) : Prop :=
  let month := Go.followingMonth (Go.monthOf instant)
  run.requests ≠ [] ∧ ∀ request ∈ run.requests,
    (request.year, request.month) = month ∧
    ∃ table, partitionTable request.year request.month = .ok table ∧
      table.startDate = firstOf month ∧ table.endDate = firstOf (Go.followingMonth month)

section Attempts

variable (input : CreatePartitionInput) (faults : Nat → DatabaseFaults)

/-- Every attempt asks for the same month. -/
theorem requests_attempt (retries : Nat) (catalog : List PartitionTable) :
    (attempt input faults retries catalog).requests ≠ [] ∧
      ∀ request ∈ (attempt input faults retries catalog).requests, request = input := by
  induction retries generalizing catalog with
  | zero => simp [attempt]
  | succ retries inductionHypothesis =>
      simp only [attempt]
      split
      · simp
      · rename_i message after _
        refine ⟨List.cons_ne_nil _ _, ?_⟩
        intro request member
        rcases List.mem_cons.mp member with equal | later
        · exact equal
        · exact (inductionHypothesis after).2 request later

/-- A month that is out of range fails every attempt and changes nothing. -/
theorem attempt_of_error {message : String}
    (refused : partitionTable input.year input.month = .error message) (retries : Nat)
    (catalog : List PartitionTable) :
    attempt input faults retries catalog =
      ⟨List.replicate (retries + 1) input, .error message, catalog⟩ := by
  have failed : ∀ faults, createPartition faults input catalog =
      (.error message, catalog) := by
    intro faults
    simp only [createPartition, createUsageEventsPartition, refused]
  induction retries with
  | zero =>
      simp only [attempt, failed]
      rfl
  | succ retries inductionHypothesis =>
      simp only [attempt, failed, inductionHypothesis]
      rfl

end Attempts

theorem nextMonthFrom_eq (instant : Time) :
    nextMonthFrom instant = Go.followingMonth (Go.monthOf instant) := by
  unfold nextMonthFrom Go.followingMonth
  simp only
  split
  · rename_i december
    rw [if_neg (by omega)]
  · rename_i earlier
    rw [if_pos (by omega)]

/-- The range of a month within the supported years. -/
theorem partitionTable_ok {year month : Int} (inRange : 2026 ≤ year ∧ year ≤ 2099)
    (inYear : 1 ≤ month ∧ month ≤ 12) :
    ∃ table, partitionTable year month = .ok table ∧
      table.startDate = firstOf (year, month) ∧
      table.endDate = firstOf (Go.followingMonth (year, month)) := by
  have next : (if 12 < month + 1 then (year + 1, 1) else (year, month + 1)) =
      Go.followingMonth (year, month) := by
    simp only [Go.followingMonth]
    split
    · rw [if_neg (by omega)]
    · rw [if_pos (by omega)]
  simp only [partitionTable, if_neg (show ¬ (year < 2026 ∨ 2099 < year) by omega),
    if_neg (show ¬ (month < 1 ∨ 12 < month) by omega), next]
  exact ⟨_, rfl, rfl, rfl⟩

/-- A run whose `RunTime` lies in the month of the fire does what it has to do. -/
theorem rollsOver_of_runTime {instant runTime : Time}
    (sameMonth : Go.monthOf runTime = Go.monthOf instant)
    (inRange : 2026 ≤ (Go.monthOf instant).1 ∧ (Go.monthOf instant).1 ≤ 2098)
    (faults : Nat → DatabaseFaults) (catalog : List PartitionTable) :
    RollsOver instant (partitionRolloverWorkflow faults ⟨runTime⟩ catalog) := by
  have dated := (Go.dateOf_spec (instant / Go.nanosPerDay)).1
  change 1 ≤ (Go.monthOf instant).2 ∧ (Go.monthOf instant).2 ≤ 12 at dated
  have supported : (2026 ≤ (Go.followingMonth (Go.monthOf instant)).1 ∧
      (Go.followingMonth (Go.monthOf instant)).1 ≤ 2099) ∧
      1 ≤ (Go.followingMonth (Go.monthOf instant)).2 ∧
      (Go.followingMonth (Go.monthOf instant)).2 ≤ 12 := by
    unfold Go.followingMonth
    split
    all_goals simp only
    all_goals omega
  simp only [RollsOver, partitionRolloverWorkflow, nextMonthFrom_eq, sameMonth]
  rcases requests_attempt ⟨_, _⟩ faults maximumRetries catalog with ⟨nonempty, same⟩
  refine ⟨nonempty, ?_⟩
  intro request member
  rw [same request member]
  exact ⟨rfl, partitionTable_ok supported.1 supported.2⟩

/-- A registered schedule has the spec and the action that were asked for. -/
theorem ensureSchedule_ok {faults : ScheduleFaults} {options live : ScheduleOptions}
    {previous : Option ScheduleOptions}
    (registered : ensureSchedule faults options previous = (.ok (), some live)) :
    live.spec = options.spec ∧ live.action = options.action := by
  unfold ensureSchedule at registered
  repeat' split at registered
  all_goals cases registered
  all_goals exact ⟨rfl, rfl⟩

/-- The run of every fire counts from the zero time: it asks for February of year one, all
attempts are refused and no partition is created. -/
theorem not_rollsOver_of_fires (scheduleFaults : ScheduleFaults)
    (previous : Option ScheduleOptions) (live : ScheduleOptions)
    (registered : ensureRolloverSchedule scheduleFaults previous = (.ok (), some live))
    (instant : Time) (_fires : live.fires instant)
    (inRange : 2026 ≤ (Go.monthOf instant).1 ∧ (Go.monthOf instant).1 ≤ 2098)
    (faults : Nat → DatabaseFaults) (catalog : List PartitionTable) :
    ¬ RollsOver instant (live.start faults catalog) ∧
      live.start faults catalog =
        ⟨List.replicate 5 ⟨1, 2⟩,
          .error "billing.CreateUsageEventsPartition: year 1 out of supported range",
          catalog⟩ := by
  have action := (ensureSchedule_ok registered).2
  have started : live.start faults catalog =
      ⟨List.replicate 5 ⟨1, 2⟩,
        .error "billing.CreateUsageEventsPartition: year 1 out of supported range",
        catalog⟩ := by
    simp only [ScheduleOptions.start, action]
    exact attempt_of_error ⟨1, 2⟩ faults (by decide) 4 catalog
  refine ⟨?_, started⟩
  rw [started]
  rintro ⟨-, asked⟩
  have year := congrArg Prod.fst (asked ⟨1, 2⟩ (by simp)).1
  simp only [Go.followingMonth] at year
  split at year
  all_goals simp only at year
  all_goals omega

/-- The 24th of May 2026 at noon. -/
def mayFire : Time := 739759 * Go.nanosPerDay + 12 * 3600 * 1000000000

def reachable (_ : Nat) : DatabaseFaults := ⟨none, none, none, none, none⟩

/-- The first registration, and a fire of it. -/
theorem not_rollsOver_of_fires_may :
    ∃ live, ensureRolloverSchedule ⟨none, none⟩ none = (.ok (), some live) ∧
      live.fires mayFire ∧ Go.monthOf mayFire = (2026, 5) ∧
      (live.start reachable []).requests = List.replicate 5 ⟨1, 2⟩ := by
  have fires : ScheduleOptions.fires ⟨"billing-partition-rollover", ⟨["0 12 24 * *"], "UTC"⟩,
      ⟨"billing-partition-rollover", "PartitionRolloverWorkflow", "billing-maintenance", []⟩⟩
      mayFire = true := by
    decide
  have started := not_rollsOver_of_fires ⟨none, none⟩ none _ rfl mayFire fires
    (by decide) reachable []
  refine ⟨_, rfl, fires, by decide, ?_⟩
  rw [started.2]

/-- Not every fire asks for the following month. -/
theorem may_asks_for_year_one :
    ¬ ∀ (scheduleFaults : ScheduleFaults) (previous : Option ScheduleOptions)
      (live : ScheduleOptions),
      ensureRolloverSchedule scheduleFaults previous = (.ok (), some live) →
      ∀ instant : Time, live.fires instant →
        2026 ≤ (Go.monthOf instant).1 ∧ (Go.monthOf instant).1 ≤ 2098 →
        ∀ (faults : Nat → DatabaseFaults) (catalog : List PartitionTable),
          RollsOver instant (live.start faults catalog) := by
  intro rolls
  rcases rolls ⟨none, none⟩ none _ rfl mayFire (by decide) (by decide)
    reachable [] with ⟨-, asked⟩
  have request := (asked ⟨1, 2⟩ (by decide)).1
  exact absurd request (by decide)

end GitScale.Billing
