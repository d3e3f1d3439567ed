import GitScale.Go.Calendar

/-!
# Date arithmetic

`time.Date` accepts months and days outside their range and carries them over into the next
year and the next month.  `AddDate` adds to the fields of a date and leaves the carrying to
`time.Date`.
-/

namespace GitScale.Go

/-- Months counted through the years. -/
def monthNumber (date : Date) : Int := 12 * date.year + date.month

/-- The first day of a month that is given by its number. -/
def firstOfMonthNumber (number : Int) : Int :=
  firstOfMonth ((number - 1) / 12) ((number - 1) % 12 + 1)

/-- The days of a month that is given by its number. -/
def lengthOfMonth (number : Int) : Int :=
  firstOfMonthNumber (number + 1) - firstOfMonthNumber number

/-- `time.Date`, as a number of days: `norm` brings the month into its year. -/
def dateDays (year month day : Int) : Int :=
  firstOfMonth (year + (month - 1) / 12) ((month - 1) % 12 + 1) + (day - 1)

/-- `time.Time.AddDate` in UTC. -/
def addDate (instant : Time) (years months days : Int) : Time :=
  let date := dateOfTime instant
  dateDays (date.year + years) (date.month + months) (date.day + days) * nanosPerDay +
    instant % nanosPerDay

/-- The last day of February of 2023 is the 28th, so that the 31st runs over by three days. -/
example : dateOf (dateDays 2023 2 31) = ⟨2023, 3, 3⟩ ∧ dateOf (dateDays 2025 (-10) 24) =
    ⟨2024, 2, 24⟩ := by
  decide

/-! ## Months -/

theorem dateDays_eq (year month day : Int) :
    dateDays year month day = firstOfMonthNumber (12 * year + month) + (day - 1) := by
  have sameYear : (12 * year + month - 1) / 12 = year + (month - 1) / 12 := by omega
  have sameMonth : (12 * year + month - 1) % 12 = (month - 1) % 12 := by omega
  rw [dateDays, firstOfMonthNumber, sameYear, sameMonth]

theorem firstOfMonthNumber_succ (number : Int) :
    firstOfMonthNumber (number + 1) =
      daysBeforeYear ((number - 1) / 12) +
        daysBeforeMonth (leapDay ((number - 1) / 12)) ((number - 1) % 12 + 1 + 1) := by
  rw [← firstOfMonth_following (by omega), firstOfMonthNumber]
  unfold followingMonth
  simp only
  split
  · have sameYear : (number + 1 - 1) / 12 = (number - 1) / 12 := by omega
    have nextMonth : (number + 1 - 1) % 12 + 1 = (number - 1) % 12 + 1 + 1 := by omega
    rw [sameYear, nextMonth]
  · have nextYear : (number + 1 - 1) / 12 = (number - 1) / 12 + 1 := by omega
    have january : (number + 1 - 1) % 12 + 1 = 1 := by omega
    rw [nextYear, january]

theorem lengthOfMonth_bounds (number : Int) :
    28 ≤ lengthOfMonth number ∧ lengthOfMonth number ≤ 31 := by
  rw [lengthOfMonth, firstOfMonthNumber_succ, firstOfMonthNumber, firstOfMonth]
  have bounds := daysBeforeMonth_succ (leapDay_bounds ((number - 1) / 12))
    (show 1 ≤ (number - 1) % 12 + 1 ∧ (number - 1) % 12 + 1 ≤ 12 by omega)
  omega

theorem firstOfMonthNumber_mono {number later : Int} (ordered : number ≤ later) :
    firstOfMonthNumber number ≤ firstOfMonthNumber later := by
  induction later, ordered using Int.leInduction with
  | base => exact le_refl _
  | succ later _ inductionHypothesis =>
      have step := (lengthOfMonth_bounds later).1
      rw [lengthOfMonth] at step
      omega

theorem firstOfMonthNumber_monthNumber {year month : Int} (inYear : 1 ≤ month ∧ month ≤ 12) :
    firstOfMonthNumber (12 * year + month) = firstOfMonth year month := by
  have sameYear : (12 * year + month - 1) / 12 = year := by omega
  have sameMonth : (12 * year + month - 1) % 12 + 1 = month := by omega
  rw [firstOfMonthNumber, sameYear, sameMonth]

/-- A date in terms of the number of its month. -/
theorem dateOf_monthNumber (days : Int) :
    firstOfMonthNumber (monthNumber (dateOf days)) + ((dateOf days).day - 1) = days ∧
      1 ≤ (dateOf days).day ∧
      days < firstOfMonthNumber (monthNumber (dateOf days) + 1) := by
  rcases dateOf_spec days with ⟨inYear, counted, positive, ends⟩
  have following : firstOfMonthNumber (monthNumber (dateOf days) + 1) =
      firstOfMonth (followingMonth ((dateOf days).year, (dateOf days).month)).1
        (followingMonth ((dateOf days).year, (dateOf days).month)).2 := by
    rw [firstOfMonth_following inYear, firstOfMonthNumber_succ, monthNumber]
    have sameYear : (12 * (dateOf days).year + (dateOf days).month - 1) / 12 =
        (dateOf days).year := by omega
    have sameMonth : (12 * (dateOf days).year + (dateOf days).month - 1) % 12 + 1 =
        (dateOf days).month := by omega
    rw [sameYear, sameMonth]
  rw [following, monthNumber, firstOfMonthNumber_monthNumber inYear]
  exact ⟨counted, positive, ends⟩

theorem day_bounds (days : Int) : 1 ≤ (dateOf days).day ∧ (dateOf days).day ≤ 31 := by
  rcases dateOf_monthNumber days with ⟨counted, positive, ends⟩
  have atMost := (lengthOfMonth_bounds (monthNumber (dateOf days))).2
  rw [lengthOfMonth] at atMost
  omega

/-- The months divide the days: a day belongs to exactly one month. -/
theorem monthNumber_dateOf_eq_iff (days number : Int) :
    monthNumber (dateOf days) = number ↔
      firstOfMonthNumber number ≤ days ∧ days < firstOfMonthNumber (number + 1) := by
  rcases dateOf_monthNumber days with ⟨counted, positive, ends⟩
  constructor
  · intro same
    rw [same] at counted ends
    omega
  · intro bounds
    by_contra different
    rcases lt_or_gt_of_ne different with before | after
    · have ordered := firstOfMonthNumber_mono (show monthNumber (dateOf days) + 1 ≤ number by omega)
      omega
    · have ordered := firstOfMonthNumber_mono (show number + 1 ≤ monthNumber (dateOf days) by omega)
      omega

/-! ## Adding -/

theorem dateOfTime_days (days : Int) {nanos : Int} (within : 0 ≤ nanos ∧ nanos < nanosPerDay) :
    dateOfTime (days * nanosPerDay + nanos) = dateOf days := by
  have cut : (days * nanosPerDay + nanos) / nanosPerDay = days := by
    unfold nanosPerDay at within ⊢
    omega
  rw [dateOfTime, cut]

theorem dateOfTime_addDate (instant : Time) (years months days : Int) :
    dateOfTime (addDate instant years months days) =
      dateOf (firstOfMonthNumber (monthNumber (dateOfTime instant) + 12 * years + months) +
        ((dateOfTime instant).day + days - 1)) := by
  have within : 0 ≤ instant % nanosPerDay ∧ instant % nanosPerDay < nanosPerDay :=
    ⟨Int.emod_nonneg _ (by decide), Int.emod_lt_of_pos _ (by decide)⟩
  have sameMonth : 12 * ((dateOfTime instant).year + years) +
      ((dateOfTime instant).month + months) =
      monthNumber (dateOfTime instant) + 12 * years + months := by
    unfold monthNumber
    omega
  rw [addDate, dateOfTime_days _ within, dateDays_eq, sameMonth]

/-- Going by months stays in the month that it aims at as long as that month has the day. -/
theorem monthNumber_addDate_iff (instant : Time) (months : Int) :
    monthNumber (dateOfTime (addDate instant 0 months 0)) =
        monthNumber (dateOfTime instant) + months ↔
      (dateOfTime instant).day ≤ lengthOfMonth (monthNumber (dateOfTime instant) + months) := by
  have positive : 1 ≤ (dateOfTime instant).day := (dateOf_monthNumber _).2.1
  rw [dateOfTime_addDate, monthNumber_dateOf_eq_iff, lengthOfMonth]
  simp only [Int.mul_zero, Int.add_zero]
  constructor
  · intro bounds
    omega
  · intro exists_day
    omega

/-- Going by days moves the day of the instant by as many. -/
theorem addDate_days (instant : Time) (days : Int) :
    addDate instant 0 0 days =
      (instant / nanosPerDay + days) * nanosPerDay + instant % nanosPerDay := by
  have counted : firstOfMonthNumber (monthNumber (dateOfTime instant)) +
      ((dateOfTime instant).day - 1) = instant / nanosPerDay := (dateOf_monthNumber _).1
  have sameMonth : 12 * ((dateOfTime instant).year + 0) + ((dateOfTime instant).month + 0) =
      monthNumber (dateOfTime instant) := by
    unfold monthNumber
    omega
  have moved : firstOfMonthNumber (monthNumber (dateOfTime instant)) +
      ((dateOfTime instant).day + days - 1) = instant / nanosPerDay + days := by omega
  rw [addDate, dateDays_eq, sameMonth, moved]

/-! ## Leap days -/

/-- The 29th of February of a leap year. -/
def leapDayOf (year : Int) : Int := firstOfMonth year 2 + 28

/-- The leap years from year one to a year. -/
def leapYears (year : Int) : Int := year / 4 - year / 100 + year / 400

/-- The first of March comes after the leap day of its year. -/
def firstOfMarch (year : Int) : Int := firstOfMonthNumber (12 * year + 3)

/-- The year of the last first of March. -/
def marchYear (date : Date) : Int := if 3 ≤ date.month then date.year else date.year - 1

theorem leapYears_eq (year : Int) : leapYears year = leapYears (year - 1) + leapDay year := by
  unfold leapYears leapDay isLeap
  split
  all_goals rename_i leap
  all_goals simp only [decide_eq_true_eq] at leap
  all_goals omega

theorem leapYears_mono {year later : Int} (ordered : year ≤ later) :
    leapYears year ≤ leapYears later := by
  unfold leapYears
  omega

/-- The count stays the same over years that are no leap years. -/
theorem leapYears_le_iff {early late : Int} (ordered : early ≤ late) :
    leapYears late ≤ leapYears early ↔
      ∀ year, isLeap year = true → ¬ (early < year ∧ year ≤ late) := by
  constructor
  · intro same year leap between
    have inside : leapDay year = 1 := if_pos leap
    have counted := leapYears_eq year
    have before := leapYears_mono (show early ≤ year - 1 by omega)
    have after := leapYears_mono between.2
    omega
  · induction late, ordered using Int.leInduction with
    | base => exact fun _ => le_refl _
    | succ late _ inductionHypothesis =>
        intro noLeap
        have counted := leapYears_eq (late + 1)
        have common : leapDay (late + 1) = 0 :=
          if_neg fun leap => noLeap (late + 1) leap ⟨by omega, le_refl _⟩
        have before := inductionHypothesis fun year leap between =>
          noLeap year leap ⟨between.1, by omega⟩
        rw [show late + 1 - 1 = late by omega] at counted
        omega

/-- Seven years without a leap day end in the third year of a century whose first year is
no leap year. -/
theorem sevenYears_common_iff (march : Int) :
    (∀ year, isLeap year = true → ¬ (march - 7 < year ∧ year ≤ march)) ↔
      march % 100 = 3 ∧ march % 400 ≠ 3 := by
  simp only [isLeap, decide_eq_true_eq]
  constructor
  · intro noLeap
    have last := noLeap (march - march % 4)
    have lastButOne := noLeap (march - march % 4 - 4)
    omega
  · intro century year leap between
    omega

theorem daysBeforeYear_eq (year : Int) :
    daysBeforeYear year = 365 * (year - 1) + leapYears (year - 1) := by
  unfold daysBeforeYear leapYears
  omega

theorem daysBeforeMonth_leap (leap : Int) {month : Int} (inYear : 1 ≤ month ∧ month ≤ 12) :
    daysBeforeMonth leap month = daysBeforeMonth 0 month + if 3 ≤ month then leap else 0 := by
  have months : month = 1 ∨ month = 2 ∨ month = 3 ∨ month = 4 ∨ month = 5 ∨ month = 6 ∨
      month = 7 ∨ month = 8 ∨ month = 9 ∨ month = 10 ∨ month = 11 ∨ month = 12 := by omega
  rcases months with rfl | rfl | rfl | rfl | rfl | rfl | rfl | rfl | rfl | rfl | rfl | rfl
  all_goals simp only [daysBeforeMonth_table, Int.reduceLE, if_true, if_false]
  all_goals omega

theorem firstOfMarch_eq (year : Int) : firstOfMarch year = 365 * year + leapYears year - 306 := by
  rw [firstOfMarch, firstOfMonthNumber_monthNumber (by omega), firstOfMonth, daysBeforeYear_eq,
    (daysBeforeMonth_table _).2.2.1, leapYears_eq year]
  omega

theorem leapDayOf_eq {year : Int} (leap : isLeap year = true) :
    leapDayOf year = firstOfMarch year - 1 := by
  have february : leapDay year = 1 := if_pos leap
  rw [firstOfMarch_eq, leapDayOf, firstOfMonth, daysBeforeYear_eq,
    (daysBeforeMonth_table _).2.1, leapYears_eq year]
  omega

theorem firstOfMarch_mono {year later : Int} (ordered : year ≤ later) :
    firstOfMarch year ≤ firstOfMarch later :=
  firstOfMonthNumber_mono (by omega)

/-- A day lies between two firsts of March. -/
theorem firstOfMarch_marchYear (days : Int) :
    firstOfMarch (marchYear (dateOf days)) ≤ days ∧
      days < firstOfMarch (marchYear (dateOf days) + 1) := by
  rcases dateOf_monthNumber days with ⟨counted, positive, ends⟩
  rcases dateOf_spec days with ⟨inYear, -⟩
  have months : 12 * marchYear (dateOf days) + 3 ≤ monthNumber (dateOf days) ∧
      monthNumber (dateOf days) + 1 ≤ 12 * (marchYear (dateOf days) + 1) + 3 := by
    unfold marchYear monthNumber
    split
    all_goals omega
  have begun := firstOfMonthNumber_mono months.1
  have notEnded := firstOfMonthNumber_mono months.2
  exact ⟨by unfold firstOfMarch; omega, by unfold firstOfMarch; omega⟩

/-- As many years back, the same date is 365 days earlier for each of them and one more for
each leap day on the way. -/
theorem dateDays_years_back (days years : Int) :
    dateDays ((dateOf days).year - years) (dateOf days).month (dateOf days).day =
      days - 365 * years - (leapYears (marchYear (dateOf days)) -
        leapYears (marchYear (dateOf days) - years)) := by
  rcases dateOf_spec days with ⟨inYear, counted, -⟩
  have shift : ∀ year, firstOfMonth year (dateOf days).month = 365 * (year - 1) +
      leapYears (if 3 ≤ (dateOf days).month then year else year - 1) +
      daysBeforeMonth 0 (dateOf days).month := by
    intro year
    rw [firstOfMonth, daysBeforeYear_eq, daysBeforeMonth_leap _ inYear]
    split
    · rw [leapYears_eq year]
      omega
    · omega
  rw [dateDays_eq, firstOfMonthNumber_monthNumber inYear, shift]
  rw [shift] at counted
  have back : marchYear (dateOf days) - years =
      if 3 ≤ (dateOf days).month then (dateOf days).year - years
      else (dateOf days).year - years - 1 := by
    unfold marchYear
    split
    all_goals omega
  rw [back]
  unfold marchYear
  omega

/-- The leap days of the seven years before a day. -/
theorem leapDay_in_sevenYears_iff (days : Int) {year : Int} (leap : isLeap year = true) :
    dateDays ((dateOf days).year - 7) (dateOf days).month (dateOf days).day ≤ leapDayOf year ∧
        leapDayOf year < days ↔
      marchYear (dateOf days) - 7 < year ∧ year ≤ marchYear (dateOf days) := by
  rcases firstOfMarch_marchYear days with ⟨begun, notEnded⟩
  rw [dateDays_years_back, leapDayOf_eq leap]
  generalize marchYear (dateOf days) = march at *
  have back := firstOfMarch_eq (march - 7)
  have here := firstOfMarch_eq march
  constructor
  · rintro ⟨after, before⟩
    refine ⟨lt_of_not_ge fun early => ?_, le_of_not_gt fun late => ?_⟩
    · have ordered := firstOfMarch_mono early
      omega
    · have ordered := firstOfMarch_mono (show march + 1 ≤ year by omega)
      omega
  · rintro ⟨after, before⟩
    have ordered := firstOfMarch_mono before
    have following := firstOfMarch_eq (march + 1)
    have followingLeap := leapYears_eq (march + 1)
    have atMost := (leapDay_bounds (march + 1)).2
    have oldest := firstOfMarch_eq (march - 6)
    have oldestLeap := leapYears_eq (march - 6)
    rw [show march + 1 - 1 = march by omega] at followingLeap
    rw [show march - 6 - 1 = march - 7 by omega] at oldestLeap
    rcases eq_or_lt_of_le (show march - 6 ≤ year by omega) with rfl | later
    · have inFirst : leapDay (march - 6) = 1 := if_pos leap
      omega
    · have none := (leapDay_bounds (march - 6)).1
      have ordered := firstOfMarch_mono (show march - 5 ≤ year by omega)
      have second := firstOfMarch_eq (march - 5)
      have secondLeap := leapYears_eq (march - 5)
      have noneSecond := (leapDay_bounds (march - 5)).1
      rw [show march - 5 - 1 = march - 6 by omega] at secondLeap
      omega

end GitScale.Go
