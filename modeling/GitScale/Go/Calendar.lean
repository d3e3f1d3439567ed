import GitScale.Basic

/-!
# Calendar dates

The proleptic Gregorian calendar of the `time` package, in UTC.  Day zero is the first of
January of year one, the zero value of `time.Time`.
-/

namespace GitScale.Go

/-- `isLeap`. -/
def isLeap (year : Int) : Bool :=
  decide (year % 4 = 0 ∧ (year % 100 ≠ 0 ∨ year % 400 = 0))

/-- The days that February has over 28. -/
def leapDay (year : Int) : Int := if isLeap year then 1 else 0

/-- The days before the first of January of a year. -/
def daysBeforeYear (year : Int) : Int :=
  365 * (year - 1) + (year - 1) / 4 - (year - 1) / 100 + (year - 1) / 400

/-- `daysBefore`: the days of a year before the first of a month. -/
def daysBeforeMonth (leap month : Int) : Int :=
  if month ≤ 1 then 0
  else if month = 2 then 31
  else if month = 3 then 59 + leap
  else if month = 4 then 90 + leap
  else if month = 5 then 120 + leap
  else if month = 6 then 151 + leap
  else if month = 7 then 181 + leap
  else if month = 8 then 212 + leap
  else if month = 9 then 243 + leap
  else if month = 10 then 273 + leap
  else if month = 11 then 304 + leap
  else if month = 12 then 334 + leap
  else 365 + leap

/-- The month of a day of the year, counted from zero. -/
def monthOfYearDay (leap day : Int) : Int :=
  if day < 31 then 1
  else if day < 59 + leap then 2
  else if day < 90 + leap then 3
  else if day < 120 + leap then 4
  else if day < 151 + leap then 5
  else if day < 181 + leap then 6
  else if day < 212 + leap then 7
  else if day < 243 + leap then 8
  else if day < 273 + leap then 9
  else if day < 304 + leap then 10
  else if day < 334 + leap then 11
  else 12

/-- A year and a day of it, counted from zero. -/
structure YearDay where
  year : Int
  day : Int
  deriving DecidableEq, Repr

/-- Cut off cycles of 400, 100, 4 and 1 years; the last of four centuries and of four years
is longer, hence the corrections by a quarter. -/
def yearDayOf (days : Int) : YearDay :=
  let cycles := days / 146097
  let days := days - 146097 * cycles
  let centuries := days / 36524 - days / 36524 / 4
  let days := days - 36524 * centuries
  let quads := days / 1461
  let days := days - 1461 * quads
  let years := days / 365 - days / 365 / 4
  ⟨400 * cycles + 100 * centuries + 4 * quads + years + 1, days - 365 * years⟩

/-- A calendar date. -/
structure Date where
  year : Int
  month : Int
  day : Int
  deriving DecidableEq, Repr

def dateOf (days : Int) : Date :=
  let yearDay := yearDayOf days
  let leap := leapDay yearDay.year
  let month := monthOfYearDay leap yearDay.day
  ⟨yearDay.year, month, yearDay.day - daysBeforeMonth leap month + 1⟩

/-- The number of the first day of a month. -/
def firstOfMonth (year month : Int) : Int :=
  daysBeforeYear year + daysBeforeMonth (leapDay year) month

/-- The month after a month. -/
def followingMonth (month : Int × Int) : Int × Int :=
  if month.2 < 12 then (month.1, month.2 + 1) else (month.1 + 1, 1)

example : dateOf 0 = ⟨1, 1, 1⟩ ∧ dateOf 739759 = ⟨2026, 5, 24⟩ ∧
    dateOf 737483 = ⟨2020, 2, 29⟩ ∧ dateOf (-1) = ⟨0, 12, 31⟩ := by
  decide

/-! ## What a date means -/

section Cycles

variable {cycles centuries quads years : Int}

theorem daysBeforeYear_cycles (century : 0 ≤ centuries ∧ centuries ≤ 3)
    (quad : 0 ≤ quads ∧ quads ≤ 24) (single : 0 ≤ years ∧ years ≤ 3) :
    daysBeforeYear (400 * cycles + 100 * centuries + 4 * quads + years + 1) =
      146097 * cycles + 36524 * centuries + 1461 * quads + 365 * years := by
  unfold daysBeforeYear
  omega

/-- The fourth year of four is a leap year, unless it ends one of the first three
centuries. -/
theorem leapDay_cycles (century : 0 ≤ centuries ∧ centuries ≤ 3)
    (quad : 0 ≤ quads ∧ quads ≤ 24) (single : 0 ≤ years ∧ years ≤ 3) :
    leapDay (400 * cycles + 100 * centuries + 4 * quads + years + 1) =
      if years = 3 ∧ (quads < 24 ∨ centuries = 3) then 1 else 0 := by
  unfold leapDay isLeap
  simp only [decide_eq_true_eq]
  congr 1
  apply propext
  omega

end Cycles

/-- The centuries of a cycle; the last one has a day more. -/
theorem centuries_spec {rest : Int} (inCycle : 0 ≤ rest ∧ rest < 146097) :
    0 ≤ rest / 36524 - rest / 36524 / 4 ∧ rest / 36524 - rest / 36524 / 4 ≤ 3 ∧
      0 ≤ rest - 36524 * (rest / 36524 - rest / 36524 / 4) ∧
      (rest - 36524 * (rest / 36524 - rest / 36524 / 4) < 36524 ∨
        rest / 36524 - rest / 36524 / 4 = 3 ∧
        rest - 36524 * (rest / 36524 - rest / 36524 / 4) = 36524) := by
  have bounds : 0 ≤ rest / 36524 ∧ rest / 36524 ≤ 4 := by omega
  generalize quotient : rest / 36524 = centuries at *
  have cases : centuries = 0 ∨ centuries = 1 ∨ centuries = 2 ∨ centuries = 3 ∨
      centuries = 4 := by omega
  rcases cases with rfl | rfl | rfl | rfl | rfl
  all_goals omega

/-- The years of four; the last one may have a day more. -/
theorem years_spec {rest : Int} (inQuad : 0 ≤ rest ∧ rest < 1461) :
    0 ≤ rest / 365 - rest / 365 / 4 ∧ rest / 365 - rest / 365 / 4 ≤ 3 ∧
      0 ≤ rest - 365 * (rest / 365 - rest / 365 / 4) ∧
      (rest - 365 * (rest / 365 - rest / 365 / 4) < 365 ∨
        rest / 365 - rest / 365 / 4 = 3 ∧ rest = 1460) := by
  have bounds : 0 ≤ rest / 365 ∧ rest / 365 ≤ 4 := by omega
  generalize quotient : rest / 365 = years at *
  have cases : years = 0 ∨ years = 1 ∨ years = 2 ∨ years = 3 ∨ years = 4 := by omega
  rcases cases with rfl | rfl | rfl | rfl | rfl
  all_goals omega

theorem yearDayOf_spec (days : Int) :
    daysBeforeYear (yearDayOf days).year + (yearDayOf days).day = days ∧
      0 ≤ (yearDayOf days).day ∧
      (yearDayOf days).day < 365 + leapDay (yearDayOf days).year := by
  simp only [yearDayOf]
  have inCycle : 0 ≤ days - 146097 * (days / 146097) ∧
      days - 146097 * (days / 146097) < 146097 := by omega
  rcases centuries_spec inCycle with ⟨low, high, positive, inCentury⟩
  generalize days / 146097 = cycles at *
  generalize (days - 146097 * cycles) / 36524 - (days - 146097 * cycles) / 36524 / 4 =
    centuries at *
  have inQuad : 0 ≤ (days - 146097 * cycles - 36524 * centuries) / 1461 ∧
      (days - 146097 * cycles - 36524 * centuries) / 1461 ≤ 24 := by omega
  generalize quotient : (days - 146097 * cycles - 36524 * centuries) / 1461 = quads at *
  have short : 0 ≤ days - 146097 * cycles - 36524 * centuries - 1461 * quads ∧
      days - 146097 * cycles - 36524 * centuries - 1461 * quads < 1461 := by omega
  rcases years_spec short with ⟨low', high', positive', inYear⟩
  generalize (days - 146097 * cycles - 36524 * centuries - 1461 * quads) / 365 -
    (days - 146097 * cycles - 36524 * centuries - 1461 * quads) / 365 / 4 = years at *
  rw [daysBeforeYear_cycles ⟨low, high⟩ inQuad ⟨low', high'⟩,
    leapDay_cycles ⟨low, high⟩ inQuad ⟨low', high'⟩]
  refine ⟨by omega, by omega, ?_⟩
  split
  all_goals omega

/-- The table of `daysBeforeMonth`. -/
theorem daysBeforeMonth_table (leap : Int) :
    daysBeforeMonth leap 1 = 0 ∧ daysBeforeMonth leap 2 = 31 ∧
      daysBeforeMonth leap 3 = 59 + leap ∧ daysBeforeMonth leap 4 = 90 + leap ∧
      daysBeforeMonth leap 5 = 120 + leap ∧ daysBeforeMonth leap 6 = 151 + leap ∧
      daysBeforeMonth leap 7 = 181 + leap ∧ daysBeforeMonth leap 8 = 212 + leap ∧
      daysBeforeMonth leap 9 = 243 + leap ∧ daysBeforeMonth leap 10 = 273 + leap ∧
      daysBeforeMonth leap 11 = 304 + leap ∧ daysBeforeMonth leap 12 = 334 + leap ∧
      daysBeforeMonth leap 13 = 365 + leap :=
  ⟨rfl, rfl, rfl, rfl, rfl, rfl, rfl, rfl, rfl, rfl, rfl, rfl, rfl⟩

theorem leapDay_bounds (year : Int) : 0 ≤ leapDay year ∧ leapDay year ≤ 1 := by
  unfold leapDay
  split
  all_goals omega

/-- A month has 28 to 31 days. -/
theorem daysBeforeMonth_succ {leap month : Int} (leaps : 0 ≤ leap ∧ leap ≤ 1)
    (inYear : 1 ≤ month ∧ month ≤ 12) :
    daysBeforeMonth leap month + 28 ≤ daysBeforeMonth leap (month + 1) ∧
      daysBeforeMonth leap (month + 1) ≤ daysBeforeMonth leap month + 31 := by
  have months : month = 1 ∨ month = 2 ∨ month = 3 ∨ month = 4 ∨ month = 5 ∨ month = 6 ∨
      month = 7 ∨ month = 8 ∨ month = 9 ∨ month = 10 ∨ month = 11 ∨ month = 12 := by omega
  rcases months with rfl | rfl | rfl | rfl | rfl | rfl | rfl | rfl | rfl | rfl | rfl | rfl
  all_goals simp only [Int.reduceAdd, daysBeforeMonth_table leap]
  all_goals omega

/-- A month of the year that begins before the day and ends after it. -/
structure InMonth (leap day month : Int) : Prop where
  low : 1 ≤ month
  high : month ≤ 12
  begun : daysBeforeMonth leap month ≤ day
  ends : day < daysBeforeMonth leap (month + 1)

theorem monthOfYearDay_spec {leap day : Int} (first : 0 ≤ day)
    (last : day < 365 + leap) : InMonth leap day (monthOfYearDay leap day) := by
  unfold monthOfYearDay
  repeat' refine iteInduction (motive := InMonth leap day) (fun _ => ?_) fun _ => ?_
  all_goals refine ⟨by decide, by decide, ?_, ?_⟩
  all_goals simp only [daysBeforeMonth_table leap, Int.reduceAdd]
  all_goals omega

/-- A year after which another begins. -/
theorem daysBeforeYear_succ (year : Int) :
    daysBeforeYear (year + 1) = daysBeforeYear year + 365 + leapDay year := by
  unfold daysBeforeYear leapDay isLeap
  split
  all_goals rename_i leap
  all_goals simp only [decide_eq_true_eq] at leap
  all_goals omega

theorem firstOfMonth_following {year month : Int} (inYear : 1 ≤ month ∧ month ≤ 12) :
    firstOfMonth (followingMonth (year, month)).1 (followingMonth (year, month)).2 =
      daysBeforeYear year + daysBeforeMonth (leapDay year) (month + 1) := by
  unfold followingMonth
  simp only
  split
  · rfl
  · have december : month = 12 := by omega
    rcases daysBeforeMonth_table (leapDay (year + 1)) with ⟨january, -⟩
    rcases daysBeforeMonth_table (leapDay year) with
      ⟨-, -, -, -, -, -, -, -, -, -, -, -, afterDecember⟩
    simp only [december, firstOfMonth, daysBeforeYear_succ, january, Int.reduceAdd,
      afterDecember]
    omega

/-- A day lies between the first of its month and the first of the month after. -/
theorem dateOf_spec (days : Int) :
    (1 ≤ (dateOf days).month ∧ (dateOf days).month ≤ 12) ∧
      firstOfMonth (dateOf days).year (dateOf days).month + ((dateOf days).day - 1) = days ∧
      1 ≤ (dateOf days).day ∧
      days < firstOfMonth (followingMonth ((dateOf days).year, (dateOf days).month)).1
        (followingMonth ((dateOf days).year, (dateOf days).month)).2 := by
  rcases yearDayOf_spec days with ⟨counted, first, last⟩
  rcases monthOfYearDay_spec first last with ⟨low, high, begun, ends⟩
  have inYear : 1 ≤ (dateOf days).month ∧ (dateOf days).month ≤ 12 := ⟨low, high⟩
  refine ⟨inYear, ?_, ?_, ?_⟩
  · simp only [dateOf, firstOfMonth]
    omega
  · simp only [dateOf]
    omega
  · rw [firstOfMonth_following inYear]
    simp only [dateOf]
    omega

/-! ## Instants -/

def nanosPerDay : Int := 86400 * 1000000000

/-- The date of an instant, in UTC. -/
def dateOfTime (instant : Time) : Date := dateOf (instant / nanosPerDay)

/-- The year and the month of an instant. -/
def monthOf (instant : Time) : Int × Int :=
  ((dateOfTime instant).year, (dateOfTime instant).month)

end GitScale.Go
