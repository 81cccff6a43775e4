import DataQ.Foundations.Dates
import DataQ.Foundations.Text

/-! # The declared calendar

`services/seasonal.py`: the days of earlier years that a day is compared with, and the periods that
are declared for a check. A date is its ordinal. -/

namespace DataQ.Seasonal
open DataQ.Dates
set_option autoImplicit false

def periodHistoryYears : ℕ := 3

/-- `date.replace(year=…)`, which fails for 29 February of a year that has none. -/
def replaceYear (day : ℤ) (year : ℤ) : Option ℤ :=
  if monthOf day = 2 ∧ dayOf day = 29 ∧ isLeap year = false then none
  else some (ordinal year (monthOf day) (dayOf day))

/-- `matched_day`. -/
def matchedDay (weekly : Bool) (day : ℤ) (yearsBack : ℕ) : ℤ :=
  let year := yearOf day - yearsBack
  let target := (replaceYear day year).getD (ordinal year (monthOf day) 28)
  if weekly then target - weekday target
  else
    let shift := (weekday day - weekday target) % 7
    target + if shift > 3 then shift - 7 else shift

/-- A month and a day that some year has. -/
structure MonthDay where
  month : ℕ
  day : ℤ
  month_mem : 1 ≤ month ∧ month ≤ 12
  day_mem : 1 ≤ day ∧ day ≤ daysInMonth true month

/-- `month_day`. -/
def monthDay (year : ℤ) (d : MonthDay) : ℤ :=
  ordinal year d.month (min d.day (daysInMonth (isLeap year) d.month))

/-- `[start, end]`, both inclusive. -/
structure Occurrence where
  start : ℤ
  last : ℤ
  deriving DecidableEq

def Occurrence.contains (o : Occurrence) (day : ℤ) : Bool := o.start ≤ day && day ≤ o.last

inductive Kind
  | recurring (start last : MonthDay)
  | dated (occurrence : Occurrence) (series : Option Text)

structure DeclaredPeriod where
  id : ℕ
  name : Text
  kind : Kind

/-- A recurring range that crosses the year end. -/
def wraps (start last : MonthDay) : Bool :=
  last.month < start.month || (last.month = start.month && last.day < start.day)

/-- The occurrence of a recurring range that starts in `startYear`. -/
def occurrence (start last : MonthDay) (startYear : ℤ) : Occurrence :=
  ⟨monthDay startYear start, monthDay (if wraps start last then startYear + 1 else startYear) last⟩

/-- The occurrence that the day falls in, if any. -/
def DeclaredPeriod.containing (entry : DeclaredPeriod) (day : ℤ) : Option Occurrence :=
  match entry.kind with
  | .dated o _ => if o.contains day then some o else none
  | .recurring start last =>
    [yearOf day, yearOf day - 1].findSome? fun startYear =>
      if (occurrence start last startYear).contains day then some (occurrence start last startYear)
      else none

/-- The entries that are attached to a check. -/
abbrev Calendar := List DeclaredPeriod

/-- By start, then by name. -/
def startsBefore (a b : DeclaredPeriod × Occurrence) : Bool :=
  a.2.start < b.2.start || (a.2.start = b.2.start && lower a.1.name < lower b.1.name)

/-- `max`, which keeps the first of the greatest. -/
def latest : List (DeclaredPeriod × Occurrence) → Option (DeclaredPeriod × Occurrence)
  | [] => none
  | pair :: pairs =>
    some (pairs.foldl (fun best pair => if startsBefore best pair then pair else best) pair)

/-- `Calendar.inside`. -/
def Calendar.inside (calendar : Calendar) (day : ℤ) : Option (DeclaredPeriod × Occurrence) :=
  latest (calendar.filterMap fun entry => (entry.containing day).map fun o => (entry, o))

def DeclaredPeriod.series (entry : DeclaredPeriod) : Option Text :=
  match entry.kind with
  | .dated _ series => series
  | .recurring _ _ => none

/-- `Calendar.earlier_occurrences`, newest first. -/
def Calendar.earlierOccurrences (calendar : Calendar) (entry : DeclaredPeriod) (o : Occurrence) :
    List Occurrence :=
  match entry.kind with
  | .recurring start last =>
    (List.range' 1 periodHistoryYears).map fun yearsBack : ℕ =>
      occurrence start last (yearOf o.start - yearsBack)
  | .dated _ none => []
  | .dated _ (some series) =>
    let earlier := calendar.filterMap fun other =>
      match other.kind with
      | .dated o' series' =>
        if other.id ≠ entry.id ∧ lower (series'.getD []) = lower series ∧ o'.last < o.start then
          some o'
        else none
      | .recurring _ _ => none
    (earlier.mergeSort fun a b => b.start ≤ a.start).take periodHistoryYears

/-! ## A match is earlier -/

theorem weekday_mem (day : ℤ) : 0 ≤ weekday day ∧ weekday day < 7 := by
  simp only [weekday]
  omega

/-- The day of an earlier year is nearly a year earlier, whatever the leap days. -/
theorem matchedDay_lt (weekly : Bool) (day : ℤ) {yearsBack : ℕ} (h : 1 ≤ yearsBack) :
    matchedDay weekly day yearsBack < day := by
  have hparts := ordinal_parts day
  have htarget : (replaceYear day (yearOf day - yearsBack)).getD
      (ordinal (yearOf day - yearsBack) (monthOf day) 28) < day - 300 := by
    simp only [replaceYear]
    split
    · next hleap =>
      have hyears := ordinal_earlier (yearOf day) yearsBack (monthOf day) 28
      have hlater : ordinal (yearOf day) (monthOf day) 28 + 1 = day := by
        rw [hleap.2.1] at hparts
        simp only [ordinal] at hparts ⊢
        omega
      simp only [Option.getD_none]
      omega
    · have hyears := ordinal_earlier (yearOf day) yearsBack (monthOf day) (dayOf day)
      rw [hparts] at hyears
      simp only [Option.getD_some]
      omega
  simp only [matchedDay]
  generalize (replaceYear day (yearOf day - yearsBack)).getD
    (ordinal (yearOf day - yearsBack) (monthOf day) 28) = target at htarget
  have hweekday := weekday_mem target
  split
  · omega
  · split <;> omega

theorem daysInMonth_leap (a b : Bool) (month : ℕ) :
    daysInMonth a month ≤ daysInMonth b month + 1 := by
  simp only [daysInMonth]
  split <;> split <;> omega

/-- The same month and day some years earlier. -/
theorem monthDay_lt (year : ℤ) {yearsBack : ℕ} (h : 1 ≤ yearsBack) (d : MonthDay) :
    monthDay (year - yearsBack) d < monthDay year d := by
  have hlength := daysInMonth_leap (isLeap (year - yearsBack)) (isLeap year) d.month
  have hyears := ordinal_earlier year yearsBack d.month
    (min d.day (daysInMonth (isLeap year) d.month))
  simp only [monthDay]
  simp only [ordinal] at hyears ⊢
  omega

/-- A date of a year is not of a later one. -/
theorem yearOf_monthDay_le (year : ℤ) (d : MonthDay) : yearOf (monthDay year d) ≤ year := by
  apply yearOf_le
  rw [daysBeforeYear_succ]
  have hmonth : daysBeforeMonth (isLeap year) d.month + daysInMonth (isLeap year) d.month ≤
      365 + if isLeap year then 1 else 0 := by
    have hmem := d.month_mem
    generalize d.month = month at hmem
    obtain ⟨hlow, hhigh⟩ := hmem
    cases isLeap year <;> interval_cases month <;> decide
  simp only [monthDay, ordinal]
  omega

theorem containing_mem {entry : DeclaredPeriod} {day : ℤ} {o : Occurrence}
    (h : entry.containing day = some o) : o.start ≤ day ∧ day ≤ o.last := by
  have hcontains : ∀ o' : Occurrence, o'.contains day = true → o'.start ≤ day ∧ day ≤ o'.last := by
    intro o' ho'
    simpa [Occurrence.contains] using ho'
  unfold DeclaredPeriod.containing at h
  split at h
  · split at h
    · next ho =>
      obtain rfl := Option.some.inj h
      exact hcontains _ ho
    · cases h
  · obtain ⟨startYear, _, hyear⟩ := List.exists_of_findSome?_eq_some h
    split at hyear
    · next ho =>
      obtain rfl := Option.some.inj hyear
      exact hcontains _ ho
    · cases hyear

/-- The year of a recurring period is that of one of its occurrences. -/
theorem containing_recurring {entry : DeclaredPeriod} {day : ℤ} {o : Occurrence}
    {start last : MonthDay} (hkind : entry.kind = .recurring start last)
    (h : entry.containing day = some o) : ∃ year, o = occurrence start last year := by
  rw [DeclaredPeriod.containing, hkind] at h
  obtain ⟨startYear, _, hyear⟩ := List.exists_of_findSome?_eq_some h
  split at hyear
  · exact ⟨startYear, (Option.some.inj hyear).symm⟩
  · cases hyear

theorem foldl_latest_mem (pairs : List (DeclaredPeriod × Occurrence))
    (best : DeclaredPeriod × Occurrence) :
    pairs.foldl (fun best pair => if startsBefore best pair then pair else best) best ∈
      best :: pairs := by
  induction pairs generalizing best with
  | nil => exact List.mem_singleton_self _
  | cons pair pairs ih =>
    rw [List.foldl_cons]
    obtain hbest | hrest := List.mem_cons.mp (ih (if startsBefore best pair then pair else best))
    · rw [hbest]
      split
      · exact List.mem_cons_of_mem _ List.mem_cons_self
      · exact List.mem_cons_self
    · exact List.mem_cons_of_mem _ (List.mem_cons_of_mem _ hrest)

theorem inside_containing {calendar : Calendar} {day : ℤ} {entry : DeclaredPeriod}
    {o : Occurrence} (h : calendar.inside day = some (entry, o)) :
    entry.containing day = some o := by
  have hmem : (entry, o) ∈ calendar.filterMap fun entry =>
      (entry.containing day).map fun o => (entry, o) := by
    rw [Calendar.inside] at h
    generalize calendar.filterMap (fun entry =>
      (entry.containing day).map fun o => (entry, o)) = pairs at h
    cases pairs with
    | nil => cases h
    | cons pair pairs =>
      rw [← Option.some.inj h]
      exact foldl_latest_mem pairs pair
  obtain ⟨other, _, hother⟩ := List.mem_filterMap.mp hmem
  obtain ⟨o', ho', heq⟩ := Option.map_eq_some_iff.mp hother
  obtain ⟨rfl, rfl⟩ := Prod.mk.inj heq
  exact ho'

/-- What stands in an earlier occurrence as the day does in its own, or before that, is before the
day. -/
theorem earlier_match_lt {calendar : Calendar} {day : ℤ} {entry : DeclaredPeriod}
    {o earlier : Occurrence} (h : calendar.inside day = some (entry, o))
    (hearlier : earlier ∈ calendar.earlierOccurrences entry o) {matched : ℤ}
    (hoffset : matched ≤ earlier.start + (day - o.start)) (hlast : matched ≤ earlier.last) :
    matched < day := by
  have hcontaining := inside_containing h
  have hin := containing_mem hcontaining
  unfold Calendar.earlierOccurrences at hearlier
  split at hearlier
  · next start last hkind =>
    obtain ⟨year, rfl⟩ := containing_recurring hkind hcontaining
    obtain ⟨yearsBack, hback, rfl⟩ := List.mem_map.mp hearlier
    have hback := List.mem_range'_1.mp hback
    have hyear := yearOf_monthDay_le year start
    obtain ⟨n, hn⟩ : ∃ n : ℕ, year - n = yearOf (monthDay year start) - yearsBack :=
      ⟨(year - (yearOf (monthDay year start) - yearsBack)).toNat, by omega⟩
    have hpositive : 1 ≤ n := by omega
    have hgap := monthDay_lt year hpositive start
    rw [hn] at hgap
    simp only [occurrence] at hoffset
    omega
  · cases hearlier
  · have hmem := List.mem_mergeSort.mp (List.mem_of_mem_take hearlier)
    obtain ⟨other, _, hother⟩ := List.mem_filterMap.mp hmem
    split at hother
    · split at hother
      · next hbefore =>
        obtain rfl := Option.some.inj hother
        have := hbefore.2.2
        omega
      · cases hother
    · cases hother

end DataQ.Seasonal
