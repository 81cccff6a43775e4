import DataQ.Seasonal.MaximalRuns
import DataQ.Seasonal.Occurrences
import Mathlib.Algebra.Order.Ring.Rat

/-! # Ranges and leap days

A recurring period is given as the range of days that its occurrences cover once they are laid on
the season of the newest one. An occurrence of a common year that is laid across 29 February ends a
day earlier in its own year, and where it is the last to end its last day is left out. -/

namespace DataQ.Seasonal
open DataQ.Dates DataQ.Series
set_option autoImplicit false

/-! ## Places in a year -/

/-- The place of a month and day in a leap year. -/
def MonthDay.place (d : MonthDay) : ℤ := daysBeforeMonth true d.month + d.day

def leapDays (year : ℤ) : ℤ := if isLeap year then 1 else 0

/-- What stands at the place in a year: at that of 29 February, the day before where it has none. -/
def inYear (year place : ℤ) : ℤ := if place ≤ 59 then place else place - 1 + leapDays year

theorem leapDays_mem (year : ℤ) : leapDays year = 0 ∨ leapDays year = 1 := by
  rw [leapDays]
  split
  · exact .inr rfl
  · exact .inl rfl

theorem leapDays_bounds (year : ℤ) : 0 ≤ leapDays year ∧ leapDays year ≤ 1 := by
  have hmem := leapDays_mem year
  omega

theorem daysBeforeYear_next (year : ℤ) :
    daysBeforeYear (year + 1) = daysBeforeYear year + 365 + leapDays year :=
  daysBeforeYear_succ year

theorem daysInMonth_of_ne {month : ℕ} (h : month ≠ 2) (leap : Bool) :
    daysInMonth leap month = daysInMonth true month := by
  simp [daysInMonth, h]

theorem daysBeforeMonth_march {month : ℕ} (h : 3 ≤ month) (h' : month ≤ 12) (leap : Bool) :
    daysBeforeMonth leap month = daysBeforeMonth true month - 1 + if leap then 1 else 0 := by
  interval_cases month <;> cases leap <;> decide

theorem MonthDay.place_mem (d : MonthDay) : 1 ≤ d.place ∧ d.place ≤ 366 := by
  have hmonth := d.month_mem
  have hday := d.day_mem
  rw [MonthDay.place]
  generalize d.month = month at hmonth hday
  obtain ⟨hlow, hhigh⟩ := hmonth
  interval_cases month <;> simp [daysBeforeMonth, daysInMonth] at hday ⊢ <;> omega

theorem daysInMonth_two (leap : Bool) :
    daysInMonth leap 2 = 28 + if leap then 1 else 0 := by
  cases leap <;> rfl

theorem daysBeforeMonth_two (leap : Bool) : daysBeforeMonth leap 2 = 31 := by
  cases leap <;> rfl

theorem monthDay_eq (year : ℤ) (d : MonthDay) :
    monthDay year d = daysBeforeYear year + inYear year d.place := by
  have hday := d.day_mem
  have hclamped := clamped_mem (isLeap year) d
  have hleap := leapDays_mem year
  rw [monthDay, ordinal, inYear, MonthDay.place]
  by_cases htwo : d.month = 2
  · have htrue : daysInMonth true 2 = 29 := rfl
    have hlength : daysInMonth (isLeap year) 2 = 28 + leapDays year := daysInMonth_two _
    rw [htwo] at hday hclamped ⊢
    rw [daysBeforeMonth_two, daysBeforeMonth_two]
    split <;> omega
  · have hlength := daysInMonth_of_ne htwo (isLeap year)
    rw [hlength, min_eq_left hday.2]
    by_cases hone : d.month = 1
    · have htrue : daysInMonth true 1 = 31 := rfl
      rw [hone] at hday ⊢
      rw [daysBeforeMonth_one, daysBeforeMonth_one, if_pos (by omega)]
      omega
    · have hmarch : 3 ≤ d.month := by
        have := d.month_mem
        omega
      have hbefore : daysBeforeMonth (isLeap year) d.month =
          daysBeforeMonth true d.month - 1 + leapDays year :=
        daysBeforeMonth_march hmarch d.month_mem.2 _
      have hlater := daysBeforeMonth_lt true (show 1 ≤ 2 by decide) (show 2 < d.month by omega)
        d.month_mem.2
      have htrue : daysBeforeMonth true 2 + daysInMonth true 2 = 60 := rfl
      rw [if_neg (by omega), hbefore]
      omega

/-- A range wraps where its last day has the earlier place. -/
theorem wraps_iff (start last : MonthDay) : wraps start last = true ↔ last.place < start.place := by
  have hs := start.month_mem
  have hl := last.month_mem
  have hsday := start.day_mem
  have hlday := last.day_mem
  simp only [wraps, MonthDay.place, Bool.or_eq_true, Bool.and_eq_true, decide_eq_true_eq]
  obtain hlt | heq | hgt := lt_trichotomy last.month start.month
  · have hbefore := daysBeforeMonth_lt true hl.1 hlt hs.2
    simp only [hlt, true_or, true_iff]
    omega
  · rw [heq]
    simp
  · have hbefore := daysBeforeMonth_lt true hs.1 hgt hl.2
    have hne : last.month ≠ start.month := by omega
    simp only [not_lt.mpr hgt.le, hne, false_and, or_false, false_iff]
    omega

theorem monthDay_of (day : ℤ) : monthDay (yearOf day) (MonthDay.of day) = day := by
  have hspec := monthOf_spec day
  have hmin : min (dayOf day) (daysInMonth (isLeap (yearOf day)) (monthOf day)) = dayOf day :=
    min_eq_left hspec.2.2
  simp only [monthDay, MonthDay.of, hmin]
  exact ordinal_parts day

/-- A date of a common year is not 29 February. -/
theorem place_ne_leap {day : ℤ} (h : leapDays (yearOf day) = 0) : (MonthDay.of day).place ≠ 60 := by
  have hspec := monthOf_spec day
  have hleap : isLeap (yearOf day) = false := by
    rw [leapDays] at h
    by_contra hne
    rw [Bool.not_eq_false] at hne
    rw [if_pos hne] at h
    cases h
  rw [hleap] at hspec
  simp only [MonthDay.place, MonthDay.of]
  generalize monthOf day = month at hspec
  obtain ⟨⟨hlow, hhigh⟩, hday⟩ := hspec
  interval_cases month <;> simp [daysBeforeMonth, daysInMonth] at hday ⊢ <;> omega

/-- In a common year a date past 28 February is past 29 February. -/
theorem place_of_late {day : ℤ} (h : ¬ (MonthDay.of day).place ≤ 59) :
    61 ≤ (MonthDay.of day).place + leapDays (yearOf day) := by
  obtain hleap | hleap := leapDays_mem (yearOf day)
  · have hne := place_ne_leap hleap
    omega
  · omega

/-- A date by its year and its place in it. -/
theorem date_eq (day : ℤ) : day = daysBeforeYear (yearOf day) +
    inYear (yearOf day) (MonthDay.of day).place := by
  rw [← monthDay_eq, monthDay_of]

/-! ## 29 February -/

/-- 29 February is among the days. -/
def HasLeapDay (first last : ℤ) : Prop :=
  ∃ year, isLeap year = true ∧ first ≤ ordinal year 2 29 ∧ ordinal year 2 29 ≤ last

theorem ordinal_leap {year : ℤ} (h : isLeap year = true) :
    ordinal year 2 29 = daysBeforeYear year + 60 := by
  have htwo : daysBeforeMonth true 2 = 31 := rfl
  rw [ordinal, h, htwo]
  omega

theorem hasLeapDay_iff {first last year : ℤ} (hfirst : yearOf first = year)
    (hlast : last ≤ daysBeforeYear (year + 2)) :
    HasLeapDay first last ↔
      leapDays year = 1 ∧ first ≤ daysBeforeYear year + 60 ∧ daysBeforeYear year + 60 ≤ last ∨
        leapDays (year + 1) = 1 ∧ daysBeforeYear (year + 1) + 60 ≤ last := by
  have hleap : ∀ y, isLeap y = true ↔ leapDays y = 1 := by
    intro y
    cases hy : isLeap y <;> simp [leapDays, hy]
  have hspec := yearOf_spec first
  rw [hfirst] at hspec
  constructor
  · rintro ⟨y, hy, hafter, hbefore⟩
    rw [ordinal_leap hy] at hafter hbefore
    have hthis : ¬ y < year := by
      intro hlt
      have hmono := daysBeforeYear_mono (show y + 1 ≤ year by omega)
      have hnext := daysBeforeYear_next y
      have hmem := leapDays_mem y
      omega
    have hnext : ¬ year + 1 < y := by
      intro hlt
      have hmono := daysBeforeYear_mono (show year + 2 ≤ y by omega)
      omega
    obtain rfl | rfl : y = year ∨ y = year + 1 := by omega
    · exact .inl ⟨(hleap _).mp hy, hafter, hbefore⟩
    · exact .inr ⟨(hleap _).mp hy, hbefore⟩
  · rintro (⟨hy, hafter, hbefore⟩ | ⟨hy, hbefore⟩)
    · have hy := (hleap _).mpr hy
      exact ⟨year, hy, by rwa [ordinal_leap hy], by rwa [ordinal_leap hy]⟩
    · have hy := (hleap _).mpr hy
      refine ⟨year + 1, hy, ?_, by rwa [ordinal_leap hy]⟩
      rw [ordinal_leap hy]
      omega

/-! ## The range in other years -/

section Range
variable {first last : ℤ}

theorem years_of_short (hle : first ≤ last) (hshort : last - first < 365) :
    yearOf last = yearOf first ∨ yearOf last = yearOf first + 1 := by
  have hf := yearOf_spec first
  have hl := yearOf_spec last
  have hnext := daysBeforeYear_next (yearOf first + 1)
  have hmem := leapDays_mem (yearOf first + 1)
  rw [show yearOf first + 1 + 1 = yearOf first + 2 by omega] at hnext
  by_contra hyears
  obtain hlt | hgt : yearOf last + 1 ≤ yearOf first ∨ yearOf first + 2 ≤ yearOf last := by omega
  · have hmono := daysBeforeYear_mono hlt
    omega
  · have hmono := daysBeforeYear_mono hgt
    omega

theorem wraps_of_short (hle : first ≤ last) (hshort : last - first < 365) :
    wraps (MonthDay.of first) (MonthDay.of last) = true ↔ yearOf last = yearOf first + 1 := by
  have hf := date_eq first
  have hl := date_eq last
  have hfplace := (MonthDay.of first).place_mem
  have hlplace := (MonthDay.of last).place_mem
  have hfleap := @place_ne_leap first
  have hlleap := @place_ne_leap last
  have hnext := daysBeforeYear_next (yearOf first)
  have hmem := leapDays_mem (yearOf first)
  rw [wraps_iff]
  obtain hyear | hyear := years_of_short hle hshort
  · rw [hyear] at hl hlleap ⊢
    simp only [inYear] at hf hl
    omega
  · have hmem' := leapDays_mem (yearOf first + 1)
    rw [hyear] at hl hlleap ⊢
    simp only [inYear] at hf hl
    omega

/-- The range's occurrence that starts as many years later. -/
theorem occurrence_moved (hle : first ≤ last) (hshort : last - first < 365) (years : ℤ) :
    occurrence (MonthDay.of first) (MonthDay.of last) (yearOf first + years) =
      ⟨monthDay (yearOf first + years) (MonthDay.of first),
        monthDay (yearOf last + years) (MonthDay.of last)⟩ := by
  have hwraps := wraps_of_short hle hshort
  have hend : (if wraps (MonthDay.of first) (MonthDay.of last) then yearOf first + years + 1
      else yearOf first + years) = yearOf last + years := by
    split
    · next h =>
      have := hwraps.mp h
      omega
    · next h =>
      have := mt hwraps.mpr h
      have := years_of_short hle hshort
      omega
  rw [occurrence, hend]

/-- The days from `a` to `b`, moved by whole years, are in the span from `first` to `last`. -/
structure LaidIn (first last a b years : ℤ) : Prop where
  lt : a < b
  first_le : first ≤ monthDay (yearOf a + years) (MonthDay.of a)
  le_last : monthDay (yearOf a + years) (MonthDay.of a) + (b - a) ≤ last
  short : last - first < 365

variable {a b years : ℤ}

theorem LaidIn.first_le_last (h : LaidIn first last a b years) : first ≤ last := by
  have hlt := h.lt
  have hfirst := h.first_le
  have hlast := h.le_last
  omega

/-- The years of the span, by that in which the days are laid. -/
theorem LaidIn.years_of (h : LaidIn first last a b years) :
    (yearOf first = yearOf a + years ∧ yearOf last = yearOf a + years) ∨
      (yearOf first = yearOf a + years ∧ yearOf last = yearOf a + years + 1) ∨
      (yearOf first = yearOf a + years - 1 ∧ yearOf last = yearOf a + years) := by
  have hlt := h.lt
  have hfirst := h.first_le
  have hlast := h.le_last
  have hmoved := monthDay_mem (yearOf a + years) (MonthDay.of a)
  have hf := yearOf_spec first
  have hl := yearOf_spec last
  have hyears := years_of_short h.first_le_last h.short
  have hF : yearOf first ≤ yearOf a + years := yearOf_le (by omega)
  have hL : yearOf a + years ≤ yearOf last := by
    by_contra hlt
    have := daysBeforeYear_mono (show yearOf last + 1 ≤ yearOf a + years by omega)
    omega
  omega

/-- The days end the span across a 29 February that they do not have themselves. -/
def LosesLast (last a b years : ℤ) : Prop :=
  monthDay (yearOf a + years) (MonthDay.of a) + (b - a) = last ∧
    HasLeapDay (monthDay (yearOf a + years) (MonthDay.of a)) last ∧ ¬ HasLeapDay a b

theorem LaidIn.losesLast_iff (h : LaidIn first last a b years) :
    LosesLast last a b years ↔
      monthDay (yearOf a + years) (MonthDay.of a) + (b - a) = last ∧
        (leapDays (yearOf a + years) = 1 ∧
            monthDay (yearOf a + years) (MonthDay.of a) ≤ daysBeforeYear (yearOf a + years) + 60 ∧
            daysBeforeYear (yearOf a + years) + 60 ≤ last ∨
          leapDays (yearOf a + years + 1) = 1 ∧
            daysBeforeYear (yearOf a + years + 1) + 60 ≤ last) ∧
        ¬ (leapDays (yearOf a) = 1 ∧ a ≤ daysBeforeYear (yearOf a) + 60 ∧
            daysBeforeYear (yearOf a) + 60 ≤ b ∨
          leapDays (yearOf a + 1) = 1 ∧ daysBeforeYear (yearOf a + 1) + 60 ≤ b) := by
  have hlt := h.lt
  have hfirst := h.first_le
  have hlast := h.le_last
  have hshort := h.short
  have hmoved := monthDay_mem (yearOf a + years) (MonthDay.of a)
  have ha := yearOf_spec a
  have hend : ∀ year, daysBeforeYear (year + 1) + 365 ≤ daysBeforeYear (year + 2) := by
    intro year
    have hnext := daysBeforeYear_next (year + 1)
    have hmem := leapDays_mem (year + 1)
    rw [show year + 1 + 1 = year + 2 by omega] at hnext
    omega
  have hspan := hend (yearOf a + years)
  have hdays := hend (yearOf a)
  rw [LosesLast, hasLeapDay_iff (yearOf_monthDay _ _) (by omega), hasLeapDay_iff rfl (by omega)]

/-- The range starts no later than the days do in their own year. -/
theorem LaidIn.start_le (h : LaidIn first last a b years) :
    monthDay (yearOf first - years) (MonthDay.of first) ≤ a := by
  have hfirst := h.first_le
  have ha := date_eq a
  have hf := date_eq first
  have hane := @place_of_late a
  have hfne := @place_of_late first
  have hA := leapDays_bounds (yearOf a)
  have hB := leapDays_bounds (yearOf a + years)
  obtain hF | hF : yearOf first = yearOf a + years ∨ yearOf first = yearOf a + years - 1 := by
    have := h.years_of
    omega
  · rw [hF] at hf hfne ⊢
    rw [add_sub_cancel_right]
    simp only [monthDay_eq, inYear] at *
    omega
  · have hyear : yearOf first - years + 1 = yearOf a := by omega
    have hend := (monthDay_mem (yearOf first - years) (MonthDay.of first)).2
    have hspec := yearOf_spec a
    rw [hyear] at hend
    omega

/-- Where the range ends in the days' own year, for a span that ends in the year in which they are
laid. -/
theorem LaidIn.ends_same (h : LaidIn first last a b years) (hL : yearOf last = yearOf a + years) :
    (b ≤ monthDay (yearOf last - years) (MonthDay.of last) ∨ LosesLast last a b years) ∧
      (LosesLast last a b years → monthDay (yearOf last - years) (MonthDay.of last) + 1 = b) := by
  have hlt := h.lt
  have hlast := h.le_last
  have ha := date_eq a
  have hl := date_eq last
  have hqa := (MonthDay.of a).place_mem
  have hql := (MonthDay.of last).place_mem
  have hane := @place_of_late a
  have hlne := @place_of_late last
  have hA := daysBeforeYear_next (yearOf a)
  have hB := daysBeforeYear_next (yearOf a + years)
  rw [h.losesLast_iff]
  rw [hL] at hl hlne ⊢
  rw [add_sub_cancel_right]
  simp only [monthDay_eq, inYear] at *
  generalize (MonthDay.of a).place = qa at *
  generalize (MonthDay.of last).place = ql at *
  have lA := leapDays_bounds (yearOf a)
  have lB := leapDays_bounds (yearOf a + years)
  by_cases hearly : qa ≤ 59
  · simp only [if_pos hearly] at *
    by_cases hbefore : ql ≤ 59
    · simp only [if_pos hbefore] at *
      constructor <;> omega
    · -- Laid across 29 February, they end a day earlier in a common year.
      simp only [if_neg hbefore] at *
      constructor <;> omega
  · simp only [if_neg hearly] at *
    by_cases hbefore : ql ≤ 59
    · simp only [if_pos hbefore] at *
      constructor <;> omega
    · simp only [if_neg hbefore] at *
      constructor <;> omega

/-- And for one that ends in the year after. -/
theorem LaidIn.ends_next (h : LaidIn first last a b years)
    (hL : yearOf last = yearOf a + years + 1) :
    (b ≤ monthDay (yearOf last - years) (MonthDay.of last) ∨ LosesLast last a b years) ∧
      (LosesLast last a b years → monthDay (yearOf last - years) (MonthDay.of last) + 1 = b) := by
  have hlt := h.lt
  have hlast := h.le_last
  have hshort : last - monthDay (yearOf a + years) (MonthDay.of a) < 365 := by
    have := h.first_le
    have := h.short
    omega
  have ha := date_eq a
  have hl := date_eq last
  have hqa := (MonthDay.of a).place_mem
  have hql := (MonthDay.of last).place_mem
  have hane := @place_of_late a
  have hlne := @place_of_late last
  have hA := daysBeforeYear_next (yearOf a)
  have hB := daysBeforeYear_next (yearOf a + years)
  have lA := leapDays_bounds (yearOf a)
  have lB := leapDays_bounds (yearOf a + years)
  have lA₁ := leapDays_bounds (yearOf a + 1)
  have lB₁ := leapDays_bounds (yearOf a + years + 1)
  rw [h.losesLast_iff]
  rw [hL] at hl hlne ⊢
  rw [show yearOf a + years + 1 - years = yearOf a + 1 by omega]
  simp only [monthDay_eq, inYear] at *
  generalize (MonthDay.of a).place = qa at *
  generalize (MonthDay.of last).place = ql at *
  by_cases hearly : qa ≤ 59
  · -- The 29 February that counts is that of the year in which they start.
    simp only [if_pos hearly] at *
    have hbefore : ql ≤ 59 := by omega
    simp only [if_pos hbefore] at *
    constructor <;> omega
  · -- Or it is that of the year in which they end.
    simp only [if_neg hearly] at *
    by_cases hbefore : ql ≤ 59
    · simp only [if_pos hbefore] at *
      constructor <;> omega
    · simp only [if_neg hbefore] at *
      constructor <;> omega

/-- What is lost is not made up for by the range's next occurrence. -/
theorem LaidIn.next_later (h : LaidIn first last a b years) (hloses : LosesLast last a b years)
    (hend : monthDay (yearOf last - years) (MonthDay.of last) + 1 = b) :
    b < monthDay (yearOf first - years + 1) (MonthDay.of first) := by
  rw [h.losesLast_iff] at hloses
  obtain ⟨hle, hleap, hown⟩ := hloses
  have hfirst := h.first_le
  have hshort := h.short
  have ha := date_eq a
  have hf := date_eq first
  have hl := date_eq last
  have hane := @place_of_late a
  have hfne := @place_of_late first
  have hA := daysBeforeYear_next (yearOf a)
  have hB := daysBeforeYear_next (yearOf a + years)
  have lB₁ := leapDays_bounds (yearOf a + years + 1)
  have lA := leapDays_bounds (yearOf a)
  have hyears := h.years_of
  clear h
  simp only [monthDay_eq, inYear] at *
  generalize (MonthDay.of a).place = qa at *
  generalize (MonthDay.of first).place = qf at *
  generalize (MonthDay.of last).place = ql at *
  obtain ⟨hF, hL⟩ | ⟨hF, hL⟩ | ⟨hF, hL⟩ := hyears
  · rw [hL, add_sub_cancel_right] at hend
    rw [hL] at hl
    rw [hF] at hf hfne ⊢
    rw [add_sub_cancel_right]
    have lA₁ := leapDays_bounds (yearOf a + 1)
    by_cases hearly : qf ≤ 59
    · simp only [if_pos hearly] at *
      omega
    · simp only [if_neg hearly] at *
      omega
  · rw [hL, show yearOf a + years + 1 - years = yearOf a + 1 by omega] at hend
    rw [hL] at hl
    rw [hF] at hf hfne ⊢
    rw [add_sub_cancel_right]
    have lA₁ := leapDays_bounds (yearOf a + 1)
    have lB := leapDays_bounds (yearOf a + years)
    by_cases hearly : qf ≤ 59
    · simp only [if_pos hearly] at *
      omega
    · simp only [if_neg hearly] at *
      omega
  · rw [hL, add_sub_cancel_right] at hend
    rw [hL] at hl
    rw [hF] at hf hfne ⊢
    have hprevious := daysBeforeYear_next (yearOf a + years - 1)
    have lB₀ := leapDays_bounds (yearOf a + years - 1)
    rw [sub_add_cancel] at hprevious
    rw [show yearOf a + years - 1 - years + 1 = yearOf a by omega]
    by_cases hearly : qf ≤ 59
    · simp only [if_pos hearly] at *
      omega
    · simp only [if_neg hearly] at *
      omega

theorem monthDay_mono {x y : ℤ} (h : x ≤ y) (d : MonthDay) : monthDay x d ≤ monthDay y d := by
  obtain rfl | hlt := h.eq_or_lt
  · exact le_rfl
  · have hx := (monthDay_mem x d).2
    have hy := (monthDay_mem y d).1
    have hmono := daysBeforeYear_mono (show x + 1 ≤ y by omega)
    omega

/-- All the days are in an occurrence of the range, unless their last is lost. -/
theorem LaidIn.covered_iff (h : LaidIn first last a b years) :
    (∀ day, a ≤ day → day ≤ b → ∃ year,
      (occurrence (MonthDay.of first) (MonthDay.of last) year).contains day = true) ↔
        ¬ LosesLast last a b years := by
  have hends : (b ≤ monthDay (yearOf last - years) (MonthDay.of last) ∨
      LosesLast last a b years) ∧ (LosesLast last a b years →
        monthDay (yearOf last - years) (MonthDay.of last) + 1 = b) := by
    obtain ⟨_, hL⟩ | ⟨_, hL⟩ | ⟨_, hL⟩ := h.years_of
    · exact h.ends_same hL
    · exact h.ends_next hL
    · exact h.ends_same hL
  have hoccurrence := occurrence_moved h.first_le_last h.short
  constructor
  · intro hcovered hloses
    obtain ⟨year, hyear⟩ := hcovered b h.lt.le le_rfl
    have hend := hends.2 hloses
    have hlater := h.next_later hloses hend
    have hmoved := hoccurrence (year - yearOf first)
    rw [add_sub_cancel] at hmoved
    rw [hmoved, contains_iff] at hyear
    dsimp only at hyear
    by_cases hyears : year ≤ yearOf first - years
    · have hmono := monthDay_mono
        (show yearOf last + (year - yearOf first) ≤ yearOf last - years by omega) (MonthDay.of last)
      omega
    · have hmono := monthDay_mono
        (show yearOf first - years + 1 ≤ year by omega) (MonthDay.of first)
      omega
  · intro hkept day hday hday'
    refine ⟨yearOf first - years, ?_⟩
    have hstart := h.start_le
    have hend := hends.1.resolve_right hkept
    rw [sub_eq_add_neg, hoccurrence, contains_iff, ← sub_eq_add_neg, ← sub_eq_add_neg]
    exact ⟨hstart.trans hday, hday'.trans hend⟩

end Range

/-! ## Detected ranges -/

section Detected
variable {V : Type}

/-- Of the occurrences that end last once they are laid on the season of the newest, one is laid
across a 29 February that it does not have itself. -/
def DetectedPeriod.LosesLeapDay (period : DetectedPeriod V) : Prop :=
  ∃ anchor, period.occurrences.getLast? = some anchor ∧ ∃ o ∈ period.occurrences,
    (∀ other ∈ period.occurrences,
      (laidOn other anchor.start).last ≤ (laidOn o anchor.start).last) ∧
    HasLeapDay (laidOn o anchor.start).start (laidOn o anchor.start).last ∧
    ¬ HasLeapDay o.start o.last

theorem laidOn_eq (o : DetectedOccurrence V) (anchor : ℤ) :
    laidOn o anchor = o.moved (laidOn o anchor).years := by
  have hnearer : ∀ {best laid : Laid}, best = o.moved best.years → laid = o.moved laid.years →
      nearer anchor best laid = o.moved (nearer anchor best laid).years := by
    intro best laid hbest hlaid
    rw [nearer]
    split
    · exact hlaid
    · exact hbest
  have hmoved : ∀ years, o.moved years = o.moved (o.moved years).years := fun years => rfl
  exact hnearer (hnearer (hmoved _) (hmoved _)) (hmoved _)

theorem least_le {days : List ℤ} {day : ℤ} (h : day ∈ days) : (days.min?).getD 0 ≤ day := by
  cases hmin : days.min? with
  | none =>
    rw [List.min?_eq_none_iff] at hmin
    rw [hmin] at h
    cases h
  | some least => exact (List.min?_eq_some_iff.mp hmin).2 day h

theorem le_greatest {days : List ℤ} {day : ℤ} (h : day ∈ days) : day ≤ (days.max?).getD 0 := by
  cases hmax : days.max? with
  | none =>
    rw [List.max?_eq_none_iff] at hmax
    rw [hmax] at h
    cases h
  | some greatest => exact (List.max?_eq_some_iff.mp hmax).2 day h

theorem greatest_mem {days : List ℤ} (h : days ≠ []) : (days.max?).getD 0 ∈ days := by
  cases hmax : days.max? with
  | none => exact absurd (List.max?_eq_none_iff.mp hmax) h
  | some greatest => exact (List.max?_eq_some_iff.mp hmax).1

/-- The days of every occurrence are in one of the range that its group is given, unless the group
loses a leap day. -/
theorem detectedPeriod_covers_iff {declared : Calendar} {members : List (DetectedOccurrence V)}
    {anchor : DetectedOccurrence V} (hanchor : members.getLast? = some anchor)
    (hlt : ∀ o ∈ members, o.start < o.last) {start last : MonthDay}
    (hrange : (detectedPeriod declared members anchor).range = some (start, last)) :
    (∀ o ∈ members, ∀ day, o.start ≤ day → day ≤ o.last →
      ∃ year, (occurrence start last year).contains day = true) ↔
      ¬ (detectedPeriod declared members anchor).LosesLeapDay := by
  simp only [detectedPeriod, Option.ite_none_right_eq_some] at hrange
  obtain ⟨⟨_, hshort⟩, hparts⟩ := hrange
  obtain ⟨rfl, rfl⟩ := Prod.mk.inj (Option.some.inj hparts)
  have hstarts : ∀ o ∈ members, (laidOn o anchor.start).start ∈
      (members.map fun o => laidOn o anchor.start).map Laid.start := by
    intro o ho
    exact List.mem_map_of_mem (List.mem_map_of_mem ho)
  have hlasts : ∀ o ∈ members, (laidOn o anchor.start).last ∈
      (members.map fun o => laidOn o anchor.start).map Laid.last := by
    intro o ho
    exact List.mem_map_of_mem (List.mem_map_of_mem ho)
  have hne : (members.map fun o => laidOn o anchor.start).map Laid.last ≠ [] :=
    List.ne_nil_of_mem (hlasts anchor (List.mem_of_getLast? hanchor))
  have hgreatest := greatest_mem hne
  generalize hF : (((members.map fun o => laidOn o anchor.start).map Laid.start).min?).getD 0 =
    first at *
  generalize hL : (((members.map fun o => laidOn o anchor.start).map Laid.last).max?).getD 0 =
    last at *
  have hlaid : ∀ o ∈ members,
      LaidIn first last o.start o.last (laidOn o anchor.start).years := by
    intro o ho
    have hfirst := least_le (hstarts o ho)
    have hlast := le_greatest (hlasts o ho)
    rw [hF, laidOn_eq] at hfirst
    rw [hL, laidOn_eq] at hlast
    exact ⟨hlt o ho, hfirst, hlast, hshort⟩
  have hloses : (detectedPeriod declared members anchor).LosesLeapDay ↔
      ∃ o ∈ members, LosesLast last o.start o.last (laidOn o anchor.start).years := by
    have hmoved : ∀ o : DetectedOccurrence V,
        monthDay (yearOf o.start + (laidOn o anchor.start).years) (MonthDay.of o.start) =
            (laidOn o anchor.start).start ∧
          (laidOn o anchor.start).start + (o.last - o.start) = (laidOn o anchor.start).last := by
      intro o
      constructor
      · conv_rhs => rw [laidOn_eq]
        rfl
      · conv_lhs => rw [laidOn_eq]
        conv_rhs => rw [laidOn_eq]
        rfl
    constructor
    · rintro ⟨newest, hnewest, o, ho, hlatest, hleap, hown⟩
      obtain rfl := Option.some.inj (hanchor.symm.trans hnewest)
      have hend : (laidOn o anchor.start).last = last := by
        obtain ⟨_, hlaidOther, hother⟩ := List.mem_map.mp hgreatest
        obtain ⟨other, hin, rfl⟩ := List.mem_map.mp hlaidOther
        have hle := le_greatest (hlasts o ho)
        have hge := hlatest other hin
        rw [hL] at hle
        omega
      refine ⟨o, ho, ?_, ?_, hown⟩
      · rw [(hmoved o).1, (hmoved o).2, hend]
      · rw [(hmoved o).1, ← hend]
        exact hleap
    · rintro ⟨o, ho, hend, hleap, hown⟩
      rw [(hmoved o).1] at hend hleap
      rw [(hmoved o).2] at hend
      refine ⟨anchor, hanchor, o, ho, fun other hother => ?_, by rwa [hend], hown⟩
      rw [hend, ← hL]
      exact le_greatest (hlasts other hother)
  rw [hloses]
  constructor
  · rintro hcovered ⟨o, ho, hlost⟩
    exact (hlaid o ho).covered_iff.mp (hcovered o ho) hlost
  · intro hkept o ho
    exact (hlaid o ho).covered_iff.mpr fun hlost => hkept ⟨o, ho, hlost⟩

end Detected

section Detect
variable {V : Type} [Numbers V]

/-- An occurrence is of two days or more. -/
theorem start_lt_last {params : DetectParams} {declared : Calendar} {points : Points V}
    {unit : Anomaly.PeriodUnit} {backfilled : ℤ → Bool} {run : List ℤ}
    (h : IsMaximalRun params declared points unit run) :
    (occurrenceFor params declared points unit backfilled run).start <
      (occurrenceFor params declared points unit backfilled run).last := by
  obtain ⟨hstretch, hlength⟩ := h
  obtain ⟨before, after, hdays, _⟩ := hstretch.maximal
  have hincreasing : run.Pairwise fun a b => a < b := by
    have hsorted := days_increasing points
    rw [hdays] at hsorted
    exact (List.pairwise_append.mp (List.pairwise_append.mp hsorted).2.1).1
  match run, hlength, hincreasing with
  | [], _, _ => exact absurd rfl hstretch.ne_nil
  | [day], hlength, _ =>
    cases unit with
    | day => cases hlength with | step h => cases h
    | week =>
      rw [occurrenceFor_start rfl, occurrenceFor_last rfl]
      show day < day + 7 - 1
      omega
  | day :: next :: rest, _, hincreasing =>
    have hlast := List.getLast?_eq_getLast_of_ne_nil (List.cons_ne_nil day (next :: rest))
    have hmem : (day :: next :: rest).getLast (List.cons_ne_nil _ _) ∈ next :: rest := by
      rw [List.getLast_cons (List.cons_ne_nil next rest)]
      exact List.getLast_mem _
    have hlt := (List.pairwise_cons.mp hincreasing).1 _ hmem
    have hunit : 1 ≤ unit.length := by cases unit <;> decide
    rw [occurrenceFor_start rfl, occurrenceFor_last hlast]
    omega

/-- The range that a detection gives a group covers the days of its occurrences exactly where the
group loses no leap day. -/
theorem detected_range_covers_iff (points : Points V) (params : DetectParams)
    (declared : Option Calendar) (backfilled : ℤ → Bool) {period : DetectedPeriod V}
    (hperiod : period ∈ (detect points params declared backfilled).periods)
    {start last : MonthDay} (hrange : period.range = some (start, last)) :
    (∀ o ∈ period.occurrences, ∀ day, o.start ≤ day → day ≤ o.last →
      ∃ year, (occurrence start last year).contains day = true) ↔ ¬ period.LosesLeapDay := by
  cases hunit : params.period with
  | none =>
    rw [detect, hunit] at hperiod
    cases hperiod
  | some unit =>
    rw [detect_periods hunit] at hperiod
    split at hperiod
    · cases hperiod
    · obtain ⟨members, hmembers, hsome⟩ := List.mem_filterMap.mp (mem_byDate.mp hperiod)
      obtain ⟨anchor, hanchor, rfl⟩ := Option.map_eq_some_iff.mp hsome
      apply detectedPeriod_covers_iff hanchor _ hrange
      intro o ho
      have hflat := List.mem_flatten.mpr ⟨members, hmembers, mem_byDate.mp ho⟩
      obtain ⟨run, hrun, rfl⟩ := List.mem_map.mp ((groupsOf_perm _).mem_iff.mp hflat)
      exact start_lt_last (mem_scan.mp hrun)

end Detect

/-! ## A sale that ended on 1 March -/

/-- Exact arithmetic. A detection takes neither a root nor a deviation. -/
instance : Numbers ℚ where
  decidableLT := inferInstance
  decidableLE := inferInstance
  abs a := if a < 0 then -a else a
  hypot a b := a + b
  fmean values := values.sum / values.length
  stdev _ := 0
  negligible := 1 / 1000000000
  anomalyDegenerateZ := 99

/-- High from 27 February to 1 March 2023 and on 27 and 28 February 2024. -/
def sales : Points ℚ where
  entries :=
    ((List.range' 22 5).map fun day : ℕ => (ordinal 2023 2 day, 1)) ++
    ((List.range' 27 3).map fun day : ℕ => (ordinal 2023 2 day, 10)) ++
    ((List.range' 22 5).map fun day : ℕ => (ordinal 2024 2 day, 1)) ++
    (List.range' 27 2).map fun day : ℕ => (ordinal 2024 2 day, 10)
  nodup := by decide

def salesParams : DetectParams := ⟨⟨7, 5, false, false, by decide⟩, some .day, false, by decide⟩

theorem sales_range : ∃ period ∈ (detect sales salesParams none fun _ => false).periods,
    ∃ start last, period.range = some (start, last) ∧
      (∃ o ∈ period.occurrences, o.start ≤ ordinal 2023 3 1 ∧ ordinal 2023 3 1 ≤ o.last) ∧
      ∀ year ∈ [2023, 2022], (occurrence start last year).contains (ordinal 2023 3 1) = false := by
  have hany : ((detect sales salesParams none fun _ => false).periods.any fun period =>
      match period.range with
      | none => false
      | some (start, last) =>
        (period.occurrences.any fun o => o.start ≤ ordinal 2023 3 1 && ordinal 2023 3 1 ≤ o.last) &&
        [2023, 2022].all fun year =>
          !(occurrence start last year).contains (ordinal 2023 3 1)) = true := by
    decide +kernel
  obtain ⟨period, hperiod, hrange⟩ := List.any_eq_true.mp hany
  split at hrange
  · cases hrange
  · next start last hsome =>
    simp only [Bool.and_eq_true, List.any_eq_true, decide_eq_true_eq, List.all_eq_true,
      Bool.not_eq_true'] at hrange
    exact ⟨period, hperiod, start, last, hsome, hrange⟩

/-- 1 March 2023 is left out of the range from 27 to 29 February. -/
theorem leap_day_left_out : ∃ period ∈ (detect sales salesParams none fun _ => false).periods,
    ∃ start last, period.range = some (start, last) ∧
      (∃ o ∈ period.occurrences, o.start ≤ ordinal 2023 3 1 ∧ ordinal 2023 3 1 ≤ o.last) ∧
      ¬ ∃ year, (occurrence start last year).contains (ordinal 2023 3 1) = true := by
  obtain ⟨period, hperiod, start, last, hrange, hin, hout⟩ := sales_range
  refine ⟨period, hperiod, start, last, hrange, hin, ?_⟩
  rintro ⟨year, hyear⟩
  have hyears : year ∈ [2023, 2022] := by
    obtain rfl | ⟨rfl, _⟩ := year_of_contains hyear <;> decide
  rw [hout year hyears] at hyear
  cases hyear

theorem detected_range_covers_iff_sales :
    ∃ period ∈ (detect sales salesParams none fun _ => false).periods,
      ∃ start last, period.range = some (start, last) ∧
        ((∀ o ∈ period.occurrences, ∀ day, o.start ≤ day → day ≤ o.last →
          ∃ year, (occurrence start last year).contains day = true) ↔ ¬ period.LosesLeapDay) := by
  obtain ⟨period, hperiod, start, last, hrange, _⟩ := sales_range
  exact ⟨period, hperiod, start, last, hrange,
    detected_range_covers_iff sales salesParams none (fun _ => false) hperiod hrange⟩

end DataQ.Seasonal
