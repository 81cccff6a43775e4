import Mathlib.Data.Int.Order.Basic
import Mathlib.Tactic.Common
import Mathlib.Tactic.IntervalCases
import Mathlib.Tactic.Linarith

/-! # Dates

The Gregorian calendar with a date as its ordinal, as `datetime.date` has it: year, month and day of
a date, the date of these, and how far apart the same date of two years is. -/

namespace DataQ.Dates
set_option autoImplicit false

def isLeap (year : ℤ) : Bool := year % 4 = 0 && (year % 100 ≠ 0 || year % 400 = 0)

/-- The days of all years before `year`. -/
def daysBeforeYear (year : ℤ) : ℤ :=
  365 * (year - 1) + (year - 1) / 4 - (year - 1) / 100 + (year - 1) / 400

/-- The days of all months before `month`. -/
def daysBeforeMonth (leap : Bool) (month : ℕ) : ℤ :=
  [0, 31, 59, 90, 120, 151, 181, 212, 243, 273, 304, 334].getD (month - 1) 0 +
    if leap && 2 < month then 1 else 0

/-- `calendar.monthrange`, its second part. -/
def daysInMonth (leap : Bool) (month : ℕ) : ℤ :=
  [31, 28, 31, 30, 31, 30, 31, 31, 30, 31, 30, 31].getD (month - 1) 31 +
    if leap && month = 2 then 1 else 0

/-- `date.toordinal`. -/
def ordinal (year : ℤ) (month : ℕ) (day : ℤ) : ℤ :=
  daysBeforeYear year + daysBeforeMonth (isLeap year) month + day

/-- `date.weekday`: Monday is zero. -/
def weekday (day : ℤ) : ℤ := (day + 6) % 7

def yearOf (day : ℤ) : ℤ :=
  let n := day - 1
  let n400 := n / 146097
  let n := n % 146097
  let n100 := n / 36524
  let n := n % 36524
  let n4 := n / 1461
  let n1 := n % 1461 / 365
  let year := n400 * 400 + n100 * 100 + n4 * 4 + n1 + 1
  if n1 = 4 ∨ n100 = 4 then year - 1 else year

def dayOfYear (day : ℤ) : ℤ := day - daysBeforeYear (yearOf day)

/-- The months that have begun. -/
def monthOf (day : ℤ) : ℕ :=
  (List.range' 1 12).countP fun month =>
    daysBeforeMonth (isLeap (yearOf day)) month < dayOfYear day

def dayOf (day : ℤ) : ℤ := dayOfYear day - daysBeforeMonth (isLeap (yearOf day)) (monthOf day)

theorem daysBeforeYear_succ (year : ℤ) :
    daysBeforeYear (year + 1) = daysBeforeYear year + 365 + if isLeap year then 1 else 0 := by
  have hleap : isLeap year = true ↔ year % 4 = 0 ∧ (year % 100 ≠ 0 ∨ year % 400 = 0) := by
    simp [isLeap]
  split
  · next h =>
    have := hleap.mp h
    simp only [daysBeforeYear]
    omega
  · next h =>
    have := mt hleap.mpr h
    simp only [daysBeforeYear]
    omega

theorem daysBeforeYear_add (year : ℤ) (n : ℕ) :
    daysBeforeYear year + 365 * n ≤ daysBeforeYear (year + n) := by
  induction n with
  | zero => simp
  | succ n ih =>
    have hstep := daysBeforeYear_succ (year + n)
    have hleap : (0 : ℤ) ≤ if isLeap (year + n) then 1 else 0 := by split <;> decide
    rw [Nat.cast_add, Nat.cast_one, ← add_assoc, hstep]
    linarith

theorem daysBeforeYear_mono {a b : ℤ} (h : a ≤ b) : daysBeforeYear a ≤ daysBeforeYear b := by
  obtain ⟨n, rfl⟩ := Int.le.dest h
  have hadd := daysBeforeYear_add a n
  omega

/-- The days before a year by the cycles of 400, 100 and 4 years that are over. -/
theorem daysBeforeYear_cycles {a b c d : ℤ} (hb : 0 ≤ b ∧ b ≤ 3) (hc : 0 ≤ c ∧ c ≤ 24)
    (hd : 0 ≤ d ∧ d ≤ 3) :
    daysBeforeYear (a * 400 + b * 100 + c * 4 + d + 1) =
      146097 * a + 36524 * b + 1461 * c + 365 * d := by
  have h4 : (a * 400 + b * 100 + c * 4 + d + 1 - 1) / 4 = 100 * a + 25 * b + c := by omega
  have h100 : (a * 400 + b * 100 + c * 4 + d + 1 - 1) / 100 = 4 * a + b := by omega
  have h400 : (a * 400 + b * 100 + c * 4 + d + 1 - 1) / 400 = a := by omega
  rw [daysBeforeYear, h4, h100, h400]
  omega

theorem isLeap_cycles {a b c d : ℤ} (hb : 0 ≤ b ∧ b ≤ 3) (hc : 0 ≤ c ∧ c ≤ 24)
    (hd : 0 ≤ d ∧ d ≤ 3) :
    isLeap (a * 400 + b * 100 + c * 4 + d + 1) = true ↔ d = 3 ∧ (c ≠ 24 ∨ b = 3) := by
  simp only [isLeap, Bool.and_eq_true, Bool.or_eq_true, decide_eq_true_eq]
  omega

/-- A date falls in its year. -/
theorem yearOf_spec (day : ℤ) :
    daysBeforeYear (yearOf day) < day ∧ day ≤ daysBeforeYear (yearOf day + 1) := by
  simp only [yearOf]
  obtain ⟨a, ha⟩ : ∃ a, a = (day - 1) / 146097 := ⟨_, rfl⟩
  obtain ⟨b, hb⟩ : ∃ b, b = (day - 1) % 146097 / 36524 := ⟨_, rfl⟩
  obtain ⟨c, hc⟩ : ∃ c, c = (day - 1) % 146097 % 36524 / 1461 := ⟨_, rfl⟩
  obtain ⟨d, hd⟩ : ∃ d, d = (day - 1) % 146097 % 36524 % 1461 / 365 := ⟨_, rfl⟩
  rw [← ha, ← hb, ← hc, ← hd]
  rw [daysBeforeYear_succ]
  by_cases hlast : d = 4 ∨ b = 4
  · -- The last day of a leap year, or of 400 years.
    rw [if_pos hlast]
    obtain hd4 | hb4 := hlast
    · have hyear : a * 400 + b * 100 + c * 4 + d + 1 - 1 = a * 400 + b * 100 + c * 4 + 3 + 1 := by
        omega
      have hbounds : (0 ≤ b ∧ b ≤ 3) ∧ (0 ≤ c ∧ c ≤ 24) ∧ (c ≠ 24 ∨ b = 3) := by omega
      obtain ⟨hb3, hc24, hleap⟩ := hbounds
      rw [hyear, daysBeforeYear_cycles hb3 hc24 (by decide)]
      rw [if_pos ((isLeap_cycles hb3 hc24 (by decide)).mpr ⟨rfl, hleap⟩)]
      omega
    · have hyear : a * 400 + b * 100 + c * 4 + d + 1 - 1 = a * 400 + 3 * 100 + 24 * 4 + 3 + 1 := by
        omega
      rw [hyear, daysBeforeYear_cycles (by decide) (by decide) (by decide)]
      rw [if_pos ((isLeap_cycles (by decide) (by decide) (by decide)).mpr (by decide))]
      omega
  · rw [if_neg hlast]
    have hbounds : (0 ≤ b ∧ b ≤ 3) ∧ (0 ≤ c ∧ c ≤ 24) ∧ (0 ≤ d ∧ d ≤ 3) := by omega
    obtain ⟨hb3, hc24, hd3⟩ := hbounds
    rw [daysBeforeYear_cycles hb3 hc24 hd3]
    have hnext : (0 : ℤ) ≤ if isLeap (a * 400 + b * 100 + c * 4 + d + 1) then 1 else 0 := by
      split <;> decide
    omega

theorem yearOf_le {day year : ℤ} (h : day ≤ daysBeforeYear (year + 1)) : yearOf day ≤ year := by
  by_contra hlt
  have hmono := daysBeforeYear_mono (a := year + 1) (b := yearOf day) (by omega)
  have hspec := (yearOf_spec day).1
  omega

/-- A date is that of its year, month and day. -/
theorem ordinal_parts (day : ℤ) : ordinal (yearOf day) (monthOf day) (dayOf day) = day := by
  simp only [ordinal, dayOf, dayOfYear]
  omega

theorem daysBeforeMonth_leap (a b : Bool) (month : ℕ) :
    daysBeforeMonth a month ≤ daysBeforeMonth b month + 1 := by
  simp only [daysBeforeMonth]
  split <;> split <;> omega

/-- The same month and day of an earlier year is a year earlier, short of a day. -/
theorem ordinal_earlier (year : ℤ) (n : ℕ) (month : ℕ) (day : ℤ) :
    ordinal (year - n) month day + 365 * n ≤ ordinal year month day + 1 := by
  have hyears := daysBeforeYear_add (year - n) n
  have hmonths := daysBeforeMonth_leap (isLeap (year - n)) (isLeap year) month
  rw [sub_add_cancel] at hyears
  simp only [ordinal]
  omega

theorem yearOf_eq {day year : ℤ} (h : daysBeforeYear year < day)
    (h' : day ≤ daysBeforeYear (year + 1)) : yearOf day = year := by
  have hle := yearOf_le h'
  have hspec := (yearOf_spec day).2
  by_contra hne
  have hmono := daysBeforeYear_mono (show yearOf day + 1 ≤ year by omega)
  omega

/-! ## Months -/

theorem daysInMonth_mem (leap : Bool) {month : ℕ} (h : month ≤ 12) :
    28 ≤ daysInMonth leap month ∧ daysInMonth leap month ≤ 31 := by
  interval_cases month <;> cases leap <;> decide

theorem daysInMonth_le_leap (leap : Bool) (month : ℕ) :
    daysInMonth leap month ≤ daysInMonth true month := by
  cases leap with
  | true => exact le_rfl
  | false =>
    simp only [daysInMonth]
    rw [if_neg (by simp)]
    split <;> simp

theorem daysBeforeMonth_one (leap : Bool) : daysBeforeMonth leap 1 = 0 := by
  cases leap <;> decide

theorem daysBeforeMonth_succ (leap : Bool) {month : ℕ} (h : 1 ≤ month) (h' : month < 12) :
    daysBeforeMonth leap (month + 1) = daysBeforeMonth leap month + daysInMonth leap month := by
  interval_cases month <;> cases leap <;> decide

theorem daysBeforeMonth_last (leap : Bool) :
    daysBeforeMonth leap 12 + daysInMonth leap 12 = 365 + if leap then 1 else 0 := by
  cases leap <;> decide

/-- As many of the bounds are passed as come before the first that is not. -/
theorem countP_passed {bound : ℕ → ℤ} {n : ℕ} (hmono : ∀ m, 1 ≤ m → m < n → bound m ≤ bound (m + 1))
    (d : ℤ) {m : ℕ} (h : 1 ≤ m) (h' : m ≤ n) :
    bound m < d ↔ m ≤ (List.range' 1 n).countP fun m => bound m < d := by
  induction n generalizing m with
  | zero => omega
  | succ n ih =>
    have hrange : List.range' 1 (n + 1) = List.range' 1 n ++ [n + 1] := by
      rw [List.range'_concat]
      simp [Nat.add_comm]
    have hearlier : ∀ {m}, 1 ≤ m → m ≤ n → (bound m < d ↔
        m ≤ (List.range' 1 n).countP fun m => bound m < d) :=
      fun hm hm' => ih (fun m hm hlt => hmono m hm (by omega)) hm hm'
    have hle : ((List.range' 1 n).countP fun m => bound m < d) ≤ n := by
      have hlength := List.countP_le_length (p := fun m => decide (bound m < d)) (l := List.range' 1 n)
      rwa [List.length_range'] at hlength
    rw [hrange, List.countP_append, List.countP_singleton]
    by_cases hlast : bound (n + 1) < d
    · have hall : ((List.range' 1 n).countP fun m => bound m < d) = n := by
        by_cases hn : n = 0
        · subst hn
          rfl
        · have hprevious : bound n < d := lt_of_le_of_lt (hmono n (by omega) (by omega)) hlast
          have := (hearlier (by omega) le_rfl).mp hprevious
          omega
      rw [hall]
      simp only [hlast, decide_true, if_true]
      by_cases hm : m = n + 1
      · simp [hm, hlast]
      · have := (hearlier h (by omega)).trans (by rw [hall])
        rw [this]
        omega
    · simp only [hlast, decide_false, Bool.false_eq_true, if_false]
      by_cases hm : m = n + 1
      · subst hm
        simp only [hlast, false_iff]
        omega
      · exact hearlier h (by omega)

/-- A date falls in its month. -/
theorem monthOf_spec (day : ℤ) : (1 ≤ monthOf day ∧ monthOf day ≤ 12) ∧ 1 ≤ dayOf day ∧
    dayOf day ≤ daysInMonth (isLeap (yearOf day)) (monthOf day) := by
  have hyear := yearOf_spec day
  rw [daysBeforeYear_succ] at hyear
  have hmono : ∀ m, 1 ≤ m → m < 12 → daysBeforeMonth (isLeap (yearOf day)) m ≤
      daysBeforeMonth (isLeap (yearOf day)) (m + 1) := by
    intro m hm hlt
    have hlength := (daysInMonth_mem (isLeap (yearOf day)) (show m ≤ 12 by omega)).1
    rw [daysBeforeMonth_succ _ hm hlt]
    omega
  have hpassed : ∀ {m}, 1 ≤ m → m ≤ 12 →
      (daysBeforeMonth (isLeap (yearOf day)) m < dayOfYear day ↔ m ≤ monthOf day) :=
    fun hm hm' => countP_passed hmono (dayOfYear day) hm hm'
  have hle : monthOf day ≤ 12 := List.countP_le_length
  have hge : 1 ≤ monthOf day := by
    rw [← hpassed le_rfl (by omega), daysBeforeMonth_one, dayOfYear]
    omega
  have hlast := daysBeforeMonth_last (isLeap (yearOf day))
  have hin := (hpassed hge hle).mpr le_rfl
  refine ⟨⟨hge, hle⟩, ?_, ?_⟩
  · rw [dayOf]
    omega
  · rw [dayOf]
    by_cases hdecember : monthOf day = 12
    · rw [hdecember]
      simp only [dayOfYear] at hin ⊢
      omega
    · have hnext := mt (hpassed (by omega) (by omega : monthOf day + 1 ≤ 12)).mp (by omega)
      rw [daysBeforeMonth_succ _ hge (by omega)] at hnext
      omega

end DataQ.Dates
