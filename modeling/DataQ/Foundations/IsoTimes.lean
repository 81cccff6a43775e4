import DataQ.Foundations.Dates
import DataQ.Foundations.Decimal
import Mathlib.Tactic.IntervalCases

/-! # ISO times

The dates from year 1 to 9999 and the times of day in UTC, as `isoformat` writes them and as
`fromisoformat` reads what it wrote. -/

namespace DataQ.IsoTimes
open DataQ.Dates
open DataQ.Decimal (digitValue)
set_option autoImplicit false

/-! ## Digits -/

/-- The last digits of a number, so many of them. -/
def digitsOf : ℕ → ℕ → Text
  | 0, _ => []
  | w + 1, n => digitsOf w (n / 10) ++ [Nat.digitChar (n % 10)]

/-- A number of so many digits, and the text after it. -/
def readNumber (w : ℕ) (text : Text) : Option (ℕ × Text) :=
  if (text.take w).length = w ∧ (text.take w).all Char.isDigit then
    some ((text.take w).foldl digitValue 0, text.drop w)
  else none

def readSign (sign : Char) : Text → Option Text
  | c :: text => if c = sign then some text else none
  | [] => none

theorem digitChar_spec {n : ℕ} (h : n < 10) :
    (Nat.digitChar n).isDigit = true ∧ (Nat.digitChar n).toNat - 48 = n := by
  interval_cases n <;> decide

@[simp] theorem length_digitsOf (w n : ℕ) : (digitsOf w n).length = w := by
  induction w generalizing n with
  | zero => rfl
  | succ w ih => rw [digitsOf, List.length_append, ih, List.length_singleton]

theorem digitsOf_digits (w n : ℕ) : ∀ c ∈ digitsOf w n, c.isDigit = true := by
  induction w generalizing n with
  | zero => simp [digitsOf]
  | succ w ih =>
    intro c hc
    obtain hc | hc := List.mem_append.mp hc
    · exact ih _ c hc
    · rw [List.mem_singleton.mp hc]
      exact (digitChar_spec (Nat.mod_lt n (by decide))).1

theorem value_digitsOf (w n : ℕ) : (digitsOf w n).foldl digitValue 0 = n % 10 ^ w := by
  induction w generalizing n with
  | zero => simp [digitsOf, Nat.mod_one]
  | succ w ih =>
    have hdigit := (digitChar_spec (Nat.mod_lt n (show 0 < 10 by decide))).2
    rw [digitsOf, List.foldl_append, ih, List.foldl_cons, List.foldl_nil, digitValue, hdigit,
      pow_succ', Nat.mod_mul]
    omega

theorem readNumber_digitsOf {w n : ℕ} (h : n < 10 ^ w) (rest : Text) :
    readNumber w (digitsOf w n ++ rest) = some (n, rest) := by
  have htake : (digitsOf w n ++ rest).take w = digitsOf w n :=
    List.take_left' (length_digitsOf w n)
  have hdrop : (digitsOf w n ++ rest).drop w = rest := List.drop_left' (length_digitsOf w n)
  have hall : (digitsOf w n).all Char.isDigit = true :=
    List.all_eq_true.mpr (digitsOf_digits w n)
  rw [readNumber, htake, hdrop, if_pos ⟨length_digitsOf w n, hall⟩, value_digitsOf,
    Nat.mod_eq_of_lt h]

@[simp] theorem readSign_cons (sign : Char) (text : Text) :
    readSign sign (sign :: text) = some text := if_pos rfl

/-! ## Dates -/

/-- The ordinal of `date.max`. -/
def lastDay : ℤ := 3652059

/-- `date.isoformat`. -/
def isoDate (day : ℤ) : Text :=
  digitsOf 4 (yearOf day).toNat ++ '-' :: (digitsOf 2 (monthOf day) ++
    '-' :: digitsOf 2 (dayOf day).toNat)

/-- A date as `isoformat` writes it, and the text after it. -/
def readDate (text : Text) : Option (ℤ × Text) := do
  let (year, text) ← readNumber 4 text
  let text ← readSign '-' text
  let (month, text) ← readNumber 2 text
  let text ← readSign '-' text
  let (day, text) ← readNumber 2 text
  if 1 ≤ year ∧ 1 ≤ month ∧ month ≤ 12 ∧ 1 ≤ day ∧ (day : ℤ) ≤ daysInMonth (isLeap year) month then
    some (ordinal year month day, text)
  else none

theorem yearOf_range {day : ℤ} (h : 1 ≤ day) (h' : day ≤ lastDay) :
    1 ≤ yearOf day ∧ yearOf day ≤ 9999 := by
  constructor
  · have hspec := (yearOf_spec day).2
    by_contra hlt
    have hmono := daysBeforeYear_mono (show yearOf day + 1 ≤ 1 by omega)
    have hzero : daysBeforeYear 1 = 0 := by decide
    omega
  · have hlast : daysBeforeYear (9999 + 1) = lastDay := by decide
    exact yearOf_le (hlast ▸ h')

theorem readDate_isoDate {day : ℤ} (h : 1 ≤ day) (h' : day ≤ lastDay) (rest : Text) :
    readDate (isoDate day ++ rest) = some (day, rest) := by
  obtain ⟨hyear, hyear'⟩ := yearOf_range h h'
  obtain ⟨⟨hmonth, hmonth'⟩, hday, hday'⟩ := monthOf_spec day
  have hle := (daysInMonth_mem (isLeap (yearOf day)) hmonth').2
  have hyears : ((yearOf day).toNat : ℤ) = yearOf day := Int.toNat_of_nonneg (by omega)
  have hdays : ((dayOf day).toNat : ℤ) = dayOf day := Int.toNat_of_nonneg (by omega)
  have hread : readDate (isoDate day ++ rest) =
      if 1 ≤ (yearOf day).toNat ∧ 1 ≤ monthOf day ∧ monthOf day ≤ 12 ∧ 1 ≤ (dayOf day).toNat ∧
          ((dayOf day).toNat : ℤ) ≤ daysInMonth (isLeap (yearOf day).toNat) (monthOf day) then
        some (ordinal (yearOf day).toNat (monthOf day) (dayOf day).toNat, rest)
      else none := by
    have hyear4 : (yearOf day).toNat < 10 ^ 4 := by omega
    have hmonth2 : monthOf day < 10 ^ 2 := by omega
    have hday2 : (dayOf day).toNat < 10 ^ 2 := by omega
    simp only [readDate, isoDate, List.append_assoc, List.cons_append, readNumber_digitsOf hyear4,
      readNumber_digitsOf hmonth2, readNumber_digitsOf hday2, readSign_cons, Option.bind_eq_bind,
      Option.bind_some]
  rw [hread, if_pos, hyears, hdays, ordinal_parts]
  rw [hyears, hdays]
  omega

/-! ## Times in UTC -/

/-- A UTC time: its date and the microseconds of the day. -/
structure Moment where
  day : ℤ
  micros : ℕ
  inRange : 1 ≤ day ∧ day ≤ lastDay ∧ micros < 86400000000
  deriving DecidableEq, Repr

def isoClock (micros : ℕ) : Text :=
  digitsOf 2 (micros / 3600000000) ++ ':' :: (digitsOf 2 (micros / 60000000 % 60) ++
    ':' :: (digitsOf 2 (micros / 1000000 % 60) ++
      (if micros % 1000000 = 0 then [] else '.' :: digitsOf 6 (micros % 1000000))))

def utcOffset : Text := "+00:00".toList

/-- `datetime.isoformat`. -/
def Moment.isoformat (m : Moment) : Text :=
  isoDate m.day ++ 'T' :: (isoClock m.micros ++ utcOffset)

def readFraction : Text → Option (ℕ × Text)
  | '.' :: text => readNumber 6 text
  | text => some (0, text)

/-- The microseconds of a time of day, and the text after it. -/
def readClock (text : Text) : Option (ℕ × Text) := do
  let (hour, text) ← readNumber 2 text
  let text ← readSign ':' text
  let (minute, text) ← readNumber 2 text
  let text ← readSign ':' text
  let (second, text) ← readNumber 2 text
  let (micros, text) ← readFraction text
  if hour < 24 ∧ minute < 60 ∧ second < 60 then
    some (hour * 3600000000 + minute * 60000000 + second * 1000000 + micros, text)
  else none

/-- A UTC time as `isoformat` writes it. -/
def readMoment (text : Text) : Option Moment := do
  let (day, text) ← readDate text
  let text ← readSign 'T' text
  let (micros, text) ← readClock text
  if h : (1 ≤ day ∧ day ≤ lastDay ∧ micros < 86400000000) ∧ text = utcOffset then
    some ⟨day, micros, h.1⟩
  else none

theorem readFraction_micros (micros : ℕ) :
    readFraction ((if micros % 1000000 = 0 then [] else '.' :: digitsOf 6 (micros % 1000000)) ++
      utcOffset) = some (micros % 1000000, utcOffset) := by
  split
  · next hzero =>
    rw [hzero]
    rfl
  · have hlt : micros % 1000000 < 10 ^ 6 := Nat.mod_lt _ (by decide)
    exact readNumber_digitsOf hlt utcOffset

theorem readClock_isoClock {micros : ℕ} (h : micros < 86400000000) :
    readClock (isoClock micros ++ utcOffset) = some (micros, utcOffset) := by
  have hhour : micros / 3600000000 < 10 ^ 2 := by omega
  have hminute : micros / 60000000 % 60 < 10 ^ 2 := by omega
  have hsecond : micros / 1000000 % 60 < 10 ^ 2 := by omega
  simp only [readClock, isoClock, List.append_assoc, List.cons_append, readNumber_digitsOf hhour,
    readNumber_digitsOf hminute, readNumber_digitsOf hsecond, readSign_cons, readFraction_micros,
    Option.bind_eq_bind, Option.bind_some]
  rw [if_pos (by omega)]
  congr 2
  omega

/-- `fromisoformat` reads what `isoformat` wrote. -/
theorem readMoment_isoformat (m : Moment) : readMoment m.isoformat = some m := by
  obtain ⟨hday, hlast, hmicros⟩ := m.inRange
  simp only [readMoment, Moment.isoformat, readDate_isoDate hday hlast, readSign_cons,
    readClock_isoClock hmicros, Option.bind_eq_bind, Option.bind_some]
  exact dif_pos ⟨m.inRange, trivial⟩

end DataQ.IsoTimes
