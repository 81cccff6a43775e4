import DataQ.Foundations.IsoTimes
import DataQ.Foundations.Numerals

/-! # Instants and durations

`core/jsonsafe.py`: the texts of datetimes and of durations. Each is read back as the nanoseconds
that it was written from, so two of them are the same text exactly where they are the same time. -/

namespace DataQ.Sanitizing
open DataQ.Dates DataQ.IsoTimes DataQ.Numerals
set_option autoImplicit false

/-- The units of numpy's datetimes and durations. -/
inductive TimeUnit
  | attoseconds
  | femtoseconds
  | picoseconds
  | ns
  | us
  | ms
  | seconds
  | minutes
  | hours
  | days
  | weeks
  | months
  | years
  | generic
  deriving DecidableEq, Repr

/-- `_NS_PER`. -/
def nsPer : TimeUnit → Option ℕ
  | .ns => some 1
  | .us => some (10 ^ 3)
  | .ms => some (10 ^ 6)
  | .seconds => some (10 ^ 9)
  | .minutes => some (60 * 10 ^ 9)
  | .hours => some (3600 * 10 ^ 9)
  | .days => some (86400 * 10 ^ 9)
  | .weeks => some (7 * 86400 * 10 ^ 9)
  | _ => none

/-- `_SUB_NS`. -/
def subNs : TimeUnit → Option ℕ
  | .picoseconds => some (10 ^ 3)
  | .femtoseconds => some (10 ^ 6)
  | .attoseconds => some (10 ^ 9)
  | _ => none

/-- A `datetime64` or a `timedelta64`: so many multiples of a unit. -/
structure Counted where
  count : ℤ
  multiple : ℕ
  unit : TimeUnit
  deriving DecidableEq, Repr

/-- What is asked of numpy. -/
structure Numpy where
  /-- `.item()` of a datetime of a day or a coarser unit, where it is a date. -/
  date : Counted → Option ℤ
  /-- The seconds of `.astype("datetime64[s]")`. -/
  castSeconds : Counted → ℤ
  /-- The nanoseconds of `.astype("timedelta64[ns]")`. -/
  castNanos : Counted → ℤ
  /-- `str` of a datetime. -/
  text : Counted → Text

/-- The ordinal of 1970-01-01. -/
def epochDay : ℤ := 719163

/-- Nine digits where there are nanoseconds, six where there are only microseconds. -/
def fraction (nanos : ℕ) : Text :=
  if nanos % 1000 ≠ 0 then '.' :: digitsOf 9 nanos
  else if nanos ≠ 0 then '.' :: digitsOf 6 (nanos / 1000)
  else []

/-- `(_EPOCH + timedelta(seconds=seconds)).isoformat()`; `none` where it overflows. -/
def momentText (seconds : ℤ) : Option Text :=
  let day := epochDay + seconds / 86400
  if 1 ≤ day ∧ day ≤ lastDay then
    some (isoDate day ++ 'T' :: isoClock ((seconds % 86400).toNat * 1000000))
  else none

/-- `_datetime64_iso`. -/
def datetime64Iso (np : Numpy) (raw : Counted) : Text :=
  match subNs raw.unit with
  | some parts => spelled raw (raw.count * raw.multiple / parts)
  | none =>
    match nsPer raw.unit with
    | some step => spelled raw (raw.count * raw.multiple * step)
    | none =>
      let raw : Counted := ⟨np.castSeconds raw, 1, .seconds⟩
      spelled raw (raw.count * raw.multiple * 10 ^ 9)
where
  spelled (raw : Counted) (total : ℤ) : Text :=
    let seconds := total / 10 ^ 9
    let nanos := (total % 10 ^ 9).toNat
    match momentText seconds with
    | some moment => moment ++ fraction nanos
    | none => np.text raw

/-- `_iso_from_ns`. -/
def isoFromNs (total : ℤ) : Text :=
  let days := total / (86400 * 10 ^ 9)
  let rest := (total % (86400 * 10 ^ 9)).toNat
  let hours := rest / (3600 * 10 ^ 9)
  let rest := rest % (3600 * 10 ^ 9)
  let minutes := rest / (60 * 10 ^ 9)
  let rest := rest % (60 * 10 ^ 9)
  let seconds := rest / 10 ^ 9
  let nanos := rest % 10 ^ 9
  let fraction := if nanos ≠ 0 then ('.' :: digitsOf 9 nanos).rdropWhile (· = '0') else []
  'P' :: ((Numeral.ofInt days).text ++ 'D' :: 'T' :: (Nat.toDigits 10 hours ++
    'H' :: (Nat.toDigits 10 minutes ++ 'M' :: (Nat.toDigits 10 seconds ++ (fraction ++ ['S'])))))

/-- A `timedelta`. -/
structure Timedelta where
  days : ℤ
  seconds : ℕ
  microseconds : ℕ
  normal : seconds < 86400 ∧ microseconds < 1000000
  deriving DecidableEq, Repr

/-- `iso_duration`. -/
def isoDuration (value : Timedelta) : Text :=
  let micros := (value.days * 86400 + value.seconds) * 10 ^ 6 + value.microseconds
  isoFromNs (micros * 1000)

/-- `_timedelta64_iso`. -/
def timedelta64Iso (np : Numpy) (raw : Counted) : Text :=
  match nsPer raw.unit with
  | some step => isoFromNs (raw.count * (raw.multiple * step : ℕ))
  | none => isoFromNs (np.castNanos raw)

/-! ## What they denote -/

/-- The attoseconds of a unit; a month and a year have no fixed length. -/
def attoseconds : TimeUnit → Option ℕ
  | .attoseconds => some 1
  | .femtoseconds => some (10 ^ 3)
  | .picoseconds => some (10 ^ 6)
  | .ns => some (10 ^ 9)
  | .us => some (10 ^ 12)
  | .ms => some (10 ^ 15)
  | .seconds => some (10 ^ 18)
  | .minutes => some (60 * 10 ^ 18)
  | .hours => some (60 * 60 * 10 ^ 18)
  | .days => some (24 * 60 * 60 * 10 ^ 18)
  | .weeks => some (7 * 24 * 60 * 60 * 10 ^ 18)
  | _ => none

/-- The whole nanoseconds of a count, since the epoch or of a duration. -/
def Counted.nanos (raw : Counted) : Option ℤ :=
  (attoseconds raw.unit).map fun size => raw.count * raw.multiple * size / 10 ^ 9

/-- Finer than a day. -/
def TimeUnit.subDay (unit : TimeUnit) : Bool :=
  unit ∈ [.attoseconds, .femtoseconds, .picoseconds, .ns, .us, .ms, .seconds, .minutes, .hours]

/-- From a nanosecond to a week. -/
def TimeUnit.fixed (unit : TimeUnit) : Bool :=
  unit ∈ [.ns, .us, .ms, .seconds, .minutes, .hours, .days, .weeks]

/-- `datetime.isoformat` of a time without a zone. -/
def naiveText (m : Moment) : Text := isoDate m.day ++ 'T' :: isoClock m.micros

/-- The nanoseconds from the epoch to a time without a zone. -/
def nanosOf (m : Moment) : ℤ := (m.day - epochDay) * (86400 * 10 ^ 9) + m.micros * 1000

/-- In the years 1 to 9999. -/
def InYears (nanos : ℤ) : Prop :=
  1 ≤ epochDay + nanos / (86400 * 10 ^ 9) ∧ epochDay + nanos / (86400 * 10 ^ 9) ≤ lastDay

def Timedelta.nanos (value : Timedelta) : ℤ :=
  value.days * (86400 * 10 ^ 9) + value.seconds * 10 ^ 9 + value.microseconds * 1000

/-! ## Reading an instant -/

def readNanos : Text → Option ℕ
  | [] => some 0
  | '.' :: text =>
    if text.length = 6 then (readNumber 6 text).map fun (micros, _) => micros * 1000
    else (readNumber 9 text).map fun (nanos, _) => nanos
  | _ => none

/-- The nanoseconds of a datetime without a zone. -/
def readInstant (text : Text) : Option ℤ := do
  let (day, text) ← readDate text
  let text ← readSign 'T' text
  let (hour, text) ← readNumber 2 text
  let text ← readSign ':' text
  let (minute, text) ← readNumber 2 text
  let text ← readSign ':' text
  let (second, text) ← readNumber 2 text
  let nanos ← readNanos text
  some ((day - epochDay) * (86400 * 10 ^ 9) +
    ((hour * 3600 + minute * 60 + second) * 10 ^ 9 + nanos : ℕ))

theorem readNanos_fraction {nanos : ℕ} (h : nanos < 10 ^ 9) :
    readNanos (fraction nanos) = some nanos := by
  unfold fraction
  by_cases hnanos : nanos % 1000 ≠ 0
  · have hread := readNumber_digitsOf h []
    rw [List.append_nil] at hread
    rw [if_pos hnanos]
    simp [readNanos, hread]
  · rw [if_neg hnanos]
    by_cases hmicros : nanos ≠ 0
    · have hlt : nanos / 1000 < 10 ^ 6 := by omega
      have hread := readNumber_digitsOf hlt []
      have hvalue : nanos / 1000 * 1000 = nanos := by omega
      rw [List.append_nil] at hread
      rw [if_pos hmicros]
      simp [readNanos, hread, hvalue]
    · have hzero : nanos = 0 := by omega
      rw [if_neg hmicros, hzero]
      rfl

/-- The text of an instant: its day, the seconds of the day and the nanoseconds. -/
def instantText (day : ℤ) (seconds nanos : ℕ) : Text :=
  isoDate day ++ 'T' :: (isoClock (seconds * 1000000) ++ fraction nanos)

theorem isoClock_seconds (seconds : ℕ) : isoClock (seconds * 1000000) =
    digitsOf 2 (seconds / 3600) ++ ':' :: (digitsOf 2 (seconds / 60 % 60) ++
      ':' :: digitsOf 2 (seconds % 60)) := by
  have hhours : seconds * 1000000 / 3600000000 = seconds / 3600 := by omega
  have hminutes : seconds * 1000000 / 60000000 = seconds / 60 := by omega
  have hseconds : seconds * 1000000 / 1000000 = seconds := by omega
  have hmicros : seconds * 1000000 % 1000000 = 0 := by omega
  rw [isoClock, hhours, hminutes, hseconds, hmicros, if_pos rfl, List.append_nil]

theorem readInstant_instantText {day : ℤ} (h : 1 ≤ day ∧ day ≤ lastDay) {seconds nanos : ℕ}
    (hseconds : seconds < 86400) (hnanos : nanos < 10 ^ 9) :
    readInstant (instantText day seconds nanos) =
      some ((day - epochDay) * (86400 * 10 ^ 9) + (seconds * 10 ^ 9 + nanos : ℕ)) := by
  have hhour : seconds / 3600 < 10 ^ 2 := by omega
  have hminute : seconds / 60 % 60 < 10 ^ 2 := by omega
  have hsecond : seconds % 60 < 10 ^ 2 := by omega
  have hclock : seconds / 3600 * 3600 + seconds / 60 % 60 * 60 + seconds % 60 = seconds := by omega
  simp only [readInstant, instantText, isoClock_seconds, List.append_assoc, List.cons_append,
    readDate_isoDate h.1 h.2, readNumber_digitsOf hhour, readNumber_digitsOf hminute,
    readNumber_digitsOf hsecond, readSign_cons, readNanos_fraction hnanos, Option.bind_eq_bind,
    Option.bind_some, hclock]

/-- The text of an instant that is so many nanoseconds from the epoch. -/
def isoOf (nanos : ℤ) : Text :=
  instantText (epochDay + nanos / (86400 * 10 ^ 9)) (nanos / 10 ^ 9 % 86400).toNat
    (nanos % 10 ^ 9).toNat

theorem readInstant_isoOf {nanos : ℤ} (h : InYears nanos) :
    readInstant (isoOf nanos) = some nanos := by
  have hseconds : (nanos / 10 ^ 9 % 86400).toNat < 86400 := by omega
  have hnanos : (nanos % 10 ^ 9).toNat < 10 ^ 9 := by omega
  rw [isoOf, readInstant_instantText h hseconds hnanos]
  congr 1
  push_cast
  omega

theorem isoOf_inj {a b : ℤ} (ha : InYears a) (hb : InYears b) : isoOf a = isoOf b ↔ a = b := by
  constructor
  · intro h
    have hread := readInstant_isoOf ha
    rw [h, readInstant_isoOf hb] at hread
    exact (Option.some.inj hread).symm
  · intro h
    rw [h]

/-! ## What the texts spell -/

theorem spelled_eq (np : Numpy) (raw : Counted) {total : ℤ} (h : InYears total) :
    datetime64Iso.spelled np raw total = isoOf total := by
  have hday : total / 10 ^ 9 / 86400 = total / (86400 * 10 ^ 9) := by omega
  have hmoment : momentText (total / 10 ^ 9) =
      some (isoDate (epochDay + total / (86400 * 10 ^ 9)) ++
        'T' :: isoClock ((total / 10 ^ 9 % 86400).toNat * 1000000)) := by
    unfold momentText
    rw [hday]
    exact if_pos h
  unfold datetime64Iso.spelled
  dsimp only
  rw [hmoment]
  simp [isoOf, instantText]

theorem datetime64Iso_eq (np : Numpy) {raw : Counted} {nanos : ℤ} (hunit : raw.unit.subDay = true)
    (hnanos : raw.nanos = some nanos) (h : InYears nanos) : datetime64Iso np raw = isoOf nanos := by
  obtain ⟨count, multiple, unit⟩ := raw
  unfold Counted.nanos at hnanos
  dsimp only at hunit hnanos
  generalize hticks : count * (multiple : ℤ) = ticks at hnanos
  have hspelled : ∀ total : ℤ, total = nanos →
      datetime64Iso.spelled np ⟨count, multiple, unit⟩ total = isoOf nanos := by
    rintro total rfl
    exact spelled_eq np _ h
  unfold datetime64Iso
  cases unit
  case attoseconds | femtoseconds | picoseconds | ns | us | ms | seconds | minutes | hours =>
    have hvalue := Option.some.inj hnanos
    simp only [subNs, nsPer, hticks]
    apply hspelled
    push_cast at hvalue ⊢
    omega
  case days | weeks | months | years | generic => exact absurd hunit (by decide)

theorem fraction_micros (micros : ℕ) : fraction (micros % 1000000 * 1000) =
    if micros % 1000000 = 0 then [] else '.' :: digitsOf 6 (micros % 1000000) := by
  unfold fraction
  have hnone : ¬ micros % 1000000 * 1000 % 1000 ≠ 0 := by omega
  have hwhole : micros % 1000000 * 1000 / 1000 = micros % 1000000 := by omega
  rw [if_neg hnone, hwhole]
  by_cases hzero : micros % 1000000 = 0
  · rw [hzero]
    rfl
  · have hsome : micros % 1000000 * 1000 ≠ 0 := by omega
    rw [if_pos hsome, if_neg hzero]

theorem inYears_nanosOf (m : Moment) : InYears (nanosOf m) := by
  obtain ⟨hday, hlast, hmicros⟩ := m.inRange
  have hvalue : epochDay + nanosOf m / (86400 * 10 ^ 9) = m.day := by
    unfold nanosOf
    omega
  unfold InYears
  rw [hvalue]
  exact ⟨hday, hlast⟩

theorem naiveText_eq (m : Moment) : naiveText m = isoOf (nanosOf m) := by
  obtain ⟨hday, hlast, hmicros⟩ := m.inRange
  have hvalue : epochDay + nanosOf m / (86400 * 10 ^ 9) = m.day := by
    unfold nanosOf
    omega
  have hseconds : (nanosOf m / 10 ^ 9 % 86400).toNat = m.micros / 1000000 := by
    unfold nanosOf
    omega
  have hnanos : (nanosOf m % 10 ^ 9).toNat = m.micros % 1000000 * 1000 := by
    unfold nanosOf
    omega
  have hhours : m.micros / 1000000 / 3600 = m.micros / 3600000000 := by omega
  have hminutes : m.micros / 1000000 / 60 = m.micros / 60000000 := by omega
  rw [isoOf, hvalue, hseconds, hnanos, instantText, fraction_micros, isoClock_seconds, hhours,
    hminutes]
  simp [naiveText, isoClock]

/-! ## Reading a duration -/

/-- The nanoseconds of a fraction that lost the zeros at its end. -/
def readTenths : Text → ℕ
  | '.' :: text => naturalOf (text.takeWhile Char.isDigit) *
      10 ^ (9 - (text.takeWhile Char.isDigit).length)
  | _ => 0

theorem readTenths_point (text : Text) : readTenths ('.' :: text) =
    naturalOf (text.takeWhile Char.isDigit) * 10 ^ (9 - (text.takeWhile Char.isDigit).length) := rfl

def readDuration (text : Text) : Option ℤ := do
  let text ← readSign 'P' text
  let text := readInteger text
  let days := text.1
  let text ← readSign 'D' text.2
  let text ← readSign 'T' text
  let text := readNatural text
  let hours := text.1
  let text ← readSign 'H' text.2
  let text := readNatural text
  let minutes := text.1
  let text ← readSign 'M' text.2
  let text := readNatural text
  let seconds := text.1
  some (days * (86400 * 10 ^ 9) +
    ((hours * 3600 + minutes * 60 + seconds) * 10 ^ 9 + readTenths text.2 : ℕ))

theorem naturalOf_digitsOf (w n : ℕ) : naturalOf (digitsOf w n) = n % 10 ^ w := value_digitsOf w n

/-- A text without the zeros at its end, with these zeros. -/
theorem stripped_zeros (digits : Text) :
    ∃ kept zeros, digits = kept ++ List.replicate zeros '0' ∧
      ('.' :: digits).rdropWhile (· = '0') = '.' :: kept := by
  induction digits using List.reverseRecOn with
  | nil => exact ⟨[], 0, rfl, rfl⟩
  | append_singleton digits c ih =>
    rw [← List.cons_append]
    by_cases hc : c = '0'
    · obtain ⟨kept, zeros, hdigits, hstrip⟩ := ih
      refine ⟨kept, zeros + 1, ?_, ?_⟩
      · rw [List.replicate_succ', ← List.append_assoc, ← hdigits, hc]
      · rw [List.rdropWhile_concat_pos _ _ _ (by simpa using hc), hstrip]
    · refine ⟨digits ++ [c], 0, by simp, ?_⟩
      rw [List.rdropWhile_concat_neg _ _ _ (by simpa using hc)]
      rfl

/-- The zeros at the end of the fraction count for nothing. -/
theorem readTenths_stripped {nanos : ℕ} (h : nanos < 10 ^ 9) :
    readTenths ((if nanos ≠ 0 then ('.' :: digitsOf 9 nanos).rdropWhile (· = '0') else []) ++
      ['S']) = nanos := by
  by_cases hzero : nanos = 0
  · subst hzero
    rfl
  · obtain ⟨kept, zeros, hdigits, hstrip⟩ := stripped_zeros (digitsOf 9 nanos)
    have hkept : ∀ c ∈ kept, c.isDigit = true := by
      intro c hc
      apply digitsOf_digits 9 nanos
      rw [hdigits]
      exact List.mem_append_left _ hc
    have hlength : kept.length + zeros = 9 := by
      have hlength := congrArg List.length hdigits
      rw [length_digitsOf, List.length_append, List.length_replicate] at hlength
      exact hlength.symm
    have hvalue : naturalOf kept * 10 ^ zeros = nanos := by
      rw [← naturalOf_append_zeros, ← hdigits, naturalOf_digitsOf, Nat.mod_eq_of_lt h]
    have hend : ∀ c ∈ ['S'].head?, c.isDigit = false := by simp
    have hzeros : 9 - kept.length = zeros := by omega
    rw [if_pos hzero, hstrip, List.cons_append]
    rw [readTenths_point, takeWhile_digits hkept hend, hzeros, hvalue]

theorem stripped_first (nanos : ℕ) :
    ∀ c ∈ ((if nanos ≠ 0 then ('.' :: digitsOf 9 nanos).rdropWhile (· = '0') else []) ++
      ['S']).head?, c.isDigit = false := by
  obtain ⟨kept, zeros, -, hstrip⟩ := stripped_zeros (digitsOf 9 nanos)
  split
  · rw [hstrip]
    simp
  · simp

theorem readDuration_isoFromNs (total : ℤ) : readDuration (isoFromNs total) = some total := by
  have hletter : ∀ (c : Char) (text : Text), c.isDigit = false →
      ∀ d ∈ (c :: text).head?, d.isDigit = false := by
    intro c text hc d hd
    obtain rfl := Option.some.inj hd
    exact hc
  generalize hrest : (total % (86400 * 10 ^ 9)).toNat = rest
  have htotal : total = total / (86400 * 10 ^ 9) * (86400 * 10 ^ 9) + rest := by omega
  have hnanos : rest % (3600 * 10 ^ 9) % (60 * 10 ^ 9) % 10 ^ 9 < 10 ^ 9 := by omega
  have hclock : (rest / (3600 * 10 ^ 9) * 3600 + rest % (3600 * 10 ^ 9) / (60 * 10 ^ 9) * 60 +
      rest % (3600 * 10 ^ 9) % (60 * 10 ^ 9) / 10 ^ 9) * 10 ^ 9 +
      rest % (3600 * 10 ^ 9) % (60 * 10 ^ 9) % 10 ^ 9 = rest := by omega
  unfold isoFromNs readDuration
  simp only [hrest, readSign_cons, Option.bind_eq_bind, Option.bind_some,
    readInteger_ofInt _ (hletter 'D' _ rfl), readNatural_toDigits _ (hletter 'H' _ rfl),
    readNatural_toDigits _ (hletter 'M' _ rfl), readNatural_toDigits _ (stripped_first _),
    readTenths_stripped hnanos, hclock]
  rw [← htotal]

theorem isoFromNs_inj {a b : ℤ} : isoFromNs a = isoFromNs b ↔ a = b := by
  constructor
  · intro h
    have hread := readDuration_isoFromNs a
    rw [h, readDuration_isoFromNs] at hread
    exact (Option.some.inj hread).symm
  · intro h
    rw [h]

theorem isoDuration_eq (value : Timedelta) : isoDuration value = isoFromNs value.nanos := by
  unfold isoDuration Timedelta.nanos
  dsimp only
  congr 1
  ring

theorem timedelta64Iso_eq (np : Numpy) {raw : Counted} {nanos : ℤ} (hunit : raw.unit.fixed = true)
    (hnanos : raw.nanos = some nanos) : timedelta64Iso np raw = isoFromNs nanos := by
  obtain ⟨count, multiple, unit⟩ := raw
  unfold Counted.nanos at hnanos
  dsimp only at hunit hnanos
  have hpush : ∀ step : ℕ, count * ((multiple * step : ℕ) : ℤ) = count * multiple * step := by
    intro step
    push_cast
    ring
  generalize hticks : count * (multiple : ℤ) = ticks at hnanos hpush
  unfold timedelta64Iso
  cases unit
  case ns | us | ms | seconds | minutes | hours | days | weeks =>
    have hvalue := Option.some.inj hnanos
    simp only [nsPer, hpush]
    congr 1
    push_cast at hvalue ⊢
    omega
  case attoseconds | femtoseconds | picoseconds | months | years | generic =>
    exact absurd hunit (by decide)

end DataQ.Sanitizing
