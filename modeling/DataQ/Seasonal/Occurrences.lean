import DataQ.Seasonal.Calendars

/-! # The occurrences of a declared period

Which occurrence a day falls in: every occurrence that a day is in has the year of the day or the
year before as its first, and two occurrences of a range share a day only where the range leaves no
day out. A date has a year of 1 to 9999, and the search fails where it asks for another. -/

namespace DataQ.Seasonal
open DataQ.Dates
set_option autoImplicit false

variable {start last : MonthDay} {day : ℤ}

/-! ## Where the occurrences stand -/

theorem clamped_mem (leap : Bool) (d : MonthDay) :
    1 ≤ min d.day (daysInMonth leap d.month) ∧
      min d.day (daysInMonth leap d.month) ≤ daysInMonth leap d.month := by
  have hlength := (daysInMonth_mem leap d.month_mem.2).1
  have hday := d.day_mem.1
  omega

/-- The days of a month are over when a later one starts. -/
theorem daysBeforeMonth_lt (leap : Bool) {a b : ℕ} (ha : 1 ≤ a) (hab : a < b) (hb : b ≤ 12) :
    daysBeforeMonth leap a + daysInMonth leap a ≤ daysBeforeMonth leap b := by
  induction b, hab using Nat.le_induction with
  | base => exact (daysBeforeMonth_succ leap ha (by omega)).ge
  | succ n hn ih =>
    have hrest := ih (by omega)
    have hlength := (daysInMonth_mem leap (show n ≤ 12 by omega)).1
    have hnext := daysBeforeMonth_succ leap (show 1 ≤ n by omega) (by omega)
    omega

theorem monthDay_mem (year : ℤ) (d : MonthDay) :
    daysBeforeYear year < monthDay year d ∧ monthDay year d ≤ daysBeforeYear (year + 1) := by
  have hclamped := clamped_mem (isLeap year) d
  have hmonth := d.month_mem
  have hfirst : 0 ≤ daysBeforeMonth (isLeap year) d.month := by
    by_cases hone : d.month = 1
    · rw [hone, daysBeforeMonth_one]
    · have hbefore := daysBeforeMonth_lt (isLeap year) le_rfl (show 1 < d.month by omega) hmonth.2
      have hlength := (daysInMonth_mem (isLeap year) (show 1 ≤ 12 by decide)).1
      rw [daysBeforeMonth_one] at hbefore
      omega
  have hlast : daysBeforeMonth (isLeap year) d.month + daysInMonth (isLeap year) d.month ≤
      365 + if isLeap year then 1 else 0 := by
    rw [← daysBeforeMonth_last]
    by_cases htwelve : d.month = 12
    · rw [htwelve]
    · have hbefore := daysBeforeMonth_lt (isLeap year) hmonth.1 (show d.month < 12 by omega) le_rfl
      have hlength := (daysInMonth_mem (isLeap year) (le_refl 12)).1
      omega
  rw [daysBeforeYear_succ]
  simp only [monthDay, ordinal]
  omega

theorem yearOf_monthDay (year : ℤ) (d : MonthDay) : yearOf (monthDay year d) = year :=
  yearOf_eq (monthDay_mem year d).1 (monthDay_mem year d).2

/-- The year in which the occurrence that starts in `year` ends. -/
def endYear (start last : MonthDay) (year : ℤ) : ℤ := if wraps start last then year + 1 else year

theorem contains_iff {o : Occurrence} : o.contains day = true ↔ o.start ≤ day ∧ day ≤ o.last := by
  simp [Occurrence.contains]

/-- An occurrence that the day is in starts in the year of the day or in the year before. -/
theorem year_of_contains {year : ℤ} (h : (occurrence start last year).contains day = true) :
    year = yearOf day ∨ year = yearOf day - 1 ∧ wraps start last = true := by
  obtain ⟨hstart, hlast⟩ := contains_iff.mp h
  have hfirst := (monthDay_mem year start).1
  simp only [occurrence] at hstart hlast
  by_cases hwraps : wraps start last = true
  · rw [if_pos hwraps] at hlast
    have hend := (monthDay_mem (year + 1) last).2
    have hspec := yearOf_spec day
    by_cases hyear : day ≤ daysBeforeYear (year + 1)
    · left
      exact (yearOf_eq (by omega) hyear).symm
    · right
      refine ⟨?_, hwraps⟩
      have hnext : yearOf day = year + 1 := yearOf_eq (by omega) (by omega)
      omega
  · rw [if_neg hwraps] at hlast
    have hend := (monthDay_mem year last).2
    left
    exact (yearOf_eq (by omega) (by omega)).symm

/-! ## Two occurrences -/

/-- A range that ends before the day it starts on does so in every year, save where the days are
28 and 29 February and the year has only the one. -/
theorem monthDay_lt_of_wraps {year : ℤ} (hwraps : wraps start last = true)
    (h : monthDay year start ≤ monthDay year last) :
    (start.month = 2 ∧ start.day = 29) ∧ last.month = 2 ∧ last.day = 28 := by
  have hstart := clamped_mem (isLeap year) start
  have hlast := clamped_mem (isLeap year) last
  simp only [monthDay, ordinal] at h
  simp only [wraps, Bool.or_eq_true, Bool.and_eq_true, decide_eq_true_eq] at hwraps
  obtain hmonth | ⟨hmonth, hday⟩ := hwraps
  · have hbefore := daysBeforeMonth_lt (isLeap year) last.month_mem.1 hmonth start.month_mem.2
    omega
  · rw [hmonth] at h hlast
    have hbound := start.day_mem.2
    have hfebruary : start.month = 2 := by
      by_contra hne
      have hsame : daysInMonth (isLeap year) start.month = daysInMonth true start.month := by
        simp [daysInMonth, hne]
      omega
    rw [hfebruary] at h hbound hlast
    have htrue : daysInMonth true 2 = 29 := rfl
    have hlength := (daysInMonth_mem (isLeap year) (show 2 ≤ 12 by decide)).1
    refine ⟨⟨hfebruary, ?_⟩, hmonth.trans hfebruary, ?_⟩
    · omega
    · omega

/-- The range leaves no day out. -/
def CoversEveryDay (start last : MonthDay) : Prop :=
  ∀ day, ∃ year, (occurrence start last year).contains day = true

theorem coversEveryDay_leap (hstart : start.month = 2 ∧ start.day = 29)
    (hlast : last.month = 2 ∧ last.day = 28) : CoversEveryDay start last := by
  have hwraps : wraps start last = true := by simp [wraps, hstart, hlast]
  intro day
  have hspec := yearOf_spec day
  have hends : ∀ year, monthDay year start ≤ monthDay year last + 1 ∧
      (occurrence start last year).last = monthDay (year + 1) last := by
    intro year
    refine ⟨?_, by simp only [occurrence, hwraps, if_true]⟩
    simp only [monthDay, ordinal, hstart, hlast]
    omega
  by_cases hlater : monthDay (yearOf day) start ≤ day
  · refine ⟨yearOf day, contains_iff.mpr ⟨hlater, ?_⟩⟩
    rw [(hends (yearOf day)).2]
    have hnext := (monthDay_mem (yearOf day + 1) last).1
    omega
  · refine ⟨yearOf day - 1, contains_iff.mpr ⟨?_, ?_⟩⟩
    · have hfirst := (monthDay_mem (yearOf day - 1) start).2
      rw [sub_add_cancel] at hfirst
      simp only [occurrence]
      omega
    · rw [(hends (yearOf day - 1)).2, sub_add_cancel]
      have hgap := (hends (yearOf day)).1
      omega

/-- Two occurrences of a range that leaves a day out share none. -/
theorem occurrence_unique (hleaves : ¬ CoversEveryDay start last) {a b : ℤ}
    (ha : (occurrence start last a).contains day = true)
    (hb : (occurrence start last b).contains day = true) : a = b := by
  -- Of two, the later starts in the year in which the earlier ends.
  have hnever : ¬ ((occurrence start last (yearOf day)).contains day = true ∧
      (occurrence start last (yearOf day - 1)).contains day = true ∧
      wraps start last = true) := by
    rintro ⟨hlater, hearlier, hwraps⟩
    apply hleaves
    have hstart := (contains_iff.mp hlater).1
    have hlast := (contains_iff.mp hearlier).2
    simp only [occurrence] at hstart hlast
    rw [if_pos hwraps, sub_add_cancel] at hlast
    obtain ⟨hs, hl⟩ := monthDay_lt_of_wraps hwraps (hstart.trans hlast)
    exact coversEveryDay_leap hs hl
  obtain rfl | ⟨rfl, hwraps⟩ := year_of_contains ha
  · obtain rfl | ⟨rfl, hwraps⟩ := year_of_contains hb
    · rfl
    · exact absurd ⟨ha, hb, hwraps⟩ hnever
  · obtain rfl | ⟨rfl, _⟩ := year_of_contains hb
    · exact absurd ⟨hb, ha, hwraps⟩ hnever
    · rfl

/-! ## The search -/

/-- An occurrence of the entry: of a recurring one, in any year. -/
def DeclaredPeriod.Applies (entry : DeclaredPeriod) (o : Occurrence) : Prop :=
  match entry.kind with
  | .dated o' _ => o = o'
  | .recurring start last => ∃ year, o = occurrence start last year

def DeclaredPeriod.CoversEveryDay (entry : DeclaredPeriod) : Prop :=
  ∃ start last, entry.kind = .recurring start last ∧ Seasonal.CoversEveryDay start last

/-- The search finds an occurrence of the entry that the day is in, where there is one. -/
theorem containing_spec (entry : DeclaredPeriod) (day : ℤ) :
    (∀ o, entry.containing day = some o → entry.Applies o ∧ o.contains day = true) ∧
      ((∃ o, entry.Applies o ∧ o.contains day = true) → (entry.containing day).isSome = true) := by
  constructor
  · intro o ho
    refine ⟨?_, contains_iff.mpr (containing_mem ho)⟩
    unfold DeclaredPeriod.Applies
    split
    · next o' _ hkind =>
      rw [DeclaredPeriod.containing, hkind] at ho
      simp only [Option.ite_none_right_eq_some] at ho
      exact (Option.some.inj ho.2).symm
    · next start last hkind => exact containing_recurring hkind ho
  · rintro ⟨o, happlies, hcontains⟩
    unfold DeclaredPeriod.Applies at happlies
    split at happlies
    · next o' _ hkind =>
      subst happlies
      rw [DeclaredPeriod.containing, hkind]
      simp [hcontains]
    · next start last hkind =>
      obtain ⟨year, rfl⟩ := happlies
      rw [DeclaredPeriod.containing, hkind, List.findSome?_isSome_iff]
      refine ⟨year, ?_, by simp [hcontains]⟩
      obtain rfl | ⟨rfl, _⟩ := year_of_contains hcontains
      · exact List.mem_cons_self
      · exact List.mem_cons_of_mem _ List.mem_cons_self

theorem applies_unique {entry : DeclaredPeriod} (hleaves : ¬ entry.CoversEveryDay)
    {a b : Occurrence} (ha : entry.Applies a) (hb : entry.Applies b)
    (hina : a.contains day = true) (hinb : b.contains day = true) : a = b := by
  unfold DeclaredPeriod.Applies at ha hb
  cases hkind : entry.kind with
  | dated o series =>
    simp only [hkind] at ha hb
    rw [ha, hb]
  | recurring start last =>
    simp only [hkind] at ha hb
    obtain ⟨x, rfl⟩ := ha
    obtain ⟨y, rfl⟩ := hb
    rw [occurrence_unique (fun hevery => hleaves ⟨start, last, hkind, hevery⟩) hina hinb]

/-! ## The dates that there are -/

/-- `date(year, …)`, which fails outside of the years 1 to 9999. -/
def monthDay? (year : ℤ) (d : MonthDay) : Option ℤ :=
  if 1 ≤ year ∧ year ≤ 9999 then some (monthDay year d) else none

/-- `DeclaredPeriod.occurrence`. -/
def occurrence? (start last : MonthDay) (startYear : ℤ) : Option Occurrence :=
  match monthDay? startYear start,
    monthDay? (if wraps start last then startYear + 1 else startYear) last with
  | some first, some final => some ⟨first, final⟩
  | _, _ => none

/-- The loop of `containing`, which an occurrence without its dates ends. -/
def search (start last : MonthDay) (day : ℤ) : List ℤ → Option (Option Occurrence)
  | [] => some none
  | startYear :: years =>
    match occurrence? start last startYear with
    | none => none
    | some o => if o.contains day then some (some o) else search start last day years

/-- `DeclaredPeriod.containing`, or none where it raises. -/
def DeclaredPeriod.containing? (entry : DeclaredPeriod) (day : ℤ) : Option (Option Occurrence) :=
  match entry.kind with
  | .dated o _ => some (if o.contains day then some o else none)
  | .recurring start last => search start last day [yearOf day, yearOf day - 1]

/-- The search comes to an occurrence that starts before the first date or ends after the last. -/
def DeclaredPeriod.searchesOutside (entry : DeclaredPeriod) (day : ℤ) : Bool :=
  match entry.kind with
  | .dated _ _ => false
  | .recurring start last => (wraps start last && yearOf day = 9999) ||
      (yearOf day = 1 && !(occurrence start last 1).contains day)

/-- Both ends of the occurrence that starts in the year have dates. -/
def Dated (start last : MonthDay) (year : ℤ) : Prop :=
  1 ≤ year ∧ year ≤ 9999 ∧ (wraps start last = true → year < 9999)

theorem occurrence?_dated {year : ℤ} (h : Dated start last year) :
    occurrence? start last year = some (occurrence start last year) := by
  obtain ⟨hlow, hhigh, hnext⟩ := h
  simp only [occurrence?, monthDay?, occurrence]
  rw [if_pos ⟨hlow, hhigh⟩]
  cases hwraps : wraps start last with
  | true =>
    have hnext := hnext hwraps
    simp only [if_true]
    rw [if_pos (by omega)]
  | false => simp [hlow, hhigh]

theorem occurrence?_undated {year : ℤ} (h : ¬ Dated start last year) :
    occurrence? start last year = none := by
  simp only [occurrence?, monthDay?]
  by_cases hyear : 1 ≤ year ∧ year ≤ 9999
  · have hwraps : wraps start last = true := by
      by_contra hnot
      exact h ⟨hyear.1, hyear.2, fun hwraps => absurd hwraps hnot⟩
    have hlast : ¬ year < 9999 := fun hlt => h ⟨hyear.1, hyear.2, fun _ => hlt⟩
    simp only [hwraps, if_true]
    rw [if_pos hyear, if_neg (by omega)]
  · rw [if_neg hyear]

theorem search_dated {year : ℤ} (h : Dated start last year) (years : List ℤ) :
    search start last day (year :: years) =
      if (occurrence start last year).contains day then some (some (occurrence start last year))
      else search start last day years := by
  rw [search, occurrence?_dated h]

theorem search_undated {year : ℤ} (h : ¬ Dated start last year) (years : List ℤ) :
    search start last day (year :: years) = none := by
  rw [search, occurrence?_undated h]

theorem containing?_eq (entry : DeclaredPeriod) {day : ℤ}
    (hday : 1 ≤ yearOf day ∧ yearOf day ≤ 9999) :
    entry.containing? day =
      if entry.searchesOutside day = true then none else some (entry.containing day) := by
  cases hkind : entry.kind with
  | dated o series =>
    simp [DeclaredPeriod.containing?, DeclaredPeriod.searchesOutside,
      DeclaredPeriod.containing, hkind]
  | recurring start last =>
    simp only [DeclaredPeriod.containing?, DeclaredPeriod.searchesOutside,
      DeclaredPeriod.containing, hkind, List.findSome?_cons, List.findSome?_nil]
    by_cases hthis : Dated start last (yearOf day)
    · have hwraps : (wraps start last && decide (yearOf day = 9999)) = false := by
        cases hw : wraps start last with
        | true => simp [(hthis.2.2 hw).ne]
        | false => rfl
      rw [search_dated hthis, hwraps, Bool.false_or]
      by_cases hin : (occurrence start last (yearOf day)).contains day = true
      · rw [if_pos hin, if_pos hin]
        have hfirst : ¬ ((decide (yearOf day = 1) && !(occurrence start last 1).contains day) =
            true) := by
          intro hboth
          simp only [Bool.and_eq_true, decide_eq_true_eq, Bool.not_eq_true'] at hboth
          rw [hboth.1, hboth.2] at hin
          cases hin
        rw [if_neg hfirst]
      · rw [if_neg hin, if_neg hin]
        by_cases hone : yearOf day = 1
        · have hprevious : ¬ Dated start last (yearOf day - 1) := by
            rintro ⟨hlow, _⟩
            omega
          rw [search_undated hprevious]
          rw [hone] at hin ⊢
          simp [hin]
        · have hprevious : Dated start last (yearOf day - 1) :=
            ⟨by omega, by omega, fun _ => by omega⟩
          rw [search_dated hprevious, search]
          simp only [hone, decide_false, Bool.false_and, Bool.false_eq_true, if_false]
          split <;> rfl
    · rw [search_undated hthis]
      have hlast : wraps start last = true ∧ yearOf day = 9999 := by
        by_contra hnot
        refine hthis ⟨hday.1, hday.2, fun hwraps => ?_⟩
        have hne : yearOf day ≠ 9999 := fun heq => hnot ⟨hwraps, heq⟩
        omega
      simp [hlast]

/-- A search that does not come to an occurrence without dates finds the occurrence that the day is
in exactly where there is one; and no day is in two, unless the range leaves no day out. -/
theorem containing_complete (entry : DeclaredPeriod) {day : ℤ}
    (hday : 1 ≤ yearOf day ∧ yearOf day ≤ 9999) :
    (entry.containing? day = none ↔ entry.searchesOutside day = true) ∧
      (∀ found, entry.containing? day = some found →
        ((∃ o, found = some o) ↔ ∃ o, entry.Applies o ∧ o.contains day = true) ∧
          ∀ o, found = some o → entry.Applies o ∧ o.contains day = true) ∧
      (¬ entry.CoversEveryDay → ∀ a b, entry.Applies a → entry.Applies b →
        a.contains day = true → b.contains day = true → a = b) := by
  have hspec := containing_spec entry day
  rw [containing?_eq entry hday]
  refine ⟨?_, fun found hfound => ?_, fun hleaves a b => applies_unique hleaves⟩
  · split
    · next houtside => simp [houtside]
    · next hinside => simp [hinside]
  · split at hfound
    · cases hfound
    · obtain rfl := Option.some.inj hfound
      refine ⟨⟨fun hsome => ?_, fun hexists => ?_⟩, hspec.1⟩
      · obtain ⟨o, ho⟩ := hsome
        exact ⟨o, hspec.1 o ho⟩
      · exact Option.isSome_iff_exists.mp (hspec.2 hexists)

def christmas : DeclaredPeriod :=
  { id := 0
    name := "Christmas".toList
    kind := .recurring ⟨12, 20, by decide, by decide⟩ ⟨1, 5, by decide, by decide⟩ }

theorem containing_complete_newYear :
    ∃ o, christmas.containing? (ordinal 2025 1 3) = some (some o) ∧ christmas.Applies o ∧
      o.contains (ordinal 2025 1 3) = true := by
  have hfound : christmas.containing? (ordinal 2025 1 3) =
      some (some ⟨ordinal 2024 12 20, ordinal 2025 1 5⟩) := by decide
  exact ⟨_, hfound, ((containing_complete christmas (by decide)).2.1 _ hfound).2 _ rfl⟩

/-- On 3 January 9999 the search fails before it comes to the occurrence that began the year
before. -/
theorem last_newYear_not_found :
    christmas.containing? (ordinal 9999 1 3) = none ∧
      ∃ o, christmas.Applies o ∧ o = ⟨ordinal 9998 12 20, ordinal 9999 1 5⟩ ∧
        o.contains (ordinal 9999 1 3) = true := by
  refine ⟨by decide, _, ⟨9998, rfl⟩, by decide, by decide⟩

end DataQ.Seasonal
