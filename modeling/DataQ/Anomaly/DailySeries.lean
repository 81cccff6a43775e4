import DataQ.Anomaly.Baselines
import Mathlib.Algebra.Order.Ring.Rat

/-! # The one-a-day series

`services/anomaly.py`: the series that a whole-table check keeps of its runs, a point for each
calendar day. What is stored is a function of the runs that came no earlier than any before them. -/

namespace DataQ.Anomaly
open DataQ.Series
set_option autoImplicit false

/-- Run values kept for the day in progress. -/
def dailyRunsKept : ℕ := 288

/-- `statistics.median`. -/
def median (values : List ℚ) : ℚ :=
  let sorted := values.insertionSort fun a b => a ≤ b
  let half := sorted.length / 2
  if sorted.length % 2 = 1 then sorted.getD half 0
  else (sorted.getD (half - 1) 0 + sorted.getD half 0) / 2

/-- One calendar day: the median of its runs. Their values are held only for the day in progress. -/
structure DailyPoint where
  day : Day
  value : ℚ
  runs : ℤ
  values : Option (List ℚ)
  deriving DecidableEq, Repr

structure Daily where
  timezone : Text
  points : List DailyPoint
  deriving DecidableEq, Repr

/-- `AnomalyParams` of a whole-table check. -/
structure DailyParams where
  targetMetric : Text
  window : ℕ
  seasonality : Bool
  timezone : Text

/-! ## The payload -/

/-- A stored point as it is read: a field is none where it is not what it should be. -/
structure StoredPoint where
  day : Option Day
  value : Option ℚ
  runs : Option ℤ
  values : Option (List (Option ℚ))

structure StoredDaily where
  timezone : Option Text
  points : List StoredPoint

/-- The payload, as far as the series is read from it. -/
structure DailyBaseline where
  version : ℕ
  targetMetric : Text
  daily : Option StoredDaily

/-- `as_dict`. -/
def DailyPoint.dump (p : DailyPoint) : StoredPoint :=
  ⟨some p.day, some p.value, some p.runs, p.values.map fun values => values.map some⟩

def Daily.dump (daily : Daily) : StoredDaily :=
  ⟨some daily.timezone, daily.points.map DailyPoint.dump⟩

/-- `dump_baseline`: a series without points is not written. -/
def dumpDaily (params : DailyParams) (daily : Option Daily) : DailyBaseline where
  version := baselineVersion
  targetMetric := params.targetMetric
  daily := (daily.filter fun d => !d.points.isEmpty).map Daily.dump

/-- An entry without a date or a finite value is skipped. -/
def StoredPoint.load (entry : StoredPoint) : Option DailyPoint :=
  match entry.day, entry.value with
  | some day, some value =>
    some ⟨day, value, entry.runs.getD 1, entry.values.map fun values => values.filterMap id⟩
  | _, _ => none

/-- `load_daily`. -/
def loadDaily (params : DailyParams) : Option DailyBaseline → Option Daily
  | none => none
  | some payload =>
    if payload.version = baselineVersion ∧ payload.targetMetric = params.targetMetric then
      payload.daily.map fun raw =>
        ⟨raw.timezone.getD "UTC".toList,
          byDate DailyPoint.day (raw.points.filterMap StoredPoint.load)⟩
    else none

/-! ## Recording a run -/

/-- `daily_retention_days`. -/
def dailyRetentionDays (params : DailyParams) : ℤ :=
  periodHistoryYears * 366 + params.window * if params.seasonality then 7 else 1

/-- `replace(point, values=None)`. -/
def DailyPoint.close (p : DailyPoint) : DailyPoint := { p with values := none }

/-- The points with this run, before those past the retention are dropped. -/
def addRun (points : List DailyPoint) (day : Day) (value : ℚ) : List DailyPoint :=
  match points.getLast? with
  | none => [⟨day, value, 1, some [value]⟩]
  | some last =>
    if last.day = day then
      let held := match last.values with
        | some (v :: values) => v :: values
        | _ => [last.value]
      let values := newest dailyRunsKept (held ++ [value])
      points.dropLast ++ [⟨day, median values, last.runs + 1, some values⟩]
    else points.dropLast ++ [last.close, ⟨day, value, 1, some [value]⟩]

/-- `record_daily`, or none where the first day to keep would be before all dates. -/
def recordDaily (params : DailyParams) (daily : Option Daily) (day : Day) (value : ℚ) :
    Option Daily :=
  let points := (daily.map Daily.points).getD []
  if points.getLast?.any fun last => day < last.day then some ⟨params.timezone, points⟩
  else
    let cutoff := day - dailyRetentionDays params
    if cutoff < 1 then none
    else some ⟨params.timezone, (addRun points day value).filter fun p => cutoff ≤ p.day⟩

inductive DailyEvent
  | record (day : Day) (value : ℚ)
  | reload

/-- A run that fails stores nothing. -/
def DailyEvent.step (params : DailyParams) (daily : Option Daily) : DailyEvent → Option Daily
  | .record day value => (recordDaily params daily day value).or daily
  | .reload => loadDaily params (some (dumpDaily params daily))

def runDaily (params : DailyParams) (events : List DailyEvent) : Option Daily :=
  events.foldl (DailyEvent.step params) none

/-! ## What the series stands for -/

/-- The runs that were recorded, each dated no earlier than any before it. -/
def DailyEvent.timely (params : DailyParams) (runs : List (Day × ℚ)) :
    DailyEvent → List (Day × ℚ)
  | .record day value =>
    if dailyRetentionDays params < day ∧ ∀ run ∈ runs, run.1 ≤ day then runs ++ [(day, value)]
    else runs
  | .reload => runs

def timelyRuns (params : DailyParams) (events : List DailyEvent) : List (Day × ℚ) :=
  events.foldl (DailyEvent.timely params) []

/-- The values recorded for a day, in their order. -/
def valuesOf (day : Day) (runs : List (Day × ℚ)) : List ℚ :=
  (runs.filter fun run => run.1 = day).map Prod.snd

/-- The point of a day: its values are held while no run is of a later one. -/
def pointOf (runs : List (Day × ℚ)) (day : Day) : DailyPoint :=
  let values := newest dailyRunsKept (valuesOf day runs)
  { day := day
    value := median values
    runs := (valuesOf day runs).length
    values := if ∀ run ∈ runs, run.1 ≤ day then some values else none }

/-- The points are those of the days within the retention of all runs. -/
structure Represents (params : DailyParams) (runs : List (Day × ℚ)) (points : List DailyPoint) :
    Prop where
  increasing : Increasing DailyPoint.day points
  mem_days : ∀ day, day ∈ points.map DailyPoint.day ↔
    day ∈ runs.map Prod.fst ∧ ∀ run ∈ runs, run.1 - dailyRetentionDays params ≤ day
  point : ∀ p ∈ points, p = pointOf runs p.day

variable {params : DailyParams} {runs : List (Day × ℚ)} {points : List DailyPoint} {day : Day}
  {value : ℚ}

@[simp] theorem pointOf_day (runs : List (Day × ℚ)) (day : Day) : (pointOf runs day).day = day :=
  rfl

theorem pointOf_value (runs : List (Day × ℚ)) (day : Day) :
    (pointOf runs day).value = median (newest dailyRunsKept (valuesOf day runs)) := by
  rw [pointOf]

theorem retention_nonneg (params : DailyParams) : 0 ≤ dailyRetentionDays params := by
  rw [dailyRetentionDays]
  split <;> omega

theorem valuesOf_same (runs : List (Day × ℚ)) (day : Day) (value : ℚ) :
    valuesOf day (runs ++ [(day, value)]) = valuesOf day runs ++ [value] := by
  simp [valuesOf]

theorem valuesOf_other {other : Day} (h : day ≠ other) (value : ℚ) :
    valuesOf other (runs ++ [(day, value)]) = valuesOf other runs := by
  simp [valuesOf, h]

theorem valuesOf_eq_nil (h : day ∉ runs.map Prod.fst) : valuesOf day runs = [] := by
  rw [valuesOf, List.map_eq_nil_iff, List.filter_eq_nil_iff]
  intro run hrun
  simpa using fun heq : run.1 = day => h (List.mem_map.mpr ⟨run, hrun, heq⟩)

/-- A later run closes a day. -/
theorem pointOf_later {other : Day} (h : other < day) (value : ℚ) :
    pointOf (runs ++ [(day, value)]) other = (pointOf runs other).close := by
  have hnot : ¬ ∀ run ∈ runs ++ [(day, value)], run.1 ≤ other := by
    intro hall
    have hle := hall (day, value) (by simp)
    exact absurd h (not_lt.mpr hle)
  simp only [pointOf, if_neg hnot, valuesOf_other h.ne', DailyPoint.close]

theorem exists_newest (h : runs ≠ []) : ∃ day ∈ runs.map Prod.fst, ∀ run ∈ runs, run.1 ≤ day := by
  induction runs with
  | nil => exact absurd rfl h
  | cons run runs ih =>
    by_cases hnil : runs = []
    · subst hnil
      exact ⟨run.1, by simp, by simp⟩
    · obtain ⟨day, hday, hall⟩ := ih hnil
      obtain hle | hlt := le_or_gt run.1 day
      · refine ⟨day, List.mem_cons_of_mem _ hday, fun other hother => ?_⟩
        obtain rfl | hother := List.mem_cons.mp hother
        · exact hle
        · exact hall other hother
      · refine ⟨run.1, List.mem_cons_self, fun other hother => ?_⟩
        obtain rfl | hother := List.mem_cons.mp hother
        · exact le_rfl
        · exact (hall other hother).trans hlt.le

/-- The last point is that of the newest day. -/
theorem Represents.newest_day (h : Represents params runs points) {last : DailyPoint}
    (hlast : points.getLast? = some last) :
    last.day ∈ runs.map Prod.fst ∧ ∀ run ∈ runs, run.1 ≤ last.day := by
  have hmem := List.mem_of_getLast? hlast
  have hin := ((h.mem_days last.day).mp (List.mem_map_of_mem hmem)).1
  have hne : runs ≠ [] := by
    rintro rfl
    cases hin
  refine ⟨hin, ?_⟩
  obtain ⟨day, hday, hall⟩ := exists_newest hne
  have hretention := retention_nonneg params
  have hstored : day ∈ points.map DailyPoint.day := by
    refine (h.mem_days day).mpr ⟨hday, fun run hrun => ?_⟩
    have hle := hall run hrun
    exact (sub_le_self _ hretention).trans hle
  obtain ⟨p, hp, rfl⟩ := List.mem_map.mp hstored
  have hle : p.day ≤ last.day := by
    obtain ⟨before, rfl⟩ := List.getLast?_eq_some_iff.mp hlast
    obtain hp | hp := List.mem_append.mp hp
    · exact ((List.pairwise_append.mp h.increasing).2.2 p hp last (by simp)).le
    · rw [List.mem_singleton.mp hp]
  exact fun run hrun => (hall run hrun).trans hle

theorem Represents.runs_eq_nil (h : Represents params runs []) : runs = [] := by
  by_contra hne
  obtain ⟨day, hday, hall⟩ := exists_newest hne
  have hretention := retention_nonneg params
  have hstored := (h.mem_days day).mpr
    ⟨hday, fun run hrun => (sub_le_self _ hretention).trans (hall run hrun)⟩
  cases hstored

/-! ## One run -/

/-- The points with a run that is dated no earlier than any before it. -/
structure Added (runs : List (Day × ℚ)) (points added : List DailyPoint) (day : Day) : Prop where
  increasing : Increasing DailyPoint.day added
  mem_days : ∀ d, d ∈ added.map DailyPoint.day ↔ d ∈ points.map DailyPoint.day ∨ d = day
  point : ∀ p ∈ added, p = pointOf runs p.day

/-- The points before the last are of days that are over. -/
theorem Represents.closed (h : Represents params runs points) {before : List DailyPoint}
    {last : DailyPoint} (hpoints : points = before ++ [last]) (p : DailyPoint) (hp : p ∈ before) :
    p.day < last.day ∧ p = (pointOf runs p.day).close := by
  subst hpoints
  have hlt := (List.pairwise_append.mp h.increasing).2.2 p hp last (by simp)
  have hnewest := h.newest_day (List.getLast?_concat ..)
  obtain ⟨run, hrun, hday⟩ := List.mem_map.mp hnewest.1
  have hnot : ¬ ∀ run ∈ runs, run.1 ≤ p.day := by
    intro hall
    have hle := hall run hrun
    rw [hday] at hle
    exact absurd hlt (not_lt.mpr hle)
  have hclosed : pointOf runs p.day = (pointOf runs p.day).close := by
    simp only [pointOf, if_neg hnot, DailyPoint.close]
  exact ⟨hlt, (h.point p (by simp [hp])).trans hclosed⟩

theorem addRun_first (h : Represents params runs []) (day : Day) (value : ℚ) :
    Added (runs ++ [(day, value)]) [] (addRun [] day value) day := by
  have hnil := h.runs_eq_nil
  subst hnil
  refine ⟨List.pairwise_singleton _ _, by simp [addRun], fun p hp => ?_⟩
  obtain rfl := List.mem_singleton.mp hp
  simp [pointOf, valuesOf, newest, median, dailyRunsKept]

theorem valuesOf_ne_nil (h : day ∈ runs.map Prod.fst) : valuesOf day runs ≠ [] := by
  obtain ⟨run, hrun, hday⟩ := List.mem_map.mp h
  exact List.ne_nil_of_mem
    (List.mem_map.mpr ⟨run, List.mem_filter.mpr ⟨hrun, by simpa using hday⟩, rfl⟩)

/-- The point of a day that no run is later than. -/
theorem pointOf_newest (h : ∀ run ∈ runs, run.1 ≤ day) :
    pointOf runs day = ⟨day, median (newest dailyRunsKept (valuesOf day runs)),
      (valuesOf day runs).length, some (newest dailyRunsKept (valuesOf day runs))⟩ := by
  rw [pointOf, if_pos h]

theorem newest_append (h : ∀ run ∈ runs, run.1 ≤ day) (value : ℚ) :
    ∀ run ∈ runs ++ [(day, value)], run.1 ≤ day := by
  intro run hrun
  obtain hrun | hrun := List.mem_append.mp hrun
  · exact h run hrun
  · rw [List.mem_singleton.mp hrun]

theorem addRun_same (h : Represents params runs points) {last : DailyPoint}
    (hlast : points.getLast? = some last) (value : ℚ) :
    Added (runs ++ [(last.day, value)]) points (addRun points last.day value) last.day := by
  have hnewest := h.newest_day hlast
  obtain ⟨before, rfl⟩ := List.getLast?_eq_some_iff.mp hlast
  have hpoint := (h.point last (by simp)).trans (pointOf_newest hnewest.2)
  have hne := newest_ne_nil (show 0 < dailyRunsKept by decide) (valuesOf_ne_nil hnewest.1)
  have hadd : addRun (before ++ [last]) last.day value =
      before ++ [pointOf (runs ++ [(last.day, value)]) last.day] := by
    have hkept := newest_newest_append dailyRunsKept (valuesOf last.day runs) [value]
    rw [pointOf_newest (newest_append hnewest.2 value), valuesOf_same, ← hkept]
    have hvalues : last.values = some (newest dailyRunsKept (valuesOf last.day runs)) :=
      congrArg DailyPoint.values hpoint
    have hruns : last.runs = (valuesOf last.day runs).length := congrArg DailyPoint.runs hpoint
    simp only [addRun, hlast, if_true, List.dropLast_concat, hvalues, hruns]
    obtain ⟨v, values, hheld⟩ := List.exists_cons_of_ne_nil hne
    simp only [hheld, List.length_append, List.length_singleton, Nat.cast_add, Nat.cast_one]
  rw [hadd]
  obtain ⟨hbefore, _, hlater⟩ := List.pairwise_append.mp h.increasing
  refine ⟨?_, fun d => ?_, fun p hp => ?_⟩
  · refine List.pairwise_append.mpr ⟨hbefore, List.pairwise_singleton _ _, fun p hp q hq => ?_⟩
    rw [List.mem_singleton.mp hq, pointOf_day]
    exact hlater p hp last (List.mem_singleton_self last)
  · simp
  · obtain hp | hp := List.mem_append.mp hp
    · obtain ⟨hlt, hclosed⟩ := h.closed rfl p hp
      rw [pointOf_later hlt]
      exact hclosed
    · rw [List.mem_singleton.mp hp, pointOf_day]

theorem addRun_later (h : Represents params runs points) {last : DailyPoint}
    (hlast : points.getLast? = some last) (hlt : last.day < day) (value : ℚ) :
    Added (runs ++ [(day, value)]) points (addRun points day value) day := by
  have hnewest := h.newest_day hlast
  obtain ⟨before, rfl⟩ := List.getLast?_eq_some_iff.mp hlast
  have hall : ∀ run ∈ runs, run.1 ≤ day := fun run hrun => (hnewest.2 run hrun).trans hlt.le
  have hfresh : valuesOf day runs = [] := by
    apply valuesOf_eq_nil
    intro hmem
    obtain ⟨run, hrun, rfl⟩ := List.mem_map.mp hmem
    exact absurd hlt (not_lt.mpr (hnewest.2 run hrun))
  have hpoint : pointOf (runs ++ [(day, value)]) day = ⟨day, value, 1, some [value]⟩ := by
    rw [pointOf_newest (newest_append hall value), valuesOf_same, hfresh, List.nil_append]
    simp [newest, median, dailyRunsKept]
  have hadd : addRun (before ++ [last]) day value =
      before ++ [last.close, pointOf (runs ++ [(day, value)]) day] := by
    simp only [addRun, hlast, if_neg hlt.ne, List.dropLast_concat, hpoint]
  rw [hadd]
  obtain ⟨hbefore, _, hlater⟩ := List.pairwise_append.mp h.increasing
  refine ⟨?_, fun d => ?_, fun p hp => ?_⟩
  · have hpair : Increasing DailyPoint.day
        [last.close, pointOf (runs ++ [(day, value)]) day] := by
      simpa [DailyPoint.close] using hlt
    refine List.pairwise_append.mpr ⟨hbefore, hpair, fun p hp q hq => ?_⟩
    have hplast := hlater p hp last (List.mem_singleton_self last)
    obtain rfl | hq := List.mem_cons.mp hq
    · exact hplast
    · rw [List.mem_singleton.mp hq, pointOf_day]
      exact hplast.trans hlt
  · simp [DailyPoint.close, or_assoc]
  · obtain hp | hp := List.mem_append.mp hp
    · obtain ⟨hplt, hclosed⟩ := h.closed rfl p hp
      rw [pointOf_later (hplt.trans hlt)]
      exact hclosed
    · obtain rfl | hp := List.mem_cons.mp hp
      · show last.close = pointOf (runs ++ [(day, value)]) last.day
        rw [pointOf_later hlt, ← h.point last (by simp)]
      · rw [List.mem_singleton.mp hp, pointOf_day]

/-- What is past the retention of the new run is dropped, and of no other. -/
theorem Added.represents {added : List DailyPoint} (h : Represents params runs points)
    (hall : ∀ run ∈ runs, run.1 ≤ day)
    (hadded : Added (runs ++ [(day, value)]) points added day) :
    Represents params (runs ++ [(day, value)])
      (added.filter fun p => day - dailyRetentionDays params ≤ p.day) := by
  refine ⟨hadded.increasing.filter _, fun d => ?_, fun p hp => ?_⟩
  · have hkept : d ∈ (added.filter fun p => day - dailyRetentionDays params ≤ p.day).map
        DailyPoint.day ↔ d ∈ added.map DailyPoint.day ∧ day - dailyRetentionDays params ≤ d := by
      simp only [List.mem_map, List.mem_filter, decide_eq_true_eq]
      constructor
      · rintro ⟨p, ⟨hp, hle⟩, rfl⟩
        exact ⟨⟨p, hp, rfl⟩, hle⟩
      · rintro ⟨⟨p, hp, rfl⟩, hle⟩
        exact ⟨p, ⟨hp, hle⟩, rfl⟩
    have hbound : (∀ run ∈ runs ++ [(day, value)], run.1 - dailyRetentionDays params ≤ d) ↔
        day - dailyRetentionDays params ≤ d := by
      constructor
      · exact fun hbound => hbound (day, value) (by simp)
      · intro hle run hrun
        have hrunle := newest_append hall value run hrun
        exact (sub_le_sub_right hrunle _).trans hle
    have hruns : d ∈ (runs ++ [(day, value)]).map Prod.fst ↔ d ∈ runs.map Prod.fst ∨ d = day := by
      rw [List.map_append, List.mem_append, List.map_singleton, List.mem_singleton]
    rw [hkept, hadded.mem_days, hbound, hruns, h.mem_days]
    apply and_congr_left
    intro hle
    apply or_congr_left
    refine and_iff_left fun run hrun => ?_
    exact (sub_le_sub_right (hall run hrun) _).trans hle
  · exact hadded.point p (List.mem_filter.mp hp).1

theorem addRun_added (h : Represents params runs points)
    (hold : ¬ (points.getLast?.any fun last => decide (day < last.day)) = true) (value : ℚ) :
    (∀ run ∈ runs, run.1 ≤ day) ∧
      Added (runs ++ [(day, value)]) points (addRun points day value) day := by
  cases hlast : points.getLast? with
  | none =>
    rw [List.getLast?_eq_none_iff] at hlast
    subst hlast
    have hnil := h.runs_eq_nil
    subst hnil
    exact ⟨fun run hrun => (nomatch hrun), addRun_first h day value⟩
  | some last =>
    have hnewest := h.newest_day hlast
    have hle : last.day ≤ day := by
      rw [hlast] at hold
      simpa using hold
    refine ⟨fun run hrun => (hnewest.2 run hrun).trans hle, ?_⟩
    obtain rfl | hlt := hle.eq_or_lt
    · exact addRun_same h hlast value
    · exact addRun_later h hlast hlt value

/-! ## Runs one after another -/

def pointsOf (daily : Option Daily) : List DailyPoint := (daily.map Daily.points).getD []

/-- The stored series is that of the runs. -/
structure Stored (params : DailyParams) (runs : List (Day × ℚ)) (daily : Option Daily) : Prop where
  represents : Represents params runs (pointsOf daily)
  written : ∀ d, daily = some d → d.timezone = params.timezone ∧ d.points ≠ []

theorem loadDaily_dump {daily : Option Daily}
    (hincreasing : Increasing DailyPoint.day (pointsOf daily))
    (hwritten : ∀ d, daily = some d → d.points ≠ []) :
    loadDaily params (some (dumpDaily params daily)) = daily := by
  rw [loadDaily, if_pos ⟨rfl, rfl⟩]
  cases daily with
  | none => rfl
  | some d =>
    obtain ⟨timezone, points⟩ := d
    have hload : ∀ p : DailyPoint, p.dump.load = some p := by
      intro p
      obtain ⟨day, value, runs, values⟩ := p
      cases values <;> simp [DailyPoint.dump, StoredPoint.load]
    have hpoints : (points.map DailyPoint.dump).filterMap StoredPoint.load = points := by
      rw [List.filterMap_map]
      have hsome : StoredPoint.load ∘ DailyPoint.dump = some := funext hload
      rw [hsome, List.filterMap_some]
    have hne : points ≠ [] := hwritten _ rfl
    have hdump : dumpDaily params (some ⟨timezone, points⟩) =
        ⟨baselineVersion, params.targetMetric,
          some ⟨some timezone, points.map DailyPoint.dump⟩⟩ := by
      simp [dumpDaily, Daily.dump, hne, Option.filter]
    rw [hdump]
    simp only [Option.map_some, Option.getD_some, hpoints]
    have hsorted : byDate DailyPoint.day points = points := Increasing.byDate_eq hincreasing
    rw [hsorted]

theorem recordDaily_older {daily : Option Daily} {last : DailyPoint}
    (hlast : (pointsOf daily).getLast? = some last) (hlt : day < last.day) (value : ℚ) :
    recordDaily params daily day value = some ⟨params.timezone, pointsOf daily⟩ := by
  rw [pointsOf] at hlast
  simp only [recordDaily, hlast, Option.any_some, hlt, decide_true, if_true, pointsOf]

theorem stored_step {daily : Option Daily} (h : Stored params runs daily) (event : DailyEvent) :
    Stored params (event.timely params runs) (event.step params daily) := by
  cases event with
  | reload =>
    have hload := @loadDaily_dump params _ h.represents.increasing
      fun d hd => (h.written d hd).2
    simp only [DailyEvent.step, DailyEvent.timely, hload]
    exact h
  | record day value =>
    simp only [DailyEvent.step, DailyEvent.timely]
    by_cases hold : ((pointsOf daily).getLast?.any fun last => decide (day < last.day)) = true
    · obtain ⟨last, hlast, hlt⟩ := (Option.any_eq_true _ _).mp hold
      have hlt : day < last.day := by simpa using hlt
      obtain ⟨hnewest, _⟩ := h.represents.newest_day hlast
      have huntimely : ¬ (dailyRetentionDays params < day ∧ ∀ run ∈ runs, run.1 ≤ day) := by
        rintro ⟨_, hall⟩
        obtain ⟨run, hrun, heq⟩ := List.mem_map.mp hnewest
        have hle := hall run hrun
        rw [heq] at hle
        exact absurd hlt (not_lt.mpr hle)
      rw [if_neg huntimely, recordDaily_older hlast hlt, Option.some_or]
      refine ⟨h.represents, fun d hd => ?_⟩
      obtain rfl := Option.some.inj hd
      exact ⟨rfl, List.ne_nil_of_mem (List.mem_of_getLast? hlast)⟩
    · obtain ⟨hall, hadded⟩ := addRun_added h.represents hold value
      have hrecord : recordDaily params daily day value =
          if day - dailyRetentionDays params < 1 then none
          else some ⟨params.timezone, (addRun (pointsOf daily) day value).filter
            fun p => day - dailyRetentionDays params ≤ p.day⟩ := by
        rw [pointsOf] at hold
        simp only [recordDaily, if_neg hold, pointsOf]
      rw [hrecord]
      by_cases hearly : day - dailyRetentionDays params < 1
      · have huntimely : ¬ (dailyRetentionDays params < day ∧ ∀ run ∈ runs, run.1 ≤ day) := by
          rintro ⟨hlt, _⟩
          exact absurd (Int.sub_pos_of_lt hlt) (not_lt.mpr (Int.lt_add_one_iff.mp hearly))
        rw [if_pos hearly, if_neg huntimely]
        exact h
      · have htimely : dailyRetentionDays params < day ∧ ∀ run ∈ runs, run.1 ≤ day :=
          ⟨Int.lt_of_sub_pos (not_lt.mp hearly), hall⟩
        rw [if_neg hearly, if_pos htimely, Option.some_or]
        have hrepresents := hadded.represents h.represents hall
        refine ⟨hrepresents, fun d hd => ?_⟩
        obtain rfl := Option.some.inj hd
        refine ⟨rfl, fun hnil => ?_⟩
        have hday := (hrepresents.mem_days day).mpr ⟨by simp, fun run hrun => ?_⟩
        · have hnil : (addRun (pointsOf daily) day value).filter
              (fun p => day - dailyRetentionDays params ≤ p.day) = [] := hnil
          rw [hnil] at hday
          cases hday
        · have hle := newest_append hall value run hrun
          exact (sub_le_self _ (retention_nonneg params)).trans hle

theorem runDaily_stored (params : DailyParams) (events : List DailyEvent) :
    Stored params (timelyRuns params events) (runDaily params events) := by
  have hfold : ∀ (events : List DailyEvent) {runs : List (Day × ℚ)} {daily : Option Daily},
      Stored params runs daily → Stored params (events.foldl (DailyEvent.timely params) runs)
        (events.foldl (DailyEvent.step params) daily) := by
    intro events
    induction events with
    | nil => exact fun h => h
    | cons event events ih => exact fun h => ih (stored_step h event)
  refine hfold events ⟨⟨List.Pairwise.nil, fun day => ?_, fun p hp => nomatch hp⟩,
    fun d hd => nomatch hd⟩
  simp [pointsOf]

/-- A compact series of the medians of the runs. -/
structure Compact (params : DailyParams) (runs : List (Day × ℚ)) (daily : Option Daily) : Prop where
  increasing : Increasing DailyPoint.day (pointsOf daily)
  retained : ∀ last, (pointsOf daily).getLast? = some last →
    ∀ p ∈ pointsOf daily, last.day - dailyRetentionDays params ≤ p.day
  held : ∀ p ∈ pointsOf daily, p.values.isSome = true ↔ (pointsOf daily).getLast? = some p
  capped : ∀ p ∈ pointsOf daily, ∀ values, p.values = some values → values.length ≤ dailyRunsKept
  median_eq : ∀ p ∈ pointsOf daily, p.value = median (newest dailyRunsKept (valuesOf p.day runs))
  older : ∀ last, (pointsOf daily).getLast? = some last → ∀ day value, day < last.day →
    recordDaily params daily day value = daily

end DataQ.Anomaly
