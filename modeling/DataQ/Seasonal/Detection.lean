import DataQ.Anomaly.Baselines
import DataQ.Foundations.Dictionary
import DataQ.Foundations.Partition
import DataQ.Foundations.Stretches
import DataQ.Foundations.UnionFind
import DataQ.Seasonal.Causality

/-! # Detected periods

`services/seasonal.py`: the periods in a check's history that ran high against their level, and
which of them came at the same time in different years. -/

namespace DataQ.Seasonal
open DataQ.Dates DataQ.Series
set_option autoImplicit false

def detectMinDays : ℕ := 2

def detectMinWeeks : ℕ := 1

def detectSameTimeDays : ℤ := 7

/-- `DETECT_RATIO`. -/
def detectRatio {V : Type} [Numbers V] : V := (1 + 1 + 1) / (1 + 1)

/-- `AnomalyParams`, with what a detection reads of it besides. -/
structure DetectParams extends Params where
  period : Option Anomaly.PeriodUnit
  yearly : Bool
  weekly_eq : weekly = decide (period = some .week)

/-- One run of qualifying periods, both days inclusive: a week ends on Sunday. -/
structure DetectedOccurrence (V : Type) where
  start : ℤ
  last : ℤ
  peakRatio : V
  periods : ℕ
  backfilled : ℕ

inductive DetectedKind
  | recurring | seenOnce
  deriving DecidableEq

/-- Occurrences at the same time of year, oldest first. -/
structure DetectedPeriod (V : Type) where
  kind : DetectedKind
  start : ℤ
  last : ℤ
  occurrences : List (DetectedOccurrence V)
  yearsSeen : ℕ
  range : Option (MonthDay × MonthDay)
  declared : List DeclaredPeriod

inductive DetectionReason
  | notPerPeriod | noHistory | insufficientHistory
  deriving DecidableEq

/-- How the level was taken. -/
inductive LevelTaken
  | median | mean

/-- What a check's history shows, or why it shows nothing. -/
structure Detection (V : Type) where
  periods : List (DetectedPeriod V) := []
  reason : Option DetectionReason := none
  unit : Option Anomaly.PeriodUnit := none
  level : Option LevelTaken := none
  points : ℕ := 0
  backfilled : ℕ := 0
  evaluated : ℕ := 0
  first : Option ℤ := none
  last : Option ℤ := none

/-! ## The same time of year -/

/-- The month and the day of a date. -/
def MonthDay.of (day : ℤ) : MonthDay :=
  have hspec := monthOf_spec day
  have hleap : daysInMonth (isLeap (yearOf day)) (monthOf day) ≤ daysInMonth true (monthOf day) :=
    daysInMonth_le_leap _ _
  ⟨monthOf day, dayOf day, hspec.1, hspec.2.1, le_trans hspec.2.2 hleap⟩

/-- An occurrence moved by whole years. -/
structure Laid where
  years : ℤ
  start : ℤ
  last : ℤ

section Group
variable {V : Type}

def DetectedOccurrence.moved (o : DetectedOccurrence V) (years : ℤ) : Laid :=
  let start := monthDay (yearOf o.start + years) (MonthDay.of o.start)
  ⟨years, start, start + (o.last - o.start)⟩

def nearer (anchor : ℤ) (best laid : Laid) : Laid :=
  if |laid.start - anchor| < |best.start - anchor| then laid else best

/-- `_laid_on`: moved by the years that lay it nearest the anchor. -/
def laidOn (o : DetectedOccurrence V) (anchor : ℤ) : Laid :=
  let years := yearOf anchor - yearOf o.start
  [o.moved years, o.moved (years + 1)].foldl (nearer anchor) (o.moved (years - 1))

/-- `_same_time`. -/
def sameTime (a b : DetectedOccurrence V) : Bool :=
  let laid := laidOn b a.start
  laid.start ≤ a.last + detectSameTimeDays && a.start - detectSameTimeDays ≤ laid.last

/-- The entries with an occurrence in the span, by name. -/
def overlapping (entries : Calendar) (start last : ℤ) : List DeclaredPeriod :=
  let days := (List.range (last - start + 1).toNat).map fun n : ℕ => start + n
  let found := entries.filter fun e => days.any fun day => (e.containing day).isSome
  found.insertionSort fun a b => ¬ lower b.name < lower a.name

/-- The pairs at the same time, each by its places. -/
def sameTimes (occurrences : List (DetectedOccurrence V)) : List (ℕ × ℕ) :=
  (List.range occurrences.length).flatMap fun i =>
    (List.range' (i + 1) (occurrences.length - (i + 1))).filterMap fun j =>
      match occurrences[i]?, occurrences[j]? with
      | some a, some b => if sameTime a b then some (i, j) else none
      | _, _ => none

/-- The occurrences by the root of their place. -/
def groupsOf (occurrences : List (DetectedOccurrence V)) : List (List (DetectedOccurrence V)) :=
  let edges := sameTimes occurrences
  let places := List.range occurrences.length
  let parent := UnionFind.linkAll edges.length places edges
  let roots := UnionFind.roots edges.length parent places
  (Partition.grouped (roots.zip occurrences)).map Prod.snd

/-- The members of a group, the newest of which is the anchor. -/
def detectedPeriod (declared : Calendar) (members : List (DetectedOccurrence V))
    (anchor : DetectedOccurrence V) : DetectedPeriod V :=
  let laid := members.map fun o => laidOn o anchor.start
  let cycles := (laid.map Laid.years).dedup
  let latest := members.filter fun o => (laidOn o anchor.start).years = 0
  let first := ((laid.map Laid.start).min?).getD 0
  let last := ((laid.map Laid.last).max?).getD 0
  let recurring := 2 ≤ cycles.length
  { kind := if recurring then .recurring else .seenOnce
    start := ((latest.map DetectedOccurrence.start).min?).getD 0
    last := ((latest.map DetectedOccurrence.last).max?).getD 0
    occurrences := members
    yearsSeen := cycles.length
    range :=
      if recurring ∧ last - first < 365 then some (MonthDay.of first, MonthDay.of last) else none
    declared := ((members.flatMap fun o => overlapping declared o.start o.last).foldl
      (fun entries e => setField e.id e entries) []).map Prod.snd }

/-- `_group`. -/
def group (declared : Calendar) (occurrences : List (DetectedOccurrence V)) :
    List (DetectedPeriod V) :=
  byDate DetectedPeriod.start ((groupsOf occurrences).filterMap fun members =>
    let members := byDate DetectedOccurrence.start members
    members.getLast?.map (detectedPeriod declared members))

end Group

/-! ## The pass over the history -/

section Detect
variable {V : Type} [Numbers V]

/-- The open run with its ratios, the occurrences so far and how many periods were judged. -/
structure DetectState (V : Type) where
  run : List (ℤ × V) := []
  occurrences : List (DetectedOccurrence V) := []
  evaluated : ℕ := 0

section Pass
variable (params : DetectParams) (points : Points V) (unit : Anomaly.PeriodUnit)
  (backfilled : ℤ → Bool)

def minimum : ℕ := if unit = .week then detectMinWeeks else detectMinDays

def occurrenceOf (run : List (ℤ × V)) : DetectedOccurrence V :=
  { start := (run.head?.map Prod.fst).getD 0
    last := (run.getLast?.map Prod.fst).getD 0 + unit.length - 1
    peakRatio := ((run.map Prod.snd).tail.foldl pyMax ((run.map Prod.snd).headD 0))
    periods := run.length
    backfilled := run.countP fun point => backfilled point.1 }

def DetectState.close (state : DetectState V) : DetectState V :=
  { state with
    run := []
    occurrences :=
      if minimum unit ≤ state.run.length then
        state.occurrences ++ [occurrenceOf unit backfilled state.run]
      else state.occurrences }

/-- A period is judged only with enough periods before it. -/
def judged (window : List ℤ) : Bool := max levelMinPoints params.minPoints ≤ window.length

/-- The level that the ratio is taken to. -/
def detectLevel (window : List ℤ) : Option V :=
  if params.yearly then levelOf points window
  else some (Numbers.fmean (window.filterMap points.value))

/-- What a period was against its level, where it has one. -/
def ratioOf (day : ℤ) (window : List ℤ) : Option V :=
  if judged params window then
    match detectLevel params points window, points.value day with
    | some level, some value => if 0 < level ∧ 0 ≤ value then some (value / level) else none
    | _, _ => none
  else none

/-- One day of the walk. -/
def DetectState.next (state : DetectState V) (entry : ℤ × List ℤ) : DetectState V :=
  let state :=
    if state.run.getLast?.any fun point => point.1 + unit.length ≠ entry.1 then
      state.close unit backfilled
    else state
  let state :=
    if judged params entry.2 then { state with evaluated := state.evaluated + 1 } else state
  match ratioOf params points entry.1 entry.2 with
  | some ratio =>
    if detectRatio ≤ ratio then { state with run := state.run ++ [(entry.1, ratio)] }
    else state.close unit backfilled
  | none => state.close unit backfilled

def detectPass (declared : Calendar) : DetectState V :=
  ((walk params.toParams declared points).foldl (DetectState.next params points unit backfilled)
    {}).close unit backfilled

end Pass

/-- `detect`. -/
def detect (points : Points V) (params : DetectParams) (declared : Option Calendar)
    (backfilled : ℤ → Bool) : Detection V :=
  match params.period with
  | none => { reason := some .notPerPeriod }
  | some unit =>
    if points.days.isEmpty then { reason := some .noHistory, unit := unit }
    else
      let declared := declared.getD []
      let pass := detectPass params points unit backfilled declared
      { periods := group declared pass.occurrences
        reason := if pass.evaluated = 0 then some .insufficientHistory else none
        unit := unit
        level := some (if params.yearly then .median else .mean)
        points := points.days.length
        backfilled := points.days.countP backfilled
        evaluated := pass.evaluated
        first := points.days.head?
        last := points.days.getLast? }

end Detect

end DataQ.Seasonal
