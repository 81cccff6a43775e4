import DataQ.Foundations.Series
import DataQ.Seasonal.Calendars
import Mathlib.Logic.Function.Basic

/-! # The yearly score

`services/seasonal.py`: a day's level, the index that its matching days of earlier years give it,
and its score against what its own earlier days were expected to be; of a whole-table run, against
the runs before it. The arithmetic is a parameter. -/

namespace DataQ.Seasonal
open DataQ.Dates DataQ.Series
set_option autoImplicit false

/-- Floats, with what `math` and `statistics` compute of them. -/
class Numbers (V : Type) extends Zero V, One V, Add V, Sub V, Mul V, Div V, LT V, LE V, BEq V where
  decidableLT : DecidableLT V
  decidableLE : DecidableLE V
  abs : V → V
  hypot : V → V → V
  fmean : List V → V
  stdev : List V → V
  /-- `1e-9`. -/
  negligible : V
  /-- `99.0`. -/
  anomalyDegenerateZ : V

attribute [reducible, instance] Numbers.decidableLT Numbers.decidableLE

/-- Python's floats, where the sums that `statistics` takes exactly are exact. -/
instance : Numbers Float where
  zero := 0
  one := 1
  decidableLT := inferInstance
  decidableLE := inferInstance
  abs := Float.abs
  hypot a b := (a * a + b * b).sqrt
  fmean values := values.foldl (· + ·) 0 / values.length.toFloat
  stdev values :=
    let mean := values.foldl (· + ·) 0 / values.length.toFloat
    ((values.foldl (fun sum v => sum + (v - mean) * (v - mean)) 0) /
      (values.length - 1).toFloat).sqrt
  negligible := 1e-9
  anomalyDegenerateZ := 99

/-- A check's points by day. -/
structure Points (V : Type) where
  entries : List (ℤ × V)
  nodup : (entries.map Prod.fst).Nodup

/-- `AnomalyParams`, as far as the scores read it. -/
structure Params where
  window : ℕ
  minPoints : ℕ
  seasonality : Bool
  weekly : Bool
  window_ge : 3 ≤ window

inductive Reason
  | noEarlierYear | zeroLevel | negativeValue | insufficientHistory | earlierYearInDeclaredPeriod
  deriving DecidableEq, Repr

/-- What a declared period did to one run's score. -/
structure DeclaredEffect where
  entry : DeclaredPeriod
  occurrence : Occurrence
  offsetDays : ℤ
  matched : List ℤ := []
  firstYear : Bool := false
  banded : Bool := true

inductive Basis
  | points | runs

structure Applied (V : Type) where
  level : V
  index : V
  matched : List ℤ
  ratios : List V
  expected : V
  zScore : V
  centre : V
  spread : V
  degenerate : Bool
  basis : Basis

/-- A run scored with the yearly comparison, or the reason that it was scored without. -/
structure YearlyScore (V : Type) where
  outcome : Except Reason (Applied V)
  declared : Option DeclaredEffect
  excludedFromLevel : ℕ

def YearlyScore.without {V : Type} (reason : Reason) (declared : Option DeclaredEffect) :
    YearlyScore V := ⟨.error reason, declared, 0⟩

def levelMinPoints : ℕ := 2

section Numbers
variable {V : Type} [Numbers V]

/-- `statistics.median`. -/
def median (values : List V) : V :=
  let sorted := values.insertionSort fun a b => a ≤ b
  let half := sorted.length / 2
  if sorted.length % 2 = 1 then sorted.getD half 0
  else (sorted.getD (half - 1) 0 + sorted.getD half 0) / (1 + 1)

def pyMax (a b : V) : V := if a < b then b else a

/-- How far the value is from the centre in spreads, and whether the spread is one of rounding. -/
def zScore (value centre spread expected : V) : V × V × Bool :=
  let negligible := Numbers.negligible * pyMax 1 (Numbers.abs expected)
  if spread ≤ negligible then
    (if Numbers.abs (value - centre) ≤ negligible then 0 else Numbers.anomalyDegenerateZ, 0, true)
  else (Numbers.abs (value - centre) / spread, spread, false)

end Numbers

/-! ## A check's history -/

/-- `bisect_left`. -/
def bisectLeft (days : List ℤ) (day : ℤ) : ℕ := (days.takeWhile fun d => d < day).length

section History
variable {V : Type} [Numbers V] (params : Params) (calendar : Calendar) (points : Points V)

def Points.value (day : ℤ) : Option V := points.entries.lookup day

/-- `sorted(points)`. -/
def Points.days : List ℤ := byDate id (points.entries.map Prod.fst)

def ordinary (day : ℤ) : Bool := (calendar.inside day).isNone

/-- `_earlier`. -/
def earlierDays (day : ℤ) : List ℤ :=
  let earlier := points.days.take (bisectLeft points.days day)
  if params.seasonality then earlier.filter fun d => weekday d = weekday day else earlier

/-- The earlier periods that the day is ordinarily scored against, oldest first. -/
def priors (day : ℤ) : List ℤ :=
  newest params.window ((earlierDays params points day).filter (ordinary calendar))

/-- `excluded_from_level`. -/
def excludedFromLevel (day : ℤ) : ℕ :=
  (newest params.window (earlierDays params points day)).countP fun d => !ordinary calendar d

def weekdayKey (day : ℤ) : ℤ := if params.seasonality then weekday day else 0

/-- `walk`, from where each key's window stands. -/
def walkFrom (recent : ℤ → List ℤ) : List ℤ → List (ℤ × List ℤ)
  | [] => []
  | day :: days =>
    let key := weekdayKey params day
    let window := recent key
    (day, window) :: walkFrom
      (if ordinary calendar day then
        Function.update recent key (newest params.window (window ++ [day])) else recent) days

/-- Every day with its `priors`, oldest first, in one pass. -/
def walk : List (ℤ × List ℤ) := walkFrom params calendar (fun _ => []) points.days

def levelOf (days : List ℤ) : Option V :=
  if days.length < levelMinPoints then none else some (median (days.filterMap points.value))

def level (day : ℤ) : Option V := levelOf points (priors params calendar points day)

/-- `_period_of`. -/
def periodOf (day : ℤ) : ℤ := if params.weekly then day - weekday day else day

/-- `_find_candidates`: the earlier periods that the day may be compared with, newest first; the
reason to give if none is usable; and the declared period that it is in, if any. -/
def candidates (day : ℤ) : List ℤ × Reason × Option DeclaredEffect :=
  match calendar.inside day with
  | none =>
    let found := ((List.range' 1 periodHistoryYears).map (matchedDay params.weekly day)).filter
      (ordinary calendar)
    (found, if found = [] then .earlierYearInDeclaredPeriod else .noEarlierYear, none)
  | some (entry, o) =>
    let offset := day - o.start
    let found := (calendar.earlierOccurrences entry o).filterMap fun earlier =>
      let matched := periodOf params (earlier.start + offset)
      if earlier.start ≤ matched ∧ matched ≤ earlier.last then some matched else none
    (found, .noEarlierYear, some { entry := entry, occurrence := o, offsetDays := offset })

structure Ratios (V : Type) where
  ratios : List V
  matched : List ℤ

/-- One candidate of `_ratios`, after what the newer ones gave. -/
def addRatio (found : Ratios V × Reason) (day : ℤ) : Ratios V × Reason :=
  match points.value day, level params calendar points day with
  | some value, some level =>
    if value < 0 ∨ level < 0 then (found.1, .negativeValue)
    else if level == 0 then (found.1, .zeroLevel)
    else (⟨found.1.ratios ++ [value / level], found.1.matched ++ [day]⟩, found.2)
  | _, _ => found

/-- What each matching earlier period was against its own level, newest first, or the reason that
there is none. -/
def ratiosOf (day : ℤ) : Except Reason (Ratios V) :=
  let (found, reason, _) := candidates params calendar day
  let (ratios, reason) := found.foldl (addRatio params calendar points) (⟨[], []⟩, reason)
  if ratios.ratios.isEmpty then .error reason else .ok ratios

def index (day : ℤ) : Option V :=
  match ratiosOf params calendar points day with
  | .error _ => none
  | .ok found => some (median found.ratios)

/-- What the day is expected to be: its level, times its index where one applies. -/
def expected (day : ℤ) : Option V :=
  (level params calendar points day).map fun level =>
    level * (index params calendar points day).getD 1

/-- The index that the day is scaled by, or 1. -/
def factor (day : ℤ) : V := (index params calendar points day).getD 1

/-- How far a prior was from what was expected of it, in proportion to that where there is one. -/
def distance (proportional : Bool) (day : ℤ) : Option V :=
  match points.value day, expected params calendar points day with
  | some got, some was =>
    if proportional then if 0 < was then some ((got - was) / was) else none
    else some (got - was)
  | _, _ => none

/-- A run's value, divided by its day's index. -/
def adjustedRun (run : ℤ × V) : Option V :=
  let f := factor params calendar points run.1
  if 0 < f then some (run.2 / f) else none

def score (day : ℤ) (value : V) : YearlyScore V :=
  match level params calendar points day with
  | none => .without .insufficientHistory none
  | some level =>
    if value < 0 ∨ level < 0 then .without .negativeValue none
    else
      let excluded := excludedFromLevel params calendar points day
      let effect := (candidates params calendar day).2.2
      let sized : Except (YearlyScore V) (Ratios V × Option DeclaredEffect) :=
        match ratiosOf params calendar points day, effect with
        | .ok found, effect => .ok (found, effect.map fun e => { e with matched := found.matched })
        | .error .noEarlierYear, some effect =>
          .ok (⟨[1], []⟩, some { effect with firstYear := true, banded := value ≤ level })
        | .error reason, effect => .error (.without reason effect)
      match sized with
      | .error without => without
      | .ok (found, effect) =>
        let factor := median found.ratios
        let expectedNow := level * factor
        let proportional : Bool := 0 < expectedNow
        let distances := (priors params calendar points day).filterMap
          (distance params calendar points proportional)
        if distances.length < max levelMinPoints params.minPoints then
          .without .insufficientHistory none
        else
          let scale := if proportional then expectedNow else 1
          let centre := expectedNow + Numbers.fmean distances * scale
          let noise := Numbers.stdev distances * scale
          let spread :=
            if proportional && 1 < found.ratios.length then
              Numbers.hypot noise (Numbers.stdev found.ratios * level)
            else noise
          let (z, spread, degenerate) := zScore value centre spread expectedNow
          { declared := effect
            excludedFromLevel := excluded
            outcome := .ok {
              level := level
              index := factor
              matched := found.matched
              ratios := found.ratios
              expected := expectedNow
              zScore := z
              centre := centre
              spread := spread
              degenerate := degenerate
              basis := .points } }

/-- A whole-table run, against the runs before it: each with its local day and value. -/
def scoreRuns (day : ℤ) (value : V) (runs : List (ℤ × V)) : YearlyScore V :=
  if value < 0 then .without .negativeValue none
  else
    let effect := (candidates params calendar day).2.2
    let sized : Except (YearlyScore V) (Ratios V × Bool) :=
      match ratiosOf params calendar points day, effect with
      | .ok found, _ => .ok (found, false)
      | .error .noEarlierYear, some _ => .ok (⟨[1], []⟩, true)
      | .error reason, effect => .error (.without reason effect)
    match sized with
    | .error without => without
    | .ok (found, firstYear) =>
      let adjusted := runs.filterMap (adjustedRun params calendar points)
      if adjusted.length < max levelMinPoints params.minPoints then
        .without .insufficientHistory effect
      else if adjusted.any fun v => v < 0 then .without .negativeValue effect
      else
        let level := Numbers.fmean adjusted
        let noise := Numbers.stdev adjusted
        let factor := median found.ratios
        let expected := level * factor
        let scaled := if 0 < factor then noise * factor else noise
        let spread :=
          if 1 < found.ratios.length then
            Numbers.hypot scaled (Numbers.stdev found.ratios * level)
          else scaled
        let effect := effect.map fun e =>
          { e with
            matched := found.matched
            firstYear := firstYear
            banded := !firstYear || value ≤ level }
        let (z, spread, degenerate) := zScore value expected spread expected
        { declared := effect
          excludedFromLevel := 0
          outcome := .ok {
            level := level
            index := factor
            matched := found.matched
            ratios := found.ratios
            expected := expected
            zScore := z
            centre := expected
            spread := spread
            degenerate := degenerate
            basis := .runs } }

/-! ## Runs one after another -/

/-- The runs that a run of `today` is ordinarily scored against. -/
def consideredRuns (today : ℤ) (pool : List (ℤ × V)) : List (ℤ × V) :=
  newest params.window
    (if params.seasonality then pool.filter fun run => weekday run.1 = weekday today else pool)

/-- `whole_table_yearly`: the score of a run, and with a calendar attached the score that it would
have had without one. Runs on a declared day are left out of those before it. -/
def wholeTableYearly (calendar : Option Calendar) (today : ℤ) (value : V) (dated : List (ℤ × V)) :
    YearlyScore V × Option (YearlyScore V) :=
  let attached := calendar.getD []
  let pool := dated.filter fun run => ordinary attached run.1
  let excluded := (consideredRuns params today dated).countP fun run => !ordinary attached run.1
  ({ scoreRuns params attached points today value (consideredRuns params today pool) with
      excludedFromLevel := excluded },
    calendar.map fun _ =>
      scoreRuns params [] points today value (consideredRuns params today dated))

/-- Runs of a whole-table check, each judged against those before it. -/
def replayRuns (calendar : Option Calendar) (past : List (ℤ × V)) :
    List (ℤ × V) → List (YearlyScore V × Option (YearlyScore V))
  | [] => []
  | run :: runs =>
    wholeTableYearly params points calendar run.1 run.2 past ::
      replayRuns calendar (past ++ [run]) runs

/-- Runs of a per-period check. -/
def replay (runs : List (ℤ × V)) : List (YearlyScore V) :=
  runs.map fun run => score params calendar points run.1 run.2

end History

end DataQ.Seasonal
