import DataQ.Foundations.Series
import DataQ.Foundations.Text
import DataQ.Foundations.Transition
import Mathlib.Data.Rat.Defs

/-! # The baseline of a per-period check

`services/anomaly.py`: the payload in which the periods that a check was judged by are stored, what
reads it back, and the seeding of a check's history from the table's own rows. -/

namespace DataQ.Anomaly
open DataQ.Series
set_option autoImplicit false

/-! ## Periods -/

/-- A date, by `date.toordinal`. -/
abbrev Day := ℤ

/-- `date.weekday`: Monday is zero. -/
def weekday (day : Day) : ℤ := (day + 6) % 7

inductive PeriodUnit
  | day | week
  deriving DecidableEq, Repr

/-- `_period_signature`. -/
structure Signature where
  dateColumn : Text
  unit : PeriodUnit
  valueColumn : Option Text
  deriving DecidableEq, Repr

def PeriodUnit.length : PeriodUnit → ℤ
  | .day => 1
  | .week => 7

def periodHistoryYears : ℕ := 3

def PeriodUnit.historyPeriods : PeriodUnit → ℕ
  | .week => periodHistoryYears * 53
  | .day => periodHistoryYears * 366

/-- `PeriodSpec.start_of`. -/
def PeriodUnit.startOf (unit : PeriodUnit) (day : Day) : Day :=
  match unit with
  | .week => day - weekday day
  | .day => day

/-- `PeriodSpec.settled`, of the local date that the settle delay leaves of now. -/
def PeriodUnit.settled (unit : PeriodUnit) (cutoff : Day) : Day × Day :=
  let last := unit.startOf cutoff
  (last - unit.length, last)

/-- `AnomalyParams`: what a run may find changed. -/
structure Params where
  window : ℕ
  seasonality : Bool
  retainSeasonalHorizon : Bool
  yearly : Bool
  backfill : Bool
  deriving DecidableEq, Repr

def anomalySeasonalWeekdays : ℕ := 7

def Params.retainedObservations (params : Params) (unit : PeriodUnit) : ℕ :=
  let rolling := params.window *
    (if params.seasonality || params.retainSeasonalHorizon then anomalySeasonalWeekdays else 1)
  rolling + unit.historyPeriods

/-! ## The payload -/

/-- A point: its period, what was measured, and whether a run measured it. -/
structure Observation where
  ts : Day
  value : ℚ
  observed : Bool := true
  deriving DecidableEq, Repr

inductive Seed
  | off
  | failed (reason : Text) (attempts : ℕ) (willRetry : Bool)
  | done (points : ℕ) (attempts : ℕ) (start : Option Day)
  deriving DecidableEq, Repr

def Seed.isDone : Seed → Bool
  | .done .. => true
  | _ => false

structure Entry where
  ts : Day
  value : ℚ
  source : Option Text
  deriving DecidableEq, Repr

def baselineVersion : ℕ := 1

def backfilled : Text := "backfilled".toList

structure Baseline where
  version : ℕ
  targetMetric : Text
  window : ℕ
  seasonality : Bool
  period : Option Signature
  seed : Option Seed
  observations : List Entry
  deriving DecidableEq, Repr

variable (metric : Text) (signature : Signature)

/-- The payload is of this version, this metric and points bucketed this way. -/
def readable (payload : Baseline) : Bool :=
  payload.version = baselineVersion && payload.targetMetric = metric &&
    payload.period = some signature

def Entry.load (entry : Entry) : Observation :=
  ⟨entry.ts, entry.value, entry.source ≠ some backfilled⟩

def Observation.dump (o : Observation) : Entry :=
  ⟨o.ts, o.value, if o.observed then none else some backfilled⟩

def loadObservations : Option Baseline → List Observation
  | none => []
  | some payload =>
    if readable metric signature payload then payload.observations.map Entry.load else []

def storedSeed : Option Baseline → Option Seed
  | none => none
  | some payload => if readable metric signature payload then payload.seed else none

def dumpBaseline (observations : List Observation) (params : Params) (seed : Option Seed) :
    Baseline where
  version := baselineVersion
  targetMetric := metric
  window := params.window
  seasonality := params.seasonality
  period := some signature
  seed := seed
  observations := observations.map Observation.dump

theorem load_dump (o : Observation) : o.dump.load = o := by
  obtain ⟨ts, value, observed⟩ := o
  cases observed <;> rfl

theorem readable_dump (observations : List Observation) (params : Params) (seed : Option Seed) :
    readable metric signature (dumpBaseline metric signature observations params seed) = true := by
  simp [readable, dumpBaseline]

/-- What is stored is read back. -/
theorem loadObservations_dump (observations : List Observation) (params : Params)
    (seed : Option Seed) :
    loadObservations metric signature
      (some (dumpBaseline metric signature observations params seed)) = observations := by
  rw [loadObservations, if_pos (readable_dump metric signature observations params seed)]
  rw [dumpBaseline, List.map_map]
  have hid : Entry.load ∘ Observation.dump = id := funext load_dump
  rw [hid, List.map_id]

theorem storedSeed_dump (observations : List Observation) (params : Params) (seed : Option Seed) :
    storedSeed metric signature
      (some (dumpBaseline metric signature observations params seed)) = seed := by
  rw [storedSeed, if_pos (readable_dump metric signature observations params seed)]
  rfl

/-! ## Seeding -/

def seedAttempts : ℕ := 3

def seedingDue (params : Params) (seed : Option Seed) : Bool :=
  params.backfill &&
    match seed with
    | none | some .off => true
    | some (.failed _ attempts _) => attempts < seedAttempts
    | some (.done ..) => false

/-- `totals[period] = totals.get(period, 0.0) + amount`. -/
def addAmount (period : Day) (amount : ℚ) : List (Day × ℚ) → List (Day × ℚ)
  | [] => [(period, amount)]
  | (p, total) :: totals =>
    if p = period then (p, total + amount) :: totals
    else (p, total) :: addAmount period amount totals

/-- The totals of the rows that fall in the periods from `start` to `before`. -/
def periodTotals (start before : Day) (rows : List (Day × ℚ)) : List (Day × ℚ) :=
  rows.foldl (fun totals row =>
    let period := signature.unit.startOf row.1
    if start ≤ period ∧ period < before then addAmount period row.2 totals else totals) []

/-- `while period < before`: a point for each period, zero where no row is. -/
def seedPoints (totals : List (Day × ℚ)) (before : Day) : ℕ → Day → List Observation
  | 0, _ => []
  | fuel + 1, period =>
    if period < before then
      ⟨period, (totals.lookup period).getD 0, false⟩ ::
        seedPoints totals before fuel (period + signature.unit.length)
    else []

/-- `seed_history`, of what the scan returned. -/
def seedHistory (before : Day) (rows : List (Day × ℚ)) : List Observation :=
  let start := signature.unit.startOf before - signature.unit.historyPeriods * signature.unit.length
  let totals := periodTotals signature start before rows
  match (totals.map Prod.fst).min? with
  | none => []
  | some first =>
    let period := first + signature.unit.length
    seedPoints signature totals before (before - period).toNat period

structure Seeding where
  points : List Observation
  report : Seed
  deriving DecidableEq, Repr

/-- A scan of the table's past: its rows, or why it failed. -/
abbrev Scan := Except Text (List (Day × ℚ))

/-- `_seed`. -/
def seeding (before : Day) (earlier : Option Seed) (scan : Scan) : Seeding :=
  let attempts := (match earlier with
    | some (.failed _ attempts _) | some (.done _ attempts _) => attempts
    | _ => 0) + 1
  match scan with
  | .error reason => ⟨[], .failed reason attempts (attempts < seedAttempts)⟩
  | .ok rows =>
    let points := seedHistory signature before rows
    ⟨points, .done points.length attempts (points.head?.map Observation.ts)⟩

variable {metric signature}

theorem unit_length_pos (unit : PeriodUnit) : 0 < unit.length := by
  cases unit <;> decide

theorem seedPoints_spec {totals : List (Day × ℚ)} {before : Day} (fuel : ℕ) (period : Day) :
    Increasing Observation.ts (seedPoints signature totals before fuel period) ∧
      ∀ o ∈ seedPoints signature totals before fuel period, period ≤ o.ts ∧ o.observed = false := by
  induction fuel generalizing period with
  | zero => exact ⟨List.Pairwise.nil, fun o ho => absurd ho List.not_mem_nil⟩
  | succ fuel ih =>
    obtain ⟨hincreasing, hlater⟩ := ih (period + signature.unit.length)
    have hlength := unit_length_pos signature.unit
    rw [seedPoints]
    split
    · refine ⟨List.pairwise_cons.mpr ⟨fun o ho => ?_, hincreasing⟩, fun o ho => ?_⟩
      · exact lt_of_lt_of_le (lt_add_of_pos_right period hlength) (hlater o ho).1
      · obtain rfl | ho := List.mem_cons.mp ho
        · exact ⟨le_refl _, rfl⟩
        · obtain ⟨hle, hback⟩ := hlater o ho
          exact ⟨(le_add_of_nonneg_right hlength.le).trans hle, hback⟩
    · exact ⟨List.Pairwise.nil, fun o ho => absurd ho List.not_mem_nil⟩

theorem seeding_increasing (before : Day) (earlier : Option Seed) (scan : Scan) :
    Increasing Observation.ts (seeding signature before earlier scan).points := by
  unfold seeding
  cases scan with
  | error reason => exact List.Pairwise.nil
  | ok rows =>
    simp only [seedHistory]
    split
    · exact List.Pairwise.nil
    · exact (seedPoints_spec _ _).1

end DataQ.Anomaly

/-! # Runs of a per-period check

`services/anomaly.py`: what a run reads, judges and writes. A run first looks at the row to see
whether the table's past is to be scanned, then reads the row under its lock, where there is one,
and holds the lock to the end of its transaction; a first row is inserted unless another run's is
there by then. -/

namespace DataQ.Anomaly
open DataQ.Series DataQ.Interleaving
set_option autoImplicit false

/-- A run: its settings, the local date that its settle delay leaves of now, what it measures and
what a scan of the table's past would return. -/
structure Input where
  params : Params
  cutoff : Day
  value : ℚ
  scan : Scan
  persist : Bool

structure Verdict where
  period : Day
  considered : List Observation
  byDay : Option (List Observation)
  write : Option Baseline

/-- The points that a verdict compares its period with. -/
def Verdict.compared (v : Verdict) : List Observation := v.considered ++ v.byDay.getD []

section
variable (metric : Text) (signature : Signature)

def Input.period (input : Input) : Day := (signature.unit.settled input.cutoff).1

/-- `_considered`. -/
def considered (observations : List Observation) (period : Day) (params : Params) :
    List Observation :=
  newest params.window
    (if params.seasonality then observations.filter fun o => weekday o.ts = weekday period
    else observations)

/-- The seeding of the run, if it is still wanted now that the row is read. -/
def wanted (params : Params) (attempt : Option Seeding) (seed : Option Seed) : Option Seeding :=
  if seedingDue params seed then attempt else none

/-- The points of an attempt that no run has judged. -/
def added (observations : List Observation) (period : Day) (attempt : Seeding) :
    List Observation :=
  attempt.points.filter fun o => o.ts ∉ observations.map Observation.ts ∧ o.ts < period

/-- What was kept, not what the scan returned. -/
def Seed.withPoints (points : ℕ) : Seed → Seed
  | .done _ attempts start => .done points attempts start
  | seed => seed

def seededPoints (observations : List Observation) (period : Day) :
    Option Seeding → List Observation
  | none => observations
  | some attempt => byDate Observation.ts (observations ++ added observations period attempt)

def seededReport (observations : List Observation) (period : Day) (persist : Bool)
    (seed : Option Seed) : Option Seeding → Option Seed
  | none => if seed = none ∧ persist then some .off else seed
  | some attempt => some (attempt.report.withPoints (added observations period attempt).length)

/-- A run from where it has read the row. -/
def judge (input : Input) (attempt : Option Seeding) (row : Option Baseline) : Verdict :=
  let period := input.period signature
  let stored := loadObservations metric signature row
  let attempt := wanted input.params attempt (storedSeed metric signature row)
  let observations := seededPoints stored period attempt
  let seed := seededReport stored period input.persist (storedSeed metric signature row) attempt
  let earlier := observations.filter fun o => o.ts < period
  let recorded := observations.any fun o => o.ts = period
  let points := byDate Observation.ts
    (if recorded then observations else observations ++ [⟨period, input.value, true⟩])
  let trimmed := newest (input.params.retainedObservations signature.unit) points
  { period := period
    considered := considered earlier period input.params
    byDay := if input.params.yearly then some earlier else none
    write :=
      if input.persist && (attempt.isSome || !recorded) then
        some (dumpBaseline metric signature trimmed input.params seed)
      else none }

/-! ## Transactions -/

structure Store where
  row : Option Baseline
  locked : Bool

inductive Stage
  | idle
  | peeked (input : Input) (attempt : Option Seeding)
  | judged (verdict : Verdict) (holds : Bool)

inductive Act
  | peek (input : Input)
  | judge
  | finish (commit : Bool)

/-- The seeding that a run makes, by the row it sees before it is its own. -/
def attemptOf (input : Input) (row : Option Baseline) : Option Seeding :=
  let seen := storedSeed metric signature row
  if input.persist && seedingDue input.params seen then
    some (seeding signature (input.period signature) seen input.scan)
  else none

def act : Act → Store → Stage → Option (Store × Stage)
  | .peek input, store, .idle =>
    some (store, .peeked input (attemptOf metric signature input store.row))
  | .judge, store, .peeked input attempt =>
    let verdict := judge metric signature input attempt store.row
    if input.persist && store.row.isSome then
      if store.locked then none else some ({ store with locked := true }, .judged verdict true)
    else some (store, .judged verdict false)
  | .finish commit, store, .judged verdict holds =>
    if holds then
      some (⟨if commit then verdict.write.or store.row else store.row, false⟩, .idle)
    else
      some ({ store with row := if commit then store.row.or verdict.write else store.row }, .idle)
  | _, _, _ => none

variable {ι : Type} [DecidableEq ι]

abbrev World (ι : Type) := Config ι Store Stage

def start (row : Option Baseline) : World ι := ⟨⟨row, false⟩, fun _ => .idle⟩

end

end DataQ.Anomaly
