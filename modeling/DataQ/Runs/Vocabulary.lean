import Mathlib.Algebra.GroupWithZero.Nat
import Mathlib.Algebra.Order.Ring.Rat
import Mathlib.Data.List.MinMax
import Mathlib.Data.Rat.Defs
import Mathlib.Tactic.Common

/-! # Run and result vocabulary

The status sets of `db/models.py`, the `runs` and `results` rows as the run core reads them, and
the outcome a run records about its results (`rollup.status_histograms`,
`run_service.outcome_from_histogram`). -/

namespace DataQ.Runs
set_option autoImplicit false

inductive RunStatus
  | queued | running | succeeded | failed | cancelled
  deriving DecidableEq, Repr

/-- `_TERMINAL_STATUSES`; its complement is `_NON_TERMINAL_STATUSES`. -/
def RunStatus.terminal : RunStatus → Bool
  | .succeeded | .failed | .cancelled => true
  | .queued | .running => false

/-- `FAILING_TIERS`, worst last. -/
inductive FailingTier
  | warn | fail | critical
  deriving DecidableEq, Repr

def FailingTier.rank : FailingTier → ℕ
  | .warn => 1
  | .fail => 2
  | .critical => 3

/-- `RESULT_STATUSES`: the severity tiers and the operational statuses. -/
inductive ResultStatus
  | pass | warn | fail | critical | skip | error
  deriving DecidableEq, Repr

/-- The failing tier a result status stands for, if it is one. -/
def ResultStatus.failingTier : ResultStatus → Option FailingTier
  | .warn => some .warn
  | .fail => some .fail
  | .critical => some .critical
  | .pass | .skip | .error => none

def FailingTier.toStatus : FailingTier → ResultStatus
  | .warn => .warn
  | .fail => .fail
  | .critical => .critical

def resultStatuses : List ResultStatus := [.pass, .warn, .fail, .critical, .skip, .error]

theorem mem_resultStatuses (s : ResultStatus) : s ∈ resultStatuses := by
  cases s <;> simp [resultStatuses]

/-- `worst_severity`: the highest failing tier present. -/
def worstSeverity (statuses : List ResultStatus) : Option FailingTier :=
  (statuses.filterMap ResultStatus.failingTier).argmax FailingTier.rank

structure Run where
  id : ℕ
  suiteId : ℕ
  status : RunStatus
  triggeredBy : Option String
  createdAt : ℕ
  startedAt : Option ℕ
  finishedAt : Option ℕ
  failureReason : Option String
  recordedResultsTotal : Option ℕ
  recordedChecksTotal : Option ℕ
  recordedChecksPassed : Option ℕ
  recordedWorstSeverity : Option FailingTier
  deriving DecidableEq, Repr

/-- A `results` row, as far as the outcome of its run depends on it. -/
structure Result where
  runId : ℕ
  checkId : ℕ
  status : ResultStatus
  deriving DecidableEq, Repr

/-- One run's `{status: count}` row of `status_histograms`. -/
def statusHistogram (results : List Result) (s : ResultStatus) : ℕ :=
  results.countP (·.status = s)

/-- The statuses a grouped count query returns a row for. -/
def presentStatuses (byStatus : ResultStatus → ℕ) : List ResultStatus :=
  resultStatuses.filter (byStatus · ≠ 0)

/-- `outcome_from_histogram`: `(checks_total, checks_passed, worst_severity)`. -/
def outcomeFromHistogram (byStatus : ResultStatus → ℕ) : ℕ × ℕ × Option FailingTier :=
  let passed := byStatus .pass
  (passed + (byStatus .warn + byStatus .fail + byStatus .critical), passed,
    worstSeverity (presentStatuses byStatus))

/-- `recorded_outcome_values`: the `recorded_*` columns for the rows a run holds now. -/
structure RecordedOutcome where
  resultsTotal : ℕ
  checksTotal : ℕ
  checksPassed : ℕ
  worstSeverity : Option FailingTier
  deriving DecidableEq, Repr

def recordedOutcomeValues (results : List Result) : RecordedOutcome :=
  let byStatus := statusHistogram results
  let outcome := outcomeFromHistogram byStatus
  { resultsTotal := (resultStatuses.map byStatus).sum
    checksTotal := outcome.1
    checksPassed := outcome.2.1
    worstSeverity := outcome.2.2 }

def Run.record (run : Run) (r : RecordedOutcome) : Run :=
  { run with
    recordedResultsTotal := some r.resultsTotal
    recordedChecksTotal := some r.checksTotal
    recordedChecksPassed := some r.checksPassed
    recordedWorstSeverity := r.worstSeverity }

def Run.Records (run : Run) (r : RecordedOutcome) : Prop :=
  run.recordedResultsTotal = some r.resultsTotal ∧ run.recordedChecksTotal = some r.checksTotal ∧
    run.recordedChecksPassed = some r.checksPassed ∧
    run.recordedWorstSeverity = r.worstSeverity

@[simp] theorem Run.record_status (run : Run) (r : RecordedOutcome) :
    (run.record r).status = run.status := rfl

@[simp] theorem Run.record_id (run : Run) (r : RecordedOutcome) : (run.record r).id = run.id := rfl

theorem Run.record_records (run : Run) (r : RecordedOutcome) : (run.record r).Records r :=
  ⟨rfl, rfl, rfl, rfl⟩

/-! ## What the histogram sees of its rows -/

theorem statusHistogram_perm {rows rows' : List Result} (h : rows.Perm rows') :
    statusHistogram rows = statusHistogram rows' := by
  funext s
  exact h.countP_eq _

theorem mem_presentStatuses {rows : List Result} {s : ResultStatus} :
    s ∈ presentStatuses (statusHistogram rows) ↔ ∃ r ∈ rows, r.status = s := by
  rw [presentStatuses, List.mem_filter]
  constructor
  · rintro ⟨-, h⟩
    have hpos : 0 < statusHistogram rows s := Nat.pos_of_ne_zero (by simpa using h)
    simpa using List.countP_pos_iff.mp hpos
  · rintro ⟨r, hr, hs⟩
    refine ⟨mem_resultStatuses s, ?_⟩
    have hpos : 0 < statusHistogram rows s := List.countP_pos_iff.mpr ⟨r, hr, by simpa using hs⟩
    simpa using hpos.ne'

theorem recordedOutcomeValues_resultsTotal (rows : List Result) :
    (recordedOutcomeValues rows).resultsTotal = rows.length := by
  simp only [recordedOutcomeValues]
  induction rows with
  | nil => rfl
  | cons r rows ih =>
    have hcons : ∀ s, statusHistogram (r :: rows) s =
        statusHistogram rows s + if r.status = s then 1 else 0 := by
      intro s
      simp [statusHistogram, List.countP_cons]
    simp only [resultStatuses, List.map_cons, List.map_nil, List.sum_cons, List.sum_nil] at ih ⊢
    rw [List.length_cons, ← ih]
    simp only [hcons]
    cases r.status <;> simp <;> omega

theorem recordedOutcomeValues_perm {rows rows' : List Result} (h : rows.Perm rows') :
    recordedOutcomeValues rows = recordedOutcomeValues rows' := by
  rw [recordedOutcomeValues, recordedOutcomeValues, statusHistogram_perm h]

end DataQ.Runs

/-! # Checks, outcomes and severity tiers

A `checks` row as the run path reads it, `base.CheckOutcome`, and `services/severity.py`: the metric
of an outcome (`extract_metric`), the banding of a metric by the threshold columns
(`derive_status`), and the status a result is stored with (`resolve_status`). Decimals are exact
rationals; a reading that `Decimal(str(raw))` refuses, or that is not finite, is `unusable`. -/

namespace DataQ.Runs
set_option autoImplicit false

/-- `CHECK_KINDS`. -/
inductive CheckKind
  | expectation | freshness | volume | schemaDrift | anomaly | comparison | aggregate | piiDrift
  deriving DecidableEq, Repr

def CheckKind.name : CheckKind → String
  | .expectation => "expectation"
  | .freshness => "freshness"
  | .volume => "volume"
  | .schemaDrift => "schema_drift"
  | .anomaly => "anomaly"
  | .comparison => "comparison"
  | .aggregate => "aggregate"
  | .piiDrift => "pii_drift"

/-- `SCALAR_MONITOR_KINDS`: the monitor kinds with a statement of their own. -/
def CheckKind.scalarMonitor : CheckKind → Bool
  | .freshness | .volume | .aggregate => true
  | _ => false

/-- `STATEFUL_MONITOR_KINDS`: the monitor kinds that need the baseline store. -/
def CheckKind.statefulMonitor : CheckKind → Bool
  | .schemaDrift | .anomaly | .piiDrift => true
  | _ => false

structure Thresholds where
  warn : Option ℚ
  fail : Option ℚ
  critical : Option ℚ
  deriving DecidableEq, Repr

structure Check where
  id : ℕ
  kind : CheckKind
  engine : Option String
  expectationType : String
  thresholds : Thresholds
  deriving DecidableEq, Repr

def gxEngine : String := "gx"

/-- `_engine`: `c.engine or GX_ENGINE`. -/
def Check.engineOrGx (c : Check) : String :=
  match c.engine with
  | none => gxEngine
  | some e => if e = "" then gxEngine else e

inductive Reading
  | finite (value : ℚ)
  | unusable
  deriving DecidableEq, Repr

structure CheckOutcome where
  expectationType : String
  success : Bool
  errored : Bool
  skipped : Bool
  errorMessage : Option String
  metricValue : Option Reading
  unexpectedPercent : Option Reading
  observedCount : Option Reading
  severity : Option ResultStatus
  deriving DecidableEq, Repr

def customSqlExpectationType : String := "unexpected_rows_expectation"

def Reading.toMetric : Reading → Option ℚ
  | .finite q => some q
  | .unusable => none

def extractMetric (outcome : CheckOutcome) : Option ℚ :=
  match outcome.metricValue with
  | some raw => raw.toMetric
  | none =>
    match outcome.unexpectedPercent with
    | some raw => raw.toMetric
    | none =>
      if outcome.expectationType = customSqlExpectationType then
        outcome.observedCount.bind Reading.toMetric
      else none

/-- `metric_value >= threshold`, for a threshold that is set. -/
def reaches (metric : ℚ) (threshold : Option ℚ) : Bool :=
  threshold.any fun t => decide (t ≤ metric)

def deriveStatus (success : Bool) (metric : Option ℚ) (t : Thresholds) : ResultStatus :=
  let unbanded := t.warn.isNone && t.fail.isNone && t.critical.isNone
  match metric with
  | none => if success then .pass else .fail
  | some m =>
    if unbanded then (if success then .pass else .fail)
    else if reaches m t.critical then .critical
    else if reaches m t.fail then .fail
    else if reaches m t.warn then .warn
    else .pass

/-- `resolve_status`: the persisted status and metric. -/
def resolveStatus (outcome : CheckOutcome) (t : Thresholds) : ResultStatus × Option ℚ :=
  if outcome.errored then (.error, none)
  else if outcome.skipped then (.skip, none)
  else
    let metric := extractMetric outcome
    match outcome.severity with
    | some tier => (tier, metric)
    | none => (deriveStatus outcome.success metric t, metric)

/-- `_build_result`: thresholds come from the coverage settings for a check that inherits them. -/
def buildResult (coverage : Check → Option Thresholds) (runId : ℕ) (check : Check)
    (outcome : CheckOutcome) : Result :=
  { runId := runId
    checkId := check.id
    status := (resolveStatus outcome ((coverage check).getD check.thresholds)).1 }

theorem deriveStatus_banded {success : Bool} {m : ℚ} {t : Thresholds}
    (h : t.warn.isSome ∨ t.fail.isSome ∨ t.critical.isSome) :
    deriveStatus success (some m) t = deriveStatus (!success) (some m) t := by
  have hband : (t.warn.isNone && t.fail.isNone && t.critical.isNone) = false := by
    cases hw : t.warn <;> cases hf : t.fail <;> cases hc : t.critical <;> simp_all
  unfold deriveStatus
  simp only [hband, Bool.false_eq_true, if_false]

end DataQ.Runs
