import DataQ.Runs.Vocabulary

/-! # The pipeline gate's verdict on a suite

`gate_service._suite_states` over the `runs` and `results` tables, with the two readers it
combines: the outcome counts (recorded on the run when it has them) and the operational flags
(always recomputed from the rows still stored). Deleting a check cascades to its results. -/

namespace DataQ.Gate
open DataQ.Runs
set_option autoImplicit false

/-- The gate's states: `awaiting_trigger`, `running`, `passed`, `failed`, `error`. -/
inductive GateState
  | awaitingTrigger | running | passed | failed | error
  deriving DecidableEq, Repr

structure GateSuite where
  suiteId : ℕ
  runId : Option ℕ
  runStatus : Option RunStatus
  state : GateState
  checksTotal : ℕ
  checksPassed : ℕ
  worstSeverity : Option FailingTier
  hasError : Bool
  deriving DecidableEq, Repr

structure Tables where
  runs : List Run
  results : List Result
  deriving Repr

def Tables.resultsOf (db : Tables) (runId : ℕ) : List Result :=
  db.results.filter (·.runId = runId)

/-- `check_outcome_counts` for one run: a recorded outcome wins over the rows. -/
def checkOutcomeCounts (db : Tables) (run : Run) : ℕ × ℕ × Option FailingTier :=
  match run.recordedChecksTotal with
  | some total => (total, run.recordedChecksPassed.getD 0, run.recordedWorstSeverity)
  | none => outcomeFromHistogram (statusHistogram (db.resultsOf run.id))

/-- `operational_result_flags` for one run: `(has_error, has_skip)`. -/
def operationalResultFlags (db : Tables) (runId : ℕ) : Bool × Bool :=
  ((db.resultsOf runId).any (·.status = .error), (db.resultsOf runId).any (·.status = .skip))

/-- The run `_suite_states` holds for a suite: the last row of the query wins in its dict. -/
def gateRun (db : Tables) (marker : String) (suiteId : ℕ) : Option Run :=
  db.runs.reverse.find? fun r => r.suiteId = suiteId ∧ r.triggeredBy = some marker

/-- The state the loop body of `_suite_states` gives a run with these figures. -/
def stateOf (status : RunStatus) (hasError : Bool) (total : ℕ) (worst : Option FailingTier)
    (failOn : FailingTier) : GateState :=
  if status = .queued ∨ status = .running then .running
  else if status ≠ .succeeded ∨ hasError = true ∨ total = 0 then .error
  else match worst with
    | some tier => if failOn.rank ≤ tier.rank then .failed else .passed
    | none => .passed

/-- The loop body of `_suite_states`. Only a succeeded run's counts and flags are queried. -/
def suiteEntry (db : Tables) (marker : String) (failOn : FailingTier) (suiteId : ℕ) : GateSuite :=
  match gateRun db marker suiteId with
  | none => ⟨suiteId, none, none, .awaitingTrigger, 0, 0, none, false⟩
  | some run =>
    let finished := run.status = .succeeded
    let counts := if finished then checkOutcomeCounts db run else (0, 0, none)
    let hasError := if finished then (operationalResultFlags db run.id).1 else false
    ⟨suiteId, some run.id, some run.status,
      stateOf run.status hasError counts.1 counts.2.2 failOn,
      counts.1, counts.2.1, counts.2.2, hasError⟩

def suiteStates (db : Tables) (suiteIds : List ℕ) (marker : String) (failOn : FailingTier) :
    List GateSuite :=
  suiteIds.map (suiteEntry db marker failOn)

/-- Deleting a check takes its results with it (`ON DELETE CASCADE`). -/
def deleteCheck (db : Tables) (checkId : ℕ) : Tables :=
  { db with results := db.results.filter (·.checkId ≠ checkId) }

def deleteChecks (db : Tables) (checkIds : List ℕ) : Tables :=
  checkIds.foldl deleteCheck db

/-! ## What a deletion leaves -/

@[simp] theorem deleteChecks_runs (db : Tables) (checkIds : List ℕ) :
    (deleteChecks db checkIds).runs = db.runs := by
  induction checkIds generalizing db with
  | nil => rfl
  | cons c cs ih => exact ih (deleteCheck db c)

theorem mem_deleteChecks_results {db : Tables} {checkIds : List ℕ} {r : Result} :
    r ∈ (deleteChecks db checkIds).results ↔ r ∈ db.results ∧ r.checkId ∉ checkIds := by
  induction checkIds generalizing db with
  | nil => simp [deleteChecks]
  | cons c cs ih =>
    have hfold : deleteChecks db (c :: cs) = deleteChecks (deleteCheck db c) cs := rfl
    rw [hfold, ih, deleteCheck, List.mem_filter, List.mem_cons]
    simp only [ne_eq, decide_not, Bool.not_eq_eq_eq_not, Bool.not_true, decide_eq_false_iff_not]
    tauto

@[simp] theorem gateRun_deleteChecks (db : Tables) (checkIds : List ℕ) (marker : String)
    (suiteId : ℕ) : gateRun (deleteChecks db checkIds) marker suiteId = gateRun db marker suiteId := by
  simp [gateRun]

theorem hasError_iff {db : Tables} {runId : ℕ} :
    (operationalResultFlags db runId).1 = true ↔
      ∃ r ∈ db.results, r.runId = runId ∧ r.status = .error := by
  simp [operationalResultFlags, Tables.resultsOf]

theorem hasError_deleteChecks_iff {db : Tables} {checkIds : List ℕ} {runId : ℕ} :
    (operationalResultFlags (deleteChecks db checkIds) runId).1 = true ↔
      ∃ r ∈ db.results, r.checkId ∉ checkIds ∧ r.runId = runId ∧ r.status = .error := by
  rw [hasError_iff]
  constructor
  · rintro ⟨r, hr, h⟩
    obtain ⟨hmem, hkeep⟩ := mem_deleteChecks_results.mp hr
    exact ⟨r, hmem, hkeep, h⟩
  · rintro ⟨r, hmem, hkeep, h⟩
    exact ⟨r, mem_deleteChecks_results.mpr ⟨hmem, hkeep⟩, h⟩

theorem checkOutcomeCounts_recorded {db db' : Tables} {run : Run}
    (h : run.recordedChecksTotal.isSome) : checkOutcomeCounts db run = checkOutcomeCounts db' run := by
  obtain ⟨total, htotal⟩ := Option.isSome_iff_exists.mp h
  simp [checkOutcomeCounts, htotal]

/-- With counts that stay, dropping the error flag changes the state exactly on a run that
evaluated a check. -/
theorem stateOf_hasError_eq_iff {total : ℕ} {worst : Option FailingTier} {failOn : FailingTier} :
    stateOf .succeeded false total worst failOn = stateOf .succeeded true total worst failOn ↔
      total = 0 := by
  by_cases h : total = 0
  · simp [stateOf, h]
  · simp only [h, iff_false]
    cases worst with
    | none => simp [stateOf, h]
    | some tier => by_cases hr : failOn.rank ≤ tier.rank <;> simp [stateOf, h, hr]

/-- The run's error rows do not all go with the deleted checks. -/
def ErrorRowSurvives (db : Tables) (checkIds : List ℕ) (run : Run) : Prop :=
  ∃ r ∈ db.results, r.checkId ∉ checkIds ∧ r.runId = run.id ∧ r.status = .error

def HasErrorRow (db : Tables) (run : Run) : Prop :=
  ∃ r ∈ db.results, r.runId = run.id ∧ r.status = .error

/-- The verdict on a run with recorded counts is unchanged by check deletions exactly when the run
did not succeed, evaluated no check, had no error row, or keeps one of its error rows. -/
theorem gate_verdict_unchanged_iff (db : Tables) (marker : String) (suiteId : ℕ) (run : Run)
    (failOn : FailingTier) (checkIds : List ℕ) (hrun : gateRun db marker suiteId = some run)
    (hrec : run.recordedChecksTotal.isSome) :
    (suiteEntry (deleteChecks db checkIds) marker failOn suiteId).state =
        (suiteEntry db marker failOn suiteId).state ↔
      run.status ≠ .succeeded ∨ run.recordedChecksTotal = some 0 ∨ ¬ HasErrorRow db run ∨
        ErrorRowSurvives db checkIds run := by
  obtain ⟨total, htotal⟩ := Option.isSome_iff_exists.mp hrec
  have hcounts : checkOutcomeCounts (deleteChecks db checkIds) run = checkOutcomeCounts db run :=
    checkOutcomeCounts_recorded hrec
  simp only [suiteEntry, gateRun_deleteChecks, hrun, hcounts]
  by_cases hs : run.status = .succeeded
  · have htot : (checkOutcomeCounts db run).1 = total := by simp [checkOutcomeCounts, htotal]
    have hbefore : (operationalResultFlags db run.id).1 = true ↔ HasErrorRow db run := hasError_iff
    have hafter : (operationalResultFlags (deleteChecks db checkIds) run.id).1 = true ↔
        ErrorRowSurvives db checkIds run := hasError_deleteChecks_iff
    have hsub : ErrorRowSurvives db checkIds run → HasErrorRow db run :=
      fun ⟨r, hr, _, h⟩ => ⟨r, hr, h⟩
    simp only [hs, htot, htotal, if_true, ne_eq, not_true_eq_false, false_or, Option.some.injEq]
    by_cases hb : HasErrorRow db run
    · by_cases ha : ErrorRowSurvives db checkIds run
      · simp [hbefore.mpr hb, hafter.mpr ha, ha]
      · have hoff : (operationalResultFlags (deleteChecks db checkIds) run.id).1 = false := by
          simpa using mt hafter.mp ha
        rw [hbefore.mpr hb, hoff, stateOf_hasError_eq_iff]
        simp [hb, ha]
    · have hoff : (operationalResultFlags db run.id).1 = false := by simpa using mt hbefore.mp hb
      have hoff' : (operationalResultFlags (deleteChecks db checkIds) run.id).1 = false := by
        simpa using mt (fun h => hsub (hafter.mp h)) hb
      simp [hoff, hoff', hb]
  · simp [hs]

/-- A run whose one erroring check is deleted: the two checks of the run, then one of them. -/
def erroredRun : Run :=
  ⟨1, 7, .succeeded, some "adf:p:r", 0, some 1, some 2, none, some 2, some 1, some 1, none⟩

def erroredTables : Tables := ⟨[erroredRun], [⟨1, 10, .pass⟩, ⟨1, 11, .error⟩]⟩

theorem gate_verdict_unchanged_iff_erroredRun :
    (suiteEntry (deleteChecks erroredTables [10]) "adf:p:r" .fail 7).state =
        (suiteEntry erroredTables "adf:p:r" .fail 7).state ↔
      erroredRun.status ≠ .succeeded ∨ erroredRun.recordedChecksTotal = some 0 ∨
        ¬ HasErrorRow erroredTables erroredRun ∨ ErrorRowSurvives erroredTables [10] erroredRun :=
  gate_verdict_unchanged_iff erroredTables "adf:p:r" 7 erroredRun .fail [10] (by decide) (by decide)

/-- Deleting the erroring check of a run with recorded counts turns the gate from `error` to
`passed`. -/
theorem gate_verdict_improves_by_deletion :
    erroredRun.recordedChecksTotal.isSome ∧
      gateRun erroredTables "adf:p:r" 7 = some erroredRun ∧
      (suiteEntry erroredTables "adf:p:r" .fail 7).state = .error ∧
      (suiteEntry (deleteChecks erroredTables [11]) "adf:p:r" .fail 7).state = .passed := by
  decide

end DataQ.Gate
