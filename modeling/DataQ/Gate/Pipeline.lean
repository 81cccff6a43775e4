import Mathlib.Data.List.Dedup
import Mathlib.Data.List.Sort
import DataQ.Gate.Verdict
import DataQ.Orchestration.Markers

/-! # The pipeline gate

`gate_service.evaluate_gate`: the suites bound to a pipeline, the runs it starts for them, and the
verdict folded from their states. -/

namespace DataQ.Gate
open DataQ.Runs DataQ.Orchestration
set_option autoImplicit false

/-- A `trigger_bindings` row. -/
structure TriggerBinding where
  provider : String
  pipelineOrDagId : String
  env : String
  suiteId : ℕ
  enabled : Bool
  deriving DecidableEq, Repr

/-- How `require_permission` answers for a suite. -/
inductive Access
  | granted | forbidden | notFound
  deriving DecidableEq, Repr

inductive GateError
  | unknownProvider | failOnInvalid | bindingNotFound | forbidden
  deriving DecidableEq, Repr

structure GateRequest where
  provider : String
  pipelineOrDagId : String
  env : String
  providerRunId : String
  failOn : String
  trigger : Bool
  deriving DecidableEq, Repr

structure GateOutcome where
  state : GateState
  failOn : FailingTier
  triggeredBy : String
  suites : List GateSuite
  createdRuns : ℕ
  retryAfterSeconds : Option ℕ
  deriving DecidableEq, Repr

def providerOf? (name : String) : Option Provider :=
  [Provider.adf, .airflow, .dbt].find? (·.name = name)

/-- `FAIL_ON_LEVELS`. -/
def failOn? : String → Option FailingTier
  | "warn" => some .warn
  | "fail" => some .fail
  | "critical" => some .critical
  | _ => none

/-- The rows that the query of `_bound_suite_ids` selects. -/
def TriggerBinding.bound (b : TriggerBinding) (request : GateRequest) : Bool :=
  b.provider = request.provider && b.pipelineOrDagId = request.pipelineOrDagId &&
    b.env = request.env && b.enabled

def boundSuites (bindings : List TriggerBinding) (request : GateRequest) : List ℕ :=
  ((bindings.filter (·.bound request)).map TriggerBinding.suiteId).dedup.insertionSort (· ≤ ·)

/-- `_bound_suite_ids`; `access` answers for the permission that the request needs. -/
def boundSuiteIds (access : ℕ → Access) (bindings : List TriggerBinding) (request : GateRequest) :
    Except GateError (List ℕ) :=
  let suiteIds := boundSuites bindings request
  let visible := suiteIds.filter fun s => access s ≠ .notFound
  if visible = [] then .error .bindingNotFound
  else if suiteIds.any fun s => access s ≠ .granted then .error .forbidden
  else .ok visible

def precedence : List GateState := [.failed, .error, .running, .awaitingTrigger, .passed]

def overall (suites : List GateSuite) : Option GateState :=
  precedence.find? fun state => state ∈ suites.map GateSuite.state

/-- The runs that the gate starts, one insert for each suite; `none` where an insert raises. -/
def startRuns (now : ℕ) (marker : String) : List ℕ → List Run → Option (List Run)
  | [], runs => some runs
  | suiteId :: suiteIds, runs =>
    match insertTriggeredRun now runs suiteId marker with
    | .tooLong => none
    | .duplicate => startRuns now marker suiteIds runs
    | .queued run => startRuns now marker suiteIds (runs ++ [run])

/-- `dispatch_or_fail` of the runs that were started: a run that the broker refuses fails. -/
def dispatch (refuses : Run → Bool) (before : ℕ) (runs : List Run) : List Run :=
  runs.take before ++ (runs.drop before).map fun r =>
    if refuses r then { r with status := .failed } else r

/-- `evaluate_gate`; `none` where an insert raises. -/
def evaluateGate (access : ℕ → Access) (refuses : Run → Bool) (now : ℕ)
    (bindings : List TriggerBinding) (db : Tables) (request : GateRequest) :
    Option (Except GateError GateOutcome) :=
  match providerOf? request.provider, failOn? request.failOn with
  | none, _ => some (.error .unknownProvider)
  | some _, none => some (.error .failOnInvalid)
  | some provider, some failOn =>
    match boundSuiteIds access bindings request with
    | .error e => some (.error e)
    | .ok suiteIds =>
      let marker := triggerMarker ⟨provider, request.pipelineOrDagId, request.providerRunId⟩
      (if request.trigger then startRuns now marker suiteIds db.runs else some db.runs).bind
        fun runs =>
          let after := { db with runs := dispatch refuses db.runs.length runs }
          let suites := suiteStates after suiteIds marker failOn
          (overall suites).map fun state => .ok
            { state := state
              failOn := failOn
              triggeredBy := marker
              suites := suites
              createdRuns := runs.length - db.runs.length
              retryAfterSeconds :=
                if state = .running ∨ state = .awaitingTrigger then some 15 else none }

/-! ## The verdict of one suite -/

/-- The run lets a pipeline through: it succeeded, it evaluated a check, none of its results is an
error, and its worst severity is below the level. A recorded outcome stands for the rows that are
gone. -/
structure Clears (db : Tables) (failOn : FailingTier) (run : Run) : Prop where
  succeeded : run.status = .succeeded
  evaluated : match run.recordedChecksTotal with
    | some total => 0 < total
    | none => ∃ r ∈ db.resultsOf run.id, r.status ≠ .skip ∧ r.status ≠ .error
  noError : ∀ r ∈ db.resultsOf run.id, r.status ≠ .error
  below : match run.recordedChecksTotal with
    | some _ => ∀ tier, run.recordedWorstSeverity = some tier → tier.rank < failOn.rank
    | none => ∀ r ∈ db.resultsOf run.id, ∀ tier, r.status.failingTier = some tier →
        tier.rank < failOn.rank

theorem stateOf_passed_iff {status : RunStatus} {hasError : Bool} {total : ℕ}
    {worst : Option FailingTier} {failOn : FailingTier} :
    stateOf status hasError total worst failOn = .passed ↔
      status = .succeeded ∧ hasError = false ∧ 0 < total ∧
        ∀ tier, worst = some tier → tier.rank < failOn.rank := by
  unfold stateOf
  by_cases hs : status = .succeeded
  · subst hs
    cases hasError with
    | true => simp
    | false =>
      by_cases ht : total = 0
      · simp [ht]
      · have hpos : 0 < total := Nat.pos_of_ne_zero ht
        cases worst with
        | none => simp [ht, hpos]
        | some tier => by_cases hr : failOn.rank ≤ tier.rank <;> simp [ht, hpos, hr]; omega
  · have hne : ¬ (status = .succeeded ∧ hasError = false ∧ 0 < total ∧
        ∀ tier, worst = some tier → tier.rank < failOn.rank) := fun h => hs h.1
    simp only [hne, iff_false]
    cases status <;> simp at hs ⊢

theorem outcome_total_pos_iff {rows : List Result} :
    0 < (outcomeFromHistogram (statusHistogram rows)).1 ↔
      ∃ r ∈ rows, r.status ≠ .skip ∧ r.status ≠ .error := by
  have hmem : ∀ s, 0 < statusHistogram rows s ↔ ∃ r ∈ rows, r.status = s := by
    intro s
    rw [statusHistogram, List.countP_pos_iff]
    simp
  simp only [outcomeFromHistogram]
  constructor
  · intro h
    have hsome : 0 < statusHistogram rows .pass ∨ 0 < statusHistogram rows .warn ∨
        0 < statusHistogram rows .fail ∨ 0 < statusHistogram rows .critical := by omega
    rw [hmem, hmem, hmem, hmem] at hsome
    rcases hsome with ⟨r, hr, hs⟩ | ⟨r, hr, hs⟩ | ⟨r, hr, hs⟩ | ⟨r, hr, hs⟩ <;>
      exact ⟨r, hr, by simp [hs], by simp [hs]⟩
  · rintro ⟨r, hr, hskip, herror⟩
    have hpos := (hmem r.status).mpr ⟨r, hr, rfl⟩
    cases hs : r.status with
    | pass => rw [hs] at hpos; omega
    | warn => rw [hs] at hpos; omega
    | fail => rw [hs] at hpos; omega
    | critical => rw [hs] at hpos; omega
    | skip => exact absurd hs hskip
    | error => exact absurd hs herror

theorem outcome_worst_below_iff {rows : List Result} {failOn : FailingTier} :
    (∀ tier, (outcomeFromHistogram (statusHistogram rows)).2.2 = some tier →
        tier.rank < failOn.rank) ↔
      ∀ r ∈ rows, ∀ tier, r.status.failingTier = some tier → tier.rank < failOn.rank := by
  simp only [outcomeFromHistogram, worstSeverity]
  constructor
  · intro h r hr tier htier
    have hmem : tier ∈ (presentStatuses (statusHistogram rows)).filterMap
        ResultStatus.failingTier :=
      List.mem_filterMap.mpr ⟨r.status, mem_presentStatuses.mpr ⟨r, hr, rfl⟩, htier⟩
    cases hworst : ((presentStatuses (statusHistogram rows)).filterMap
        ResultStatus.failingTier).argmax FailingTier.rank with
    | none =>
      rw [List.argmax_eq_none] at hworst
      rw [hworst] at hmem
      cases hmem
    | some worst =>
      have hle := List.le_of_mem_argmax hmem (Option.mem_def.mpr hworst)
      exact lt_of_le_of_lt hle (h worst hworst)
  · intro h tier hworst
    have hmem := List.argmax_mem (Option.mem_def.mpr hworst)
    obtain ⟨s, hs, htier⟩ := List.mem_filterMap.mp hmem
    obtain ⟨r, hr, rfl⟩ := mem_presentStatuses.mp hs
    exact h r hr tier htier

theorem suiteEntry_passed_iff {db : Tables} {marker : String} {failOn : FailingTier}
    {suiteId : ℕ} :
    (suiteEntry db marker failOn suiteId).state = .passed ↔
      ∃ run, gateRun db marker suiteId = some run ∧ Clears db failOn run := by
  unfold suiteEntry
  cases hrun : gateRun db marker suiteId with
  | none => simp
  | some run =>
    have herror : (operationalResultFlags db run.id).1 = false ↔
        ∀ r ∈ db.resultsOf run.id, r.status ≠ .error := by
      simp [operationalResultFlags]
    have hclears : Clears db failOn run ↔ run.status = .succeeded ∧
        (operationalResultFlags db run.id).1 = false ∧ 0 < (checkOutcomeCounts db run).1 ∧
          ∀ tier, (checkOutcomeCounts db run).2.2 = some tier → tier.rank < failOn.rank := by
      rw [herror]
      unfold checkOutcomeCounts
      cases htotal : run.recordedChecksTotal with
      | none =>
        rw [outcome_total_pos_iff, outcome_worst_below_iff]
        constructor
        · rintro ⟨hs, he, hn, hb⟩
          simp only [htotal] at he hb
          exact ⟨hs, hn, he, hb⟩
        · rintro ⟨hs, hn, he, hb⟩
          exact ⟨hs, by simpa only [htotal] using he, hn, by simpa only [htotal] using hb⟩
      | some total =>
        constructor
        · rintro ⟨hs, he, hn, hb⟩
          simp only [htotal] at he hb
          exact ⟨hs, hn, he, hb⟩
        · rintro ⟨hs, hn, he, hb⟩
          exact ⟨hs, by simpa only [htotal] using he, hn, by simpa only [htotal] using hb⟩
    simp only [Option.some.injEq, exists_eq_left', hclears]
    rw [stateOf_passed_iff]
    by_cases hs : run.status = .succeeded
    · simp [hs]
    · simp [hs]

/-! ## The verdict of the pipeline -/

theorem find?_last_iff {α : Type} [DecidableEq α] {order found : List α} {last : α}
    (h : last ∉ order) :
    (order ++ [last]).find? (fun a => decide (a ∈ found)) = some last ↔
      last ∈ found ∧ ∀ a ∈ found, a ∉ order := by
  rw [List.find?_append]
  cases hfind : order.find? (fun a => decide (a ∈ found)) with
  | none =>
    have hno := List.find?_eq_none.mp hfind
    rw [Option.none_or]
    constructor
    · intro hlast
      exact ⟨by simpa using List.find?_some hlast, fun a ha hin => hno a hin (by simpa using ha)⟩
    · rintro ⟨hin, -⟩
      simp [hin]
  | some a =>
    have ha : a ∈ order := List.mem_of_find?_eq_some hfind
    have hfound : a ∈ found := by simpa using List.find?_some hfind
    rw [Option.some_or, Option.some.injEq]
    constructor
    · rintro rfl
      exact absurd ha h
    · rintro ⟨-, hno⟩
      exact absurd ha (hno a hfound)

theorem overall_passed_iff {suites : List GateSuite} :
    overall suites = some .passed ↔ suites ≠ [] ∧ ∀ s ∈ suites, s.state = .passed := by
  have horder : precedence = [.failed, .error, .running, .awaitingTrigger] ++ [.passed] := rfl
  have hlast : GateState.passed ∉ [GateState.failed, .error, .running, .awaitingTrigger] := by
    decide
  rw [overall, horder, find?_last_iff hlast]
  have hstate : ∀ state : GateState,
      state ∉ [GateState.failed, .error, .running, .awaitingTrigger] ↔ state = .passed := by
    intro state
    cases state <;> simp
  simp only [hstate, List.mem_map, forall_exists_index, and_imp, forall_apply_eq_imp_iff₂]
  constructor
  · rintro ⟨⟨s, hs, -⟩, hall⟩
    exact ⟨List.ne_nil_of_mem hs, hall⟩
  · rintro ⟨hne, hall⟩
    obtain ⟨s, hs⟩ := List.exists_mem_of_ne_nil suites hne
    exact ⟨⟨s, hs, hall s hs⟩, hall⟩

theorem boundSuiteIds_ok {access : ℕ → Access} {bindings : List TriggerBinding}
    {request : GateRequest} {suiteIds : List ℕ}
    (h : boundSuiteIds access bindings request = .ok suiteIds) :
    suiteIds = boundSuites bindings request ∧ suiteIds ≠ [] := by
  unfold boundSuiteIds at h
  simp only at h
  split at h
  · cases h
  · next hne =>
    split at h
    · cases h
    · next hgranted =>
      cases h
      have hall : ∀ s ∈ boundSuites bindings request, access s = .granted := by
        simpa using hgranted
      have hfilter : (boundSuites bindings request).filter (fun s => access s ≠ .notFound) =
          boundSuites bindings request := by
        rw [List.filter_eq_self]
        intro s hs
        simp [hall s hs]
      exact ⟨hfilter, hne⟩

theorem mem_boundSuites {bindings : List TriggerBinding} {request : GateRequest} {suiteId : ℕ} :
    suiteId ∈ boundSuites bindings request ↔
      ∃ b ∈ bindings, b.bound request = true ∧ b.suiteId = suiteId := by
  rw [boundSuites, List.mem_insertionSort, List.mem_dedup]
  simp [and_assoc]

/-! ## The runs that the gate starts -/

theorem startRuns_spec {now : ℕ} {marker : String} {suiteIds : List ℕ} {runs after : List Run}
    (h : startRuns now marker suiteIds runs = some after) :
    ∃ new, after = runs ++ new ∧
      (∀ r ∈ new, r.status = .queued) ∧
      (∀ s ∈ suiteIds, runFor runs s marker = none →
        ∃ r ∈ new, r.suiteId = s ∧ r.triggeredBy = some marker) ∧
      ((∀ s ∈ suiteIds, (runFor runs s marker).isSome) → new = []) := by
  induction suiteIds generalizing runs with
  | nil =>
    cases h
    exact ⟨[], by simp, by simp, by simp, fun _ => rfl⟩
  | cons s suiteIds ih =>
    rw [startRuns] at h
    split at h
    · cases h
    · next hdup =>
      obtain ⟨new, hafter, hqueued, hstarted, hnone⟩ := ih h
      have hsome := (insertTriggeredRun_duplicate_iff.mp hdup).2
      refine ⟨new, hafter, hqueued, fun s' hs' hfree => ?_, fun hall => ?_⟩
      · rcases List.mem_cons.mp hs' with rfl | hs'
        · rw [hfree] at hsome
          cases hsome
        · exact hstarted s' hs' hfree
      · exact hnone fun s' hs' => hall s' (List.mem_cons_of_mem _ hs')
    · next run hrun =>
      have hfree : runFor runs s marker = none ∧ run = queuedRun (freshId runs) s marker now := by
        unfold insertTriggeredRun at hrun
        split at hrun
        · cases hrun
        · split at hrun
          · cases hrun
          · next hnone =>
            cases hrun
            exact ⟨hnone, rfl⟩
      obtain ⟨hnone, rfl⟩ := hfree
      obtain ⟨new, hafter, hqueued, hstarted, -⟩ := ih h
      refine ⟨queuedRun (freshId runs) s marker now :: new, by rw [hafter]; simp, ?_, ?_, ?_⟩
      · intro r hr
        rcases List.mem_cons.mp hr with rfl | hr
        · rfl
        · exact hqueued r hr
      · intro s' hs' hfree
        by_cases hsame : s' = s
        · subst hsame
          exact ⟨_, List.mem_cons_self, rfl, rfl⟩
        · rcases List.mem_cons.mp hs' with heq | hs'
          · exact absurd heq hsame
          · have hfree' : runFor (runs ++ [queuedRun (freshId runs) s marker now]) s' marker =
                none := by
              rw [runFor, List.find?_append]
              simp only [runFor] at hfree
              rw [hfree]
              simp [queuedRun, Ne.symm hsame]
            obtain ⟨r, hr, hrs⟩ := hstarted s' hs' hfree'
            exact ⟨r, List.mem_cons_of_mem _ hr, hrs⟩
      · intro hall
        have hs := hall s List.mem_cons_self
        rw [hnone] at hs
        cases hs

theorem dispatch_append {refuses : Run → Bool} {runs new : List Run} :
    dispatch refuses runs.length (runs ++ new) =
      runs ++ new.map fun r => if refuses r then { r with status := .failed } else r := by
  simp [dispatch]

theorem gateRun_isSome_iff {db : Tables} {marker : String} {suiteId : ℕ} :
    (gateRun db marker suiteId).isSome ↔ (runFor db.runs suiteId marker).isSome := by
  simp [gateRun, runFor, List.find?_isSome]

theorem started_not_cleared {db : Tables} {refuses : Run → Bool} {marker : String} {new : List Run}
    {suiteId : ℕ} {failOn : FailingTier} (hqueued : ∀ r ∈ new, r.status = .queued)
    (hstarted : ∃ r ∈ new, r.suiteId = suiteId ∧ r.triggeredBy = some marker) :
    ¬ ∃ run, gateRun { db with runs := dispatch refuses db.runs.length (db.runs ++ new) } marker
      suiteId = some run ∧
      Clears { db with runs := dispatch refuses db.runs.length (db.runs ++ new) } failOn run := by
  rintro ⟨run, hrun, hclears⟩
  have hlast : run ∈ new.map fun r => if refuses r then { r with status := .failed } else r := by
    rw [gateRun, dispatch_append, List.reverse_append, List.find?_append] at hrun
    obtain ⟨r, hr, hsuite, hmarker⟩ := hstarted
    have hsome : ((new.map fun r =>
        if refuses r then { r with status := .failed } else r).reverse.find? fun r =>
          decide (r.suiteId = suiteId ∧ r.triggeredBy = some marker)).isSome := by
      rw [List.find?_isSome]
      refine ⟨_, List.mem_reverse.mpr (List.mem_map_of_mem hr), ?_⟩
      split <;> simp [hsuite, hmarker]
    obtain ⟨found, hfound⟩ := Option.isSome_iff_exists.mp hsome
    rw [hfound, Option.some_or, Option.some.injEq] at hrun
    rw [← hrun]
    exact List.mem_reverse.mp (List.mem_of_find?_eq_some hfound)
  obtain ⟨r, hr, rfl⟩ := List.mem_map.mp hlast
  have hsucceeded := hclears.succeeded
  split at hsucceeded
  · cases hsucceeded
  · rw [hqueued r hr] at hsucceeded
    cases hsucceeded

theorem overall_suiteStates_passed_iff (db : Tables) (marker : String) (failOn : FailingTier)
    {suites : List ℕ} (hne : suites ≠ []) :
    overall (suiteStates db suites marker failOn) = some .passed ↔
      ∀ s ∈ suites, ∃ run, gateRun db marker s = some run ∧ Clears db failOn run := by
  rw [overall_passed_iff]
  simp only [suiteStates, ne_eq, List.map_eq_nil_iff, hne, not_false_eq_true, true_and,
    List.mem_map, forall_exists_index, and_imp, forall_apply_eq_imp_iff₂, suiteEntry_passed_iff]

/-- The gate's verdict is `passed` when the runs that are there before it clear every bound suite. -/
theorem evaluateGate_passed_iff {access : ℕ → Access} {refuses : Run → Bool} {now : ℕ}
    {bindings : List TriggerBinding} {db : Tables} {request : GateRequest} {o : GateOutcome}
    (h : evaluateGate access refuses now bindings db request = some (.ok o)) :
    failOn? request.failOn = some o.failOn ∧
      (∃ provider, providerOf? request.provider = some provider ∧ o.triggeredBy =
        triggerMarker ⟨provider, request.pipelineOrDagId, request.providerRunId⟩) ∧
      (o.state = .passed ↔ ∀ s ∈ boundSuites bindings request,
        ∃ run, gateRun db o.triggeredBy s = some run ∧ Clears db o.failOn run) := by
  unfold evaluateGate at h
  split at h
  · cases h
  · cases h
  · next provider failOn hprovider hfailOn =>
    split at h
    · cases h
    · next suiteIds hbound =>
      obtain ⟨rfl, hne⟩ := boundSuiteIds_ok hbound
      obtain ⟨runs, hruns, hstate⟩ := Option.bind_eq_some_iff.mp h
      obtain ⟨state, hoverall, houtcome⟩ := Option.map_eq_some_iff.mp hstate
      cases houtcome
      refine ⟨hfailOn, ⟨provider, hprovider, rfl⟩, ?_⟩
      let marker := triggerMarker ⟨provider, request.pipelineOrDagId, request.providerRunId⟩
      have hnew : ∃ new, runs = db.runs ++ new ∧ (∀ r ∈ new, r.status = .queued) ∧
          (new ≠ [] → ∀ s ∈ boundSuites bindings request, runFor db.runs s marker = none →
            ∃ r ∈ new, r.suiteId = s ∧ r.triggeredBy = some marker) ∧
          ((∀ s ∈ boundSuites bindings request, (runFor db.runs s marker).isSome) → new = []) := by
        split at hruns
        · obtain ⟨new, hafter, hqueued, hstarted, hnone⟩ := startRuns_spec hruns
          exact ⟨new, hafter, hqueued, fun _ => hstarted, hnone⟩
        · cases hruns
          exact ⟨[], by simp, by simp, fun hno => absurd rfl hno, fun _ => rfl⟩
      obtain ⟨new, rfl, hqueued, hstarted, hnone⟩ := hnew
      have hpassed := overall_suiteStates_passed_iff
        { db with runs := dispatch refuses db.runs.length (db.runs ++ new) } marker failOn hne
      rw [hoverall, Option.some.injEq] at hpassed
      have hsame : new = [] →
          ({ db with runs := dispatch refuses db.runs.length (db.runs ++ new) } : Tables) = db := by
        rintro rfl
        rw [dispatch_append]
        simp
      show state = .passed ↔ ∀ s ∈ boundSuites bindings request,
        ∃ run, gateRun db marker s = some run ∧ Clears db failOn run
      by_cases hempty : new = []
      · rw [hpassed, hsame hempty]
      · -- a suite had no run: the gate started one, and neither side holds
        have hmissing : ∃ s ∈ boundSuites bindings request, runFor db.runs s marker = none := by
          by_contra hno
          push Not at hno
          exact hempty (hnone fun s hs => Option.isSome_iff_ne_none.mpr (hno s hs))
        obtain ⟨s, hs, hfree⟩ := hmissing
        rw [hpassed]
        constructor
        · intro hall
          exact absurd (hall s hs) (started_not_cleared hqueued (hstarted hempty s hs hfree))
        · intro hall
          obtain ⟨run, hrun, -⟩ := hall s hs
          have hsome : (gateRun db marker s).isSome := by rw [hrun]; rfl
          rw [gateRun_isSome_iff, hfree] at hsome
          cases hsome

/-! ## Worse results -/

/-- The severity of a result; a skipped or erroring one has none. -/
def severity : ResultStatus → Option ℕ
  | .pass => some 0
  | .warn => some 1
  | .fail => some 2
  | .critical => some 3
  | .skip | .error => none

/-- The same result, of the same or a higher severity. -/
structure RaisedResult (r r' : Result) : Prop where
  runId : r'.runId = r.runId
  checkId : r'.checkId = r.checkId
  status : r'.status = r.status ∨
    ∃ a b, severity r.status = some a ∧ severity r'.status = some b ∧ a ≤ b

/-- The same run, its recorded worst severity the same or a higher one. -/
structure RaisedRun (run run' : Run) : Prop where
  id : run'.id = run.id
  suiteId : run'.suiteId = run.suiteId
  status : run'.status = run.status
  triggeredBy : run'.triggeredBy = run.triggeredBy
  total : run'.recordedChecksTotal = run.recordedChecksTotal
  worst : ∀ tier, run.recordedWorstSeverity = some tier →
    ∃ tier', run'.recordedWorstSeverity = some tier' ∧ tier.rank ≤ tier'.rank

/-- The same tables with some severities raised. -/
structure Raised (db db' : Tables) : Prop where
  runs : List.Forall₂ RaisedRun db.runs db'.runs
  results : List.Forall₂ RaisedResult db.results db'.results

theorem forall₂_find? {α : Type} {R : α → α → Prop} {p : α → Bool} {l l' : List α}
    (h : List.Forall₂ R l l') (hp : ∀ a b, R a b → p b = p a) {b : α} (hb : l'.find? p = some b) :
    ∃ a, l.find? p = some a ∧ R a b := by
  induction h with
  | nil => cases hb
  | @cons a c l l' hac _ ih =>
    rw [List.find?_cons] at hb ⊢
    rw [hp a c hac] at hb
    cases hpa : p a with
    | true =>
      rw [hpa] at hb
      cases hb
      exact ⟨a, rfl, hac⟩
    | false =>
      rw [hpa] at hb
      exact ih hb

theorem forall₂_mem {α : Type} {R : α → α → Prop} {l l' : List α} (h : List.Forall₂ R l l') :
    (∀ a ∈ l, ∃ b ∈ l', R a b) ∧ ∀ b ∈ l', ∃ a ∈ l, R a b := by
  induction h with
  | nil => simp
  | @cons a c l l' hac _ ih =>
    constructor
    · intro x hx
      rcases List.mem_cons.mp hx with rfl | hx
      · exact ⟨c, List.mem_cons_self, hac⟩
      · obtain ⟨b, hb, hr⟩ := ih.1 x hx
        exact ⟨b, List.mem_cons_of_mem _ hb, hr⟩
    · intro y hy
      rcases List.mem_cons.mp hy with rfl | hy
      · exact ⟨a, List.mem_cons_self, hac⟩
      · obtain ⟨b, hb, hr⟩ := ih.2 y hy
        exact ⟨b, List.mem_cons_of_mem _ hb, hr⟩

theorem severity_of_tier {s : ResultStatus} {tier : FailingTier}
    (h : s.failingTier = some tier) : severity s = some tier.rank := by
  cases s <;> simp [ResultStatus.failingTier] at h <;> subst h <;> rfl

theorem tier_of_severity {s : ResultStatus} {n : ℕ} (h : severity s = some n) (hn : 0 < n) :
    ∃ tier, s.failingTier = some tier ∧ tier.rank = n := by
  cases s <;> simp [severity] at h <;> subst h
  · omega
  · exact ⟨.warn, rfl, rfl⟩
  · exact ⟨.fail, rfl, rfl⟩
  · exact ⟨.critical, rfl, rfl⟩

/-- A run that clears with its severities raised clears without. -/
theorem Clears.of_raised {db db' : Tables} (h : Raised db db') {failOn : FailingTier}
    {run run' : Run} (hrun : RaisedRun run run') (hclears : Clears db' failOn run') :
    Clears db failOn run := by
  have hdown : ∀ r ∈ db.resultsOf run.id, ∃ r' ∈ db'.resultsOf run'.id, RaisedResult r r' := by
    intro r hr
    obtain ⟨hmem, hid⟩ := List.mem_filter.mp hr
    obtain ⟨r', hr', hraised⟩ := (forall₂_mem h.results).1 r hmem
    refine ⟨r', List.mem_filter.mpr ⟨hr', ?_⟩, hraised⟩
    rw [hraised.runId, hrun.id]
    exact hid
  have hup : ∀ r' ∈ db'.resultsOf run'.id, ∃ r ∈ db.resultsOf run.id, RaisedResult r r' := by
    intro r' hr'
    obtain ⟨hmem, hid⟩ := List.mem_filter.mp hr'
    obtain ⟨r, hr, hraised⟩ := (forall₂_mem h.results).2 r' hmem
    refine ⟨r, List.mem_filter.mpr ⟨hr, ?_⟩, hraised⟩
    rw [← hraised.runId, ← hrun.id]
    exact hid
  refine ⟨hrun.status.symm.trans hclears.succeeded, ?_, ?_, ?_⟩
  · have hevaluated := hclears.evaluated
    rw [hrun.total] at hevaluated
    cases htotal : run.recordedChecksTotal with
    | some total =>
      rw [htotal] at hevaluated
      exact hevaluated
    | none =>
      rw [htotal] at hevaluated
      obtain ⟨r', hr', hskip, herror⟩ := hevaluated
      obtain ⟨r, hr, hraised⟩ := hup r' hr'
      refine ⟨r, hr, ?_⟩
      rcases hraised.status with hsame | ⟨a, b, ha, -, -⟩
      · rw [hsame] at hskip herror
        exact ⟨hskip, herror⟩
      · constructor <;> intro hs <;> rw [hs] at ha <;> cases ha
  · intro r hr herror
    obtain ⟨r', hr', hraised⟩ := hdown r hr
    rcases hraised.status with hsame | ⟨a, b, ha, -, -⟩
    · exact hclears.noError r' hr' (hsame.trans herror)
    · rw [herror] at ha
      cases ha
  · have hbelow := hclears.below
    rw [hrun.total] at hbelow
    cases htotal : run.recordedChecksTotal with
    | some total =>
      rw [htotal] at hbelow
      intro tier htier
      obtain ⟨tier', htier', hle⟩ := hrun.worst tier htier
      exact lt_of_le_of_lt hle (hbelow tier' htier')
    | none =>
      rw [htotal] at hbelow
      intro r hr tier htier
      obtain ⟨r', hr', hraised⟩ := hdown r hr
      rcases hraised.status with hsame | ⟨a, b, ha, hb, hab⟩
      · exact hbelow r' hr' tier (by rw [hsame]; exact htier)
      · rw [severity_of_tier htier, Option.some.injEq] at ha
        have hpos : 0 < tier.rank := by cases tier <;> decide
        obtain ⟨tier', htier', hrank⟩ := tier_of_severity hb (by omega)
        have hlt := hbelow r' hr' tier' htier'
        omega

theorem gateRun_of_raised {db db' : Tables} (h : Raised db db') {marker : String} {suiteId : ℕ}
    {run' : Run} (hrun : gateRun db' marker suiteId = some run') :
    ∃ run, gateRun db marker suiteId = some run ∧ RaisedRun run run' := by
  refine forall₂_find? (List.rel_reverse h.runs) (fun a b hab => ?_) hrun
  rw [hab.suiteId, hab.triggeredBy]

/-- One pipeline with one bound suite, whose run for it passed its only check. -/
def ordersBinding : TriggerBinding := ⟨"adf", "orders", "prod", 7, true⟩

def ordersGate : GateRequest := ⟨"adf", "orders", "prod", "r-1", "fail", false⟩

def ordersRun : Run :=
  ⟨1, 7, .succeeded, some "adf:orders:r-1", 0, some 1, some 2, none, some 1, some 1, some 1, none⟩

def ordersTables : Tables := ⟨[ordersRun], [⟨1, 10, .pass⟩]⟩

def ordersOutcome : GateOutcome :=
  ⟨.passed, .fail, "adf:orders:r-1",
    [⟨7, some 1, some .succeeded, .passed, 1, 1, none, false⟩], 0, none⟩

theorem ordersGate_outcome :
    evaluateGate (fun _ => .granted) (fun _ => false) 0 [ordersBinding] ordersTables ordersGate =
      some (.ok ordersOutcome) := by
  rfl

end DataQ.Gate
