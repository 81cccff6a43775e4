import DataQ.Foundations.Partition
import DataQ.Runs.Vocabulary

/-! # The phases a run yields

`run_service._run_outcome_phases` as the list of what the generator does: it yields phases, in
the order native batches, native checks, comparisons, the GX batch, the scalar monitors, and last
the stateful monitors, and stops at the first call that raises. A runner is what its hooks answer;
an answer of the wrong length raises, as `zip(strict=True)` does. -/

namespace DataQ.Runs
open DataQ.Partition
set_option autoImplicit false

structure OutcomePhase where
  resolved : List (ℕ × CheckOutcome)
  publishable : Bool
  deriving Repr

inductive PhaseEvent
  | yielded (phase : OutcomePhase)
  | raised (message : String)
  deriving Repr

abbrev Answer (β : Type) := Except String β

/-- What a `CheckRunner` advertises and how each of its hooks answers. -/
structure Runner where
  typeName : String
  supportedNativeEngines : List String
  runNativeCheck : Option (Check → Answer CheckOutcome)
  runNativeChecks : Option (String → List Check → Answer (List CheckOutcome))
  runChecks : List Check → Answer (List CheckOutcome)
  supportedMonitorKinds : List CheckKind
  runMonitors : Option (List Check → Answer (List CheckOutcome))

structure Executors where
  comparison : Option (Check → Answer CheckOutcome)
  statefulMonitor : Option (Check → Answer CheckOutcome)

/-- The operational `error` outcome of a check with no executor. -/
def missingOutcome (check : Check) (message : String) : CheckOutcome :=
  { expectationType := check.expectationType
    success := false
    errored := true
    skipped := false
    errorMessage := some message
    metricValue := none
    unexpectedPercent := none
    observedCount := none
    severity := none }

def executorOutcome (executor : Option (Check → Answer CheckOutcome)) (check : Check)
    (missing : String) : Answer CheckOutcome :=
  match executor with
  | none => .ok (missingOutcome check missing)
  | some run => run check

/-- One phase of a batch: the indices paired with the outcomes, strictly. -/
def batchPhase (is : List ℕ) (answer : Answer (List CheckOutcome)) : PhaseEvent :=
  match answer with
  | .error message => .raised message
  | .ok outcomes =>
    if outcomes.length = is.length then .yielded ⟨is.zip outcomes, true⟩
    else .raised "zip() arguments have different lengths"

/-- One phase of a single check. -/
def singlePhase (i : ℕ) (publishable : Bool) (answer : Answer CheckOutcome) : PhaseEvent :=
  match answer with
  | .error message => .raised message
  | .ok outcome => .yielded ⟨[(i, outcome)], publishable⟩

def comparisonMissing : String :=
  "comparison checks need the comparison run path (no executor supplied on this caller — ADR 0015)"

def statefulMissing : String :=
  "stateful monitor kinds need the baseline-diff run path (no executor supplied on this caller " ++
    "— #592)"

def nativeMissing (engine : String) : String :=
  "engine '" ++ engine ++ "' is not available on this connection — the check was authored for a " ++
    "platform-native engine this deployment cannot run (ADR 0036); re-check the connection's " ++
    "engine capabilities or re-point the check to 'gx'"

/-- The message of the `NotImplementedError` for monitor kinds the runner does not list. -/
def unsupportedMonitors (runner : Runner) (monitors : List Check) : String :=
  let kinds := ((monitors.map Check.kind).filter (· ∉ runner.supportedMonitorKinds)).map CheckKind.name
  runner.typeName ++ " does not support monitor kind(s) " ++
    ", ".intercalate (kinds.dedup.mergeSort fun a b => decide (a ≤ b)) ++
    " — these need a monitor-capable datasource (Snowflake / Unity Catalog / PostgreSQL / MySQL / " ++
    "Trino / SQL Server / Athena / Redshift / BigQuery / Iceberg / ADLS Gen2 / S3 / GCS)"

section Dispatch
variable (runner : Runner) (executors : Executors) (checks : List Check)

/-- A native check the runner advertises an engine for. -/
def isAdvertised (c : Check) : Bool :=
  c.engineOrGx ≠ gxEngine && decide (c.engineOrGx ∈ runner.supportedNativeEngines)

/-- The engines of the batched checks, in order of first appearance. -/
def batchedEngines : List String :=
  ((checks.filter (isAdvertised runner)).map Check.engineOrGx).reverse.dedup.reverse

/-- `i in batched`, once every engine's batch has been evaluated. -/
def isBatched (c : Check) : Bool := runner.runNativeChecks.isSome && isAdvertised runner c

def nativeBatches : List PhaseEvent :=
  match runner.runNativeChecks with
  | none => []
  | some batchRun => (batchedEngines runner checks).map fun engine =>
      let is := indices checks fun c => isAdvertised runner c && decide (c.engineOrGx = engine)
      batchPhase is (batchRun engine (pick checks is))

/-- The check a native engine runs alone, or the error outcome when nothing can run it. -/
def nativeOutcome (c : Check) : Answer CheckOutcome :=
  match runner.runNativeCheck with
  | some nativeRun =>
    if c.engineOrGx ∈ runner.supportedNativeEngines then nativeRun c
    else .ok (missingOutcome c (nativeMissing c.engineOrGx))
  | none => .ok (missingOutcome c (nativeMissing c.engineOrGx))

/-- One phase for each check at the given positions. -/
def singlePhases (is : List ℕ) (publishable : Bool) (outcome : Check → Answer CheckOutcome) :
    List PhaseEvent :=
  is.filterMap fun i => (checks[i]?).map fun c => singlePhase i publishable (outcome c)

def nativeIdx : List ℕ :=
  indices checks fun c => c.engineOrGx ≠ gxEngine && !isBatched runner c

def gxIdx (p : CheckKind → Bool) : List ℕ :=
  indices checks fun c => decide (c.engineOrGx = gxEngine) && p c.kind

def expectationBatch : List PhaseEvent :=
  let is := gxIdx checks (· == .expectation)
  if is = [] then [] else [batchPhase is (runner.runChecks (pick checks is))]

def monitorBatch : List PhaseEvent :=
  let is := gxIdx checks CheckKind.scalarMonitor
  if is = [] then []
  else if (pick checks is).any fun c => c.kind ∉ runner.supportedMonitorKinds then
    [.raised (unsupportedMonitors runner (pick checks is))]
  else match runner.runMonitors with
    | none => [.raised (runner.typeName ++ " advertises monitor kinds but implements no " ++
        "run_monitors — runner capability and implementation drifted")]
    | some runMonitors => [batchPhase is (runMonitors (pick checks is))]

/-- A generator that raises yields nothing after it. -/
def untilRaise : List PhaseEvent → List PhaseEvent
  | [] => []
  | .raised message :: _ => [.raised message]
  | .yielded phase :: rest => .yielded phase :: untilRaise rest

/-- `_run_outcome_phases`. Every `CHECK_KINDS` member has a run path, so the source's unsupported
kind is not reachable here. -/
def runOutcomePhases : List PhaseEvent :=
  untilRaise <|
    nativeBatches runner checks ++
    singlePhases checks (nativeIdx runner checks) true (nativeOutcome runner) ++
    singlePhases checks (gxIdx checks (· == .comparison)) true
      (fun c => executorOutcome executors.comparison c comparisonMissing) ++
    expectationBatch runner checks ++
    monitorBatch runner checks ++
    singlePhases checks (gxIdx checks CheckKind.statefulMonitor) false
      (fun c => executorOutcome executors.statefulMonitor c statefulMissing)

end Dispatch

/-! ## A run that does not raise resolves every check once -/

def PhaseEvent.positions : PhaseEvent → List ℕ
  | .yielded phase => phase.resolved.map Prod.fst
  | .raised _ => []

def PhaseEvent.isYield : PhaseEvent → Bool
  | .yielded _ => true
  | .raised _ => false

theorem untilRaise_of_yields {events : List PhaseEvent}
    (h : ∀ e ∈ untilRaise events, e.isYield = true) : untilRaise events = events := by
  induction events with
  | nil => rfl
  | cons e events ih =>
    cases e with
    | yielded phase =>
      rw [untilRaise] at h ⊢
      rw [ih fun e he => h e (List.mem_cons_of_mem _ he)]
    | raised message =>
      have hbad := h (.raised message) (by simp [untilRaise])
      cases hbad

theorem batchPhase_positions {is : List ℕ} {answer : Answer (List CheckOutcome)}
    (h : (batchPhase is answer).isYield = true) : (batchPhase is answer).positions = is := by
  unfold batchPhase at h ⊢
  cases answer with
  | error message => cases h
  | ok outcomes =>
    by_cases hlen : outcomes.length = is.length
    · simp only [hlen, if_true, PhaseEvent.positions]
      rw [List.map_fst_zip (by omega)]
    · simp [hlen, PhaseEvent.isYield] at h

theorem singlePhase_positions {i : ℕ} {publishable : Bool} {answer : Answer CheckOutcome}
    (h : (singlePhase i publishable answer).isYield = true) :
    (singlePhase i publishable answer).positions = [i] := by
  unfold singlePhase at h ⊢
  cases answer with
  | error message => cases h
  | ok outcome => rfl

theorem singlePhases_positions {checks : List Check} {is : List ℕ} (publishable : Bool)
    (outcome : Check → Answer CheckOutcome) (his : ∀ i ∈ is, i < checks.length)
    (h : ∀ e ∈ singlePhases checks is publishable outcome, e.isYield = true) :
    (singlePhases checks is publishable outcome).flatMap PhaseEvent.positions = is := by
  induction is with
  | nil => rfl
  | cons i is ih =>
    have hi := his i List.mem_cons_self
    have hcons : singlePhases checks (i :: is) publishable outcome =
        singlePhase i publishable (outcome checks[i]) ::
          singlePhases checks is publishable outcome := by
      simp [singlePhases, hi]
    rw [hcons] at h ⊢
    rw [List.flatMap_cons, singlePhase_positions (h _ List.mem_cons_self),
      ih (fun j hj => his j (List.mem_cons_of_mem _ hj))
        (fun e he => h e (List.mem_cons_of_mem _ he))]
    rfl

theorem nativeBatches_positions (runner : Runner) (checks : List Check)
    (h : ∀ e ∈ nativeBatches runner checks, e.isYield = true) :
    ((nativeBatches runner checks).flatMap PhaseEvent.positions).Perm
      (indices checks (isBatched runner)) := by
  unfold nativeBatches at h ⊢
  cases hb : runner.runNativeChecks with
  | none => simp [isBatched, hb, indices]
  | some batchRun =>
    rw [hb] at h
    rw [List.flatMap_map]
    have hpos : ∀ engine ∈ batchedEngines runner checks,
        (batchPhase (indices checks fun c => isAdvertised runner c && decide (c.engineOrGx = engine))
          (batchRun engine (pick checks (indices checks fun c =>
            isAdvertised runner c && decide (c.engineOrGx = engine))))).positions =
        indices checks fun c => isAdvertised runner c && decide (c.engineOrGx = engine) := by
      intro engine hengine
      exact batchPhase_positions (h _ (List.mem_map.mpr ⟨engine, hengine, rfl⟩))
    rw [List.flatMap_congr hpos]
    have hnodup : (batchedEngines runner checks).Nodup := by
      rw [batchedEngines, List.nodup_reverse]
      exact List.nodup_dedup _
    refine (flatMap_indices_perm checks Check.engineOrGx (isAdvertised runner) hnodup).trans ?_
    refine List.Perm.of_eq (indices_congr fun c hc => ?_)
    -- An advertised check's engine is listed, so grouping by engine drops none of them.
    cases ha : isAdvertised runner c with
    | false => simp [isBatched, ha]
    | true =>
      have hmem : c.engineOrGx ∈ batchedEngines runner checks := by
        simp only [batchedEngines, List.mem_reverse, List.mem_dedup, List.mem_map,
          List.mem_filter]
        exact ⟨c, ⟨hc, ha⟩, rfl⟩
      simp [isBatched, ha, hb, hmem]

theorem optionalBatch_positions (is : List ℕ) (answer : Answer (List CheckOutcome))
    (h : ∀ e ∈ (if is = [] then [] else [batchPhase is answer]), e.isYield = true) :
    (if is = [] then [] else [batchPhase is answer]).flatMap PhaseEvent.positions = is := by
  by_cases hnil : is = []
  · simp [hnil]
  · simp only [hnil, if_false, List.mem_singleton, forall_eq] at h ⊢
    rw [List.flatMap_singleton, batchPhase_positions h]

theorem monitorBatch_positions (runner : Runner) (checks : List Check)
    (h : ∀ e ∈ monitorBatch runner checks, e.isYield = true) :
    (monitorBatch runner checks).flatMap PhaseEvent.positions =
      gxIdx checks CheckKind.scalarMonitor := by
  unfold monitorBatch at h ⊢
  by_cases hnil : gxIdx checks CheckKind.scalarMonitor = []
  · simp [hnil]
  · simp only [hnil, if_false] at h ⊢
    split at h
    · simp [PhaseEvent.isYield] at h
    · rename_i hsup
      simp only [hsup]
      cases hm : runner.runMonitors with
      | none => simp [hm, PhaseEvent.isYield] at h
      | some runMonitors =>
        simp only [hm, List.mem_singleton, forall_eq] at h
        simpa using batchPhase_positions h

theorem mem_gxIdx_lt {checks : List Check} {p : CheckKind → Bool} {i : ℕ}
    (h : i ∈ gxIdx checks p) : i < checks.length := by
  obtain ⟨x, hx, -⟩ := mem_indices.mp h
  exact (List.getElem?_eq_some_iff.mp hx).1

/-- The kinds of a GX check go to exactly one of the four run paths. -/
theorem gxIdx_kinds_perm (checks : List Check) :
    (gxIdx checks (· == .comparison) ++ (gxIdx checks (· == .expectation) ++
      (gxIdx checks CheckKind.scalarMonitor ++ gxIdx checks CheckKind.statefulMonitor))).Perm
      (gxIdx checks fun _ => true) := by
  have hgx : ∀ p : CheckKind → Bool, gxIdx checks p =
      indices checks fun c => decide (c.engineOrGx = gxEngine) && p c.kind := fun _ => rfl
  have hcut : ∀ p q : CheckKind → Bool,
      (gxIdx checks (fun k => q k && p k) ++ gxIdx checks (fun k => q k && !p k)).Perm
        (gxIdx checks q) := by
    intro p q
    have h := indices_split checks (fun c => p c.kind)
      (fun c => decide (c.engineOrGx = gxEngine) && q c.kind)
    simpa only [hgx, Bool.and_assoc] using h
  have h1 := hcut (· == .comparison) (fun _ => true)
  have h2 := hcut (· == .expectation) (fun k => !(k == .comparison))
  have h3 := hcut CheckKind.scalarMonitor (fun k => !(k == .comparison) && !(k == .expectation))
  have e2 : (fun k : CheckKind => !(k == .comparison) && k == .expectation) =
      (· == .expectation) := by funext k; cases k <;> rfl
  have e3 : (fun k : CheckKind => !(k == .comparison) && !(k == .expectation) && k.scalarMonitor) =
      CheckKind.scalarMonitor := by funext k; cases k <;> rfl
  have e4 : (fun k : CheckKind => !(k == .comparison) && !(k == .expectation) && !k.scalarMonitor) =
      CheckKind.statefulMonitor := by funext k; cases k <;> rfl
  simp only [Bool.true_and] at h1
  rw [e2] at h2
  rw [e3, e4] at h3
  exact ((((h3.append_left _).trans h2).append_left _).trans h1)

/-- **Every check is resolved exactly once** by the phases of a run that does not raise. -/
theorem runOutcomePhases_positions {runner : Runner} {executors : Executors} {checks : List Check}
    (h : ∀ e ∈ runOutcomePhases runner executors checks, e.isYield = true) :
    ((runOutcomePhases runner executors checks).flatMap PhaseEvent.positions).Perm
      (List.range checks.length) := by
  have hall := untilRaise_of_yields h
  unfold runOutcomePhases at h ⊢
  rw [hall] at h ⊢
  simp only [List.mem_append, List.flatMap_append] at h ⊢
  have hnative : ∀ i ∈ nativeIdx runner checks, i < checks.length := by
    intro i hi
    obtain ⟨x, hx, -⟩ := mem_indices.mp hi
    exact (List.getElem?_eq_some_iff.mp hx).1
  have p1 := nativeBatches_positions runner checks (fun e he => h e (by tauto))
  have p2 := singlePhases_positions true (nativeOutcome runner) hnative
    (fun e he => h e (by tauto))
  have p3 := singlePhases_positions true
    (fun c => executorOutcome executors.comparison c comparisonMissing)
    (fun _ hi => mem_gxIdx_lt (p := (· == .comparison)) hi) (fun e he => h e (by tauto))
  have p4 := optionalBatch_positions (gxIdx checks (· == .expectation))
    (runner.runChecks (pick checks (gxIdx checks (· == .expectation))))
    (fun e he => h e (by have : e ∈ expectationBatch runner checks := he; tauto))
  have p5 := monitorBatch_positions runner checks (fun e he => h e (by tauto))
  have p6 := singlePhases_positions false
    (fun c => executorOutcome executors.statefulMonitor c statefulMissing)
    (fun _ hi => mem_gxIdx_lt (p := CheckKind.statefulMonitor) hi) (fun e he => h e (by tauto))
  have p4' : (expectationBatch runner checks).flatMap PhaseEvent.positions =
      gxIdx checks (· == .expectation) := p4
  rw [p2, p3, p4', p5, p6]
  -- Native checks are batched or alone; the rest are GX checks of one of the four kinds.
  have hnat : (indices checks (isBatched runner) ++ nativeIdx runner checks).Perm
      (indices checks fun c => c.engineOrGx ≠ gxEngine) := by
    have hs := indices_split checks (isBatched runner) (fun c => decide (c.engineOrGx ≠ gxEngine))
    refine List.Perm.trans (List.Perm.of_eq ?_) hs
    congr 1
    apply indices_congr
    intro c _
    by_cases hc : c.engineOrGx = gxEngine <;> simp [isBatched, isAdvertised, hc]
  have hgx : ((indices checks fun c => decide (c.engineOrGx ≠ gxEngine)) ++
      gxIdx checks (fun _ => true)).Perm (List.range checks.length) := by
    have hs := indices_split checks (fun c => decide (c.engineOrGx ≠ gxEngine)) (fun _ => true)
    simp only [Bool.true_and, indices_true] at hs
    refine List.Perm.trans (List.Perm.of_eq ?_) hs
    congr 1
    apply indices_congr
    intro c _
    simp
  refine List.Perm.trans ?_ hgx
  refine List.Perm.trans ?_ ((hnat.append_right _).trans ((List.Perm.refl _).append_left _))
  refine List.Perm.trans ?_ ((gxIdx_kinds_perm checks).append_left _)
  simp only [List.append_assoc]
  exact (p1.append_right _)

end DataQ.Runs
