import DataQ.Runs.SplitRunners

/-! # Every check gets one outcome

The phases of a run that does not raise resolve every check once, with the outcome that the check's
own path computed for it. The stateful checks that DataQ evaluates are never published early. -/

namespace DataQ.Runs
open DataQ.Partition DataQ.Groups
set_option autoImplicit false

variable (runner : Runner) (executors : Executors) (checks : List Check)

/-- What the path of a check answers for it. -/
def phaseComputed (c : Check) (i : ℕ) (outcome : CheckOutcome) : Prop :=
  if isBatched runner c then
    ∃ batchRun, runner.runNativeChecks = some batchRun ∧
      (part checks (fun other => isAdvertised runner other &&
        decide (other.engineOrGx = c.engineOrGx)) (batchRun c.engineOrGx)).Answers i outcome
  else if c.engineOrGx ≠ gxEngine then nativeOutcome runner c = .ok outcome
  else
    match c.kind with
    | .comparison => executorOutcome executors.comparison c comparisonMissing = .ok outcome
    | .expectation =>
      (part checks (fun other => decide (other.engineOrGx = gxEngine) &&
        other.kind == .expectation) runner.runChecks).Answers i outcome
    | .freshness | .volume | .aggregate =>
      ∃ runMonitors, runner.runMonitors = some runMonitors ∧
        (part checks (fun other => decide (other.engineOrGx = gxEngine) &&
          other.kind.scalarMonitor) runMonitors).Answers i outcome
    | .schemaDrift | .anomaly | .piiDrift =>
      executorOutcome executors.statefulMonitor c statefulMissing = .ok outcome

/-- A pair of a phase: the check at the index, its own outcome, and whether the phase may be
published. -/
def Resolves (phase : OutcomePhase) (i : ℕ) (outcome : CheckOutcome) : Prop :=
  ∃ c, checks[i]? = some c ∧ phaseComputed runner executors checks c i outcome ∧
    (phase.publishable = false ↔ c.engineOrGx = gxEngine ∧ c.kind.statefulMonitor = true)

variable {runner executors checks}

theorem mem_of_mem_untilRaise {event : PhaseEvent} {events : List PhaseEvent}
    (h : event ∈ untilRaise events) : event ∈ events := by
  induction events with
  | nil => exact h
  | cons first events ih =>
    cases first with
    | raised message =>
      rw [untilRaise, List.mem_singleton] at h
      rw [h]
      exact List.mem_cons_self
    | yielded phase =>
      rw [untilRaise, List.mem_cons] at h
      exact List.mem_cons.mpr (h.imp id ih)

theorem batchPhase_yielded {is : List ℕ} {answer : Answer (List CheckOutcome)}
    {phase : OutcomePhase} (h : batchPhase is answer = .yielded phase) :
    phase.publishable = true ∧ ∀ i outcome, (i, outcome) ∈ phase.resolved →
      i ∈ is ∧ (⟨is, answer⟩ : Group String CheckOutcome).Answers i outcome := by
  unfold batchPhase at h
  cases answer with
  | error message => cases h
  | ok outcomes =>
    simp only at h
    split at h
    · obtain rfl := PhaseEvent.yielded.inj h
      exact ⟨rfl, fun i outcome hmem =>
        ⟨(List.of_mem_zip hmem).1, answers_of_mem_zip rfl hmem⟩⟩
    · cases h

theorem singlePhases_yielded {is : List ℕ} {publishable : Bool}
    {computed : Check → Answer CheckOutcome} {phase : OutcomePhase}
    (h : .yielded phase ∈ singlePhases checks is publishable computed) :
    phase.publishable = publishable ∧ ∀ i outcome, (i, outcome) ∈ phase.resolved →
      i ∈ is ∧ ∃ c, checks[i]? = some c ∧ computed c = .ok outcome := by
  obtain ⟨j, hj, hphase⟩ := List.mem_filterMap.mp h
  obtain ⟨c, hc, hsingle⟩ := Option.map_eq_some_iff.mp hphase
  unfold singlePhase at hsingle
  cases hcomputed : computed c with
  | error message => simp [hcomputed] at hsingle
  | ok outcome =>
    rw [hcomputed] at hsingle
    obtain rfl := PhaseEvent.yielded.inj hsingle
    refine ⟨rfl, ?_⟩
    intro i outcome' hmem
    obtain ⟨rfl, rfl⟩ := Prod.mk.inj (List.mem_singleton.mp hmem)
    exact ⟨hj, c, hc, hcomputed⟩

theorem nativeBatches_resolves {phase : OutcomePhase}
    (h : .yielded phase ∈ nativeBatches runner checks) {i : ℕ} {outcome : CheckOutcome}
    (hi : (i, outcome) ∈ phase.resolved) : Resolves runner executors checks phase i outcome := by
  unfold nativeBatches at h
  cases hhook : runner.runNativeChecks with
  | none => simp [hhook] at h
  | some batchRun =>
    rw [hhook] at h
    obtain ⟨engine, _, hphase⟩ := List.mem_map.mp h
    obtain ⟨hpublish, hanswers⟩ := batchPhase_yielded hphase
    obtain ⟨hmem, hanswer⟩ := hanswers i outcome hi
    obtain ⟨c, hc, hselected⟩ := mem_indices.mp hmem
    rw [Bool.and_eq_true, decide_eq_true_eq] at hselected
    obtain ⟨hadvertised, rfl⟩ := hselected
    have hnative : c.engineOrGx ≠ gxEngine := by
      have hboth := (Bool.and_eq_true_iff.mp hadvertised).1
      simpa using hboth
    refine ⟨c, hc, ?_, by simp [hpublish, hnative]⟩
    rw [phaseComputed, if_pos (by simp [isBatched, hhook, hadvertised])]
    exact ⟨batchRun, hhook, hanswer⟩

theorem nativeAlone_resolves {phase : OutcomePhase}
    (h : .yielded phase ∈
      singlePhases checks (nativeIdx runner checks) true (nativeOutcome runner))
    {i : ℕ} {outcome : CheckOutcome} (hi : (i, outcome) ∈ phase.resolved) :
    Resolves runner executors checks phase i outcome := by
  obtain ⟨hpublish, hsingles⟩ := singlePhases_yielded h
  obtain ⟨hmem, c, hc, hcomputed⟩ := hsingles i outcome hi
  obtain ⟨c', hc', hnative⟩ := mem_indices.mp hmem
  obtain rfl := Option.some.inj (hc.symm.trans hc')
  rw [Bool.and_eq_true, decide_eq_true_eq, Bool.not_eq_true'] at hnative
  refine ⟨c, hc, ?_, by simp [hpublish, hnative.1]⟩
  rw [phaseComputed, if_neg (by simp [hnative.2]), if_pos hnative.1]
  exact hcomputed

theorem not_batched_of_gx {c : Check} (h : c.engineOrGx = gxEngine) :
    isBatched runner c = false := by
  simp [isBatched, isAdvertised, h]

theorem gx_of_mem {p : CheckKind → Bool} {i : ℕ} {c : Check} (h : i ∈ gxIdx checks p)
    (hc : checks[i]? = some c) : c.engineOrGx = gxEngine ∧ p c.kind = true := by
  obtain ⟨c', hc', hgx⟩ := mem_indices.mp h
  obtain rfl := Option.some.inj (hc.symm.trans hc')
  simpa using hgx

theorem comparison_resolves {phase : OutcomePhase}
    (h : .yielded phase ∈ singlePhases checks (gxIdx checks (· == .comparison)) true
      (fun c => executorOutcome executors.comparison c comparisonMissing))
    {i : ℕ} {outcome : CheckOutcome} (hi : (i, outcome) ∈ phase.resolved) :
    Resolves runner executors checks phase i outcome := by
  obtain ⟨hpublish, hsingles⟩ := singlePhases_yielded h
  obtain ⟨hmem, c, hc, hcomputed⟩ := hsingles i outcome hi
  obtain ⟨hgx, hkind⟩ := gx_of_mem hmem hc
  have hkind : c.kind = .comparison := by simpa using hkind
  refine ⟨c, hc, ?_, by simp [hpublish, hkind, CheckKind.statefulMonitor]⟩
  rw [phaseComputed, if_neg (by simp [not_batched_of_gx hgx]), if_neg (by simp [hgx]), hkind]
  exact hcomputed

theorem stateful_resolves {phase : OutcomePhase}
    (h : .yielded phase ∈ singlePhases checks (gxIdx checks CheckKind.statefulMonitor) false
      (fun c => executorOutcome executors.statefulMonitor c statefulMissing))
    {i : ℕ} {outcome : CheckOutcome} (hi : (i, outcome) ∈ phase.resolved) :
    Resolves runner executors checks phase i outcome := by
  obtain ⟨hpublish, hsingles⟩ := singlePhases_yielded h
  obtain ⟨hmem, c, hc, hcomputed⟩ := hsingles i outcome hi
  obtain ⟨hgx, hkind⟩ := gx_of_mem hmem hc
  refine ⟨c, hc, ?_, by simp [hpublish, hkind, hgx]⟩
  rw [phaseComputed, if_neg (by simp [not_batched_of_gx hgx]), if_neg (by simp [hgx])]
  cases hc' : c.kind <;> simp only [hc', CheckKind.statefulMonitor] at hkind ⊢
  all_goals first | exact hcomputed | cases hkind

theorem expectation_resolves {phase : OutcomePhase}
    (h : .yielded phase ∈ expectationBatch runner checks) {i : ℕ} {outcome : CheckOutcome}
    (hi : (i, outcome) ∈ phase.resolved) : Resolves runner executors checks phase i outcome := by
  simp only [expectationBatch] at h
  split at h
  · cases h
  · obtain ⟨hpublish, hanswers⟩ := batchPhase_yielded (List.mem_singleton.mp h).symm
    obtain ⟨hmem, hanswer⟩ := hanswers i outcome hi
    obtain ⟨c, hc, _⟩ := mem_indices.mp hmem
    obtain ⟨hgx, hkind⟩ := gx_of_mem hmem hc
    have hkind : c.kind = .expectation := by simpa using hkind
    refine ⟨c, hc, ?_, by simp [hpublish, hkind, CheckKind.statefulMonitor]⟩
    rw [phaseComputed, if_neg (by simp [not_batched_of_gx hgx]), if_neg (by simp [hgx]), hkind]
    exact hanswer

theorem monitor_resolves {phase : OutcomePhase}
    (h : .yielded phase ∈ monitorBatch runner checks) {i : ℕ} {outcome : CheckOutcome}
    (hi : (i, outcome) ∈ phase.resolved) : Resolves runner executors checks phase i outcome := by
  simp only [monitorBatch] at h
  split at h
  · cases h
  split at h
  · cases List.mem_singleton.mp h
  split at h
  · cases List.mem_singleton.mp h
  · next runMonitors hhook =>
    obtain ⟨hpublish, hanswers⟩ := batchPhase_yielded (List.mem_singleton.mp h).symm
    obtain ⟨hmem, hanswer⟩ := hanswers i outcome hi
    obtain ⟨c, hc, _⟩ := mem_indices.mp hmem
    obtain ⟨hgx, hkind⟩ := gx_of_mem hmem hc
    have hplain : c.kind.statefulMonitor = false := by
      cases hc' : c.kind <;> simp_all [CheckKind.scalarMonitor, CheckKind.statefulMonitor]
    refine ⟨c, hc, ?_, by simp [hpublish, hplain]⟩
    rw [phaseComputed, if_neg (by simp [not_batched_of_gx hgx]), if_neg (by simp [hgx])]
    cases hc' : c.kind <;> simp only [hc', CheckKind.scalarMonitor] at hkind ⊢
    all_goals first | exact ⟨runMonitors, hhook, hanswer⟩ | cases hkind

/-- Whatever phase yields an outcome, it is the check's own. -/
theorem runOutcomePhases_resolves {phase : OutcomePhase}
    (h : .yielded phase ∈ runOutcomePhases runner executors checks) {i : ℕ}
    {outcome : CheckOutcome} (hi : (i, outcome) ∈ phase.resolved) :
    Resolves runner executors checks phase i outcome := by
  have hmem := mem_of_mem_untilRaise h
  simp only [List.mem_append] at hmem
  obtain ((((hbatch | halone) | hcomparison) | hexpectation) | hmonitor) | hstateful := hmem
  · exact nativeBatches_resolves hbatch hi
  · exact nativeAlone_resolves halone hi
  · exact comparison_resolves hcomparison hi
  · exact expectation_resolves hexpectation hi
  · exact monitor_resolves hmonitor hi
  · exact stateful_resolves hstateful hi

/-! ## A run whose hooks answer does not raise -/

variable (runner executors checks)

/-- Every hook that the checks need is there and answers. -/
structure Able : Prop where
  native : ∀ run ∈ runner.runNativeCheck, ∀ c, ∃ outcome, run c = .ok outcome
  nativeBatch : ∀ run ∈ runner.runNativeChecks, ∀ engine, Serves (run engine)
  expectations : Serves runner.runChecks
  kinds : ∀ c ∈ checks, c.kind.scalarMonitor = true → c.kind ∈ runner.supportedMonitorKinds
  monitors : ∃ run, runner.runMonitors = some run ∧ Serves run
  comparison : ∀ run ∈ executors.comparison, ∀ c, ∃ outcome, run c = .ok outcome
  stateful : ∀ run ∈ executors.statefulMonitor, ∀ c, ∃ outcome, run c = .ok outcome

variable {runner executors checks}

theorem batchPhase_isYield {hook : Hook} (hhook : Serves hook) (p : Check → Bool) :
    (batchPhase (indices checks p) (hook (pick checks (indices checks p)))).isYield = true := by
  obtain ⟨outcomes, hanswer, hlength⟩ := hhook (pick checks (indices checks p))
  rw [length_pick fun i hi => lt_of_mem_indices hi] at hlength
  unfold batchPhase
  simp [hanswer, hlength, PhaseEvent.isYield]

theorem singlePhases_isYield {is : List ℕ} {publishable : Bool}
    {computed : Check → Answer CheckOutcome} (h : ∀ c, ∃ outcome, computed c = .ok outcome) :
    ∀ event ∈ singlePhases checks is publishable computed, event.isYield = true := by
  intro event hevent
  obtain ⟨i, _, hphase⟩ := List.mem_filterMap.mp hevent
  obtain ⟨c, _, rfl⟩ := Option.map_eq_some_iff.mp hphase
  obtain ⟨outcome, houtcome⟩ := h c
  unfold singlePhase
  rw [houtcome]
  rfl

theorem executorOutcome_ok {executor : Option (Check → Answer CheckOutcome)}
    (h : ∀ run ∈ executor, ∀ c, ∃ outcome, run c = .ok outcome) (missing : String) (c : Check) :
    ∃ outcome, executorOutcome executor c missing = .ok outcome := by
  cases executor with
  | none => exact ⟨_, rfl⟩
  | some run => exact h run rfl c

theorem nativeOutcome_ok (h : Able runner executors checks) (c : Check) :
    ∃ outcome, nativeOutcome runner c = .ok outcome := by
  unfold nativeOutcome
  cases hrun : runner.runNativeCheck with
  | none => exact ⟨_, rfl⟩
  | some run =>
    simp only
    split
    · exact h.native run hrun c
    · exact ⟨_, rfl⟩

theorem monitorBatch_isYield (h : Able runner executors checks) :
    ∀ event ∈ monitorBatch runner checks, event.isYield = true := by
  intro event hevent
  obtain ⟨run, hrun, hserves⟩ := h.monitors
  have hsupported : ((pick checks (gxIdx checks CheckKind.scalarMonitor)).any fun c =>
      c.kind ∉ runner.supportedMonitorKinds) = false := by
    rw [gxIdx, pick_indices, List.any_eq_false]
    intro c hc
    obtain ⟨hmem, hscalar⟩ := List.mem_filter.mp hc
    simpa using h.kinds c hmem (Bool.and_eq_true_iff.mp hscalar).2
  simp only [monitorBatch, hsupported, hrun] at hevent
  split at hevent
  · cases hevent
  · rw [if_neg Bool.false_ne_true, List.mem_singleton] at hevent
    rw [hevent]
    exact batchPhase_isYield hserves _

theorem runOutcomePhases_isYield (h : Able runner executors checks) :
    ∀ event ∈ runOutcomePhases runner executors checks, event.isYield = true := by
  intro event hevent
  have hmem := mem_of_mem_untilRaise hevent
  simp only [List.mem_append] at hmem
  obtain ((((hbatch | halone) | hcomparison) | hexpectation) | hmonitor) | hstateful := hmem
  · unfold nativeBatches at hbatch
    cases hrun : runner.runNativeChecks with
    | none => simp [hrun] at hbatch
    | some run =>
      rw [hrun] at hbatch
      obtain ⟨engine, _, rfl⟩ := List.mem_map.mp hbatch
      exact batchPhase_isYield (h.nativeBatch run hrun engine) _
  · exact singlePhases_isYield (nativeOutcome_ok h) event halone
  · exact singlePhases_isYield (executorOutcome_ok h.comparison _) event hcomparison
  · simp only [expectationBatch] at hexpectation
    split at hexpectation
    · cases hexpectation
    · rw [List.mem_singleton.mp hexpectation]
      exact batchPhase_isYield h.expectations _
  · exact monitorBatch_isYield h event hmonitor
  · exact singlePhases_isYield (executorOutcome_ok h.stateful _) event hstateful

/-! ## Results -/

/-- A runner without native engines. -/
def plainRunner : Runner where
  typeName := "GenericSqlCheckRunner"
  supportedNativeEngines := []
  runNativeCheck := none
  runNativeChecks := none
  runChecks := fun specs => .ok (specs.map fun c => missingOutcome c "")
  supportedMonitorKinds := [.freshness, .volume, .aggregate]
  runMonitors := some fun specs => .ok (specs.map fun c => missingOutcome c "")

def noExecutors : Executors := ⟨none, none⟩

def driftOnDmf : Check where
  id := 1
  kind := .schemaDrift
  engine := some "dmf"
  expectationType := "monitor:schema_drift"
  thresholds := ⟨none, none, none⟩

def driftOnGx : Check := { driftOnDmf with engine := none }

end DataQ.Runs
