import DataQ.Foundations.Transition
import DataQ.Orchestration.Ingestion

/-! # One run of a suite for a pipeline run

Webhooks, polls, gap recovery and gates work on the same tables side by side, and any of them may
die between two of its statements. Gap recovery is a poll with an earlier `skip_updated_since`. -/

namespace DataQ.Orchestration
open DataQ.Runs DataQ.Gate DataQ.Interleaving DataQ.Transition
set_option autoImplicit false

/-- Where an ingest stands. -/
inductive Pc
  | delivered (provider : Provider) (u : RunUpdate)
  | polled (since : ℕ) (c : Connection) (u : RunUpdate)
  | asked (access : ℕ → Access) (request : GateRequest)
  | attributed (c : Connection) (u : RunUpdate)
  | recorded (c : Connection) (u : RunUpdate)
  | triggered (c : Connection) (u : RunUpdate)
  | answered (p : PipelineRef) (suiteIds : List ℕ)
  | dismissed
  | died (record : Option (Connection × RunUpdate))

def Pc.fresh : Pc → Bool
  | .delivered _ _ | .polled _ _ _ | .asked _ _ => true
  | _ => false

/-- The statements between two commits are one. -/
inductive Statement
  | resolve (connections : List Connection) (enrich : Connection → RunUpdate → RunUpdate)
  | look
  | record (now : ℕ)
  | trigger (refuses : Run → Bool) (now : ℕ)
  | answer (refuses : Run → Bool) (now : ℕ)
  | die

/-- What a gate's request starts, and for which suites of which pipeline run; `none` where it is
refused or raises. -/
def gateStarts (access : ℕ → Access) (refuses : Run → Bool) (now : ℕ)
    (bindings : List TriggerBinding) (request : GateRequest) (runs : List Run) :
    Option (List Run × PipelineRef × List ℕ) :=
  match providerOf? request.provider, failOn? request.failOn,
      boundSuiteIds access bindings request with
  | some provider, some _, .ok suiteIds =>
    let p : PipelineRef := ⟨provider, request.pipelineOrDagId, request.providerRunId⟩
    if request.trigger then
      (startRuns now (triggerMarker p) suiteIds runs).map fun after =>
        (dispatch refuses runs.length after, p, suiteIds)
    else some (runs, p, [])
  | _, _, _ => none

variable (bindings : List TriggerBinding)

/-- One statement of `ingest_event`, of a turn of `ingest_polled_runs`, or `evaluate_gate`. -/
def act (statement : Statement) (db : Database) (pc : Pc) : Option (Database × Pc) :=
  match statement, pc with
  | .resolve connections enrich, .delivered provider u =>
    match resolveConnection connections provider u.resourceName with
    | none => some (db, .dismissed)
    | some c => some (db, .attributed c (enrich c u))
  | .look, .polled since c u =>
    some (db, if skips since db.pipelineRuns c u then .dismissed else .attributed c u)
  | .record now, .attributed c u =>
    match upsertPipelineRun now c u db.pipelineRuns with
    | none => some (db, .died none)
    | some rows => some (⟨rows, db.runs⟩, .recorded c u)
  | .trigger refuses now, .recorded c u =>
    if u.status = .succeeded then
      match triggerSuites refuses now bindings c u db.runs with
      | none => some (db, .died (some (c, u)))
      | some runs => some (⟨db.pipelineRuns, runs⟩, .triggered c u)
    else some (db, .triggered c u)
  | .answer refuses now, .asked access request =>
    match gateStarts access refuses now bindings request db.runs with
    | none => some (db, .dismissed)
    | some (runs, p, suiteIds) => some (⟨db.pipelineRuns, runs⟩, .answered p suiteIds)
  | .die, .delivered _ _ | .die, .polled _ _ _ | .die, .asked _ _ | .die, .attributed _ _ =>
    some (db, .died none)
  | .die, .recorded c u => some (db, .died (some (c, u)))
  | _, _ => none

/-- The suites that must have a run, and for which pipeline run, once an ingest is over: a
succeeded run that was recorded, or a gate that answered. -/
def Pc.owes : Pc → List (ℕ × PipelineRef)
  | .triggered c u | .died (some (c, u)) =>
    if u.status = .succeeded then (suitesOf bindings c u).map fun s => (s, u.ref c) else []
  | .answered p suiteIds => suiteIds.map fun s => (s, p)
  | _ => []

/-- A suite has at most one run for a pipeline run. -/
def MarkedOnce (runs : List Run) : Prop :=
  ∀ (suiteId : ℕ) (p : PipelineRef),
    (triggers runs).count (suiteId, some (triggerMarker p)) ≤ 1

/-- Every suite that an ingest owes a run has it. -/
def AllTriggered {ι : Type} (c : Config ι Database Pc) : Prop :=
  ∀ i, ∀ x ∈ (c.session i).owes bindings,
    (runFor c.store.runs x.1 (triggerMarker x.2)).isSome

/-- The step does not end an ingest that has recorded a succeeded run before its suites have
theirs: it dies only where they have, and its marker fits the column. -/
def Finishes {ι : Type} (c : Config ι Database Pc) (e : ι × Statement) : Prop :=
  match e.2, c.session e.1 with
  | .die, .recorded conn u => u.status = .succeeded →
      ∀ s ∈ suitesOf bindings conn u,
        (runFor c.store.runs s (triggerMarker (u.ref conn))).isSome
  | .trigger _ _, .recorded conn u => u.status = .succeeded →
      (triggerMarker (u.ref conn)).length ≤ 256 ∨ suitesOf bindings conn u = []
  | _, _ => True

/-! ## What a statement can do -/

/-- What a statement adds to the runs. -/
def Grown (before after : List Run) : Prop :=
  ∃ (p : PipelineRef) (suiteIds : List ℕ) (new : List Run),
    triggers after = triggers (before ++ new) ∧
      Started (triggerMarker p) suiteIds before new

variable {bindings}

theorem Grown.refl (runs : List Run) : Grown runs runs :=
  ⟨⟨.adf, "", ""⟩, [], [], by simp, rfl, by simp, by simp, by simp, by simp⟩

theorem Grown.mem {before after : List Run} (h : Grown before after) {x : ℕ × Option String}
    (hx : x ∈ triggers before) : x ∈ triggers after := by
  obtain ⟨p, suiteIds, new, hafter, -⟩ := h
  rw [hafter, triggers_append]
  exact List.mem_append_left _ hx

theorem Grown.markedOnce {before after : List Run} (h : Grown before after)
    (honce : MarkedOnce before) : MarkedOnce after := by
  obtain ⟨p, suiteIds, new, hafter, hnew⟩ := h
  intro s q
  have hle := honce s q
  have hnodup : (triggers new).Nodup := by
    have hpair : new.map (fun r => (r.suiteId, some (triggerMarker p))) =
        (new.map Run.suiteId).map fun s => (s, some (triggerMarker p)) := by
      rw [List.map_map]
      rfl
    rw [hnew.marked, hpair]
    apply List.Nodup.map _ hnew.nodup
    intro a b hab
    exact (Prod.mk.inj hab).1
  have hone : (triggers new).count (s, some (triggerMarker q)) ≤ 1 :=
    List.nodup_iff_count_le_one.mp hnodup _
  rw [hafter, triggers_append, List.count_append]
  by_cases hin : (s, some (triggerMarker q)) ∈ triggers new
  · -- the suite had no run for this marker before
    have hzero : (triggers before).count (s, some (triggerMarker q)) = 0 := by
      rw [List.count_eq_zero]
      rw [hnew.marked] at hin
      obtain ⟨r, hr, heq⟩ := List.mem_map.mp hin
      rw [← heq]
      exact hnew.free r hr
    omega
  · have hzero := List.count_eq_zero.mpr hin
    omega

theorem gateStarts_grown {access : ℕ → Access} {refuses : Run → Bool} {now : ℕ}
    {request : GateRequest} {runs after : List Run} {p : PipelineRef} {suiteIds : List ℕ}
    (h : gateStarts access refuses now bindings request runs = some (after, p, suiteIds)) :
    Grown runs after ∧ ∀ s ∈ suiteIds, (s, some (triggerMarker p)) ∈ triggers after := by
  unfold gateStarts at h
  split at h
  · next provider failOn bound =>
    simp only at h
    split at h
    · obtain ⟨started, hstarted, heq⟩ := Option.map_eq_some_iff.mp h
      cases heq
      obtain ⟨new, rfl, hnew⟩ := startRuns_started hstarted
      refine ⟨⟨_, _, new, dispatch_triggers, hnew⟩, fun s hs => ?_⟩
      rw [dispatch_triggers]
      exact hnew.complete s hs
    · cases h
      exact ⟨Grown.refl _, by simp⟩
  · cases h

theorem triggerSuites_grown {refuses : Run → Bool} {now : ℕ} {c : Connection} {u : RunUpdate}
    {runs after : List Run} (h : triggerSuites refuses now bindings c u runs = some after) :
    Grown runs after ∧
      ∀ s ∈ suitesOf bindings c u, (s, some (triggerMarker (u.ref c))) ∈ triggers after := by
  obtain ⟨new, -, hafter, hnew⟩ := triggerSuites_started h
  refine ⟨⟨u.ref c, _, new, hafter, hnew⟩, fun s hs => ?_⟩
  rw [hafter]
  exact hnew.complete s hs

theorem act_grown {statement : Statement} {db : Database} {pc : Pc} {out : Database × Pc}
    (h : act bindings statement db pc = some out) : Grown db.runs out.1.runs := by
  unfold act at h
  split at h
  · split at h <;> cases h <;> exact Grown.refl _
  · cases h
    exact Grown.refl _
  · split at h <;> cases h <;> exact Grown.refl _
  · split at h
    · split at h
      · cases h
        exact Grown.refl _
      · next htriggered =>
        cases h
        exact (triggerSuites_grown htriggered).1
    · cases h
      exact Grown.refl _
  · split at h
    · cases h
      exact Grown.refl _
    · next hstarts =>
      cases h
      exact (gateStarts_grown hstarts).1
  all_goals
    cases h
    try exact Grown.refl _

theorem mem_owes_update {c : Connection} {u : RunUpdate} {x : ℕ × PipelineRef} :
    x ∈ (if u.status = .succeeded then (suitesOf bindings c u).map fun s => (s, u.ref c) else []) ↔
      u.status = .succeeded ∧ x.1 ∈ suitesOf bindings c u ∧ x.2 = u.ref c := by
  obtain ⟨s, p⟩ := x
  split
  · next hs =>
    simp only [hs, List.mem_map, Prod.mk.injEq, true_and]
    constructor
    · rintro ⟨s', hs', rfl, rfl⟩
      exact ⟨hs', rfl⟩
    · rintro ⟨hs', rfl⟩
      exact ⟨s, hs', rfl, rfl⟩
  · next hs => simp [hs]

/-- An ingest that a finishing step ends has the runs that it owes. -/
theorem act_owes {ι : Type} {c : Config ι Database Pc} {i : ι} {statement : Statement}
    {out : Database × Pc} (h : act bindings statement c.store (c.session i) = some out)
    (hfinishes : Finishes bindings c (i, statement)) :
    ∀ x ∈ out.2.owes bindings, (runFor out.1.runs x.1 (triggerMarker x.2)).isSome := by
  intro x hx
  unfold act at h
  unfold Finishes at hfinishes
  split at h
  · split at h <;> cases h <;> cases hx
  · cases h
    simp only at hx
    split at hx <;> cases hx
  · split at h <;> cases h <;> cases hx
  · next refuses now conn u hsession =>
    simp only [hsession] at hfinishes
    split at h
    · next hs =>
      have hsome : (triggerSuites refuses now bindings conn u c.store.runs).isSome :=
        triggerSuites_isSome (hfinishes hs)
      obtain ⟨runs, hruns⟩ := Option.isSome_iff_exists.mp hsome
      rw [hruns] at h
      cases h
      obtain ⟨-, hsuite, hp⟩ := mem_owes_update.mp hx
      rw [runFor_isSome_iff, hp]
      exact (triggerSuites_grown hruns).2 _ hsuite
    · next hs =>
      cases h
      exact absurd (mem_owes_update.mp hx).1 hs
  · split at h
    · cases h
      cases hx
    · next hstarts =>
      cases h
      obtain ⟨s, hs, rfl⟩ := List.mem_map.mp hx
      rw [runFor_isSome_iff]
      exact (gateStarts_grown hstarts).2 s hs
  · cases h
    cases hx
  · cases h
    cases hx
  · cases h
    cases hx
  · cases h
    cases hx
  · next conn u hsession =>
    simp only [hsession] at hfinishes
    cases h
    obtain ⟨hs, hsuite, hp⟩ := mem_owes_update.mp hx
    rw [hp]
    exact hfinishes hs _ hsuite
  · cases h

theorem ingestUpdate_ok_iff {refuses : Run → Bool} {now : ℕ} {c : Connection} {u : RunUpdate}
    {db after : Database} :
    ingestUpdate refuses now bindings c u db = .ok after ↔
      ∃ mid, act bindings (.record now) db (.attributed c u) = some (mid, .recorded c u) ∧
        act bindings (.trigger refuses now) mid (.recorded c u) = some (after, .triggered c u) := by
  unfold ingestUpdate
  simp only [act]
  cases upsertPipelineRun now c u db.pipelineRuns with
  | none => simp
  | some rows =>
    by_cases hs : u.status = .succeeded
    · cases htriggered : triggerSuites refuses now bindings c u db.runs <;> simp [hs, htriggered]
    · simp [hs]

variable {ι : Type} [DecidableEq ι]

theorem step_allTriggered {c d : Config ι Database Pc} {e : ι × Statement}
    (hall : AllTriggered bindings c) (hfinishes : Finishes bindings c e)
    (h : Interleaving.step (act bindings) c e = some d) : AllTriggered bindings d := by
  obtain ⟨i, statement⟩ := e
  obtain ⟨out, hact, rfl⟩ := step_eq_some.mp h
  intro j x hx
  by_cases hij : j = i
  · subst hij
    rw [Config.put_session_self] at hx
    exact act_owes hact hfinishes x hx
  · rw [Config.put_session_ne _ _ hij] at hx
    have hbefore := hall j x hx
    rw [runFor_isSome_iff] at hbefore ⊢
    exact (act_grown hact).mem hbefore

theorem run_markedOnce {start c : Config ι Database Pc} {es : List (ι × Statement)}
    (honce : MarkedOnce start.store.runs)
    (h : Transition.run (Interleaving.step (act bindings)) start es = some c) :
    MarkedOnce c.store.runs := by
  have hkeeps : ∀ (s : Config ι Database Pc) (e : ι × Statement) (t : Config ι Database Pc),
      MarkedOnce s.store.runs → Interleaving.step (act bindings) s e = some t →
        MarkedOnce t.store.runs := by
    intro s e t hs hst
    obtain ⟨out, hact, rfl⟩ := step_eq_some.mp hst
    exact (act_grown hact).markedOnce hs
  exact run_keeps hkeeps honce h

/-- However ingests of any pipeline runs interleave, a suite has at most one run for each; and
where none of them ends between its record of a succeeded run and the runs of its suites, every
suite with an enabled binding has one. -/
theorem triggered_exactly_once (bindings : List TriggerBinding) (start : Config ι Database Pc)
    (es : List (ι × Statement)) {c : Config ι Database Pc}
    (honce : MarkedOnce start.store.runs) (hfresh : ∀ i, (start.session i).fresh = true)
    (h : Transition.run (Interleaving.step (act bindings)) start es = some c) :
    MarkedOnce c.store.runs ∧
      (Meets (Interleaving.step (act bindings)) (Finishes bindings) start es →
        AllTriggered bindings c) := by
  refine ⟨run_markedOnce honce h, fun hmeets => ?_⟩
  have hstart : AllTriggered bindings start := by
    intro i x hx
    have hpc := hfresh i
    cases hs : start.session i <;> rw [hs] at hpc hx <;> first | cases hx | cases hpc
  exact run_invariant (fun s e t hs he hst => step_allTriggered hs he hst) hstart hmeets h

omit [DecidableEq ι] in
instance decidableFinishes (c : Config ι Database Pc) (e : ι × Statement) :
    Decidable (Finishes bindings c e) := by
  unfold Finishes
  split <;> infer_instance

/-- A webhook and a poll that bring the same succeeded run of a pipeline with one bound suite. -/
def factory : Connection := ⟨1, .adf, "factory", "prod"⟩

def ordersSucceeded : RunUpdate := ⟨"r-1", "orders", "factory", .succeeded, none, none, none⟩

def webhookAndPoll : Config Bool Database Pc where
  store := ⟨[], []⟩
  session
    | false => .delivered .adf ordersSucceeded
    | true => .polled 0 factory ordersSucceeded

def crossed : List (Bool × Statement) :=
  [(true, .look), (false, .resolve [factory] fun _ u => u), (false, .record 5), (true, .record 6),
    (true, .trigger (fun _ => false) 7), (false, .trigger (fun _ => false) 8)]

theorem webhookAndPoll_fresh : ∀ i, (webhookAndPoll.session i).fresh = true := by
  intro i
  cases i <;> rfl

theorem markedOnce_nil : MarkedOnce [] := fun _ _ => Nat.zero_le 1

theorem triggered_exactly_once_crossed :
    ∃ c, Transition.run (Interleaving.step (act [ordersBinding])) webhookAndPoll crossed = some c ∧
      MarkedOnce c.store.runs ∧ AllTriggered [ordersBinding] c := by
  have hmeets : Meets (Interleaving.step (act [ordersBinding])) (Finishes [ordersBinding])
      webhookAndPoll crossed := by decide
  refine ⟨_, rfl, ?_⟩
  obtain ⟨honce, hall⟩ :=
    triggered_exactly_once [ordersBinding] webhookAndPoll crossed markedOnce_nil
      webhookAndPoll_fresh rfl
  exact ⟨honce, hall hmeets⟩

/-- The webhook dies after its commit, and the poll leaves the recorded run out: it stays without
a run of its suite. -/
def interrupted : List (Bool × Statement) :=
  [(false, .resolve [factory] fun _ u => u), (false, .record 5), (false, .die), (true, .look)]

theorem interrupted_never_triggered :
    ∃ c, Transition.run (Interleaving.step (act [ordersBinding])) webhookAndPoll interrupted =
        some c ∧
      c.session false = .died (some (factory, ordersSucceeded)) ∧ c.session true = .dismissed ∧
      c.store.pipelineRuns = [newRecord 5 factory ordersSucceeded] ∧ c.store.runs = [] ∧
      ¬ AllTriggered [ordersBinding] c := by
  refine ⟨_, rfl, rfl, rfl, rfl, rfl, fun hall => ?_⟩
  have howed : (7, ordersSucceeded.ref factory) ∈
      (Pc.died (some (factory, ordersSucceeded))).owes [ordersBinding] := by decide
  exact absurd (hall false _ howed) (by decide)

end DataQ.Orchestration
