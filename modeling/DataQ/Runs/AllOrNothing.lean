import DataQ.Runs.Terminal

/-! # Results are all-or-nothing

`execute_run` against one other session that may commit a terminal status. The rows of a phase are
staged, and published by the commit that ends the phase, or with the terminal commit where the run
is held or the phase is not publishable; `_discard_results_if_any` deletes the rows only when a
phase was published. `_mark_succeeded` commits whether or not its guarded `UPDATE` matched, so a
schedule that lets it lose with unpublished rows staged leaves these rows behind. `Undisturbed` is
the schedule without that and the other two losses; along it the results are all-or-nothing. -/

namespace DataQ.Runs
open DataQ.Interleaving DataQ.Transition DataQ.Partition
set_option autoImplicit false

/-- The task's phases are those its runner yields, cut short by a raise at any point. -/
def Task.RunsOn (t : Task) (runner : Runner) (executors : Executors) : Prop :=
  t.phases = runOutcomePhases runner executors t.checks ∨
    ∃ n message, t.phases = (runOutcomePhases runner executors t.checks).take n ++ [.raised message]

/-- The rows of the phases a list of events yields. -/
def Task.rowsOfEvents (t : Task) (runId : ℕ) (events : List PhaseEvent) : List Result :=
  events.flatMap fun
    | .yielded phase => t.rowsOf runId phase
    | .raised _ => []

def Pc.isDiscard : Pc → Bool
  | .discard => true
  | _ => false

def Pc.isMirrored : Pc → Bool
  | .mirrored _ _ => true
  | _ => false

/-- The statement about to be issued does not part a run's status from its rows. -/
def undisturbed (c : Config Party Store Pc) (e : Party × Act) : Bool :=
  match e.1, c.session e.1 with
  -- The lost `UPDATE` commits what is staged; only a delete still to come takes it back.
  | .worker, .markSucceeded _ w _ =>
    c.store.run.status = .running || w.published || w.staged.isEmpty ||
      (c.session .other).isDiscard
  -- The mirrored totals are those of the rows the commit stored.
  | .worker, .mirrored recorded _ => recorded.resultsTotal = c.store.results.length
  | .other, .cancelWrite =>
    c.store.run.status ≠ .succeeded || c.store.results.isEmpty || (c.session .worker).isMirrored
  | .other, .failWrite _ wasRunning =>
    c.store.run.status ≠ .succeeded || wasRunning || c.store.results.isEmpty ||
      (c.session .worker).isMirrored
  | .other, .discard =>
    (c.store.run.status ≠ .running && c.store.run.status ≠ .succeeded) || c.store.results.isEmpty
  | _, _ => true

abbrev Undisturbed (c : Config Party Store Pc) (e : Party × Act) : Prop := undisturbed c e = true

/-- What holds while `execute_run` works through its phases. -/
structure Progress (t : Task) (s : Store) (w : Work) : Prop where
  seen : ∃ seen, t.phases = seen ++ w.remaining ∧ (∀ e ∈ seen, e.isYield = true) ∧
    (s.run.status = .running → s.results ++ w.staged = t.rowsOfEvents s.run.id seen)
  unpublished : w.published = false → s.results = []
  notSucceeded : s.run.status ≠ .succeeded

/-- Every phase was yielded and its rows are stored. -/
structure Complete (t : Task) (s : Store) : Prop where
  yields : ∀ e ∈ t.phases, e.isYield = true
  rows : s.results = t.rowsOfEvents s.run.id t.phases

/-- The invariant of the worker's session, beside another session at `other`. -/
def WorkerInv (t : Task) (s : Store) (other : Pc) : Pc → Prop
  | .taskLoad u => u = t ∧ s.results = []
  | .taskReady u held =>
    u = t ∧ s.results = [] ∧ (held = some .running → s.run.status ≠ .succeeded)
  | .executing u w | .cancelCheck u w _ | .publish u w => u = t ∧ Progress t s w
  | .record u w => u = t ∧ Progress t s w ∧ w.remaining = []
  | .markSucceeded u w recorded =>
    u = t ∧ Progress t s w ∧ w.remaining = [] ∧
      (s.run.status = .running → recorded = recordedOutcomeValues (s.results ++ w.staged))
  | .mirrored recorded _ =>
    (∀ e ∈ t.phases, e.isYield = true) ∧
      recorded = recordedOutcomeValues (t.rowsOfEvents s.run.id t.phases) ∧
      (s.results = t.rowsOfEvents s.run.id t.phases ∨ s.results = [])
  | .abandon published =>
    s.run.status ≠ .succeeded ∧ (published = false → s.results = [] ∨ other.isDiscard = true)
  | .rescue _ published => s.run.status ≠ .succeeded ∧ (published = false → s.results = [])
  | .rescueReload _ | .rescueCheck _ _ | .rescueWrite _ _ =>
    s.run.status ≠ .succeeded ∧ s.results = []
  | .done =>
    (s.run.status = .succeeded → Complete t s ∧ s.run.Records (recordedOutcomeValues s.results)) ∧
      (s.run.status ≠ .succeeded → s.results = [] ∨ other.isDiscard = true)
  | _ => False

structure Inv (t : Task) (c : Config Party Store Pc) : Prop where
  worker : WorkerInv t c.store (c.session .other) (c.session .worker)
  other : (c.session .other).foreign = true ∨ c.session .other = .done

/-! ## The other session's statements -/

/-- What a statement of the other session does. -/
theorem foreign_step {a : Act} {s s' : Store} {o o' : Pc} (ho : o.foreign = true)
    (h : act a s o = some (s', o')) :
    (s' = s ∧ o.isDiscard = false ∧ (o'.foreign = true ∨ o' = .done)) ∨
    (∃ now, o = .cancelWrite ∧ o' = .done ∧
      s' = { s with run := { s.run with status := .cancelled, finishedAt := some now } }) ∨
    (∃ now reason wasRunning, o = .failWrite reason wasRunning ∧
      o' = (if wasRunning then .discard else .done) ∧
      s' = { s with run := s.run.markDispatchFailed now reason }) ∨
    (o = .discard ∧ o' = .done ∧ s' = { s with results := [] }) := by
  cases a with
  | reload | expire => cases o <;> simp [act, Pc.foreign] at h ho
  | proceed now =>
    simp only [act, ho, if_true] at h
    cases o <;> simp only [foreignAct, Pc.foreign, reduceCtorEq] at h ho
    case cancel =>
      split at h
      · cases h
        exact .inl ⟨rfl, rfl, .inr rfl⟩
      · cases h
        exact .inl ⟨rfl, rfl, .inl rfl⟩
    case cancelWrite =>
      cases h
      exact .inr (.inl ⟨now, rfl, rfl, rfl⟩)
    case reap =>
      split at h
      · cases h
        exact .inl ⟨rfl, rfl, .inl rfl⟩
      · cases h
        exact .inl ⟨rfl, rfl, .inr rfl⟩
    case workerLost =>
      split at h
      · cases h
        exact .inl ⟨rfl, rfl, .inr rfl⟩
      · cases h
        exact .inl ⟨rfl, rfl, .inl rfl⟩
    case failWrite reason wasRunning =>
      cases h
      exact .inr (.inr (.inl ⟨now, reason, wasRunning, rfl, rfl, rfl⟩))
    case discard =>
      cases h
      exact .inr (.inr (.inr ⟨rfl, rfl, rfl⟩))

theorem WorkerInv.moveOn {t : Task} {s : Store} {o o' pc : Pc} (h : WorkerInv t s o pc)
    (ho : o.isDiscard = false) : WorkerInv t s o' pc := by
  cases pc <;> simp_all [WorkerInv]

theorem Progress.overwritten {t : Task} {s s' : Store} {w : Work} (h : Progress t s w)
    (hresults : s'.results = s.results) (hrunning : s'.run.status ≠ .running)
    (hsucceeded : s'.run.status ≠ .succeeded) : Progress t s' w := by
  obtain ⟨seen, hphases, hyields, -⟩ := h.seen
  refine ⟨⟨seen, hphases, hyields, fun hr => absurd hr hrunning⟩, fun hp => ?_, hsucceeded⟩
  rw [hresults]
  exact h.unpublished hp

/-- The status may be overwritten by `cancelled` or `failed` where that strands no rows. -/
theorem WorkerInv.overwritten {t : Task} {s s' : Store} {o o' pc : Pc} (h : WorkerInv t s o pc)
    (ho : o.isDiscard = false) (hid : s'.run.id = s.run.id) (hresults : s'.results = s.results)
    (hrunning : s'.run.status ≠ .running) (hsucceeded : s'.run.status ≠ .succeeded)
    (hrows : s.run.status = .succeeded →
      o'.isDiscard = true ∨ s.results = [] ∨ pc.isMirrored = true) :
    WorkerInv t s' o' pc := by
  cases pc <;> simp only [WorkerInv] at h ⊢
  case taskLoad => exact ⟨h.1, hresults.trans h.2⟩
  case taskReady => exact ⟨h.1, hresults.trans h.2.1, fun _ => hsucceeded⟩
  case executing | cancelCheck | publish =>
    exact ⟨h.1, h.2.overwritten hresults hrunning hsucceeded⟩
  case record => exact ⟨h.1, h.2.1.overwritten hresults hrunning hsucceeded, h.2.2⟩
  case markSucceeded =>
    exact ⟨h.1, h.2.1.overwritten hresults hrunning hsucceeded, h.2.2.1,
      fun hr => absurd hr hrunning⟩
  case mirrored =>
    rw [hid, hresults]
    exact h
  case abandon =>
    refine ⟨hsucceeded, fun hp => .inl ?_⟩
    rw [hresults]
    exact (h.2 hp).resolve_right (by simp [ho])
  case rescue => exact ⟨hsucceeded, fun hp => hresults.trans (h.2 hp)⟩
  case rescueReload | rescueCheck | rescueWrite => exact ⟨hsucceeded, hresults.trans h.2⟩
  case done =>
    refine ⟨fun hs => absurd hs hsucceeded, fun _ => ?_⟩
    rw [hresults]
    by_cases hs : s.run.status = .succeeded
    · rcases hrows hs with hd | hr | hm
      · exact .inr hd
      · exact .inl hr
      · cases hm
    · exact .inl ((h.2 hs).resolve_right (by simp [ho]))

theorem WorkerInv.discarded {t : Task} {s : Store} {pc : Pc} (h : WorkerInv t s .discard pc)
    (hrows : (s.run.status ≠ .running ∧ s.run.status ≠ .succeeded) ∨ s.results = []) :
    WorkerInv t { s with results := [] } .done pc := by
  rcases hrows with ⟨hrunning, hsucceeded⟩ | hnil
  · have hprogress : ∀ {w}, Progress t s w → Progress t { s with results := [] } w := by
      intro w hw
      obtain ⟨seen, hphases, hyields, -⟩ := hw.seen
      exact ⟨⟨seen, hphases, hyields, fun hr => absurd hr hrunning⟩, fun _ => rfl, hsucceeded⟩
    cases pc <;> simp only [WorkerInv] at h ⊢
    case taskLoad => exact ⟨h.1, trivial⟩
    case taskReady => exact ⟨h.1, trivial, h.2.2⟩
    case executing | cancelCheck | publish => exact ⟨h.1, hprogress h.2⟩
    case record => exact ⟨h.1, hprogress h.2.1, h.2.2⟩
    case markSucceeded =>
      exact ⟨h.1, hprogress h.2.1, h.2.2.1, fun hr => absurd hr hrunning⟩
    case mirrored => exact ⟨h.1, h.2.1, .inr trivial⟩
    case abandon => exact ⟨hsucceeded, fun _ => .inl trivial⟩
    case rescue => exact ⟨hsucceeded, fun _ => trivial⟩
    case rescueReload | rescueCheck | rescueWrite => exact ⟨hsucceeded, trivial⟩
    case done => exact ⟨fun hs => absurd hs hsucceeded, fun _ => .inl trivial⟩
  · -- Nothing is stored, so the delete changes nothing.
    have hsame : ({ s with results := [] } : Store) = s := by rw [← hnil]
    rw [hsame]
    cases pc <;> simp_all [WorkerInv]

/-! ## The worker's statements -/

theorem rowsOfEvents_concat (t : Task) (runId : ℕ) (seen : List PhaseEvent) (phase : OutcomePhase) :
    t.rowsOfEvents runId (seen ++ [.yielded phase]) =
      t.rowsOfEvents runId seen ++ t.rowsOf runId phase := by
  simp [Task.rowsOfEvents]

theorem Progress.stage {t : Task} {s : Store} {w : Work} {phase : OutcomePhase}
    {rest : List PhaseEvent} (h : Progress t s w) (hrem : w.remaining = .yielded phase :: rest) :
    Progress t s ⟨rest, w.staged ++ t.rowsOf s.run.id phase, w.published⟩ := by
  obtain ⟨seen, hphases, hyields, hrows⟩ := h.seen
  refine ⟨⟨seen ++ [.yielded phase], ?_, ?_, fun hr => ?_⟩, h.unpublished, h.notSucceeded⟩
  · rw [hphases, hrem]
    simp
  · intro e he
    rcases List.mem_append.mp he with he | he
    · exact hyields e he
    · rw [List.mem_singleton.mp he]
      rfl
  · rw [rowsOfEvents_concat, ← hrows hr, List.append_assoc]

theorem Progress.publish {t : Task} {s : Store} {w : Work} (h : Progress t s w) :
    Progress t { s with results := s.results ++ w.staged } ⟨w.remaining, [], true⟩ := by
  obtain ⟨seen, hphases, hyields, hrows⟩ := h.seen
  refine ⟨⟨seen, hphases, hyields, fun hr => ?_⟩, fun hp => absurd hp (by simp), h.notSucceeded⟩
  rw [List.append_nil]
  exact hrows hr

theorem Progress.finished {t : Task} {s : Store} {w : Work} (h : Progress t s w)
    (hrem : w.remaining = []) (hr : s.run.status = .running) :
    (∀ e ∈ t.phases, e.isYield = true) ∧
      s.results ++ w.staged = t.rowsOfEvents s.run.id t.phases := by
  obtain ⟨seen, hphases, hyields, hrows⟩ := h.seen
  have hseen : t.phases = seen := by rw [hphases, hrem, List.append_nil]
  rw [hseen]
  exact ⟨hyields, hrows hr⟩

/-- One statement of the worker keeps its invariant where it is not disturbed. -/
theorem worker_step {t : Task} {a : Act} {c : Config Party Store Pc} {s' : Store} {pc' : Pc}
    (ht : t.path = .execute)
    (hinv : WorkerInv t c.store (c.session .other) (c.session .worker))
    (hsafe : Undisturbed c (.worker, a))
    (h : act a c.store (c.session .worker) = some (s', pc')) :
    WorkerInv t s' (c.session .other) pc' := by
  cases a with
  | reload =>
    cases hpc : c.session .worker <;> rw [hpc] at h hinv <;> simp only [act, reduceCtorEq] at h
    cases h
    exact ⟨hinv.1, hinv.2.1, fun hh => by rw [Option.some.inj hh]; simp⟩
  | expire =>
    cases hpc : c.session .worker <;> rw [hpc] at h hinv <;> simp only [act, reduceCtorEq] at h
    cases h
    exact ⟨hinv.1, hinv.2.1, fun hh => by cases hh⟩
  | proceed now =>
    simp only [Undisturbed, undisturbed] at hsafe
    generalize c.store = s at *
    generalize c.session .other = o at *
    cases hpc : c.session .worker <;> rw [hpc] at h hinv hsafe <;>
      simp only [WorkerInv] at hinv <;>
      simp only [act, Pc.foreign, Bool.false_eq_true, if_false, taskAct] at h
    case taskLoad u =>
      obtain ⟨rfl, hnil⟩ := hinv
      split at h
      · rename_i hc
        cases h
        exact ⟨fun hs => absurd (hc.symm.trans hs) (by simp), fun _ => .inl hnil⟩
      · cases h
        exact ⟨rfl, hnil, fun hh => by rw [Option.some.inj hh]; simp⟩
    case taskReady u held =>
      obtain ⟨rfl, hnil, hheld⟩ := hinv
      rw [ht] at h
      cases h
      refine ⟨rfl, ⟨[], rfl, by simp, fun _ => ?_⟩, fun _ => hnil, ?_⟩
      · rw [start_results, hnil]
        rfl
      · rw [start_status]
        split
        · rename_i hh
          exact hheld hh
        · simp
    case executing u w =>
      obtain ⟨rfl, hp⟩ := hinv
      split at h
      · rename_i hrem
        split at h
        · cases h
          exact ⟨hp.notSucceeded, fun hpub => .inl (hp.unpublished hpub)⟩
        · cases h
          exact ⟨rfl, hp, hrem⟩
      · cases h
        exact ⟨hp.notSucceeded, hp.unpublished⟩
      · rename_i phase rest hrem
        cases h
        exact ⟨rfl, hp.stage hrem⟩
    case cancelCheck u w publishable =>
      obtain ⟨rfl, hp⟩ := hinv
      split at h
      · cases h
        exact ⟨hp.notSucceeded, fun hpub => .inl (hp.unpublished hpub)⟩
      · split at h <;> cases h <;> exact ⟨rfl, hp⟩
    case publish u w =>
      obtain ⟨rfl, hp⟩ := hinv
      cases h
      exact ⟨rfl, hp.publish⟩
    case record u w =>
      obtain ⟨rfl, hp, hrem⟩ := hinv
      cases h
      exact ⟨rfl, hp, hrem, fun _ => rfl⟩
    case markSucceeded u w recorded =>
      obtain ⟨rfl, hp, hrem, hrecorded⟩ := hinv
      split at h
      · rename_i hr
        cases h
        obtain ⟨hyields, hrows⟩ := hp.finished hrem hr
        exact ⟨hyields, by rw [hrecorded hr, hrows]; rfl, .inl hrows⟩
      · rename_i hr
        cases h
        refine ⟨hp.notSucceeded, fun hpub => ?_⟩
        rw [hp.unpublished hpub, List.nil_append]
        simpa [hr, hpub] using hsafe
    case mirrored recorded finishedAt =>
      obtain ⟨hyields, hrecorded, hrows⟩ := hinv
      cases h
      -- The guard rules out that the rows the totals count are gone.
      have hstored : s.results = t.rowsOfEvents s.run.id t.phases := by
        rcases hrows with hrows | hnil
        · exact hrows
        · have hlen : recorded.resultsTotal = 0 := by simpa [hnil] using hsafe
          rw [hrecorded, recordedOutcomeValues_resultsTotal] at hlen
          rw [hnil, List.length_eq_zero_iff.mp hlen]
      refine ⟨fun _ => ⟨⟨hyields, hstored⟩, ?_⟩, fun hs => absurd (succeed_status _ _ _) hs⟩
      rw [hstored, ← hrecorded]
      exact succeed_records _ _ _
    case abandon published =>
      obtain ⟨hns, hnil⟩ := hinv
      cases h
      refine ⟨fun hs => absurd hs hns, fun _ => ?_⟩
      cases published with
      | true => exact .inl rfl
      | false => exact hnil rfl
    case rescue reason published =>
      obtain ⟨hns, hnil⟩ := hinv
      cases h
      refine ⟨hns, ?_⟩
      cases published with
      | true => rfl
      | false => exact hnil rfl
    case rescueReload reason =>
      cases h
      exact hinv
    case rescueCheck reason held =>
      split at h
      · cases h
        exact ⟨fun hs => absurd hs hinv.1, fun _ => .inl hinv.2⟩
      · cases h
        exact hinv
    case rescueWrite reason held =>
      cases h
      have hns : (s.run.assignStatus (some held) .failed).status ≠ .succeeded := by
        rw [assignStatus_status]
        split
        · exact hinv.1
        · simp
      exact ⟨fun hs => absurd hs hns, fun _ => .inl hinv.2⟩
    case done => cases h

/-! ## Runs of the two sessions -/

theorem step_inv {t : Task} (ht : t.path = .execute) {c d : Config Party Store Pc} {e : Party × Act}
    (hc : Inv t c) (he : Undisturbed c e) (h : step act c e = some d) : Inv t d := by
  obtain ⟨⟨s', pc'⟩, hact, rfl⟩ := step_eq_some.mp h
  obtain ⟨p, a⟩ := e
  cases p with
  | worker =>
    have hother : (c.put .worker (s', pc')).session .other = c.session .other :=
      Config.put_session_ne c _ (by decide)
    refine ⟨?_, by rw [hother]; exact hc.other⟩
    rw [hother, Config.put_session_self]
    exact worker_step ht hc.worker he hact
  | other =>
    have hworker : (c.put .other (s', pc')).session .worker = c.session .worker :=
      Config.put_session_ne c _ (by decide)
    rcases hc.other with hforeign | hdone
    · have hw := hc.worker
      have hguard : undisturbed c (.other, a) = true := he
      simp only [undisturbed] at hguard
      refine ⟨?_, ?_⟩ <;> simp only [Config.put_session_self, hworker, Config.put_store] <;>
        rcases foreign_step hforeign hact with ⟨rfl, hnd, ho'⟩ | ⟨now, ho, rfl, rfl⟩ |
          ⟨now, reason, wasRunning, ho, rfl, rfl⟩ | ⟨ho, rfl, rfl⟩
      · exact hw.moveOn hnd
      · rw [ho] at hguard hw
        refine hw.overwritten rfl rfl rfl (by simp) (by simp) fun hs => .inr ?_
        simpa [hs] using hguard
      · rw [ho] at hguard hw
        refine hw.overwritten rfl rfl rfl (by simp) (by simp) fun hs => ?_
        cases wasRunning with
        | true => exact .inl rfl
        | false => exact .inr (by simpa [hs] using hguard)
      · rw [ho] at hguard hw
        exact hw.discarded (by simpa using hguard)
      · exact ho'
      · exact .inr rfl
      · cases wasRunning with
        | true => exact .inl rfl
        | false => exact .inr rfl
      · exact .inr rfl
    · simp only [hdone] at hact
      cases a <;> cases hact

theorem rowsOf_checkIds (t : Task) (runId : ℕ) (phase : OutcomePhase) :
    (t.rowsOf runId phase).map (·.checkId) =
      (pick t.checks (phase.resolved.map Prod.fst)).map (·.id) := by
  simp only [Task.rowsOf, pick, List.map_filterMap, List.filterMap_map]
  congr 1
  funext p
  cases h : t.checks[p.1]? <;> simp [h, buildResult]

theorem rowsOfEvents_checkIds (t : Task) (runId : ℕ) (events : List PhaseEvent) :
    (t.rowsOfEvents runId events).map (·.checkId) =
      (pick t.checks (events.flatMap PhaseEvent.positions)).map (·.id) := by
  induction events with
  | nil => rfl
  | cons e events ih =>
    have hcons : t.rowsOfEvents runId (e :: events) =
        t.rowsOfEvents runId [e] ++ t.rowsOfEvents runId events := by
      simp [Task.rowsOfEvents]
    rw [hcons, List.map_append, ih, List.flatMap_cons, pick_append, List.map_append]
    congr 1
    cases e with
    | yielded phase =>
      simpa [Task.rowsOfEvents, PhaseEvent.positions] using rowsOf_checkIds t runId phase
    | raised message => rfl

/-- A task whose phases were all yielded has stored one row for each check. -/
theorem Complete.checkIds_perm {t : Task} {runner : Runner} {executors : Executors} {s : Store}
    (h : Complete t s) (hruns : t.RunsOn runner executors) :
    (s.results.map (·.checkId)).Perm (t.checks.map (·.id)) := by
  have hphases : t.phases = runOutcomePhases runner executors t.checks := by
    rcases hruns with hphases | ⟨n, message, hphases⟩
    · exact hphases
    · have hraise := h.yields (.raised message) (by rw [hphases]; simp)
      cases hraise
  have hyields : ∀ e ∈ runOutcomePhases runner executors t.checks, e.isYield = true := by
    rw [← hphases]
    exact h.yields
  have hperm := pick_perm t.checks (runOutcomePhases_positions hyields)
  rw [pick_range] at hperm
  rw [h.rows, rowsOfEvents_checkIds, hphases]
  exact hperm.map _

/-- The property a run is in once both sessions have finished. -/
def AllOrNothing (t : Task) (s : Store) : Prop :=
  (s.run.status ≠ .succeeded → s.results = []) ∧
    (s.run.status = .succeeded →
      (s.results.map (·.checkId)).Perm (t.checks.map (·.id)) ∧
        s.run.Records (recordedOutcomeValues s.results))

/-- A cancel request, the reaper, or the worker-lost handler, before its first statement. -/
def Pc.terminalWriter : Pc → Bool
  | .cancel | .reap _ | .workerLost => true
  | _ => false

/-- **Results are all-or-nothing** along every undisturbed schedule. -/
theorem results_all_or_nothing (t : Task) (runner : Runner) (executors : Executors) (s : Store)
    (other : Pc) (es : List (Party × Act)) {d : Config Party Store Pc} (ht : t.path = .execute)
    (hruns : t.RunsOn runner executors) (hempty : s.results = [])
    (hother : other.terminalWriter = true)
    (hmeets : Meets (step act) Undisturbed (workerAnd s t other) es)
    (hrun : run (step act) (workerAnd s t other) es = some d)
    (hworker : d.session .worker = .done) (hfinished : d.session .other = .done) :
    AllOrNothing t d.store := by
  have hstart : Inv t (workerAnd s t other) := by
    refine ⟨⟨rfl, hempty⟩, .inl ?_⟩
    cases other <;> first | rfl | cases hother
  have hinv : Inv t d := run_invariant (fun _ _ _ => step_inv ht) hstart hmeets hrun
  have hend := hinv.worker
  rw [hworker, hfinished] at hend
  refine ⟨fun hs => (hend.2 hs).resolve_right (by simp [Pc.isDiscard]), fun hs => ?_⟩
  obtain ⟨hcomplete, hrecords⟩ := hend.1 hs
  exact ⟨hcomplete.checkIds_perm hruns, hrecords⟩

/-! ## A schedule that keeps the rows, and one that strands them -/

def sampleRunner : Runner :=
  { typeName := "PostgresCheckRunner"
    supportedNativeEngines := []
    runNativeCheck := none
    runNativeChecks := none
    runChecks := fun checks => .ok (checks.map fun _ => samplePass)
    supportedMonitorKinds := []
    runMonitors := none }

def sampleExecutors : Executors :=
  { comparison := none
    statefulMonitor := some fun _ => .ok samplePass }

theorem results_all_or_nothing_lateCancel :
    ∃ d, run (step act) (workerAnd ⟨sampleRun, []⟩ (sampleTask .expectation true) .cancel)
        (statements .worker 20 9 ++ statements .other 30 1) = some d ∧
      AllOrNothing (sampleTask .expectation true) d.store :=
  ⟨_, rfl, results_all_or_nothing (sampleTask .expectation true) sampleRunner sampleExecutors
    ⟨sampleRun, []⟩ .cancel (statements .worker 20 9 ++ statements .other 30 1) rfl (.inl rfl) rfl
    rfl (by decide) rfl rfl rfl⟩

/-- A cancel between the last check for it and the guarded `UPDATE` leaves the held row of a
`pii_drift` check on the cancelled run. -/
theorem lost_update_strands_rows :
    ¬ ∀ (t : Task) (runner : Runner) (executors : Executors) (s : Store) (other : Pc)
        (es : List (Party × Act)) (d : Config Party Store Pc),
      t.path = .execute → t.RunsOn runner executors → s.results = [] →
      other.terminalWriter = true → run (step act) (workerAnd s t other) es = some d →
      d.session .worker = .done → d.session .other = .done → AllOrNothing t d.store := by
  intro h
  have hstranded := h (sampleTask .piiDrift false) sampleRunner sampleExecutors ⟨sampleRun, []⟩
    .cancel (statements .worker 20 5 ++ statements .other 30 2 ++ statements .worker 40 3) _ rfl
    (.inl rfl) rfl rfl rfl rfl rfl
  cases hstranded.1 (by decide)

end DataQ.Runs
