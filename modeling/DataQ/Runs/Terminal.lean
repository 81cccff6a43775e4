import DataQ.Runs.Sessions

/-! # When a terminal status stays

Of the sessions that write a run only `_mark_succeeded` repeats its check in the `UPDATE`; the
others look at the status first and then write it unconditionally. A session between the two is
blind to what is committed meanwhile, and the worker task looks only for `cancelled`. `NoCrossing`
is the schedule that never lets a terminal commit fall into such a gap and never hands a worker a
run that is already `succeeded` or `failed`; along it a terminal status is absorbing. -/

namespace DataQ.Runs
open DataQ.Interleaving DataQ.Transition
set_option autoImplicit false

/-- The terminal status the next statement of a session commits, if it commits one. -/
def Pc.commits (s : Store) : Pc → Option RunStatus
  | .cancelWrite => some .cancelled
  | .failWrite _ _ => some .failed
  | .taskReady t _ => match t.path with
    | .setupFailed _ => some .failed
    | .execute | .skip => none
  | .markSucceeded _ _ _ => if s.run.status = .running then some .succeeded else none
  | .mirrored _ _ => some .succeeded
  | .rescueWrite _ _ => some .failed
  | .skipWrite _ _ => some .succeeded
  | _ => none

/-- The session can still write a status other than the terminal `status` without first looking
at the row again and stopping there. -/
def Pc.blindTo (status : RunStatus) : Pc → Bool
  | .cancelWrite => status ≠ .cancelled
  | .failWrite _ _ => status ≠ .failed
  | .taskReady t _ => match t.path with
    | .setupFailed _ => status ≠ .failed
    | .execute | .skip => true
  -- A raise ends in a write of `failed` that only `cancelled` stops.
  | .executing _ w | .cancelCheck _ w _ | .publish _ w =>
    status = .succeeded && w.remaining.any (!·.isYield)
  | .rescue _ _ | .rescueReload _ | .rescueCheck _ _ => status = .succeeded
  | .rescueWrite _ held => held ≠ .failed && status ≠ .failed
  | .mirrored _ _ | .skipReload _ => status ≠ .succeeded
  | .skipWrite _ held => held ≠ some .succeeded && status ≠ .succeeded
  | _ => false

def Pc.loadsTask : Pc → Bool
  | .taskLoad _ => true
  | _ => false

variable {ι : Type} [DecidableEq ι]

/-- No terminal status is committed into another session's gap, and no worker task loads a run
that already succeeded or failed. -/
def NoCrossing (c : Config ι Store Pc) (e : ι × Act) : Prop :=
  (∀ status ∈ (c.session e.1).commits c.store,
    ∀ j, j ≠ e.1 → (c.session j).blindTo status = false) ∧
  ((c.session e.1).loadsTask = true →
    c.store.run.status ≠ .succeeded ∧ c.store.run.status ≠ .failed)

instance [Fintype ι] (c : Config ι Store Pc) (e : ι × Act) : Decidable (NoCrossing c e) :=
  inferInstanceAs (Decidable (_ ∧ _))

/-- While the stored status is terminal no session is blind to it. -/
def Settled (c : Config ι Store Pc) : Prop :=
  c.store.run.status.terminal = true →
    ∀ j, (c.session j).blindTo c.store.run.status = false

theorem atStart_not_blind {pc : Pc} (h : pc.atStart = true) (status : RunStatus) :
    pc.blindTo status = false := by
  cases pc <;> first | rfl | cases h

omit [DecidableEq ι] in
theorem settled_of_atStart {c : Config ι Store Pc} (h : ∀ i, (c.session i).atStart = true) :
    Settled c := fun _ j => atStart_not_blind (h j) _

/-- What one statement does to the status: it leaves it, it makes the run non-terminal, or it
commits the terminal status it announced. -/
theorem act_status {a : Act} {s s' : Store} {pc pc' : Pc} (h : act a s pc = some (s', pc')) :
    s'.run.status = s.run.status ∨ s'.run.status ∈ pc.commits s ∨
      (s'.run.status = .running ∧ pc.blindTo s.run.status = true) := by
  cases a with
  | reload | expire =>
    cases pc <;> simp only [act, Option.some.injEq, Prod.mk.injEq, reduceCtorEq] at h
    exact .inl (congrArg (·.run.status) h.1.symm)
  | proceed now =>
    cases pc <;> simp only [act, Pc.foreign, Bool.false_eq_true, if_true, if_false, foreignAct,
      taskAct] at h
    case cancel => split at h <;> cases h <;> exact .inl rfl
    case cancelWrite => cases h; exact .inr (.inl rfl)
    case reap => split at h <;> cases h <;> exact .inl rfl
    case workerLost => split at h <;> cases h <;> exact .inl rfl
    case failWrite => cases h; exact .inr (.inl rfl)
    case discard => cases h; exact .inl rfl
    case taskLoad => split at h <;> cases h <;> exact .inl rfl
    case taskReady t held =>
      cases hp : t.path with
      | execute | skip =>
        simp only [hp, Option.some.injEq, Prod.mk.injEq] at h
        obtain ⟨rfl, rfl⟩ := h
        by_cases hh : held = some .running
        · exact .inl (by simp [hh])
        · exact .inr (.inr (by simp [hh, Pc.blindTo, hp]))
      | setupFailed reason =>
        simp only [hp, Option.some.injEq, Prod.mk.injEq] at h
        obtain ⟨rfl, rfl⟩ := h
        by_cases hh : held = some .failed
        · exact .inl (by simp [hh])
        · exact .inr (.inl (by simp [hh, Pc.commits, hp]))
    case executing t w =>
      split at h
      · split at h <;> cases h <;> exact .inl rfl
      · cases h; exact .inl rfl
      · cases h; exact .inl rfl
    case cancelCheck =>
      split at h
      · cases h; exact .inl rfl
      · split at h <;> cases h <;> exact .inl rfl
    case publish => cases h; exact .inl rfl
    case record => cases h; exact .inl rfl
    case markSucceeded =>
      split at h
      · rename_i hrun
        cases h
        exact .inr (.inl (by simp [Pc.commits, hrun]))
      · cases h; exact .inl rfl
    case mirrored => cases h; exact .inr (.inl rfl)
    case abandon => cases h; exact .inl rfl
    case rescue => cases h; exact .inl rfl
    case rescueReload => cases h; exact .inl rfl
    case rescueCheck => split at h <;> cases h <;> exact .inl rfl
    case rescueWrite reason held =>
      cases h
      by_cases hh : held = .failed
      · exact .inl (by simp [assignStatus_status, hh])
      · exact .inr (.inl (by simp [assignStatus_status, hh, Pc.commits]))
    case skipReload => cases h; exact .inl rfl
    case skipWrite t held =>
      cases h
      by_cases hh : held = some .succeeded
      · exact .inl (by simp [hh])
      · exact .inr (.inl (by simp [hh, Pc.commits]))
    case done => cases h

theorem act_keeps_terminal {a : Act} {s s' : Store} {pc pc' : Pc}
    (h : act a s pc = some (s', pc')) (hterm : s.run.status.terminal = true)
    (hblind : pc.blindTo s.run.status = false) : s'.run.status = s.run.status := by
  rcases act_status h with hsame | hcommit | ⟨-, hb⟩
  · exact hsame
  · -- A pending terminal write that is not blind writes the status that is already there.
    cases pc <;> simp only [Pc.commits, Option.mem_def, reduceCtorEq] at hcommit <;>
      simp only [Pc.blindTo] at hblind
    case cancelWrite => simp_all
    case failWrite => simp_all
    case taskReady t held =>
      cases hp : t.path <;> simp_all
    case markSucceeded =>
      split at hcommit
      · rename_i hrun
        rw [hrun] at hterm
        cases hterm
      · cases hcommit
    case mirrored => simp_all
    case rescueWrite reason held =>
      by_cases hh : held = .failed
      · cases a with
        | proceed now =>
          simp only [act, Pc.foreign, Bool.false_eq_true, if_false, taskAct] at h
          cases h
          simp [assignStatus_status, hh]
        | reload | expire => simp [act] at h
      · simp_all
    case skipWrite t held =>
      by_cases hh : held = some .succeeded
      · cases a with
        | proceed now =>
          simp only [act, Pc.foreign, Bool.false_eq_true, if_false, taskAct] at h
          cases h
          simp [hh]
        | reload | expire => simp [act] at h
      · simp_all
  · rw [hb] at hblind
    cases hblind

theorem act_not_blind {a : Act} {s s' : Store} {pc pc' : Pc} (h : act a s pc = some (s', pc'))
    (hterm' : s'.run.status.terminal = true)
    (hblind : s.run.status.terminal = true → pc.blindTo s.run.status = false)
    (hload : pc.loadsTask = true → s.run.status ≠ .succeeded ∧ s.run.status ≠ .failed) :
    pc'.blindTo s'.run.status = false := by
  cases a with
  | reload | expire =>
    cases pc <;> simp only [act, Option.some.injEq, Prod.mk.injEq, reduceCtorEq] at h
    obtain ⟨rfl, rfl⟩ := h
    exact hblind hterm'
  | proceed now =>
    cases pc <;> simp only [act, Pc.foreign, Bool.false_eq_true, if_true, if_false, foreignAct,
      taskAct] at h
    case cancel =>
      split at h
      · cases h; rfl
      · cases h; simp_all
    case cancelWrite => cases h; rfl
    case reap =>
      split at h
      · cases h; simp_all
      · cases h; rfl
    case workerLost =>
      split at h
      · cases h; rfl
      · cases h; simp_all
    case failWrite reason wasRunning => cases h; cases wasRunning <;> rfl
    case discard => cases h; rfl
    case taskLoad t =>
      split at h
      · cases h; rfl
      · rename_i hc
        cases h
        have hl := hload rfl
        cases hs : s.run.status <;> simp_all [RunStatus.terminal]
    case taskReady t held =>
      cases hp : t.path with
      | execute | skip =>
        simp only [hp, Option.some.injEq, Prod.mk.injEq] at h
        obtain ⟨rfl, rfl⟩ := h
        by_cases hh : held = some .running
        · simp only [start_status, hh, if_true] at hterm' ⊢
          have := hblind hterm'
          simp [Pc.blindTo, hp] at this
        · simp [hh, RunStatus.terminal] at hterm'
      | setupFailed reason =>
        simp only [hp, Option.some.injEq, Prod.mk.injEq] at h
        obtain ⟨rfl, rfl⟩ := h
        rfl
    case executing t w =>
      split at h
      · split at h <;> cases h <;> rfl
      · rename_i hremaining
        cases h
        have hb := hblind hterm'
        simpa [Pc.blindTo, hremaining, PhaseEvent.isYield] using hb
      · rename_i hremaining
        cases h
        have hb := hblind hterm'
        simpa [Pc.blindTo, hremaining, PhaseEvent.isYield] using hb
    case cancelCheck t w publishable =>
      split at h
      · cases h; rfl
      · split at h <;> cases h <;> exact hblind hterm'
    case publish => cases h; exact hblind hterm'
    case record => cases h; exact hblind hterm'
    case markSucceeded =>
      split at h
      · cases h; simp [Pc.blindTo]
      · cases h; rfl
    case mirrored => cases h; rfl
    case abandon => cases h; rfl
    case rescue => cases h; exact hblind hterm'
    case rescueReload => cases h; exact hblind hterm'
    case rescueCheck reason held =>
      split at h
      · cases h; rfl
      · rename_i hc
        cases h
        have hb := hblind hterm'
        cases hs : s.run.status <;> simp_all [Pc.blindTo, RunStatus.terminal]
    case rescueWrite => cases h; rfl
    case skipReload t =>
      cases h
      have hb := hblind hterm'
      simp_all [Pc.blindTo]
    case skipWrite => cases h; rfl
    case done => cases h

/-- One statement along a schedule without crossings keeps the sessions settled and a terminal
status as it is. -/
theorem step_settled {c d : Config ι Store Pc} {e : ι × Act} (hc : Settled c)
    (he : NoCrossing c e) (h : step act c e = some d) :
    Settled d ∧ (c.store.run.status.terminal = true → d.store.run.status = c.store.run.status) := by
  obtain ⟨⟨s', pc'⟩, hact, rfl⟩ := step_eq_some.mp h
  have hkeep : c.store.run.status.terminal = true → s'.run.status = c.store.run.status :=
    fun hterm => act_keeps_terminal hact hterm (hc hterm e.1)
  refine ⟨fun hterm' j => ?_, hkeep⟩
  simp only [Config.put_store] at hterm' ⊢
  by_cases hj : j = e.1
  · subst hj
    rw [Config.put_session_self]
    exact act_not_blind hact hterm' (fun ht => hc ht e.1) he.2
  · rw [Config.put_session_ne _ _ hj]
    by_cases hterm : c.store.run.status.terminal = true
    · rw [hkeep hterm]
      exact hc hterm j
    · -- The statement made the run terminal, so it committed the status it announced.
      rcases act_status hact with hsame | hcommit | ⟨hrun, -⟩
      · rw [hsame] at hterm'
        exact absurd hterm' hterm
      · exact he.1 _ hcommit j hj
      · rw [hrun] at hterm'
        cases hterm'

/-- **A terminal status is absorbing** along every schedule without crossings, for any number of
sessions and whatever each of them runs. -/
theorem terminal_status_absorbing {c d e : Config ι Store Pc} (pre post : List (ι × Act))
    (hstart : ∀ i, (c.session i).atStart = true)
    (hmeets : Meets (step act) NoCrossing c (pre ++ post)) (hd : run (step act) c pre = some d)
    (he : run (step act) d post = some e) (hterm : d.store.run.status.terminal = true) :
    e.store.run.status = d.store.run.status := by
  obtain ⟨hpre, hpost⟩ := hmeets.of_append hd
  have hsettled : Settled d :=
    run_invariant (fun _ _ _ hs hg hst => (step_settled hs hg hst).1) (settled_of_atStart hstart)
      hpre hd
  refine run_relates (I := Settled)
    (R := fun a b => a.store.run.status.terminal = true → b.store.run.status = a.store.run.status)
    (fun _ _ => rfl) ?_ (fun _ _ _ hs hg hst => step_settled hs hg hst) hsettled hpost he hterm
  intro a b x hab hbx ha
  have hb := hab ha
  rw [hbx (hb ▸ ha), hb]

/-! ## A schedule without crossings, and one with -/

def sampleRun : Run :=
  { id := 1
    suiteId := 1
    status := .queued
    triggeredBy := none
    createdAt := 10
    startedAt := none
    finishedAt := none
    failureReason := none
    recordedResultsTotal := none
    recordedChecksTotal := none
    recordedChecksPassed := none
    recordedWorstSeverity := none }

def sampleCheck (kind : CheckKind) : Check :=
  { id := 7
    kind := kind
    engine := none
    expectationType := "expect_column_values_to_not_be_null"
    thresholds := ⟨none, none, none⟩ }

def samplePass : CheckOutcome :=
  { expectationType := "expect_column_values_to_not_be_null"
    success := true
    errored := false
    skipped := false
    errorMessage := none
    metricValue := none
    unexpectedPercent := none
    observedCount := none
    severity := none }

/-- A suite of one check, which passes. -/
def sampleTask (kind : CheckKind) (publishable : Bool) : Task :=
  { path := .execute
    checks := [sampleCheck kind]
    coverage := fun _ => none
    phases := [.yielded ⟨[(0, samplePass)], publishable⟩]
    safeFailureReason := id }

/-- `n` statements of one session, at the instants from `now` on. -/
def statements (i : Party) (now n : ℕ) : List (Party × Act) :=
  (List.range n).map fun k => (i, .proceed (now + k))

theorem terminal_status_absorbing_lateCancel :
    ∃ d e, run (step act) (workerAnd ⟨sampleRun, []⟩ (sampleTask .expectation true) .cancel)
        (statements .worker 20 8) = some d ∧
      run (step act) d (statements .other 30 1) = some e ∧ d.store.run.status = .succeeded ∧
      e.store.run.status = d.store.run.status :=
  ⟨_, _, rfl, rfl, rfl,
    terminal_status_absorbing (c := workerAnd ⟨sampleRun, []⟩ (sampleTask .expectation true) .cancel)
      (statements .worker 20 8) (statements .other 30 1) (by decide) (by decide) rfl rfl rfl⟩

/-- A cancel that read `running` writes `cancelled` over the worker's committed `succeeded`. -/
theorem late_cancel_overwrites_succeeded :
    ¬ ∀ (c d e : Config Party Store Pc) (pre post : List (Party × Act)),
      (∀ i, (c.session i).atStart = true) → run (step act) c pre = some d →
      run (step act) d post = some e → d.store.run.status.terminal = true →
      e.store.run.status = d.store.run.status := by
  intro h
  have hcross := h (workerAnd ⟨sampleRun, []⟩ (sampleTask .expectation true) .cancel) _ _
    (statements .worker 20 7 ++ statements .other 30 1 ++ statements .worker 40 1)
    (statements .other 50 1) (by decide) rfl rfl rfl
  cases hcross

end DataQ.Runs
