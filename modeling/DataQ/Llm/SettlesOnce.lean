import DataQ.Llm.Invocations

/-! # An invocation is paid for once and settles once

Only one delivery finds the row pending, and what is terminal is found by no guarded write. -/

namespace DataQ.Llm
open DataQ.Interleaving DataQ.Transition
set_option autoImplicit false

variable {ι : Type*} [DecidableEq ι] {world : World}

/-! ## The guarded writes -/

theorem Status.terminal_iff {s : Status} : s.Terminal ↔ s ≠ .pending ∧ s ≠ .running := by
  cases s <;> simp [Status.Terminal]

@[simp] theorem Row.close_status (row : Row) (t : Terminal) : (row.close t).status = t.status := rfl

theorem Row.persist_running {row : Row} (h : row.status = .running) (t : Terminal) :
    row.persist t = (row.close t, true) := if_pos h

theorem Row.persist_other {row : Row} (h : row.status ≠ .running) (t : Terminal) :
    row.persist t = (row, false) := if_neg h

theorem Work.failed_status (w : Work) (durationMs : ℕ) (finishedAt : ℤ) (raised : Raised) :
    (w.failed world durationMs finishedAt raised).status = .failed := by
  cases raised <;> rfl

/-- What a delivery has to record closes the row. -/
theorem settle_terminal (w : Work) (structured : Bool) (answer : Except Raised LlmResult)
    (validate : Json → Except Raised Json) (durationMs : ℕ) (finishedAt : ℤ) :
    (settle world w structured answer validate durationMs finishedAt).status.Terminal := by
  have hfailed : ∀ (w : Work) raised,
      (w.failed world durationMs finishedAt raised).status.Terminal := by
    intro w raised
    rw [Work.failed_status]
    trivial
  unfold settle
  split
  · exact hfailed w _
  · split
    · exact hfailed w _
    · dsimp only
      split
      · exact hfailed _ _
      · trivial

/-! ## What a step does to the row -/

/-- The row moves from pending to running, from pending to failed, or from running to an end; or its
status stays. -/
inductive Moves : Status → Status → Prop
  | stays (s : Status) : Moves s s
  | claimed : Moves .pending .running
  | dropped : Moves .pending .failed
  | ended {s : Status} (h : s.Terminal) : Moves .running s

theorem Moves.terminal {s t : Status} (h : Moves s t) (hs : s.Terminal) : t.Terminal := by
  cases h with
  | stays => exact hs
  | claimed => exact hs.elim
  | dropped => trivial
  | ended h => exact h

theorem Moves.pending {s t : Status} (h : Moves s t) (ht : t = .pending) : s = .pending := by
  cases h with
  | stays => exact ht
  | claimed => rfl
  | dropped => rfl
  | ended h =>
    rw [ht] at h
    exact h.elim

/-- What a step may do to the row: a terminal one keeps its outcome. -/
structure RowStep (row row' : Row) : Prop where
  moves : Moves row.status row'.status
  kept : row.status.Terminal → { row' with request := row.request } = row

theorem RowStep.refl (row : Row) : RowStep row row := ⟨.stays _, fun _ => rfl⟩

theorem rowStep_persist (row : Row) {t : Terminal} (h : t.status.Terminal) :
    RowStep row (row.persist t).1 := by
  by_cases hrunning : row.status = .running
  · rw [Row.persist_running hrunning]
    refine ⟨?_, fun hterminal => absurd hrunning (Status.terminal_iff.mp hterminal).2⟩
    rw [hrunning]
    exact .ended h
  · rw [Row.persist_other hrunning]
    exact .refl row

/-! ## Where the deliveries stand -/

/-- The delivery has claimed the row and not called the provider yet. -/
def Delivery.BeforeCall : Delivery → Prop
  | .claimed | .ready _ _ => True
  | _ => False

/-- The delivery has claimed the row and not returned yet. -/
def Delivery.Engaged : Delivery → Prop
  | .claimed | .ready _ _ | .closing _ | .retrying _ => True
  | _ => False

theorem Delivery.BeforeCall.engaged {d : Delivery} (h : d.BeforeCall) : d.Engaged := by
  cases d <;> trivial

/-- One delivery at most is before its call, the provider was called once at most, and who has
returned after a claim has left the row at its end. -/
structure Sound (c : System ι) : Prop where
  untouched : c.store.row.status = .pending →
    c.store.calls = 0 ∧ ∀ i, ¬ (c.session i).Engaged
  single : ∀ {i j}, (c.session i).BeforeCall → (c.session j).BeforeCall → i = j
  uncalled : ∀ {i}, (c.session i).BeforeCall → c.store.calls = 0
  once : c.store.calls ≤ 1
  final : ∀ {i t}, c.session i = .closing t → t.status.Terminal
  ended : ∀ {i o}, c.session i = .returned o → o ≠ .skipped → c.store.row.status.Terminal

omit [DecidableEq ι] in
theorem Fresh.sound {c : System ι} (h : Fresh c) : Sound c where
  untouched _ := ⟨h.uncalled, fun i hengaged => by rw [h.idle i] at hengaged; exact hengaged⟩
  single {i _} hi _ := by
    rw [h.idle i] at hi
    exact hi.elim
  uncalled _ := h.uncalled
  once := by
    rw [h.uncalled]
    omega
  final {i _} hclosing := by
    rw [h.idle i] at hclosing
    cases hclosing
  ended {i _} hreturned := by
    rw [h.idle i] at hreturned
    cases hreturned

/-- What one delivery does, as the others see it. -/
structure Advance (s : Store) (d : Delivery) (s' : Store) (d' : Delivery) : Prop where
  row : RowStep s.row s'.row
  /-- A pending row that the delivery leaves pending it has not claimed. -/
  waits : s'.row.status = .pending → ¬ d'.Engaged
  calls : s'.calls = s.calls ∨ (s'.calls = s.calls + 1 ∧ d.BeforeCall ∧ ¬ d'.BeforeCall)
  /-- Who is before the call now was so already, or has claimed a pending row. -/
  before : d'.BeforeCall → d.BeforeCall ∨ s.row.status = .pending
  final : ∀ t, d' = .closing t → t.status.Terminal
  ended : ∀ o, d' = .returned o → o ≠ .skipped → s'.row.status.Terminal

theorem Sound.put {c : System ι} (h : Sound c) {i : ι} {s : Store} {d : Delivery}
    (hadvance : Advance c.store (c.session i) s d) : Sound (c.put i (s, d)) := by
  have hfree : d.BeforeCall → ∀ j, j ≠ i → ¬ (c.session j).BeforeCall := by
    intro hd j hji hj
    rcases hadvance.before hd with hi | hpending
    · exact hji (h.single hj hi)
    · exact (h.untouched hpending).2 j hj.engaged
  have hcalls : ∀ {j}, j ≠ i → (c.session j).BeforeCall → s.calls = c.store.calls := by
    intro j hji hj
    rcases hadvance.calls with hsame | ⟨-, hi, -⟩
    · exact hsame
    · exact absurd (h.single hj hi) hji
  refine ⟨?_, ?_, ?_, ?_, ?_, ?_⟩
  · intro hpending
    have hbefore := h.untouched (hadvance.row.moves.pending hpending)
    refine ⟨?_, fun j => ?_⟩
    · rcases hadvance.calls with hsame | ⟨-, hi, -⟩
      · exact hsame.trans hbefore.1
      · exact absurd hi.engaged (hbefore.2 i)
    · by_cases hji : j = i
      · subst hji
        rw [Config.put_session_self]
        exact hadvance.waits hpending
      · rw [Config.put_session_ne _ _ hji]
        exact hbefore.2 j
  · intro j k hj hk
    by_cases hji : j = i
    · subst hji
      by_cases hkj : k = j
      · exact hkj.symm
      · rw [Config.put_session_self] at hj
        rw [Config.put_session_ne _ _ hkj] at hk
        exact absurd hk (hfree hj k hkj)
    · rw [Config.put_session_ne _ _ hji] at hj
      by_cases hki : k = i
      · subst hki
        rw [Config.put_session_self] at hk
        exact absurd hj (hfree hk j hji)
      · rw [Config.put_session_ne _ _ hki] at hk
        exact h.single hj hk
  · intro j hj
    by_cases hji : j = i
    · subst hji
      rw [Config.put_session_self] at hj
      rcases hadvance.calls with hsame | ⟨-, -, hnot⟩
      · rcases hadvance.before hj with hi | hpending
        · exact hsame.trans (h.uncalled hi)
        · exact hsame.trans (h.untouched hpending).1
      · exact absurd hj hnot
    · rw [Config.put_session_ne _ _ hji] at hj
      exact (hcalls hji hj).trans (h.uncalled hj)
  · show s.calls ≤ 1
    have honce := h.once
    rcases hadvance.calls with hsame | ⟨hmore, hi, -⟩
    · omega
    · have hnone := h.uncalled hi
      omega
  · intro j t hclosing
    by_cases hji : j = i
    · subst hji
      rw [Config.put_session_self] at hclosing
      exact hadvance.final t hclosing
    · rw [Config.put_session_ne _ _ hji] at hclosing
      exact h.final hclosing
  · intro j o hreturned hclaimed
    by_cases hji : j = i
    · subst hji
      rw [Config.put_session_self] at hreturned
      exact hadvance.ended o hreturned hclaimed
    · rw [Config.put_session_ne _ _ hji] at hreturned
      exact hadvance.row.moves.terminal (h.ended hreturned hclaimed)

/-! ## Every act is an advance -/

section Acts

variable {s s' : Store} {d d' : Delivery}

theorem Advance.local (hengaged : d'.Engaged → s.row.status ≠ .pending)
    (hbefore : d'.BeforeCall → d.BeforeCall) (hfinal : ∀ t, d' = .closing t → t.status.Terminal)
    (hended : ∀ o, d' = .returned o → o = .skipped) : Advance s d s d' where
  row := .refl s.row
  waits hpending hd' := hengaged hd' hpending
  calls := .inl rfl
  before hd' := .inl (hbefore hd')
  final := hfinal
  ended o hreturned hclaimed := absurd (hended o hreturned) hclaimed

theorem advance_claim {now : ℤ} {fate : Fate}
    (h : act world (.claim now fate) s .idle = some (s', d')) : Advance s .idle s' d' := by
  by_cases hpending : s.row.status = .pending
  · have hstep : RowStep s.row { s.row with status := .running, startedAt := some now } := by
      refine ⟨?_, fun hterminal => absurd hpending (Status.terminal_iff.mp hterminal).1⟩
      rw [hpending]
      exact .claimed
    cases fate with
    | stored =>
      simp only [act, hpending, if_true, Option.some.injEq, Prod.mk.injEq] at h
      obtain ⟨rfl, rfl⟩ := h
      exact ⟨hstep, nofun, .inl rfl, fun _ => .inr hpending, (fun _ ht => by cases ht), nofun⟩
    | lost =>
      simp only [act, hpending, if_true, Option.some.injEq, Prod.mk.injEq] at h
      obtain ⟨rfl, rfl⟩ := h
      exact ⟨hstep, nofun, .inl rfl, nofun, (fun _ ht => by cases ht), nofun⟩
    | unstored =>
      obtain ⟨rfl, rfl⟩ := Prod.mk.inj (Option.some.inj h)
      exact .local nofun nofun (fun _ ht => by cases ht) nofun
  · cases fate with
    | stored =>
      simp only [act, hpending, if_false, Option.some.injEq, Prod.mk.injEq] at h
      obtain ⟨rfl, rfl⟩ := h
      refine .local nofun nofun (fun _ ht => by cases ht) fun o ho => ?_
      exact (Delivery.returned.inj ho).symm
    | lost =>
      simp only [act, hpending, if_false, Option.some.injEq, Prod.mk.injEq] at h
      obtain ⟨rfl, rfl⟩ := h
      exact .local nofun nofun (fun _ ht => by cases ht) nofun
    | unstored =>
      obtain ⟨rfl, rfl⟩ := Prod.mk.inj (Option.some.inj h)
      exact .local nofun nofun (fun _ ht => by cases ht) nofun

theorem advance_remember {columns : List Text} {total : ℕ}
    (hclaimed : s.row.status ≠ .pending) :
    Advance s .claimed { s with row := rememberColumns s.row columns total } .claimed where
  row := ⟨.stays _, fun _ => rfl⟩
  waits hpending _ := hclaimed hpending
  calls := .inl rfl
  before hbefore := .inl hbefore
  final _ ht := by cases ht
  ended := nofun

theorem advance_prepare {prompt : Except Raised Prompt} {provider : Except Raised Unit}
    {durationMs : ℕ} {finishedAt : ℤ} (hclaimed : s.row.status ≠ .pending)
    (h : act world (.prepare prompt provider durationMs finishedAt) s .claimed = some (s', d')) :
    Advance s .claimed s' d' := by
  have hclosing : ∀ (w : Work) raised, Advance s .claimed s
      (.closing (w.failed world durationMs finishedAt raised)) := by
    intro w raised
    refine .local (fun _ => hclaimed) nofun (fun t ht => ?_) nofun
    rw [← Delivery.closing.inj ht, Work.failed_status]
    trivial
  simp only [act] at h
  split at h
  · obtain ⟨rfl, rfl⟩ := Prod.mk.inj (Option.some.inj h)
    exact hclosing _ _
  · split at h
    · obtain ⟨rfl, rfl⟩ := Prod.mk.inj (Option.some.inj h)
      exact hclosing _ _
    · obtain ⟨rfl, rfl⟩ := Prod.mk.inj (Option.some.inj h)
      exact .local (fun _ => hclaimed) (fun _ => trivial) (fun _ ht => by cases ht) nofun

theorem advance_call {w : Work} {structured : Bool} {t : Terminal}
    (hclaimed : s.row.status ≠ .pending) (ht : t.status.Terminal) :
    Advance s (.ready w structured) { s with calls := s.calls + 1 } (.closing t) where
  row := .refl s.row
  waits hpending _ := hclaimed hpending
  calls := .inr ⟨rfl, trivial, nofun⟩
  before := nofun
  final _ hclosing := Delivery.closing.inj hclosing ▸ ht
  ended := nofun

/-- After the terminal write of a delivery that had claimed it, the row is at its end. -/
theorem persist_terminal {row : Row} (hclaimed : row.status ≠ .pending) {t : Terminal}
    (ht : t.status.Terminal) : (row.persist t).1.status.Terminal := by
  by_cases hrunning : row.status = .running
  · rw [Row.persist_running hrunning]
    exact ht
  · rw [Row.persist_other hrunning]
    exact Status.terminal_iff.mpr ⟨hclaimed, hrunning⟩

/-- A terminal write, whatever becomes of its answer. -/
theorem advance_persist {t : Terminal} (hclaimed : s.row.status ≠ .pending)
    (ht : t.status.Terminal) (hbefore : ¬ d'.BeforeCall)
    (hfinal : ∀ t, d' = .closing t → t.status.Terminal) :
    Advance s d { s with row := (s.row.persist t).1 } d' where
  row := rowStep_persist s.row ht
  waits hpending _ := by
    have hend := persist_terminal hclaimed ht
    exact (Status.terminal_iff.mp hend).1 hpending
  calls := .inl rfl
  before hd' := absurd hd' hbefore
  final := hfinal
  ended _ _ _ := persist_terminal hclaimed ht

theorem advance_reap {t : Terminal}
    (hopen : s.row.status = .pending ∨ s.row.status = .running) (ht : t.status = .failed) :
    Advance s .idle { s with row := s.row.close t } .idle := by
  refine ⟨⟨?_, fun hterminal => ?_⟩, nofun, .inl rfl, nofun, (fun _ ht => by cases ht), nofun⟩
  · show Moves s.row.status t.status
    rcases hopen with hpending | hrunning
    · rw [hpending, ht]
      exact .dropped
    · rw [hrunning, ht]
      exact .ended trivial
  · rw [Status.terminal_iff] at hterminal
    rcases hopen with hpending | hrunning
    · exact absurd hpending hterminal.1
    · exact absurd hrunning hterminal.2

theorem advance_of_act {a : Act} (hclaimed : d.Engaged → s.row.status ≠ .pending)
    (hfinal : ∀ t, d = .closing t → t.status.Terminal)
    (h : act world a s d = some (s', d')) : Advance s d s' d' := by
  cases a with
  | claim now fate =>
    cases d with
    | idle => exact advance_claim h
    | _ => cases h
  | rememberColumns columns total =>
    cases d with
    | claimed =>
      obtain ⟨rfl, rfl⟩ := Prod.mk.inj (Option.some.inj h)
      exact advance_remember (hclaimed trivial)
    | _ => cases h
  | prepare prompt provider durationMs finishedAt =>
    cases d with
    | claimed => exact advance_prepare (hclaimed trivial) h
    | _ => cases h
  | call answer validate durationMs finishedAt =>
    cases d with
    | ready w structured =>
      obtain ⟨rfl, rfl⟩ := Prod.mk.inj (Option.some.inj h)
      exact advance_call (hclaimed trivial) (settle_terminal w structured answer validate _ _)
    | _ => cases h
  | persist fate =>
    cases d with
    | closing t =>
      have hend := hfinal t rfl
      cases fate with
      | stored =>
        obtain ⟨rfl, rfl⟩ := Prod.mk.inj (Option.some.inj h)
        exact advance_persist (hclaimed trivial) hend nofun (fun _ ht => by cases ht)
      | lost =>
        obtain ⟨rfl, rfl⟩ := Prod.mk.inj (Option.some.inj h)
        exact advance_persist (hclaimed trivial) hend nofun (fun _ ht => by cases ht)
      | unstored =>
        obtain ⟨rfl, rfl⟩ := Prod.mk.inj (Option.some.inj h)
        exact .local (fun _ => hclaimed trivial) nofun (fun _ ht => by cases ht) nofun
    | _ => cases h
  | persistAgain finishedAt fate =>
    cases d with
    | retrying t =>
      cases fate with
      | stored =>
        obtain ⟨rfl, rfl⟩ := Prod.mk.inj (Option.some.inj h)
        exact advance_persist (hclaimed trivial) trivial nofun (fun _ ht => by cases ht)
      | lost =>
        obtain ⟨rfl, rfl⟩ := Prod.mk.inj (Option.some.inj h)
        exact advance_persist (hclaimed trivial) trivial nofun (fun _ ht => by cases ht)
      | unstored =>
        obtain ⟨rfl, rfl⟩ := Prod.mk.inj (Option.some.inj h)
        exact .local nofun nofun (fun _ ht => by cases ht) nofun
    | _ => cases h
  | stop =>
    simp only [act] at h
    split at h
    · cases h
    · obtain ⟨rfl, rfl⟩ := Prod.mk.inj (Option.some.inj h)
      exact .local nofun nofun (fun _ ht => by cases ht) nofun
  | reapPending now minutes =>
    cases d with
    | idle =>
      simp only [act] at h
      split at h
      · next hguard =>
        obtain ⟨rfl, rfl⟩ := Prod.mk.inj (Option.some.inj h)
        exact advance_reap (.inl hguard.2.1) rfl
      · obtain ⟨rfl, rfl⟩ := Prod.mk.inj (Option.some.inj h)
        exact .local nofun nofun (fun _ ht => by cases ht) nofun
    | _ => cases h
  | reapRunning now minutes =>
    cases d with
    | idle =>
      simp only [act] at h
      split at h
      · next hguard =>
        obtain ⟨rfl, rfl⟩ := Prod.mk.inj (Option.some.inj h)
        exact advance_reap (.inr hguard.2.1) rfl
      · obtain ⟨rfl, rfl⟩ := Prod.mk.inj (Option.some.inj h)
        exact .local nofun nofun (fun _ ht => by cases ht) nofun
    | _ => cases h

end Acts

/-! ## Runs -/

theorem advance_of_step {c c' : System ι} {e : ι × Act} (h : Sound c)
    (hstep : step world c e = some c') :
    ∃ s d, c' = c.put e.1 (s, d) ∧ Advance c.store (c.session e.1) s d := by
  obtain ⟨⟨s, d⟩, hact, rfl⟩ := step_eq_some.mp hstep
  have hclaimed : (c.session e.1).Engaged → c.store.row.status ≠ .pending :=
    fun hengaged hpending => (h.untouched hpending).2 e.1 hengaged
  exact ⟨s, d, rfl, advance_of_act hclaimed (fun t ht => h.final ht) hact⟩

theorem Sound.step {c c' : System ι} {e : ι × Act} (h : Sound c)
    (hstep : step world c e = some c') : Sound c' := by
  obtain ⟨s, d, rfl, hadvance⟩ := advance_of_step h hstep
  exact h.put hadvance

/-- The status only moves forward, and a row at its end keeps its outcome. -/
def Settles (world : World) (c : System ι) (e : ι × Act) : Prop :=
  ∀ c', step world c e = some c' → RowStep c.store.row c'.store.row

/-- An invocation that was queued, on a system that answers everything. -/
def queued : System ℕ where
  store := ⟨⟨.pending, 0, none, none, none, none, none, none, none, none, none⟩, 0⟩
  session := fun _ => .idle

def plainWorld : World := ⟨id, fun _ => 0⟩

def answered : LlmResult := ⟨"ok".toList, none, some 3, some 1⟩

/-- A slow call, while the reaper gives the row up: the delivery is superseded. -/
def slowCall : List (ℕ × Act) :=
  [(0, .claim 1 .stored), (0, .prepare (.ok ⟨"count".toList, none, false⟩) (.ok ()) 5 6),
    (1, .reapRunning 600000002 10), (0, .call (.ok answered) .ok 5 700000000),
    (0, .persist .stored)]

theorem queued_fresh : Fresh queued := ⟨fun _ => rfl, rfl⟩

end DataQ.Llm
