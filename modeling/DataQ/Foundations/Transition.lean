import Mathlib.Logic.Function.Basic
import Mathlib.Tactic.Common

/-! # Runs of a partial transition function

A system is a function `step : σ → ε → Option σ`: what the event `ε` does in a state, or `none`
where it cannot happen there. `run` folds it over a list of events. `Meets G` says that each event
of a run finds its state in the relation `G`; the invariant rules take `G` as what the steps of
the run may rely on. -/

namespace DataQ.Transition
set_option autoImplicit false

variable {σ ε : Type*}

/-- The state after the events of a list, if each of them can happen in its turn. -/
def run (step : σ → ε → Option σ) : σ → List ε → Option σ
  | s, [] => some s
  | s, e :: es => (step s e).bind fun t => run step t es

/-- Every event of the run finds its state in the relation `G`. -/
def Meets (step : σ → ε → Option σ) (G : σ → ε → Prop) : σ → List ε → Prop
  | _, [] => True
  | s, e :: es => G s e ∧ ∀ t, step s e = some t → Meets step G t es

variable {step : σ → ε → Option σ} {G : σ → ε → Prop}

@[simp] theorem run_nil (s : σ) : run step s [] = some s := rfl

theorem run_cons (s : σ) (e : ε) (es : List ε) :
    run step s (e :: es) = (step s e).bind fun t => run step t es := rfl

theorem run_cons_eq_some {s u : σ} {e : ε} {es : List ε} :
    run step s (e :: es) = some u ↔ ∃ t, step s e = some t ∧ run step t es = some u := by
  rw [run_cons, Option.bind_eq_some_iff]

theorem run_append (s : σ) (es fs : List ε) :
    run step s (es ++ fs) = (run step s es).bind fun t => run step t fs := by
  induction es generalizing s with
  | nil => rfl
  | cons e es ih =>
    rw [List.cons_append, run_cons, run_cons, Option.bind_assoc]
    congr 1
    funext t
    exact ih t

theorem run_append_eq_some {s u : σ} {es fs : List ε} :
    run step s (es ++ fs) = some u ↔ ∃ t, run step s es = some t ∧ run step t fs = some u := by
  rw [run_append, Option.bind_eq_some_iff]

@[simp] theorem meets_nil (s : σ) : Meets step G s [] := trivial

theorem Meets.of_append {s t : σ} {es fs : List ε} (h : Meets step G s (es ++ fs))
    (ht : run step s es = some t) : Meets step G s es ∧ Meets step G t fs := by
  induction es generalizing s with
  | nil =>
    have hst : s = t := by simpa using ht
    subst hst
    exact ⟨trivial, h⟩
  | cons e es ih =>
    obtain ⟨u, hu, hrun⟩ := run_cons_eq_some.mp ht
    obtain ⟨he, hrest⟩ := h
    have htail := ih (hrest u hu) hrun
    refine ⟨⟨he, fun v hv => ?_⟩, htail.2⟩
    have huv : u = v := Option.some.inj (hu.symm.trans hv)
    subst huv
    exact htail.1

theorem Meets.left {s : σ} {es fs : List ε} (h : Meets step G s (es ++ fs)) :
    Meets step G s es := by
  induction es generalizing s with
  | nil => trivial
  | cons e es ih => exact ⟨h.1, fun t ht => ih (h.2 t ht)⟩

theorem Meets.append {s : σ} {es fs : List ε} (h : Meets step G s es)
    (hfs : ∀ t, run step s es = some t → Meets step G t fs) : Meets step G s (es ++ fs) := by
  induction es generalizing s with
  | nil => exact hfs s rfl
  | cons e es ih =>
    refine ⟨h.1, fun t ht => ih (h.2 t ht) fun u hu => hfs u ?_⟩
    exact run_cons_eq_some.mpr ⟨t, ht, hu⟩

/-- A run meets a relation if each of its events does where the events before it lead. -/
theorem meets_of_prefixes {s : σ} {es : List ε}
    (h : ∀ fs e rest t, es = fs ++ e :: rest → run step s fs = some t → G t e) :
    Meets step G s es := by
  induction es generalizing s with
  | nil => trivial
  | cons e es ih =>
    refine ⟨h [] e es s rfl rfl, fun t ht => ih fun fs e' rest u heq hu => ?_⟩
    exact h (e :: fs) e' rest u (by rw [heq, List.cons_append])
      (run_cons_eq_some.mpr ⟨t, ht, hu⟩)

instance decidableMeets [∀ s e, Decidable (G s e)] :
    ∀ (s : σ) (es : List ε), Decidable (Meets step G s es)
  | _, [] => .isTrue trivial
  | s, e :: es =>
    match h : step s e with
    | none => decidable_of_iff (G s e) ⟨fun hG => ⟨hG, fun t ht => by simp [h] at ht⟩, And.left⟩
    | some t =>
      haveI := decidableMeets t es
      decidable_of_iff (G s e ∧ Meets step G t es)
        ⟨fun hG => ⟨hG.1, fun u hu => by cases h.symm.trans hu; exact hG.2⟩,
          fun hG => ⟨hG.1, hG.2 t h⟩⟩

/-- An invariant over the state and the events still to come. -/
theorem run_invariant_ahead {I : σ → List ε → Prop}
    (hstep : ∀ s e es t, I s (e :: es) → G s e → step s e = some t → I t es) {s t : σ}
    {es : List ε} (hs : I s es) (hG : Meets step G s es) (hrun : run step s es = some t) :
    I t [] := by
  induction es generalizing s with
  | nil =>
    have hst : s = t := by simpa using hrun
    exact hst ▸ hs
  | cons e es ih =>
    obtain ⟨u, hu, hrest⟩ := run_cons_eq_some.mp hrun
    exact ih (hstep s e es u hs hG.1 hu) (hG.2 u hu) hrest

/-- An invariant kept by every step that meets `G` holds wherever a run meeting `G` arrives. -/
theorem run_invariant {I : σ → Prop}
    (hstep : ∀ s e t, I s → G s e → step s e = some t → I t) {s t : σ} {es : List ε}
    (hs : I s) (hG : Meets step G s es) (hrun : run step s es = some t) : I t :=
  run_invariant_ahead (I := fun s _ => I s) (fun s e _ t => hstep s e t) hs hG hrun

/-- What an invariant gives at every event of a run. -/
theorem Meets.of_invariant {I : σ → Prop} {H : σ → ε → Prop}
    (hstep : ∀ s e t, I s → G s e → step s e = some t → I t)
    (hgoal : ∀ s e, I s → G s e → H s e) {s : σ} {es : List ε} (hs : I s)
    (hG : Meets step G s es) : Meets step H s es := by
  induction es generalizing s with
  | nil => trivial
  | cons e es ih =>
    exact ⟨hgoal s e hs hG.1, fun t ht => ih (hstep s e t hs hG.1 ht) (hG.2 t ht)⟩

theorem meets_of_forall (h : ∀ s e, G s e) (s : σ) (es : List ε) : Meets step G s es := by
  induction es generalizing s with
  | nil => trivial
  | cons e es ih => exact ⟨h s e, fun t _ => ih t⟩

theorem meets_of_forall_mem {es : List ε} (h : ∀ e ∈ es, ∀ s, G s e) (s : σ) :
    Meets step G s es := by
  induction es generalizing s with
  | nil => trivial
  | cons e es ih =>
    have hes : ∀ e' ∈ es, ∀ s, G s e' := fun e' he' => h e' (List.mem_cons_of_mem e he')
    exact ⟨h e List.mem_cons_self s, fun t _ => ih hes t⟩

theorem run_keeps {I : σ → Prop} (hstep : ∀ s e t, I s → step s e = some t → I t) {s t : σ}
    {es : List ε} (hs : I s) (hrun : run step s es = some t) : I t :=
  run_invariant (G := fun _ _ => True) (fun s e t h _ => hstep s e t h) hs
    (meets_of_forall (fun _ _ => trivial) s es) hrun

theorem run_total (hstep : ∀ s e, ∃ t, step s e = some t) (s : σ) (es : List ε) :
    ∃ t, run step s es = some t := by
  induction es generalizing s with
  | nil => exact ⟨s, rfl⟩
  | cons e es ih =>
    obtain ⟨t, ht⟩ := hstep s e
    obtain ⟨u, hu⟩ := ih t
    exact ⟨u, run_cons_eq_some.mpr ⟨t, ht, hu⟩⟩

theorem run_relates {I : σ → Prop} {R : σ → σ → Prop} (hrefl : ∀ s, R s s)
    (htrans : ∀ {s t u}, R s t → R t u → R s u)
    (hstep : ∀ s e t, I s → G s e → step s e = some t → I t ∧ R s t) {s t : σ} {es : List ε}
    (hs : I s) (hG : Meets step G s es) (hrun : run step s es = some t) : R s t := by
  induction es generalizing s with
  | nil =>
    have hst : s = t := by simpa using hrun
    exact hst ▸ hrefl s
  | cons e es ih =>
    obtain ⟨u, hu, hrest⟩ := run_cons_eq_some.mp hrun
    obtain ⟨hI, hR⟩ := hstep s e u hs hG.1 hu
    exact htrans hR (ih hI (hG.2 u hu) hrest)

end DataQ.Transition

/-! # Sessions interleaving over one shared store

Each session `ι` runs its own program. A statement reads the shared store `σ` and the session's
private state `ℓ` and leaves both changed, atomically; between two statements of one session any
statements of the others may come. This is how read-committed transactions see each other once
every statement that waits for a row lock is taken together with the commit that releases it. -/

namespace DataQ.Interleaving
set_option autoImplicit false

variable {ι σ ℓ α : Type*}

/-- The shared store and where every session stands. -/
structure Config (ι σ ℓ : Type*) where
  store : σ
  session : ι → ℓ

variable [DecidableEq ι]

/-- The configuration after session `i` has left the store and itself as `r`. -/
def Config.put (c : Config ι σ ℓ) (i : ι) (r : σ × ℓ) : Config ι σ ℓ :=
  ⟨r.1, Function.update c.session i r.2⟩

@[simp] theorem Config.put_store (c : Config ι σ ℓ) (i : ι) (r : σ × ℓ) :
    (c.put i r).store = r.1 := rfl

@[simp] theorem Config.put_session_self (c : Config ι σ ℓ) (i : ι) (r : σ × ℓ) :
    (c.put i r).session i = r.2 := by
  simp [Config.put]

theorem Config.put_session_ne (c : Config ι σ ℓ) {i j : ι} (r : σ × ℓ) (h : j ≠ i) :
    (c.put i r).session j = c.session j := by
  simp [Config.put, h]

/-- After a session was put, a session is that one or stands where it stood. -/
theorem Config.put_session_cases {c : Config ι σ ℓ} {i j : ι} {r : σ × ℓ} {l : ℓ}
    (h : (c.put i r).session j = l) : (j = i ∧ r.2 = l) ∨ (j ≠ i ∧ c.session j = l) := by
  by_cases hj : j = i
  · subst hj
    rw [put_session_self] at h
    exact .inl ⟨rfl, h⟩
  · rw [put_session_ne c r hj] at h
    exact .inr ⟨hj, h⟩

/-- One statement of the named session. -/
def step (act : α → σ → ℓ → Option (σ × ℓ)) (c : Config ι σ ℓ) (e : ι × α) :
    Option (Config ι σ ℓ) :=
  (act e.2 c.store (c.session e.1)).map (c.put e.1)

theorem step_eq_some {act : α → σ → ℓ → Option (σ × ℓ)} {c d : Config ι σ ℓ} {e : ι × α} :
    step act c e = some d ↔ ∃ r, act e.2 c.store (c.session e.1) = some r ∧ c.put e.1 r = d := by
  rw [step, Option.map_eq_some_iff]

/-! ## What the sessions have locked -/

variable {κ : Type*} {locked : σ → κ → Prop} {holds : ℓ → κ → Prop}

/-- What a session holds is locked in the store, and no other session holds it. -/
structure Exclusive (locked : σ → κ → Prop) (holds : ℓ → κ → Prop) (c : Config ι σ ℓ) : Prop where
  alone : ∀ i j k, holds (c.session i) k → holds (c.session j) k → i = j
  locked : ∀ i k, holds (c.session i) k → locked c.store k

omit [DecidableEq ι] in
theorem Exclusive.others {c : Config ι σ ℓ} (h : Exclusive locked holds c) {i j : ι} {k : κ}
    (hji : j ≠ i) (hj : holds (c.session j) k) : locked c.store k ∧ ¬holds (c.session i) k :=
  ⟨h.locked j k hj, fun hi => hji (h.alone j i k hj hi)⟩

/-- A session takes what is not locked, and releases what it holds itself. -/
theorem Exclusive.put {c : Config ι σ ℓ} (h : Exclusive locked holds c) {i : ι} {r : σ × ℓ}
    (htakes : ∀ k, holds r.2 k → locked r.1 k ∧ (holds (c.session i) k ∨ ¬locked c.store k))
    (hkeeps : ∀ k, locked c.store k → ¬holds (c.session i) k → locked r.1 k) :
    Exclusive locked holds (c.put i r) := by
  have hfree {j : ι} {k : κ} (hj : j ≠ i) (hheld : holds (c.session j) k) : ¬holds r.2 k := by
    intro hnow
    obtain ⟨hlocked, hnot⟩ := h.others hj hheld
    exact (htakes k hnow).2.elim hnot fun hopen => hopen hlocked
  refine ⟨fun j j' k hj hj' => ?_, fun j k hj => ?_⟩
  · by_cases hji : j = i <;> by_cases hji' : j' = i
    · exact hji.trans hji'.symm
    · subst hji
      rw [Config.put_session_self] at hj
      rw [Config.put_session_ne _ _ hji'] at hj'
      exact absurd hj (hfree hji' hj')
    · subst hji'
      rw [Config.put_session_self] at hj'
      rw [Config.put_session_ne _ _ hji] at hj
      exact absurd hj' (hfree hji hj)
    · rw [Config.put_session_ne _ _ hji] at hj
      rw [Config.put_session_ne _ _ hji'] at hj'
      exact h.alone j j' k hj hj'
  · by_cases hji : j = i
    · subst hji
      rw [Config.put_session_self] at hj
      exact (htakes k hj).1
    · rw [Config.put_session_ne _ _ hji] at hj
      obtain ⟨hlocked, hnot⟩ := h.others hji hj
      exact hkeeps k hlocked hnot

end DataQ.Interleaving

/-! # Machines that answer

A machine takes a call in each of its states, answers it and goes on. Two machines answer alike
where a relation between their states makes every call answered alike and lasts. -/

namespace DataQ.Responses
set_option autoImplicit false

variable {σ τ ε ω : Type*}

/-- The answers to the calls of a list, one after the other. -/
def responses (step : σ → ε → ω × σ) : σ → List ε → List ω
  | _, [] => []
  | s, e :: es => (step s e).1 :: responses step (step s e).2 es

/-- The state that the calls lead to. -/
def final (step : σ → ε → ω × σ) (s : σ) (es : List ε) : σ := es.foldl (fun s e => (step s e).2) s

/-- Each call is answered alike, and leads to states that are related again. -/
def Simulates (step : σ → ε → ω × σ) (step' : τ → ε → ω × τ) (R : σ → τ → Prop) : Prop :=
  ∀ s t e, R s t → (step s e).1 = (step' t e).1 ∧ R (step s e).2 (step' t e).2

variable {step : σ → ε → ω × σ} {step' : τ → ε → ω × τ} {R : σ → τ → Prop}

theorem Simulates.responses_eq (h : Simulates step step' R) {s : σ} {t : τ} (hst : R s t)
    (es : List ε) : responses step s es = responses step' t es := by
  induction es generalizing s t with
  | nil => rfl
  | cons e es ih =>
    obtain ⟨hanswer, hnext⟩ := h s t e hst
    rw [responses, responses, hanswer, ih hnext]

theorem Simulates.final (h : Simulates step step' R) {s : σ} {t : τ} (hst : R s t) (es : List ε) :
    R (final step s es) (final step' t es) := by
  induction es generalizing s t with
  | nil => exact hst
  | cons e es ih => exact ih (h s t e hst).2

end DataQ.Responses
