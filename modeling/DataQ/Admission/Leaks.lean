import DataQ.Admission.Budget
import Mathlib.Algebra.Order.BigOperators.Group.List
import Mathlib.Algebra.Order.Ring.Canonical
import Mathlib.Algebra.Order.Ring.Nat

/-! # What the budget leaks

The expiry sweep starts from the leases, so an amount is given back only as long as its lease is
there. A release takes the lease first: where it goes no further, the amount stays. -/

namespace DataQ.Admission
open DataQ.Interleaving DataQ.Transition
set_option autoImplicit false

variable {κ : Type*} {s : Store κ}

/-- A member with an entry in the sorted set. -/
def Store.Leased (s : Store κ) (key : κ) : Prop := ∃ p ∈ s.leases, p.1 = key

def Store.Recorded (s : Store κ) (key : κ) : Prop := ∃ p ∈ s.amounts, p.1 = key

instance [DecidableEq κ] (s : Store κ) (key : κ) : Decidable (s.Leased key) := by
  unfold Store.Leased
  infer_instance

instance [DecidableEq κ] (s : Store κ) (key : κ) : Decidable (s.Recorded key) := by
  unfold Store.Recorded
  infer_instance

/-- The runs that hold something. -/
def Store.holders (s : Store κ) : List (κ × ℕ) := s.amounts.filter fun p => 0 < p.2

/-- Where two runs hold something the total is within the budget. -/
def Store.Within (budget : ℕ) (s : Store κ) : Prop := 1 < s.holders.length → s.used ≤ budget

/-! ## The commands on the amounts -/

/-- Giving amounts back keeps the total within the budget. -/
theorem Store.Within.filter {budget : ℕ} {t : Store κ} (h : s.Within budget)
    {p : κ × ℕ → Bool} (ht : t.amounts = s.amounts.filter p) : t.Within budget := by
  intro hmore
  rw [Store.holders, ht] at hmore
  have hsub : (s.amounts.filter p).Sublist s.amounts := List.filter_sublist
  have hcount : ((s.amounts.filter p).filter fun q => 0 < q.2).length ≤ s.holders.length :=
    (hsub.filter _).length_le
  have hsum : ((s.amounts.filter p).map Prod.snd).sum ≤ s.used :=
    (hsub.map Prod.snd).sum_le_sum fun _ _ => Nat.zero_le _
  have hused := h (by omega)
  rw [Store.used, ht]
  omega

theorem Store.within_grant {budget amount : ℕ} {t : Store κ} {member : κ}
    (hroom : ¬ (0 < s.used ∧ budget < s.used + amount))
    (ht : t.amounts = (member, amount) :: s.amounts) : t.Within budget := by
  intro hmore
  have hused : t.used = amount + s.used := by simp [Store.used, ht]
  rw [hused]
  by_cases hzero : s.used = 0
  · -- nobody else holds anything
    have hnone : s.holders = [] := by
      apply List.filter_eq_nil_iff.mpr
      intro p hp
      have hp0 : p.2 = 0 := List.sum_eq_zero_iff.mp hzero p.2 (List.mem_map_of_mem hp)
      simp [hp0]
    rw [Store.holders, ht, List.filter_cons] at hmore
    have hrest : (s.amounts.filter fun p => 0 < p.2) = [] := hnone
    rw [hrest] at hmore
    split at hmore <;> simp at hmore
  · omega

variable [DecidableEq κ]

theorem Store.Within.reserve {budget : ℕ} (h : s.Within budget) (now : ℕ) (member : κ)
    (amount lease : ℕ) : (s.reserve now member amount budget lease).1.Within budget := by
  have hevicted : (s.evict now).Within budget := h.filter rfl
  have hswept : (((s.evict now).zrem member).hdel member).Within budget := hevicted.filter rfl
  simp only [Store.reserve]
  split
  · exact hswept
  · next hroom => exact Store.within_grant hroom rfl

/-! ## The commands on the leases -/

/-- What a sweep leaves of the amounts had its lease, and keeps it. -/
theorem leased_evict {now : ℕ} {p : κ × ℕ} (hp : p ∈ (s.evict now).amounts)
    (hleased : s.Leased p.1) : (s.evict now).Leased p.1 := by
  obtain ⟨q, hq, hkey⟩ := hleased
  obtain ⟨-, hkept⟩ := List.mem_filter.mp hp
  refine ⟨q, List.mem_filter.mpr ⟨hq, ?_⟩, hkey⟩
  rw [hkey]
  exact hkept

/-- The sweep takes the amount of a lease that is over. -/
theorem live_or_evicted {p : κ × ℕ} (hleased : s.Leased p.1) (now : ℕ) :
    (∃ q ∈ s.leases, q.1 = p.1 ∧ now < q.2) ∨ p ∉ (s.evict now).amounts := by
  obtain ⟨q, hq, hkey⟩ := hleased
  by_cases hlive : now < q.2
  · exact .inl ⟨q, hq, hkey, hlive⟩
  · refine .inr fun hp => ?_
    obtain ⟨-, hkept⟩ := List.mem_filter.mp hp
    have hexpired : p.1 ∈ (s.leases.filter fun p => p.2 ≤ now).map Prod.fst := by
      refine List.mem_map.mpr ⟨q, List.mem_filter.mpr ⟨hq, ?_⟩, hkey⟩
      simpa using hlive
    exact of_decide_eq_true hkept hexpired

theorem leased_zrem {key other : κ} (hne : other ≠ key) (h : s.Leased other) :
    (s.zrem key).Leased other := by
  obtain ⟨q, hq, rfl⟩ := h
  exact ⟨q, List.mem_filter.mpr ⟨hq, by simpa using hne⟩, rfl⟩

theorem mem_hdel {key : κ} {p : κ × ℕ} (hp : p ∈ (s.hdel key).amounts) :
    p ∈ s.amounts ∧ p.1 ≠ key := by
  obtain ⟨hmem, hne⟩ := List.mem_filter.mp hp
  exact ⟨hmem, by simpa using hne⟩

theorem reserve_amounts {now amount budget lease : ℕ} {member : κ} {p : κ × ℕ}
    (hp : p ∈ (s.reserve now member amount budget lease).1.amounts) :
    (s.reserve now member amount budget lease).1.Leased p.1 ∨
      p ∈ s.amounts ∧ (s.Leased p.1 → (s.reserve now member amount budget lease).1.Leased p.1) := by
  have hold : p ∈ (((s.evict now).zrem member).hdel member).amounts →
      p ∈ s.amounts ∧ (s.Leased p.1 → (((s.evict now).zrem member).hdel member).Leased p.1) := by
    intro hmem
    obtain ⟨hswept, hne⟩ := mem_hdel hmem
    refine ⟨(List.mem_filter.mp hswept).1, fun hleased => ?_⟩
    exact leased_zrem (s := s.evict now) hne (leased_evict hswept hleased)
  simp only [Store.reserve] at hp ⊢
  split at hp
  · next hfull =>
    rw [if_pos hfull]
    exact .inr (hold hp)
  · next hroom =>
    rw [if_neg hroom]
    rcases List.mem_cons.mp hp with rfl | hp
    · exact .inl ⟨_, List.mem_cons_self, rfl⟩
    · obtain ⟨hmem, hkept⟩ := hold hp
      refine .inr ⟨hmem, fun hleased => ?_⟩
      obtain ⟨q, hq, hkey⟩ := hkept hleased
      exact ⟨q, List.mem_cons_of_mem _ hq, hkey⟩

variable {ι : Type*} [DecidableEq ι] {budget lease : ℕ}

/-! ## The runs -/

omit [DecidableEq ι] in
/-- Every amount has a live lease or is evicted by the next sweep; or the release that has taken its
lease is about to delete it. -/
def Accounted (c : World ι κ) : Prop :=
  ∀ p ∈ c.store.amounts,
    (∀ now, (∃ q ∈ c.store.leases, q.1 = p.1 ∧ now < q.2) ∨
      p ∉ (c.store.evict now).amounts) ∨
    ∃ j, c.session j = .hdelling p.1

/-- A release whose `ZREM` takes effect on a recorded run goes on to an `HDEL` that takes effect. -/
def Completes (c : World ι κ) (e : ι × Act κ) : Prop :=
  match c.session e.1, e.2 with
  | .zremming key, .command .lost => ¬ c.store.Recorded key
  | .hdelling key, .command .failed => ¬ c.store.Recorded key ∨ c.store.Leased key
  | .hdelling key, .die => ¬ c.store.Recorded key ∨ c.store.Leased key
  | _, _ => True

instance (c : World ι κ) (e : ι × Act κ) : Decidable (Completes c e) := by
  unfold Completes
  split <;> infer_instance

/-- An amount without a lease is in the hands of a release. -/
def Leases (c : World ι κ) : Prop :=
  ∀ p ∈ c.store.amounts, c.store.Leased p.1 ∨ ∃ j, c.session j = .hdelling p.1

omit [DecidableEq ι] in
theorem Leases.accounted {c : World ι κ} (h : Leases c) : Accounted c := by
  intro p hp
  rcases h p hp with hleased | hreleasing
  · exact .inl (live_or_evicted hleased)
  · exact .inr hreleasing

omit [DecidableEq κ] in
/-- What a command of process `i` has to leave of each amount. -/
theorem Leases.put {c : World ι κ} {i : ι} {r : Store κ × Pc κ} (h : Leases c)
    (hr : ∀ p ∈ r.1.amounts, r.1.Leased p.1 ∨ r.2 = .hdelling p.1 ∨
      p ∈ c.store.amounts ∧ (c.store.Leased p.1 → r.1.Leased p.1) ∧
        c.session i ≠ .hdelling p.1) : Leases (c.put i r) := by
  intro p hp
  rcases hr p hp with hleased | hreleasing | ⟨hmem, hkept, hother⟩
  · exact .inl hleased
  · exact .inr ⟨i, by rw [Config.put_session_self, hreleasing]⟩
  · rcases h p hmem with hleased | ⟨j, hj⟩
    · exact .inl (hkept hleased)
    · have hji : j ≠ i := by
        rintro rfl
        exact hother hj
      exact .inr ⟨j, by rw [Config.put_session_ne _ _ hji, hj]⟩

theorem Leases.act {c : World ι κ} {e : ι × Act κ} {r : Store κ × Pc κ} (h : Leases c)
    (hcompletes : Completes c e) (hact : act budget lease e.2 c.store (c.session e.1) = some r) :
    Leases (c.put e.1 r) := by
  refine h.put fun p hp => ?_
  unfold Completes at hcompletes
  unfold Admission.act at hact
  split at hact
  · next runId estimate waitedOut now fate _ hpc =>
    cases hact
    rw [hpc]
    have hsame : p ∈ c.store.amounts → c.store.Leased p.1 ∨ Pc.idle = .hdelling p.1 ∨
        p ∈ c.store.amounts ∧ (c.store.Leased p.1 → c.store.Leased p.1) ∧
          Pc.idle ≠ .hdelling p.1 := fun hmem => .inr (.inr ⟨hmem, id, by simp⟩)
    cases estimate with
    | none => exact hsame hp
    | some estimate =>
      cases fate with
      | failed => exact hsame hp
      | done | lost =>
        rcases reserve_amounts hp with hleased | ⟨hmem, hkept⟩
        · exact .inl hleased
        · exact .inr (.inr ⟨hmem, hkept, by simp⟩)
  · next hpc =>
    cases hact
    exact .inr (.inr ⟨hp, id, by simp [hpc]⟩)
  · next key _ hpc =>
    cases hact
    by_cases hkey : p.1 = key
    · exact .inr (.inl (by rw [hkey]))
    · exact .inr (.inr ⟨hp, leased_zrem hkey, by simp [hpc]⟩)
  · next key hlost hpc =>
    cases hact
    rw [hpc, hlost] at hcompletes
    have hkey : p.1 ≠ key := fun hkey => hcompletes ⟨p, hp, hkey⟩
    exact .inr (.inr ⟨hp, leased_zrem hkey, by simp [hpc]⟩)
  · next hpc =>
    cases hact
    exact .inr (.inr ⟨hp, id, by simp [hpc]⟩)
  · next key _ hpc =>
    cases hact
    obtain ⟨hmem, hne⟩ := mem_hdel hp
    exact .inr (.inr ⟨hmem, id, by simp [hpc, Ne.symm hne]⟩)
  · next key _ hpc =>
    cases hact
    obtain ⟨hmem, hne⟩ := mem_hdel hp
    exact .inr (.inr ⟨hmem, id, by simp [hpc, Ne.symm hne]⟩)
  · next key hfailed hpc =>
    cases hact
    rw [hpc, hfailed] at hcompletes
    by_cases hkey : p.1 = key
    · rcases hcompletes with hnone | hleased
      · exact absurd ⟨p, hp, hkey⟩ hnone
      · exact .inl (hkey ▸ hleased)
    · exact .inr (.inr ⟨hp, id, by simp [hpc, Ne.symm hkey]⟩)
  · next hdie =>
    cases hact
    rw [hdie] at hcompletes
    cases hpc : c.session e.1 with
    | hdelling key =>
      rw [hpc] at hcompletes
      by_cases hkey : p.1 = key
      · rcases hcompletes with hnone | hleased
        · exact absurd ⟨p, hp, hkey⟩ hnone
        · exact .inl (hkey ▸ hleased)
      · exact .inr (.inr ⟨hp, id, by simp [Ne.symm hkey]⟩)
    | idle => exact .inr (.inr ⟨hp, id, by simp⟩)
    | zremming => exact .inr (.inr ⟨hp, id, by simp⟩)
  · cases hact
    by_cases hpc : c.session e.1 = .hdelling p.1
    · exact .inr (.inl hpc)
    · refine .inr (.inr ?_)
      simp only [Store.pass] at hp ⊢
      split at hp
      · cases hp
      · next hstays =>
        rw [if_neg hstays]
        exact ⟨hp, id, hpc⟩
  · cases hact

theorem Within.act {a : Act κ} {pc : Pc κ} {r : Store κ × Pc κ} (h : s.Within budget)
    (hact : act budget lease a s pc = some r) : r.1.Within budget := by
  unfold Admission.act at hact
  split at hact
  · next runId estimate waitedOut now fate =>
    cases hact
    cases estimate with
    | none => exact h
    | some estimate =>
      cases fate with
      | failed => exact h
      | done | lost => exact h.reserve _ _ _ _
  · cases hact
    exact h
  · cases hact
    exact h
  · cases hact
    exact h
  · cases hact
    exact h
  · cases hact
    exact h.filter rfl
  · cases hact
    exact h.filter rfl
  · cases hact
    exact h
  · cases hact
    exact h
  · cases hact
    simp only [Store.pass]
    split
    · intro hmore
      cases hmore
    · exact h
  · cases hact

/-- The total is within the budget, whatever fails. -/
theorem within_of_run {es : List (ι × Act κ)} {c : World ι κ}
    (hrun : run (step budget lease) World.initial es = some c) : c.store.Within budget := by
  refine run_keeps (I := fun c : World ι κ => c.store.Within budget) (fun c e d hc hstep => ?_) ?_
    hrun
  · obtain ⟨r, hact, rfl⟩ := step_eq_some.mp hstep
    exact Within.act hc hact
  · intro hmore
    cases hmore

/-- In every run whose releases complete. -/
theorem budget_leaks_nothing_of_completes (budget lease : ℕ) {es : List (ι × Act κ)}
    {c : World ι κ} (hmeets : Meets (step budget lease) Completes World.initial es)
    (hrun : run (step budget lease) World.initial es = some c) :
    Accounted c ∧ c.store.Within budget := by
  have hstep : ∀ (c : World ι κ) (e : ι × Act κ) (d : World ι κ), Leases c → Completes c e →
      step budget lease c e = some d → Leases d := by
    intro c e d hc hcompletes hstep
    obtain ⟨r, hact, rfl⟩ := step_eq_some.mp hstep
    exact hc.act hcompletes hact
  have hleases := run_invariant hstep (fun p hp => by cases hp) hmeets hrun
  exact ⟨hleases.accounted, within_of_run hrun⟩

/-- Two runs beside each other, one of them of a child that is killed; a third finds room when the
leases are over. -/
def threeRuns : List (ℕ × Act ℕ) :=
  [(0, .admitRun 7 (some ⟨600, false⟩) false 10 .done),
    (1, .admitRun 8 (some ⟨300, false⟩) false 20 .lost), (1, .die), (0, .release 7), (0, .command .done), (0, .command .done),
    (0, .admitRun 9 (some ⟨0, true⟩) false 90 .done)]

theorem budget_leaks_nothing_of_completes_three_runs :
    ∃ c : World ℕ ℕ, run (step 1000 60) World.initial threeRuns = some c ∧
      c.store.amounts = [(9, 1000)] ∧ Accounted c ∧ c.store.Within 1000 := by
  have hrun : (run (step 1000 60) (World.initial : World ℕ ℕ) threeRuns).any
      fun c => decide (c.store.amounts = [(9, 1000)]) := by decide
  obtain ⟨c, hc, hamounts⟩ := (Option.any_eq_true _ _).mp hrun
  have hmeets : Meets (step 1000 60) Completes (World.initial : World ℕ ℕ) threeRuns := by
    decide
  exact ⟨c, hc, of_decide_eq_true hamounts, budget_leaks_nothing_of_completes 1000 60 hmeets hc⟩

/-- A release whose `HDEL` fails. -/
def halfReleased : List (Fin 2 × Act ℕ) :=
  [(0, .admitRun 7 (some ⟨600, false⟩) false 10 .done), (0, .release 7), (0, .command .done),
    (0, .command .failed)]

theorem amount_without_lease_of_half_released :
    ∃ c : World (Fin 2) ℕ, run (step 1000 60) World.initial halfReleased = some c ∧
      ¬ Accounted c := by
  have hrun : (run (step 1000 60) (World.initial : World (Fin 2) ℕ) halfReleased).any
      fun c => decide ((7, 600) ∈ c.store.amounts ∧ c.store.leases = [] ∧
        (7, 600) ∈ (c.store.evict 1000).amounts ∧ ∀ j, c.session j = .idle) := by decide
  obtain ⟨c, hc, hstate⟩ := (Option.any_eq_true _ _).mp hrun
  obtain ⟨hmem, hnone, hkept, hidle⟩ := of_decide_eq_true hstate
  refine ⟨c, hc, fun haccounted => ?_⟩
  rcases haccounted _ hmem with hswept | ⟨j, hj⟩
  · rcases hswept 1000 with ⟨q, hq, -⟩ | hgone
    · rw [hnone] at hq
      cases hq
    · exact hgone hkept
  · rw [hidle j] at hj
    cases hj

end DataQ.Admission
