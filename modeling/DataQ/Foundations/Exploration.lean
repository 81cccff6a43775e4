import Mathlib.Data.Nat.Find
import Mathlib.Data.Set.Basic
import Mathlib.Logic.Relation
import Mathlib.Tactic.Common

/-! # Exploring a graph

What a walk has seen, and the frontier that it has not gone on from. Where every level goes over
all edges out of its frontier, a walk without a frontier has seen all that can be reached. -/

namespace DataQ.Exploration
set_option autoImplicit false

variable {V σ α : Type*} {E : V → V → Prop} {roots seen seen' frontier frontier' : Set V}

/-- The roots are seen, and all that an edge leads to out of what is seen behind the frontier. -/
structure Closed (E : V → V → Prop) (roots seen frontier : Set V) : Prop where
  start : roots ⊆ seen
  edges : ∀ v ∈ seen, v ∉ frontier → ∀ w, E v w → w ∈ seen

theorem Closed.complete (h : Closed E roots seen ∅) {r v : V} (hr : r ∈ roots)
    (hv : Relation.ReflTransGen E r v) : v ∈ seen := by
  induction hv with
  | refl => exact h.start hr
  | tail _ hedge ih => exact h.edges _ ih (Set.notMem_empty _) _ hedge

/-- A level that goes over the edges out of the frontier, with what it marks as the next one. -/
theorem Closed.level (h : Closed E roots seen frontier) (hseen : seen ⊆ seen')
    (hedges : ∀ v ∈ frontier, ∀ w, E v w → w ∈ seen')
    (hnew : ∀ v ∈ seen', v ∉ frontier' → v ∈ seen) : Closed E roots seen' frontier' where
  start := h.start.trans hseen
  edges := by
    intro v hv hbehind w hedge
    by_cases hfrontier : v ∈ frontier
    · exact hedges v hfrontier w hedge
    · exact hseen (h.edges v (hnew v hv hbehind) hfrontier w hedge)

/-- Some steps lead there, at most so many. -/
def Within (E : V → V → Prop) : ℕ → V → V → Prop
  | 0, a, b => a = b
  | n + 1, a, b => Within E n a b ∨ ∃ c, Within E n a c ∧ E c b

theorem Within.refl (n : ℕ) (a : V) : Within E n a a := by
  induction n with
  | zero => rfl
  | succ n ih => exact .inl ih

theorem Within.reaches {n : ℕ} {a b : V} (h : Within E n a b) : Relation.ReflTransGen E a b := by
  induction n generalizing b with
  | zero =>
    cases h
    exact .refl
  | succ n ih =>
    obtain h | ⟨c, h, hedge⟩ := h
    · exact ih h
    · exact (ih h).tail hedge

theorem Within.mono {m n : ℕ} {a b : V} (h : Within E m a b) (hle : m ≤ n) : Within E n a b := by
  induction hle with
  | refl => exact h
  | step _ ih => exact .inl ih

/-! ## Distances -/

/-- The fewest steps that lead there. -/
def Distance (E : V → V → Prop) (n : ℕ) (a b : V) : Prop :=
  Within E n a b ∧ ∀ k < n, ¬ Within E k a b

theorem Distance.unique {m n : ℕ} {a b : V} (h : Distance E m a b) (h' : Distance E n a b) :
    m = n := by
  obtain hlt | heq | hgt := Nat.lt_trichotomy m n
  · exact absurd h.1 (h'.2 m hlt)
  · exact heq
  · exact absurd h'.1 (h.2 n hgt)

theorem distance_zero {a b : V} : Distance E 0 a b ↔ a = b := by
  constructor
  · exact fun h => h.1
  · exact fun h => ⟨h, fun k hk => absurd hk (Nat.not_lt_zero k)⟩

theorem within_iff_distance {n : ℕ} {a b : V} : Within E n a b ↔ ∃ k ≤ n, Distance E k a b := by
  classical
  constructor
  · intro h
    have hex : ∃ k, Within E k a b := ⟨n, h⟩
    exact ⟨Nat.find hex, Nat.find_min' hex h, Nat.find_spec hex, fun k hk => Nat.find_min hex hk⟩
  · rintro ⟨k, hk, h⟩
    exact h.1.mono hk

theorem distance_succ {n : ℕ} {a b : V} :
    Distance E (n + 1) a b ↔ Within E (n + 1) a b ∧ ¬ Within E n a b := by
  constructor
  · exact fun h => ⟨h.1, h.2 n (Nat.lt_succ_self n)⟩
  · exact fun ⟨h, hnot⟩ => ⟨h, fun k hk hw => hnot (hw.mono (Nat.le_of_lt_succ hk))⟩

/-- A further step goes on from the ends of the shortest ways. -/
theorem within_succ {n : ℕ} {a b : V} :
    Within E (n + 1) a b ↔ Within E n a b ∨ ∃ c, Distance E n a c ∧ E c b := by
  constructor
  · rintro (h | ⟨c, h, hedge⟩)
    · exact .inl h
    · obtain ⟨k, hk, hdistance⟩ := within_iff_distance.mp h
      obtain heq | hlt := Nat.eq_or_lt_of_le hk
      · rw [heq] at hdistance
        exact .inr ⟨c, hdistance, hedge⟩
      · have hstep : Within E (k + 1) a b := .inr ⟨c, hdistance.1, hedge⟩
        exact .inl (hstep.mono hlt)
  · rintro (h | ⟨c, h, hedge⟩)
    · exact .inl h
    · exact .inr ⟨c, h.1, hedge⟩

theorem Within.head {n : ℕ} {a b c : V} (hedge : E a b) (h : Within E n b c) :
    Within E (n + 1) a c := by
  induction n generalizing c with
  | zero =>
    cases h
    exact .inr ⟨a, rfl, hedge⟩
  | succ n ih =>
    obtain h | ⟨d, h, hlast⟩ := h
    · exact .inl (ih h)
    · exact .inr ⟨d, ih h, hlast⟩

/-- The ways back. -/
theorem within_swap {n : ℕ} {a b : V} : Within (fun a b => E b a) n a b ↔ Within E n b a := by
  have hback : ∀ {E : V → V → Prop} {n : ℕ} {a b : V},
      Within (fun a b => E b a) n a b → Within E n b a := by
    intro E n a b h
    induction n generalizing b with
    | zero =>
      cases h
      rfl
    | succ n ih =>
      obtain h | ⟨c, h, hedge⟩ := h
      · exact .inl (ih h)
      · exact (ih h).head hedge
  exact ⟨hback, fun h => @hback (fun a b => E b a) n b a h⟩

theorem distance_swap {n : ℕ} {a b : V} : Distance (fun a b => E b a) n a b ↔ Distance E n b a := by
  simp only [Distance, within_swap]

/-! ## What a level does -/

/-- What every step keeps, a fold keeps. -/
theorem foldl_keeps {f : σ → α → σ} {P : σ → Prop} {items : List α}
    (hstep : ∀ s, ∀ a ∈ items, P s → P (f s a)) {s : σ} (h : P s) : P (items.foldl f s) := by
  induction items generalizing s with
  | nil => exact h
  | cons a items ih =>
    exact ih (fun s b hb => hstep s b (List.mem_cons_of_mem _ hb)) (hstep s a List.mem_cons_self h)

/-- What one item brings about and the others keep, holds after a fold over them. -/
theorem foldl_reaches {f : σ → α → σ} {P : α → σ → Prop} {items : List α}
    (hstep : ∀ s, ∀ a ∈ items, P a (f s a))
    (hkeeps : ∀ s, ∀ a ∈ items, ∀ b ∈ items, P a s → P a (f s b)) {s : σ} {a : α}
    (h : a ∈ items) : P a (items.foldl f s) := by
  induction items generalizing s with
  | nil => cases h
  | cons b items ih =>
    obtain rfl | h := List.mem_cons.mp h
    · exact foldl_keeps (P := P a)
        (fun s c hc => hkeeps s a List.mem_cons_self c (List.mem_cons_of_mem _ hc))
        (hstep s a List.mem_cons_self)
    · exact ih (fun s c hc => hstep s c (List.mem_cons_of_mem _ hc))
        (fun s c hc d hd => hkeeps s c (List.mem_cons_of_mem _ hc) d (List.mem_cons_of_mem _ hd)) h

end DataQ.Exploration
