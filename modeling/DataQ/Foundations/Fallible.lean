import Mathlib.Tactic.Common

/-! # Computations that can fail

When a computation in `Except` succeeds: each of its steps does, in order. -/

namespace DataQ.Fallible
set_option autoImplicit false

variable {ε : Type*} {α β : Type}

theorem bind_eq_ok {x : Except ε α} {f : α → Except ε β} {b : β} :
    (x >>= f) = .ok b ↔ ∃ a, x = .ok a ∧ f a = .ok b := by
  constructor
  · intro h
    cases x with
    | error e => cases h
    | ok a => exact ⟨a, rfl, h⟩
  · rintro ⟨a, hx, h⟩
    subst hx
    exact h

theorem pure_eq_ok {a b : α} : (pure a : Except ε α) = .ok b ↔ a = b := by
  constructor
  · intro h
    cases h
    rfl
  · rintro rfl
    rfl

theorem map_eq_ok {f : α → β} {x : Except ε α} {b : β} :
    x.map f = .ok b ↔ ∃ a, x = .ok a ∧ f a = b := by
  cases x with
  | error e => simp [Except.map]
  | ok a => simp [Except.map]

theorem bind_eq_error {x : Except ε α} {f : α → Except ε β} {e : ε} :
    (x >>= f) = .error e ↔ x = .error e ∨ ∃ a, x = .ok a ∧ f a = .error e := by
  cases x with
  | error e' =>
    change Except.error e' = .error e ↔ _
    simp
  | ok a =>
    change f a = .error e ↔ _
    simp

theorem map_eq_error {f : α → β} {x : Except ε α} {e : ε} :
    x.map f = .error e ↔ x = .error e := by
  cases x <;> simp [Except.map]

theorem throw_ne_ok {e : ε} {b : β} : (throw e : Except ε β) ≠ .ok b := by
  intro h
  cases h

theorem guard_eq_ok {p : Prop} [Decidable p] {x y : Except ε β} {b : β} :
    (if p then x else y) = .ok b ↔ (p ∧ x = .ok b) ∨ (¬ p ∧ y = .ok b) := by
  by_cases h : p
  · simp [h]
  · simp [h]

/-- Every element of a list that is mapped with success has its own image. -/
theorem mapM_eq_ok_mem {f : α → Except ε β} {xs : List α} {ys : List β}
    (h : xs.mapM f = .ok ys) {x : α} (hx : x ∈ xs) : ∃ y ∈ ys, f x = .ok y := by
  induction xs generalizing ys with
  | nil => cases hx
  | cons z zs ih =>
    rw [List.mapM_cons, bind_eq_ok] at h
    obtain ⟨y, hy, hrest⟩ := h
    obtain ⟨rest, hzs, hpure⟩ := bind_eq_ok.mp hrest
    have hys : y :: rest = ys := pure_eq_ok.mp hpure
    subst hys
    rcases List.mem_cons.mp hx with rfl | hmem
    · exact ⟨y, List.mem_cons_self, hy⟩
    · obtain ⟨y', hmem', hy'⟩ := ih hzs hmem
      exact ⟨y', List.mem_cons_of_mem y hmem', hy'⟩

/-- A function that a mapping computes with success gives all of its images. -/
theorem mapM_eq_ok_map {f : α → Except ε β} {g : α → β} (hf : ∀ x y, f x = .ok y → y = g x)
    {xs : List α} {ys : List β} (h : xs.mapM f = .ok ys) : ys = xs.map g := by
  induction xs generalizing ys with
  | nil => exact (pure_eq_ok.mp h).symm
  | cons x xs ih =>
    rw [List.mapM_cons, bind_eq_ok] at h
    obtain ⟨y, hy, hrest⟩ := h
    obtain ⟨rest, hxs, hpure⟩ := bind_eq_ok.mp hrest
    rw [List.map_cons, ← hf x y hy, ← ih hxs]
    exact (pure_eq_ok.mp hpure).symm

end DataQ.Fallible
