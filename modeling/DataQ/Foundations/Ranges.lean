import Mathlib.Data.List.Basic
import Mathlib.Tactic.Common

/-! # Ranges one after another

A range `(a, b)` has the numbers from `a` to before `b`. -/

namespace DataQ.Ranges
set_option autoImplicit false

/-- The ranges begin at the first number, each where the one before it ends, and the last ends at
the last number. -/
def Consecutive : ℕ → List (ℕ × ℕ) → ℕ → Prop
  | first, [], last => first = last
  | first, range :: ranges, last =>
    range.1 = first ∧ range.1 ≤ range.2 ∧ Consecutive range.2 ranges last

/-- How many of the ranges have the number. -/
def covers (ranges : List (ℕ × ℕ)) (n : ℕ) : ℕ :=
  ranges.countP fun range => range.1 ≤ n ∧ n < range.2

theorem Consecutive.le {first last : ℕ} {ranges : List (ℕ × ℕ)}
    (h : Consecutive first ranges last) : first ≤ last := by
  induction ranges generalizing first with
  | nil => exact Nat.le_of_eq h
  | cons range ranges ih =>
    obtain ⟨hfirst, hle, hrest⟩ := h
    have hlater := ih hrest
    omega

theorem Consecutive.snoc {first middle last : ℕ} {ranges : List (ℕ × ℕ)}
    (h : Consecutive first ranges middle) (hle : middle ≤ last) :
    Consecutive first (ranges ++ [(middle, last)]) last := by
  induction ranges generalizing first with
  | nil =>
    have hsame : first = middle := h
    exact ⟨hsame.symm, hle, rfl⟩
  | cons range ranges ih =>
    obtain ⟨hfirst, hrange, hrest⟩ := h
    exact ⟨hfirst, hrange, ih hrest⟩

/-- Consecutive ranges have every number from the first to before the last once, and no other. -/
theorem Consecutive.covers_eq {first last : ℕ} {ranges : List (ℕ × ℕ)}
    (h : Consecutive first ranges last) (n : ℕ) :
    covers ranges n = if first ≤ n ∧ n < last then 1 else 0 := by
  induction ranges generalizing first with
  | nil =>
    have hsame : first = last := h
    rw [if_neg (by omega)]
    rfl
  | cons range ranges ih =>
    obtain ⟨hfirst, hle, hrest⟩ := h
    have hlast := hrest.le
    have hih := ih hrest
    unfold covers at hih ⊢
    rw [List.countP_cons, hih]
    simp only [decide_eq_true_eq]
    split_ifs <;> omega

theorem Consecutive.first_le {first last : ℕ} {ranges : List (ℕ × ℕ)}
    (h : Consecutive first ranges last) : ∀ range ∈ ranges, first ≤ range.1 := by
  induction ranges generalizing first with
  | nil => simp
  | cons next ranges ih =>
    obtain ⟨hfirst, hle, hrest⟩ := h
    intro range hrange
    rcases List.mem_cons.mp hrange with rfl | hrange
    · omega
    · have hlater := ih hrest range hrange
      omega

theorem Consecutive.pairwise {first last : ℕ} {ranges : List (ℕ × ℕ)}
    (h : Consecutive first ranges last) : ranges.Pairwise fun a b => a.2 ≤ b.1 := by
  induction ranges generalizing first with
  | nil => exact List.Pairwise.nil
  | cons range ranges ih =>
    obtain ⟨-, -, hrest⟩ := h
    exact List.Pairwise.cons hrest.first_le (ih hrest)

end DataQ.Ranges
