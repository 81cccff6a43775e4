import Mathlib.Data.List.Dedup
import Mathlib.Data.List.Sort
import Mathlib.Order.Basic

/-! # The first elements of a set in order

`capped n l` is the `n` least of the elements of a list, each once. -/

namespace DataQ.Capped
set_option autoImplicit false

variable {α : Type*} [LinearOrder α]

/-- The elements of a list that are less than `a`, each once. -/
def below (l : List α) (a : α) : List α := l.dedup.filter fun b => b < a

def capped (n : ℕ) (l : List α) : List α := (l.dedup.insertionSort (· ≤ ·)).take n

/-- In a list that increases, an element stands where as many are less than it. -/
theorem mem_take_iff {l : List α} (h : l.Pairwise (· < ·)) (n : ℕ) (a : α) :
    a ∈ l.take n ↔ a ∈ l ∧ (l.filter fun b => b < a).length < n := by
  induction l generalizing n with
  | nil => simp
  | cons b l ih =>
    obtain ⟨hfirst, htail⟩ := List.pairwise_cons.mp h
    cases n with
    | zero => simp
    | succ n =>
      rw [List.take_succ_cons, List.mem_cons, List.mem_cons, ih htail n]
      by_cases hab : a = b
      · subst hab
        have hnone : (a :: l).filter (fun b => b < a) = [] := by
          rw [List.filter_eq_nil_iff]
          intro c hc
          rcases List.mem_cons.mp hc with rfl | hc
          · simp
          · simpa using (hfirst c hc).le
        simp [hnone]
      · constructor
        · rintro (heq | ⟨hmem, hlt⟩)
          · exact absurd heq hab
          · refine ⟨.inr hmem, ?_⟩
            rw [List.filter_cons_of_pos (by simpa using hfirst a hmem), List.length_cons]
            omega
        · rintro ⟨heq | hmem, hlt⟩
          · exact absurd heq hab
          · refine .inr ⟨hmem, ?_⟩
            rw [List.filter_cons_of_pos (by simpa using hfirst a hmem), List.length_cons] at hlt
            omega

theorem sorted_dedup (l : List α) : (l.dedup.insertionSort (· ≤ ·)).Pairwise (· < ·) := by
  have hle := List.pairwise_insertionSort (· ≤ ·) l.dedup
  have hne : (l.dedup.insertionSort (· ≤ ·)).Nodup :=
    (List.perm_insertionSort (· ≤ ·) l.dedup).nodup_iff.mpr l.nodup_dedup
  exact hle.imp₂ (fun _ _ hab hne => lt_of_le_of_ne hab hne) hne

/-- An element is among the first `n` if fewer than `n` are less than it. -/
theorem mem_capped {n : ℕ} {l : List α} {a : α} :
    a ∈ capped n l ↔ a ∈ l ∧ (below l a).length < n := by
  have hperm := (List.perm_insertionSort (· ≤ ·) l.dedup).filter fun b => decide (b < a)
  rw [capped, mem_take_iff (sorted_dedup l), List.mem_insertionSort, List.mem_dedup,
    hperm.length_eq]
  rfl

/-- Elements that are all less than `a` take at least their number of places. -/
theorem length_le_below {l m : List α} {a : α} (hm : m.Nodup)
    (h : ∀ b ∈ m, b ∈ l ∧ b < a) : m.length ≤ (below l a).length := by
  apply (List.subperm_of_subset hm _).length_le
  intro b hb
  obtain ⟨hl, hlt⟩ := h b hb
  exact List.mem_filter.mpr ⟨List.mem_dedup.mpr hl, by simpa using hlt⟩

end DataQ.Capped
