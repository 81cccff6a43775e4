import Mathlib.Data.List.DropRight
import Mathlib.Data.List.TakeWhile
import Mathlib.Tactic.Common

/-! # Words joined by a separator

Joining two words leaves no separator beside an empty one; it is associative, has the empty word as
unit, and cancels on the right. Stripping removes the separators at the two ends. -/

namespace DataQ.Joined
set_option autoImplicit false

variable {α : Type*} (sep : α)

/-- `sep.join(part for part in (x, y) if part)`. -/
def join (x y : List α) : List α :=
  if x = [] then y else if y = [] then x else x ++ sep :: y

/-- `s.strip(sep)`. -/
def strip [DecidableEq α] (s : List α) : List α := (s.dropWhile (· = sep)).rdropWhile (· = sep)

/-- No separator at either end. -/
structure Trimmed (s : List α) : Prop where
  head : s.head? ≠ some sep
  last : s.getLast? ≠ some sep

variable {sep} {x y z : List α}

@[simp] theorem nil_join : join sep [] y = y := by simp [join]

@[simp] theorem join_nil : join sep x [] = x := by
  by_cases hx : x = [] <;> simp [join, hx]

theorem join_of_ne_nil (hx : x ≠ []) (hy : y ≠ []) : join sep x y = x ++ sep :: y := by
  simp [join, hx, hy]

theorem join_ne_nil (hx : x ≠ []) : join sep x y ≠ [] := by
  by_cases hy : y = []
  · rw [hy, join_nil]
    exact hx
  · rw [join_of_ne_nil hx hy]
    simp

theorem join_ne_nil_right (hy : y ≠ []) : join sep x y ≠ [] := by
  by_cases hx : x = []
  · rw [hx, nil_join]
    exact hy
  · exact join_ne_nil hx

theorem join_assoc : join sep (join sep x y) z = join sep x (join sep y z) := by
  by_cases hx : x = []
  · rw [hx, nil_join, nil_join]
  by_cases hz : z = []
  · rw [hz, join_nil, join_nil]
  by_cases hy : y = []
  · rw [hy, join_nil, nil_join]
  rw [join_of_ne_nil (join_ne_nil hx) hz, join_of_ne_nil hx hy, join_of_ne_nil hx (join_ne_nil hy),
    join_of_ne_nil hy hz]
  simp

theorem join_right_cancel {x' : List α} (h : join sep x y = join sep x' y) : x = x' := by
  by_cases hy : y = []
  · simpa [hy] using h
  have hgrow : ∀ {w : List α}, w ≠ [] → y.length < (join sep w y).length := by
    intro w hw
    rw [join_of_ne_nil hw hy, List.length_append, List.length_cons]
    omega
  by_cases hx : x = []
  · by_cases hx' : x' = []
    · rw [hx, hx']
    · have hlt := hgrow hx'
      rw [← h, hx, nil_join] at hlt
      exact absurd hlt (lt_irrefl _)
  · by_cases hx' : x' = []
    · have hlt := hgrow hx
      rw [h, hx', nil_join] at hlt
      exact absurd hlt (lt_irrefl _)
    · rw [join_of_ne_nil hx hy, join_of_ne_nil hx' hy] at h
      exact List.append_cancel_right h

/-! ## Stripping -/

theorem strip_trimmed [DecidableEq α] (s : List α) : Trimmed sep (strip sep s) := by
  constructor
  · intro h
    obtain ⟨rest, hrest⟩ := List.head?_eq_some_iff.mp h
    have hpre : strip sep s <+: s.dropWhile (· = sep) := List.rdropWhile_prefix _ _
    rw [hrest] at hpre
    obtain ⟨t, ht⟩ := hpre
    have hpos : 0 < (s.dropWhile (· = sep)).length := by
      rw [← ht]
      simp
    have hnot := List.dropWhile_get_zero_not (· = sep) s hpos
    simp [← ht] at hnot
  · intro h
    have hne : strip sep s ≠ [] := by
      intro hnil
      rw [hnil] at h
      cases h
    have hnot := List.rdropWhile_last_not (· = sep) (s.dropWhile (· = sep)) hne
    rw [List.getLast?_eq_some_getLast hne] at h
    simp only [decide_eq_true_eq] at hnot
    exact hnot (Option.some.inj h)

theorem Trimmed.strip_eq [DecidableEq α] {s : List α} (h : Trimmed sep s) : strip sep s = s := by
  have hdrop : s.dropWhile (· = sep) = s := by
    cases s with
    | nil => rfl
    | cons c cs =>
      have hc : c ≠ sep := fun hc => h.head (by simp [hc])
      simp [hc]
  rw [strip, hdrop, List.rdropWhile_eq_self_iff]
  intro hne hlast
  apply h.last
  rw [List.getLast?_eq_some_getLast hne]
  simpa using hlast

theorem strip_ne_nil [DecidableEq α] {s : List α} {c : α} (hc : c ∈ s) (hne : c ≠ sep) :
    strip sep s ≠ [] := by
  intro hnil
  rw [strip, List.rdropWhile_eq_nil_iff] at hnil
  rw [← List.takeWhile_append_dropWhile (p := (· = sep)) (l := s)] at hc
  rcases List.mem_append.mp hc with hc | hc
  · exact hne (by simpa using List.mem_takeWhile_imp hc)
  · exact hne (by simpa using hnil c hc)

theorem Trimmed.join (hx : Trimmed sep x) (hy : Trimmed sep y) : Trimmed sep (join sep x y) := by
  by_cases hx0 : x = []
  · rw [hx0, nil_join]
    exact hy
  by_cases hy0 : y = []
  · rw [hy0, join_nil]
    exact hx
  rw [join_of_ne_nil hx0 hy0]
  constructor
  · rw [List.head?_append_of_ne_nil _ hx0]
    exact hx.head
  · rw [List.getLast?_append_of_ne_nil _ (by simp), List.getLast?_cons_of_ne_nil hy0]
    exact hy.last

theorem trimmed_of_not_mem {s : List α} (h : sep ∉ s) : Trimmed sep s :=
  ⟨fun hh => h (List.mem_of_head? hh), fun hl => h (List.mem_of_getLast? hl)⟩

theorem trimmed_nil : Trimmed sep ([] : List α) := trimmed_of_not_mem (by simp)

end DataQ.Joined
