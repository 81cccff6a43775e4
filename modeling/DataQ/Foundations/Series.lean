import Mathlib.Data.List.Sort
import Mathlib.Order.Basic
import Mathlib.Tactic.Common

/-! # Dated points

A list of points in the order of their dates, one for each date; sorting brings a list of points
into it and keeping the newest does not leave it. -/

namespace DataQ.Series
set_option autoImplicit false

variable {α κ : Type*} [LinearOrder κ] (date : α → κ)

/-- The dates increase: no two points have one. -/
abbrev Increasing (points : List α) : Prop := points.Pairwise fun a b => date a < date b

def byDate (points : List α) : List α := points.insertionSort fun a b => date a ≤ date b

/-- The last `n` points. -/
def newest (n : ℕ) (points : List α) : List α := points.drop (points.length - n)

variable {date}

theorem mem_byDate {points : List α} {a : α} : a ∈ byDate date points ↔ a ∈ points :=
  (List.perm_insertionSort _ points).mem_iff

theorem increasing_byDate {points : List α} (h : (points.map date).Nodup) :
    Increasing date (byDate date points) := by
  have : Std.Total fun a b : α => date a ≤ date b := ⟨fun a b => le_total (date a) (date b)⟩
  have : IsTrans α fun a b => date a ≤ date b := ⟨fun a b c => le_trans⟩
  have hle : (byDate date points).Pairwise fun a b => date a ≤ date b :=
    List.pairwise_insertionSort (fun a b => date a ≤ date b) points
  have hperm := (List.perm_insertionSort (fun a b : α => date a ≤ date b) points).map date
  have hne : (byDate date points).Pairwise fun a b => date a ≠ date b :=
    List.pairwise_map.mp (hperm.nodup_iff.mpr h)
  exact hle.imp₂ (fun _ _ hab hne => lt_of_le_of_ne hab hne) hne

theorem Increasing.nodup_dates {points : List α} (h : Increasing date points) :
    (points.map date).Nodup :=
  List.pairwise_map.mpr (h.imp ne_of_lt)

/-- One point for each date. -/
theorem Increasing.eq_of_date {points : List α} (h : Increasing date points) {a b : α}
    (ha : a ∈ points) (hb : b ∈ points) (hdate : date a = date b) : a = b :=
  List.inj_on_of_nodup_map h.nodup_dates ha hb hdate

theorem Increasing.newest {points : List α} (h : Increasing date points) (n : ℕ) :
    Increasing date (newest n points) :=
  h.sublist (List.drop_sublist _ _)

theorem mem_of_mem_newest {points : List α} {n : ℕ} {a : α} (h : a ∈ newest n points) :
    a ∈ points := List.mem_of_mem_drop h

theorem newest_ne_nil {points : List α} {n : ℕ} (hn : 0 < n) (h : points ≠ []) :
    Series.newest n points ≠ [] := by
  have hlength := List.length_pos_of_ne_nil h
  apply List.ne_nil_of_length_pos
  rw [Series.newest, List.length_drop]
  omega

theorem length_newest_le (n : ℕ) (points : List α) : (Series.newest n points).length ≤ n := by
  rw [Series.newest, List.length_drop]
  omega

/-- Points that are in order stay where they are. -/
theorem Increasing.byDate_eq {points : List α} (h : Increasing date points) :
    byDate date points = points :=
  List.Pairwise.insertionSort_eq (h.imp le_of_lt)

/-- What is cut off once need not be there when more is cut off. -/
theorem newest_newest_append (n : ℕ) (points more : List α) :
    Series.newest n (Series.newest n points ++ more) = Series.newest n (points ++ more) := by
  have hdrop : points.drop (points.length - n) ++ more =
      (points ++ more).drop (points.length - n) :=
    (List.drop_append_of_le_length (Nat.sub_le _ _)).symm
  simp only [Series.newest]
  rw [hdrop, List.drop_drop, List.length_drop, List.length_append]
  congr 1
  omega

/-- A point that is not kept is older than every point that is. -/
theorem Increasing.newest_or_older {points : List α} (h : Increasing date points) (n : ℕ) {a : α}
    (ha : a ∈ points) :
    a ∈ Series.newest n points ∨ ∀ b ∈ Series.newest n points, date a < date b := by
  have hsplit := List.take_append_drop (points.length - n) points
  rw [Series.newest]
  rw [← hsplit, List.mem_append] at ha
  rw [← hsplit] at h
  refine ha.symm.imp id fun htake b hb => ?_
  exact (List.pairwise_append.mp h).2.2 a htake b hb

end DataQ.Series
