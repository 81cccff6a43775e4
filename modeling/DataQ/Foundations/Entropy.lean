import Mathlib.Analysis.MeanInequalities

/-! # Entropy without logarithms

A list of length `n` in which each `a` occurs `count a` times has an entropy of
`log n - (∑ count a * log (count a)) / n`; raised to the power `n` it is compared by products of
natural numbers. A list over `k` different elements has an entropy of at most `log k`. -/

namespace DataQ.Entropy
open Finset
set_option autoImplicit false

variable {α : Type*} [DecidableEq α]

/-- `exp (∑ count a * log (count a))`. -/
def countPower (l : List α) : ℕ := (l.dedup.map fun a => l.count a ^ l.count a).prod

theorem countPower_eq (l : List α) :
    countPower l = ∏ a ∈ l.toFinset, l.count a ^ l.count a := by
  have hsame : l.toFinset = l.dedup.toFinset := by
    ext a
    simp
  rw [hsame, List.prod_toFinset _ l.nodup_dedup]
  rfl

/-- The weighted mean of `n / count a`, with the weights `count a / n`. -/
theorem prod_ratio_le {l : List α} (hl : l ≠ []) :
    ∏ a ∈ l.toFinset, ((l.length : ℝ) / l.count a) ^ l.count a ≤
      (l.toFinset.card : ℝ) ^ l.length := by
  have hn : (0 : ℝ) < l.length := by exact_mod_cast List.length_pos_iff.mpr hl
  have hcount : ∀ a ∈ l.toFinset, (0 : ℝ) < l.count a := fun a ha => by
    exact_mod_cast List.count_pos_iff.mpr (List.mem_toFinset.mp ha)
  have hsum : ∑ a ∈ l.toFinset, (l.count a : ℝ) / l.length = 1 := by
    rw [← sum_div, ← Nat.cast_sum, List.sum_toFinset_count_eq_length]
    exact div_self hn.ne'
  have hmean := Real.geom_mean_le_arith_mean_weighted l.toFinset
    (fun a => (l.count a : ℝ) / l.length) (fun a => (l.length : ℝ) / l.count a)
    (fun a _ => by positivity) hsum (fun a _ => by positivity)
  have harith : ∑ a ∈ l.toFinset, (l.count a : ℝ) / l.length * ((l.length : ℝ) / l.count a) =
      l.toFinset.card := by
    rw [card_eq_sum_ones, Nat.cast_sum]
    refine sum_congr rfl fun a ha => ?_
    have := (hcount a ha).ne'
    field_simp
    norm_num
  rw [harith] at hmean
  have hraise := pow_le_pow_left₀ (prod_nonneg fun a _ => by positivity) hmean l.length
  refine le_trans (le_of_eq ?_) hraise
  rw [← prod_pow]
  refine prod_congr rfl fun a _ => ?_
  rw [← Real.rpow_natCast (_ ^ _) l.length, ← Real.rpow_mul (by positivity), div_mul_cancel₀ _ hn.ne',
    Real.rpow_natCast]

theorem length_pow_le (l : List α) :
    l.length ^ l.length ≤ l.toFinset.card ^ l.length * countPower l := by
  rcases eq_or_ne l [] with rfl | hl
  · rfl
  have hcount : ∀ a ∈ l.toFinset, (0 : ℝ) < l.count a := fun a ha => by
    exact_mod_cast List.count_pos_iff.mpr (List.mem_toFinset.mp ha)
  have hsplit : (l.length : ℝ) ^ l.length =
      (∏ a ∈ l.toFinset, ((l.length : ℝ) / l.count a) ^ l.count a) *
        ∏ a ∈ l.toFinset, (l.count a : ℝ) ^ l.count a := by
    rw [← prod_mul_distrib]
    calc
      (l.length : ℝ) ^ l.length = ∏ a ∈ l.toFinset, (l.length : ℝ) ^ l.count a := by
        rw [prod_pow_eq_pow_sum, List.sum_toFinset_count_eq_length]
      _ = _ := prod_congr rfl fun a ha => by
        rw [← mul_pow, div_mul_cancel₀ _ (hcount a ha).ne']
  have hreal : (l.length : ℝ) ^ l.length ≤
      (l.toFinset.card : ℝ) ^ l.length * ∏ a ∈ l.toFinset, (l.count a : ℝ) ^ l.count a := by
    rw [hsplit]
    exact mul_le_mul_of_nonneg_right (prod_ratio_le hl) (prod_nonneg fun a _ => by positivity)
  rw [countPower_eq]
  exact_mod_cast hreal

end DataQ.Entropy
