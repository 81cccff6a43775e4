import Mathlib.Data.List.Induction
import Mathlib.Data.List.Nodup
import Mathlib.Tactic.Common

/-! # Lists linked by hashes

Records that name the hash of the record before them, oldest first. `tip` is what the next record
will name, and what a walk along the links starts from. -/

namespace DataQ.HashChain
set_option autoImplicit false

variable {ρ κ : Type*}

/-- What follows a list of records, each of which leaves its own value behind. -/
def tip (value : ρ → κ) : κ → List ρ → κ
  | base, [] => base
  | _, r :: rs => tip value (value r) rs

/-- The first record names `base`, and every other one the value of the record before it. -/
def Linked (prev value : ρ → κ) : κ → List ρ → Prop
  | _, [] => True
  | base, r :: rs => prev r = base ∧ Linked prev value (value r) rs

variable {prev value : ρ → κ} {base : κ}

@[simp] theorem tip_nil : tip value base [] = base := rfl

@[simp] theorem tip_cons (r : ρ) (rs : List ρ) :
    tip value base (r :: rs) = tip value (value r) rs := rfl

theorem tip_append (rs ts : List ρ) :
    tip value base (rs ++ ts) = tip value (tip value base rs) ts := by
  induction rs generalizing base with
  | nil => rfl
  | cons r rs ih => exact ih

theorem tip_concat (rs : List ρ) (r : ρ) : tip value base (rs ++ [r]) = value r := by
  rw [tip_append]
  rfl

@[simp] theorem linked_nil : Linked prev value base [] := trivial

theorem linked_append {rs ts : List ρ} : Linked prev value base (rs ++ ts) ↔
    Linked prev value base rs ∧ Linked prev value (tip value base rs) ts := by
  induction rs generalizing base with
  | nil => simp
  | cons r rs ih =>
    rw [List.cons_append, Linked, Linked, ih, and_assoc]
    rfl

theorem Linked.prev_of_mem_tail {rs : List ρ} (h : Linked prev value base rs) {r : ρ}
    (hr : r ∈ rs.tail) : ∃ q ∈ rs, prev r = value q := by
  induction rs generalizing base with
  | nil => cases hr
  | cons q rs ih =>
    obtain ⟨-, hrest⟩ := h
    cases rs with
    | nil => cases hr
    | cons s rs =>
      rcases List.mem_cons.mp hr with rfl | hmem
      · exact ⟨q, List.mem_cons_self, hrest.1⟩
      · obtain ⟨p, hp, hprev⟩ := ih hrest hmem
        exact ⟨p, List.mem_cons_of_mem _ hp, hprev⟩

theorem Linked.map_prev {rs : List ρ} (h : Linked prev value base rs) :
    rs.map prev = (base :: rs.map value).dropLast := by
  induction rs generalizing base with
  | nil => rfl
  | cons r rs ih =>
    rw [List.map_cons, h.1, ih h.2, List.map_cons, List.dropLast_cons_cons]

theorem getLast_values (rs : List ρ) :
    (base :: rs.map value).getLast (List.cons_ne_nil _ _) = tip value base rs := by
  induction rs generalizing base with
  | nil => rfl
  | cons r rs ih =>
    rw [List.map_cons, List.getLast_cons_cons, ih]
    rfl

/-- Where no record has the value of the base, and records of one value name one predecessor, no
value occurs twice. -/
theorem Linked.nodup {rs : List ρ} (h : Linked prev value base rs)
    (hbase : ∀ r ∈ rs, value r ≠ base)
    (hprev : ∀ r ∈ rs, ∀ s ∈ rs, value r = value s → prev r = prev s) :
    (base :: rs.map value).Nodup := by
  induction rs using List.reverseRecOn with
  | nil => exact List.nodup_singleton base
  | append_singleton rs r ih =>
    obtain ⟨hinit, hlast, -⟩ := linked_append.mp h
    have hnodup := ih hinit (fun q hq => hbase q (List.mem_append_left _ hq))
      fun q hq s hs => hprev q (List.mem_append_left _ hq) s (List.mem_append_left _ hs)
    have hr : r ∈ rs ++ [r] := List.mem_append_right _ (List.mem_singleton_self r)
    have hfresh : value r ∉ base :: rs.map value := by
      intro hmem
      rcases List.mem_cons.mp hmem with heq | hmem
      · exact hbase r hr heq
      · -- the record of the same value would name the last value, which is behind it
        obtain ⟨q, hq, hqr⟩ := List.mem_map.mp hmem
        have hsame := hprev q (List.mem_append_left _ hq) r hr hqr
        have hin : tip value base rs ∈ (base :: rs.map value).dropLast := by
          rw [← hlast, ← hsame, ← hinit.map_prev]
          exact List.mem_map_of_mem hq
        rw [← List.dropLast_concat_getLast (List.cons_ne_nil base (rs.map value)),
          getLast_values, List.nodup_append] at hnodup
        exact hnodup.2.2 _ hin _ (List.mem_singleton_self _) rfl
    rw [List.map_append, ← List.cons_append, List.nodup_append]
    refine ⟨hnodup, List.nodup_singleton _, fun a ha b hb hab => ?_⟩
    rw [List.map_singleton, List.mem_singleton] at hb
    exact hfresh (hb ▸ hab ▸ ha)

theorem Linked.nodup_prev {rs : List ρ} (h : Linked prev value base rs)
    (hnodup : (base :: rs.map value).Nodup) : (rs.map prev).Nodup := by
  rw [h.map_prev]
  exact hnodup.sublist (List.dropLast_sublist _)

end DataQ.HashChain
