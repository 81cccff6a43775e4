import Mathlib.Data.List.Basic
import Mathlib.Tactic.Common

/-! # Renderings of masked cells

A rendering emits each cell as it is or masked, by a verdict. Only a cell that its mask changes can
be told to be shown or masked. -/

namespace DataQ.Renderings
set_option autoImplicit false

variable {α : Type*} (mask : α → α)

/-- A cell beside what is emitted for it. -/
def emitted (reading : α × Bool) : α × α :=
  (reading.1, if reading.2 then mask reading.1 else reading.1)

def Masks (pairs : List (α × α)) : Prop := ∃ pair ∈ pairs, pair.2 = mask pair.1 ∧ mask pair.1 ≠ pair.1

def Shows (pairs : List (α × α)) : Prop := ∃ pair ∈ pairs, pair.2 = pair.1 ∧ mask pair.1 ≠ pair.1

/-- What one rendering masks the other does not show, both ways. -/
def Agree (left right : List (α × α)) : Prop :=
  ¬ (Masks mask left ∧ Shows mask right) ∧ ¬ (Masks mask right ∧ Shows mask left)

instance [DecidableEq α] (pairs : List (α × α)) : Decidable (Masks mask pairs) :=
  inferInstanceAs (Decidable (∃ pair ∈ pairs, pair.2 = mask pair.1 ∧ mask pair.1 ≠ pair.1))

instance [DecidableEq α] (pairs : List (α × α)) : Decidable (Shows mask pairs) :=
  inferInstanceAs (Decidable (∃ pair ∈ pairs, pair.2 = pair.1 ∧ mask pair.1 ≠ pair.1))

instance [DecidableEq α] (left right : List (α × α)) : Decidable (Agree mask left right) :=
  inferInstanceAs (Decidable (_ ∧ _))

theorem masks_emitted {readings : List (α × Bool)} :
    Masks mask (readings.map (emitted mask)) ↔
      ∃ reading ∈ readings, reading.2 = true ∧ mask reading.1 ≠ reading.1 := by
  constructor
  · rintro ⟨_, hpair, hmask, hne⟩
    obtain ⟨⟨cell, verdict⟩, hmem, rfl⟩ := List.mem_map.mp hpair
    refine ⟨(cell, verdict), hmem, ?_, hne⟩
    cases verdict with
    | true => rfl
    | false => exact absurd hmask.symm hne
  · rintro ⟨⟨cell, verdict⟩, hmem, hverdict, hne⟩
    refine ⟨_, List.mem_map_of_mem hmem, ?_, hne⟩
    rw [emitted, if_pos hverdict]

theorem shows_emitted {readings : List (α × Bool)} :
    Shows mask (readings.map (emitted mask)) ↔
      ∃ reading ∈ readings, reading.2 = false ∧ mask reading.1 ≠ reading.1 := by
  constructor
  · rintro ⟨_, hpair, hshown, hne⟩
    obtain ⟨⟨cell, verdict⟩, hmem, rfl⟩ := List.mem_map.mp hpair
    refine ⟨(cell, verdict), hmem, ?_, hne⟩
    cases verdict with
    | true => exact absurd hshown hne
    | false => rfl
  · rintro ⟨⟨cell, verdict⟩, hmem, hverdict, hne⟩
    refine ⟨_, List.mem_map_of_mem hmem, ?_, hne⟩
    have hfalse : verdict = false := hverdict
    simp [emitted, hfalse]

/-- Two renderings agree when their verdicts on the cells that carry anything are all the same. -/
theorem agree_iff {left right : List (α × Bool)} :
    Agree mask (left.map (emitted mask)) (right.map (emitted mask)) ↔
      ∀ a ∈ left, mask a.1 ≠ a.1 → ∀ b ∈ right, mask b.1 ≠ b.1 → a.2 = b.2 := by
  unfold Agree
  rw [masks_emitted, masks_emitted, shows_emitted, shows_emitted]
  constructor
  · rintro ⟨hleft, hright⟩ a ha hcarries b hb hcarries'
    cases hverdict : a.2 with
    | true =>
      cases hverdict' : b.2 with
      | true => rfl
      | false => exact absurd ⟨⟨a, ha, hverdict, hcarries⟩, b, hb, hverdict', hcarries'⟩ hleft
    | false =>
      cases hverdict' : b.2 with
      | false => rfl
      | true => exact absurd ⟨⟨b, hb, hverdict', hcarries'⟩, a, ha, hverdict, hcarries⟩ hright
  · intro h
    constructor
    · rintro ⟨⟨a, ha, hverdict, hcarries⟩, b, hb, hverdict', hcarries'⟩
      have hsame := h a ha hcarries b hb hcarries'
      rw [hverdict, hverdict'] at hsame
      cases hsame
    · rintro ⟨⟨b, hb, hverdict', hcarries'⟩, a, ha, hverdict, hcarries⟩
      have hsame := h a ha hcarries b hb hcarries'
      rw [hverdict, hverdict'] at hsame
      cases hsame

end DataQ.Renderings
