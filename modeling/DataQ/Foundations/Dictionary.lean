import Mathlib.Data.List.Induction
import Mathlib.Data.List.Nodup
import Mathlib.Tactic.Common

/-! # Dictionaries

A dict is the list of its entries in the order in which its keys first came; `List.lookup` reads
it. -/

namespace DataQ
set_option autoImplicit false

variable {κ α : Type*} [BEq κ] [LawfulBEq κ]

/-- `{**entries, key: value}`. -/
def setField (key : κ) (value : α) : List (κ × α) → List (κ × α)
  | [] => [(key, value)]
  | (k, v) :: fields =>
    if k == key then (key, value) :: fields else (k, v) :: setField key value fields

@[simp] theorem lookup_setField_self (key : κ) (value : α) (fields : List (κ × α)) :
    (setField key value fields).lookup key = some value := by
  induction fields with
  | nil => simp [setField]
  | cons field fields ih =>
    unfold setField
    split
    · simp
    · next hne =>
      rw [List.lookup_cons, beq_eq_false_iff_ne.mpr fun h => hne (beq_iff_eq.mpr h.symm), ih]

theorem lookup_setField_ne {key other : κ} (h : other ≠ key) (value : α)
    (fields : List (κ × α)) : (setField key value fields).lookup other = fields.lookup other := by
  induction fields with
  | nil => simp [setField, List.lookup_cons, beq_eq_false_iff_ne.mpr h]
  | cons field fields ih =>
    unfold setField
    split
    · next heq =>
      obtain ⟨k, v⟩ := field
      have hk : k = key := eq_of_beq heq
      rw [List.lookup_cons, List.lookup_cons, hk, beq_eq_false_iff_ne.mpr h]
    · rw [List.lookup_cons, List.lookup_cons, ih]

theorem setField_of_lookup {key : κ} {value : α} {fields : List (κ × α)}
    (h : fields.lookup key = some value) : setField key value fields = fields := by
  induction fields with
  | nil => cases h
  | cons field fields ih =>
    obtain ⟨k, v⟩ := field
    rw [List.lookup_cons] at h
    unfold setField
    split
    · next heq =>
      obtain rfl := eq_of_beq heq
      rw [beq_self_eq_true, Option.some.injEq] at h
      rw [h]
    · next hne =>
      rw [beq_eq_false_iff_ne.mpr fun hk : key = k => hne (beq_iff_eq.mpr hk.symm)] at h
      rw [ih h]

theorem mem_keys_setField {key other : κ} {value : α} {fields : List (κ × α)} :
    other ∈ (setField key value fields).map Prod.fst ↔
      other = key ∨ other ∈ fields.map Prod.fst := by
  induction fields with
  | nil => simp [setField]
  | cons field fields ih =>
    unfold setField
    split
    · next heq =>
      rw [List.map_cons, List.map_cons, List.mem_cons, List.mem_cons, eq_of_beq heq]
      tauto
    · rw [List.map_cons, List.map_cons, List.mem_cons, List.mem_cons, ih]
      tauto

theorem nodup_setField {key : κ} {value : α} {fields : List (κ × α)}
    (h : (fields.map Prod.fst).Nodup) : ((setField key value fields).map Prod.fst).Nodup := by
  induction fields with
  | nil => simp [setField]
  | cons field fields ih =>
    rw [List.map_cons, List.nodup_cons] at h
    unfold setField
    split
    · next heq => exact List.nodup_cons.mpr ⟨eq_of_beq heq ▸ h.1, h.2⟩
    · next hne =>
      refine List.nodup_cons.mpr ⟨fun hmem => ?_, ih h.2⟩
      rcases mem_keys_setField.mp hmem with heq | hin
      · exact hne (beq_iff_eq.mpr heq)
      · exact h.1 hin

theorem mem_iff_lookup {fields : List (κ × α)} (h : (fields.map Prod.fst).Nodup) {key : κ}
    {value : α} : (key, value) ∈ fields ↔ fields.lookup key = some value := by
  induction fields with
  | nil => simp
  | cons field fields ih =>
    obtain ⟨k, v⟩ := field
    obtain ⟨hnot, hrest⟩ := List.nodup_cons.mp h
    rw [List.mem_cons, List.lookup_cons, ih hrest]
    by_cases hk : key = k
    · subst hk
      have hnone : fields.lookup key = none := by
        rw [List.lookup_eq_none_iff]
        intro p hp
        have : p.1 ≠ key := fun he => hnot (List.mem_map.mpr ⟨p, hp, he⟩)
        simpa using Ne.symm this
      simp [hnone, eq_comm]
    · simp [hk, beq_eq_false_iff_ne.mpr hk]

theorem mem_of_lookup {key : κ} {value : α}
    {fields : List (κ × α)} (h : fields.lookup key = some value) : (key, value) ∈ fields := by
  obtain ⟨before, after, hsplit, _⟩ := List.lookup_eq_some_iff.mp h
  rw [hsplit]
  simp

theorem lookup_filter_key {p : κ → Bool} {key : κ}
    (h : p key = true) (fields : List (κ × α)) :
    (fields.filter fun entry => p entry.1).lookup key = fields.lookup key := by
  induction fields with
  | nil => rfl
  | cons field fields ih =>
    obtain ⟨k, v⟩ := field
    by_cases hk : p k = true
    · rw [List.filter_cons_of_pos (by exact hk), List.lookup_cons, List.lookup_cons, ih]
    · have hne : key ≠ k := fun he => hk (he ▸ h)
      rw [List.filter_cons_of_neg (by exact hk), ih, List.lookup_cons, beq_eq_false_iff_ne.mpr hne]

theorem lookup_filter_ne [DecidableEq κ] {key other : κ}
    (h : other ≠ key) (fields : List (κ × α)) :
    (fields.filter fun entry => entry.1 ≠ key).lookup other = fields.lookup other :=
  lookup_filter_key (p := fun k => k ≠ key) (by simpa using h) fields

theorem all_keys_setField {key : κ} {p : κ → Bool}
    (h : p key = true) (value : α) (fields : List (κ × α)) :
    ((setField key value fields).all fun entry => p entry.1) =
      fields.all fun entry => p entry.1 := by
  induction fields with
  | nil => simp [setField, h]
  | cons field fields ih =>
    obtain ⟨k, v⟩ := field
    unfold setField
    split
    · next heq => simp [eq_of_beq heq, h]
    · simp [ih]

/-! ## Updates -/

/-- `entries.update(pairs)` holds nothing but what one of the two held. -/
theorem lookup_foldl_setField {pairs entries : List (κ × α)} {key : κ} {value : α}
    (h : (pairs.foldl (fun entries entry => setField entry.1 entry.2 entries) entries).lookup key =
      some value) :
    (key, value) ∈ pairs ∨ entries.lookup key = some value := by
  induction pairs generalizing entries with
  | nil => exact .inr h
  | cons pair pairs ih =>
    obtain hrest | hset := ih h
    · exact .inl (List.mem_cons_of_mem _ hrest)
    · by_cases hkey : key = pair.1
      · rw [hkey, lookup_setField_self, Option.some.injEq] at hset
        exact .inl (by rw [hkey, ← hset]; exact List.mem_cons_self)
      · rw [lookup_setField_ne hkey] at hset
        exact .inr hset

theorem mem_keys_foldl_setField {pairs entries : List (κ × α)} {key : κ} :
    key ∈ (pairs.foldl (fun entries entry => setField entry.1 entry.2 entries) entries).map
        Prod.fst ↔ key ∈ pairs.map Prod.fst ∨ key ∈ entries.map Prod.fst := by
  induction pairs generalizing entries with
  | nil => simp
  | cons pair pairs ih =>
    rw [List.foldl_cons, ih, mem_keys_setField, List.map_cons, List.mem_cons]
    tauto

theorem lookup_eq_none_iff_keys {entries : List (κ × α)} {key : κ} :
    entries.lookup key = none ↔ key ∉ entries.map Prod.fst := by
  rw [List.lookup_eq_none_iff, List.mem_map, not_exists]
  constructor
  · rintro h entry ⟨hmem, rfl⟩
    simpa using h entry hmem
  · intro h entry hmem
    exact bne_iff_ne.mpr fun hkey => h entry ⟨hmem, hkey.symm⟩

/-! ## Places -/

/-- The dict of the last place at which each key stands in a list. -/
def places (keys : List (Option κ)) : List (κ × ℕ) :=
  keys.zipIdx.foldl (fun entries entry =>
    match entry.1 with
    | none => entries
    | some key => setField key entry.2 entries) []

omit [LawfulBEq κ] in
theorem places_append (keys : List (Option κ)) (key : Option κ) :
    places (keys ++ [key]) =
      match key with
      | none => places keys
      | some k => setField k keys.length (places keys) := by
  simp only [places, List.zipIdx_append, List.foldl_append]
  cases key <;> simp

theorem nodup_places (keys : List (Option κ)) : ((places keys).map Prod.fst).Nodup := by
  induction keys using List.reverseRecOn with
  | nil => exact List.nodup_nil
  | append_singleton keys key ih =>
    rw [places_append]
    cases key with
    | none => exact ih
    | some k => exact nodup_setField ih

theorem lookup_places {keys : List (Option κ)} {key : κ} {i : ℕ} :
    (places keys).lookup key = some i ↔
      keys[i]? = some (some key) ∧ ∀ j, i < j → keys[j]? ≠ some (some key) := by
  induction keys using List.reverseRecOn with
  | nil => simp [places]
  | append_singleton keys last ih =>
    have hold : ∀ j, j < keys.length → (keys ++ [last])[j]? = keys[j]? := fun j hj =>
      List.getElem?_append_left hj
    have hlast : (keys ++ [last])[keys.length]? = some last := by simp
    have hpast : ∀ j, keys.length < j → (keys ++ [last])[j]? = none := fun j hj =>
      List.getElem?_eq_none (by simpa using Nat.succ_le_of_lt hj)
    by_cases hkey : last = some key
    · subst hkey
      rw [places_append, lookup_setField_self, Option.some.injEq]
      constructor
      · rintro rfl
        exact ⟨hlast, fun j hj => by rw [hpast j hj]; simp⟩
      · rintro ⟨hi, hafter⟩
        have hle : i ≤ keys.length := by
          by_contra hlt
          rw [hpast i (by omega)] at hi
          cases hi
        by_contra hne
        exact hafter keys.length (by omega) hlast
    · have hsame : (places (keys ++ [last])).lookup key = (places keys).lookup key := by
        rw [places_append]
        cases last with
        | none => rfl
        | some k => exact lookup_setField_ne (fun h => hkey (by rw [h])) _ _
      rw [hsame, ih]
      have hiff : ∀ j : ℕ, (keys ++ [last])[j]? = some (some key) ↔ keys[j]? = some (some key) := by
        intro j
        rcases Nat.lt_trichotomy j keys.length with hj | hj | hj
        · rw [hold j hj]
        · subst hj
          simp [hkey]
        · rw [hpast j hj, List.getElem?_eq_none (l := keys) (Nat.le_of_lt hj)]
      simp only [hiff, ne_eq]

end DataQ
