import Mathlib.Data.List.Nodup
import Mathlib.Tactic.Common

/-! # Rows that are found by a key and named by a number

A registry is a list of rows. An upsert changes the rows of a key without their key and number, or
adds one with a fresh number: what a key is numbered by never changes after that. -/

namespace DataQ.Registry
set_option autoImplicit false

variable {ρ κ : Type*} [DecidableEq κ] {key : ρ → κ} {id : ρ → ℕ}

/-- The number of a key. -/
def idOf (key : ρ → κ) (id : ρ → ℕ) (rows : List ρ) (k : κ) : Option ℕ :=
  (rows.find? fun row => key row = k).map id

def freshId (id : ρ → ℕ) (rows : List ρ) : ℕ := (rows.map id).foldl max 0 + 1

/-- Changes the rows of the key, or adds the row. -/
def upsert (key : ρ → κ) (k : κ) (change : ρ → ρ) (new : ρ) (rows : List ρ) : List ρ :=
  if rows.any fun row => key row = k then
    rows.map fun row => if key row = k then change row else row
  else rows ++ [new]

/-- No number stands for two keys. -/
def Named (key : ρ → κ) (id : ρ → ℕ) (rows : List ρ) : Prop :=
  ∀ a ∈ rows, ∀ b ∈ rows, id a = id b → key a = key b

theorem idOf_eq_some {rows : List ρ} {k : κ} {i : ℕ} (h : idOf key id rows k = some i) :
    ∃ row ∈ rows, key row = k ∧ id row = i := by
  obtain ⟨row, hfind, hid⟩ := Option.map_eq_some_iff.mp h
  exact ⟨row, List.mem_of_find?_eq_some hfind, by simpa using List.find?_some hfind, hid⟩

theorem idOf_isSome_iff {rows : List ρ} {k : κ} :
    (idOf key id rows k).isSome ↔ ∃ row ∈ rows, key row = k := by
  simp [idOf, List.find?_isSome]

theorem Named.idOf_inj {rows : List ρ} (h : Named key id rows) {k l : κ} {i : ℕ}
    (hk : idOf key id rows k = some i) (hl : idOf key id rows l = some i) : k = l := by
  obtain ⟨a, ha, rfl, hia⟩ := idOf_eq_some hk
  obtain ⟨b, hb, rfl, hib⟩ := idOf_eq_some hl
  exact h a ha b hb (hia.trans hib.symm)

theorem le_foldl_max (ns : List ℕ) (m : ℕ) :
    m ≤ ns.foldl max m ∧ ∀ n ∈ ns, n ≤ ns.foldl max m := by
  induction ns generalizing m with
  | nil => simp
  | cons a ns ih =>
    rw [List.foldl_cons]
    obtain ⟨hle, hall⟩ := ih (max m a)
    refine ⟨by omega, fun n hn => ?_⟩
    rcases List.mem_cons.mp hn with rfl | hn
    · omega
    · exact hall n hn

theorem lt_freshId {rows : List ρ} {row : ρ} (h : row ∈ rows) : id row < freshId id rows := by
  have hle := (le_foldl_max (rows.map id) 0).2 _ (List.mem_map_of_mem h)
  unfold freshId
  omega

section Upsert

variable {k : κ} {change : ρ → ρ} {new : ρ} {rows : List ρ}

theorem changed_same (hkey : ∀ row, key row = k → key (change row) = k)
    (hid : ∀ row, id (change row) = id row) (row : ρ) :
    key (if key row = k then change row else row) = key row ∧
      id (if key row = k then change row else row) = id row := by
  by_cases hrow : key row = k
  · rw [if_pos hrow]
    exact ⟨(hkey row hrow).trans hrow.symm, hid row⟩
  · rw [if_neg hrow]
    exact ⟨rfl, rfl⟩

theorem idOf_upsert (hkey : ∀ row, key row = k → key (change row) = k)
    (hid : ∀ row, id (change row) = id row) {l : κ} {i : ℕ} (h : idOf key id rows l = some i) :
    idOf key id (upsert key k change new rows) l = some i := by
  have hsame := changed_same hkey hid
  unfold upsert
  split
  · unfold idOf at h ⊢
    rw [List.find?_map]
    simp only [Function.comp_def, hsame, Option.map_map]
    exact h
  · unfold idOf at h ⊢
    rw [List.find?_append]
    obtain ⟨row, hrow, hi⟩ := Option.map_eq_some_iff.mp h
    rw [hrow, Option.some_or]
    simpa using hi

theorem exists_mem_upsert (hkey : ∀ row, key row = k → key (change row) = k) (hnew : key new = k) :
    ∃ row ∈ upsert key k change new rows, key row = k := by
  unfold upsert
  split
  · next hany =>
    obtain ⟨row, hrow, hk⟩ := List.any_eq_true.mp hany
    have hk : key row = k := by simpa using hk
    exact ⟨change row, List.mem_map.mpr ⟨row, hrow, if_pos hk⟩, hkey row hk⟩
  · exact ⟨new, by simp, hnew⟩

theorem Named.upsert (h : Named key id rows) (hkey : ∀ row, key row = k → key (change row) = k)
    (hid : ∀ row, id (change row) = id row) (hfresh : id new = freshId id rows) :
    Named key id (upsert key k change new rows) := by
  have hsame := changed_same hkey hid
  unfold Registry.upsert
  split
  · intro changedA hchangedA changedB hchangedB hab
    obtain ⟨a, ha, rfl⟩ := List.mem_map.mp hchangedA
    obtain ⟨b, hb, rfl⟩ := List.mem_map.mp hchangedB
    rw [(hsame a).2, (hsame b).2] at hab
    rw [(hsame a).1, (hsame b).1]
    exact h a ha b hb hab
  · intro a ha b hb hab
    rcases List.mem_append.mp ha with ha | ha <;> rcases List.mem_append.mp hb with hb | hb
    · exact h a ha b hb hab
    · rw [List.mem_singleton.mp hb, hfresh] at hab
      have hlt : id a < freshId id rows := lt_freshId ha
      omega
    · rw [List.mem_singleton.mp ha, hfresh] at hab
      have hlt : id b < freshId id rows := lt_freshId hb
      omega
    · rw [List.mem_singleton.mp ha, List.mem_singleton.mp hb]

end Upsert

end DataQ.Registry
