import Mathlib.Data.List.Dedup
import Mathlib.Data.List.FinRange
import Mathlib.Data.List.Sort
import Mathlib.Tactic.Common

/-! # Outer merges

The rows of two sides are merged by their keys, in the order of the keys: every pair of rows with
one key, and each row whose key the other side does not have. Where the keys of each side are
unique, each row is in one merged row. -/

namespace DataQ.OuterMerge
set_option autoImplicit false

variable {κ : Type*} [DecidableEq κ] {m n : ℕ}

/-- A merged row, by the positions that it is from. -/
inductive Row (m n : ℕ)
  | both (i : Fin m) (j : Fin n)
  | leftOnly (i : Fin m)
  | rightOnly (j : Fin n)
  deriving DecidableEq

/-- The positions of a key. -/
def rowsAt (keys : Fin m → κ) (k : κ) : List (Fin m) :=
  (List.finRange m).filter fun i => keys i = k

def mergedAt (left : Fin m → κ) (right : Fin n → κ) (k : κ) : List (Row m n) :=
  if rowsAt right k = [] then (rowsAt left k).map .leftOnly
  else if rowsAt left k = [] then (rowsAt right k).map .rightOnly
  else (rowsAt left k).flatMap fun i => (rowsAt right k).map (.both i)

def unionKeys (left : Fin m → κ) (right : Fin n → κ) : List κ :=
  ((List.finRange m).map left ++ (List.finRange n).map right).dedup

def merge (le : κ → κ → Prop) [DecidableRel le] (left : Fin m → κ) (right : Fin n → κ) :
    List (Row m n) :=
  ((unionKeys left right).insertionSort le).flatMap (mergedAt left right)

def pairs (rows : List (Row m n)) : List (Fin m × Fin n) :=
  rows.filterMap fun
    | .both i j => some (i, j)
    | _ => none

def leftOnly (rows : List (Row m n)) : List (Fin m) :=
  rows.filterMap fun
    | .leftOnly i => some i
    | _ => none

def rightOnly (rows : List (Row m n)) : List (Fin n) :=
  rows.filterMap fun
    | .rightOnly j => some j
    | _ => none

variable {le : κ → κ → Prop} [DecidableRel le] {left : Fin m → κ} {right : Fin n → κ}

theorem mem_rowsAt {keys : Fin m → κ} {k : κ} {i : Fin m} : i ∈ rowsAt keys k ↔ keys i = k := by
  simp [rowsAt, List.mem_finRange]

theorem rowsAt_eq_nil {keys : Fin m → κ} {k : κ} : rowsAt keys k = [] ↔ ∀ i, keys i ≠ k := by
  simp [rowsAt, List.filter_eq_nil_iff, List.mem_finRange]

theorem mem_map_leftOnly {rows : List (Fin m)} {row : Row m n} :
    row ∈ rows.map .leftOnly ↔ ∃ i ∈ rows, row = .leftOnly i := by
  rw [List.mem_map]
  exact exists_congr fun i => and_congr_right fun _ => eq_comm

theorem mem_map_rightOnly {rows : List (Fin n)} {row : Row m n} :
    row ∈ rows.map .rightOnly ↔ ∃ j ∈ rows, row = .rightOnly j := by
  rw [List.mem_map]
  exact exists_congr fun j => and_congr_right fun _ => eq_comm

theorem mem_flatMap_both {rows : List (Fin m)} {rows' : List (Fin n)} {row : Row m n} :
    (row ∈ rows.flatMap fun i => rows'.map (.both i)) ↔
      ∃ i ∈ rows, ∃ j ∈ rows', row = .both i j := by
  rw [List.mem_flatMap]
  refine exists_congr fun i => and_congr_right fun _ => ?_
  rw [List.mem_map]
  exact exists_congr fun j => and_congr_right fun _ => eq_comm

/-- What a row that is merged under a key says of it. -/
inductive Row.Under (left : Fin m → κ) (right : Fin n → κ) (k : κ) : Row m n → Prop
  | both {i j} (hi : left i = k) (hj : right j = k) : Row.Under left right k (.both i j)
  | leftOnly {i} (hi : left i = k) (hnone : ∀ j, right j ≠ k) : Row.Under left right k (.leftOnly i)
  | rightOnly {j} (hj : right j = k) (hnone : ∀ i, left i ≠ k) :
    Row.Under left right k (.rightOnly j)

theorem mem_mergedAt {k : κ} {row : Row m n} :
    row ∈ mergedAt left right k ↔ row.Under left right k := by
  unfold mergedAt
  by_cases hright : rowsAt right k = []
  · rw [if_pos hright, mem_map_leftOnly]
    have hnone := rowsAt_eq_nil.mp hright
    constructor
    · rintro ⟨i, hi, rfl⟩
      exact .leftOnly (mem_rowsAt.mp hi) hnone
    · intro h
      cases h with
      | both hi hj => exact absurd hj (hnone _)
      | leftOnly hi _ => exact ⟨_, mem_rowsAt.mpr hi, rfl⟩
      | rightOnly hj _ => exact absurd hj (hnone _)
  · rw [if_neg hright]
    obtain ⟨j₀, hj₀⟩ := List.exists_mem_of_ne_nil _ hright
    have hj₀ := mem_rowsAt.mp hj₀
    by_cases hleft : rowsAt left k = []
    · rw [if_pos hleft, mem_map_rightOnly]
      have hnone := rowsAt_eq_nil.mp hleft
      constructor
      · rintro ⟨j, hj, rfl⟩
        exact .rightOnly (mem_rowsAt.mp hj) hnone
      · intro h
        cases h with
        | both hi hj => exact absurd hi (hnone _)
        | leftOnly hi _ => exact absurd hi (hnone _)
        | rightOnly hj _ => exact ⟨_, mem_rowsAt.mpr hj, rfl⟩
    · rw [if_neg hleft, mem_flatMap_both]
      obtain ⟨i₀, hi₀⟩ := List.exists_mem_of_ne_nil _ hleft
      have hi₀ := mem_rowsAt.mp hi₀
      constructor
      · rintro ⟨i, hi, j, hj, rfl⟩
        exact .both (mem_rowsAt.mp hi) (mem_rowsAt.mp hj)
      · intro h
        cases h with
        | both hi hj => exact ⟨_, mem_rowsAt.mpr hi, _, mem_rowsAt.mpr hj, rfl⟩
        | leftOnly _ hnone => exact absurd hj₀ (hnone j₀)
        | rightOnly _ hnone => exact absurd hi₀ (hnone i₀)

/-- What a merged row says of its own keys. -/
inductive Row.Merged (left : Fin m → κ) (right : Fin n → κ) : Row m n → Prop
  | both {i j} (h : left i = right j) : Row.Merged left right (.both i j)
  | leftOnly {i} (hnone : ∀ j, right j ≠ left i) : Row.Merged left right (.leftOnly i)
  | rightOnly {j} (hnone : ∀ i, left i ≠ right j) : Row.Merged left right (.rightOnly j)

theorem mem_merge {row : Row m n} : row ∈ merge le left right ↔ row.Merged left right := by
  simp only [merge, List.mem_flatMap, List.mem_insertionSort, unionKeys, List.mem_dedup,
    List.mem_append, List.mem_map, List.mem_finRange, true_and, mem_mergedAt]
  constructor
  · rintro ⟨k, -, h⟩
    cases h with
    | both hi hj => exact .both (hi.trans hj.symm)
    | leftOnly hi hnone =>
      subst hi
      exact .leftOnly hnone
    | rightOnly hj hnone =>
      subst hj
      exact .rightOnly hnone
  · intro h
    cases h with
    | @both i j h => exact ⟨left i, .inl ⟨i, rfl⟩, .both rfl h.symm⟩
    | @leftOnly i hnone => exact ⟨left i, .inl ⟨i, rfl⟩, .leftOnly rfl hnone⟩
    | @rightOnly j hnone => exact ⟨right j, .inr ⟨j, rfl⟩, .rightOnly rfl hnone⟩

theorem nodup_mergedAt (k : κ) : (mergedAt left right k).Nodup := by
  have hrows : ∀ {m : ℕ} (keys : Fin m → κ), (rowsAt keys k).Nodup :=
    fun keys => (List.nodup_finRange _).filter _
  unfold mergedAt
  split
  · exact (hrows left).map fun i j h => Row.leftOnly.inj h
  · split
    · exact (hrows right).map fun i j h => Row.rightOnly.inj h
    · apply List.nodup_flatMap.mpr
      refine ⟨fun i _ => (hrows right).map fun j j' h => (Row.both.inj h).2, ?_⟩
      apply (hrows left).imp
      intro i i' hne row hrow hrow'
      obtain ⟨j, -, rfl⟩ := List.mem_map.mp hrow
      obtain ⟨j', -, heq⟩ := List.mem_map.mp hrow'
      exact hne (Row.both.inj heq).1.symm

theorem nodup_merge : (merge le left right).Nodup := by
  apply List.nodup_flatMap.mpr
  refine ⟨fun k _ => nodup_mergedAt k, ?_⟩
  have hkeys : ((unionKeys left right).insertionSort le).Nodup :=
    (List.perm_insertionSort le _).nodup_iff.mpr (List.nodup_dedup _)
  apply hkeys.imp
  intro k k' hne row hrow hrow'
  have h' := mem_mergedAt.mp hrow'
  cases mem_mergedAt.mp hrow with
  | both hi _ =>
    cases h' with
    | both hi' _ => exact hne (hi.symm.trans hi')
  | leftOnly hi _ =>
    cases h' with
    | leftOnly hi' _ => exact hne (hi.symm.trans hi')
  | rightOnly hj _ =>
    cases h' with
    | rightOnly hj' _ => exact hne (hj.symm.trans hj')

theorem mem_pairs {i : Fin m} {j : Fin n} :
    (i, j) ∈ pairs (merge le left right) ↔ left i = right j := by
  rw [pairs, List.mem_filterMap]
  constructor
  · rintro ⟨row, hrow, heq⟩
    cases mem_merge.mp hrow with
    | both h =>
      obtain ⟨rfl, rfl⟩ := Prod.mk.inj (Option.some.inj heq)
      exact h
    | leftOnly _ => cases heq
    | rightOnly _ => cases heq
  · intro h
    exact ⟨.both i j, mem_merge.mpr (.both h), rfl⟩

theorem mem_leftOnly {i : Fin m} :
    i ∈ leftOnly (merge le left right) ↔ ∀ j, right j ≠ left i := by
  rw [leftOnly, List.mem_filterMap]
  constructor
  · rintro ⟨row, hrow, heq⟩
    cases mem_merge.mp hrow with
    | leftOnly hnone =>
      obtain rfl := Option.some.inj heq
      exact hnone
    | both _ => cases heq
    | rightOnly _ => cases heq
  · intro h
    exact ⟨.leftOnly i, mem_merge.mpr (.leftOnly h), rfl⟩

theorem mem_rightOnly {j : Fin n} :
    j ∈ rightOnly (merge le left right) ↔ ∀ i, left i ≠ right j := by
  rw [rightOnly, List.mem_filterMap]
  constructor
  · rintro ⟨row, hrow, heq⟩
    cases mem_merge.mp hrow with
    | rightOnly hnone =>
      obtain rfl := Option.some.inj heq
      exact hnone
    | both _ => cases heq
    | leftOnly _ => cases heq
  · intro h
    exact ⟨.rightOnly j, mem_merge.mpr (.rightOnly h), rfl⟩

theorem nodup_pairs : (pairs (merge le left right)).Nodup := by
  apply nodup_merge.filterMap
  intro row row' p hp hp'
  cases row with
  | both i j =>
    cases row' with
    | both i' j' =>
      obtain ⟨rfl, rfl⟩ := Prod.mk.inj (Option.some.inj (hp.trans hp'.symm))
      rfl
    | leftOnly _ => cases hp'
    | rightOnly _ => cases hp'
  | leftOnly _ => cases hp
  | rightOnly _ => cases hp

theorem nodup_leftOnly : (leftOnly (merge le left right)).Nodup := by
  apply nodup_merge.filterMap
  intro row row' p hp hp'
  cases row <;> cases row' <;> simp_all

theorem nodup_rightOnly : (rightOnly (merge le left right)).Nodup := by
  apply nodup_merge.filterMap
  intro row row' p hp hp'
  cases row <;> cases row' <;> simp_all

/-! ## Unique keys -/

/-- Unique keys on the other side: each row of the left is in one merged row. -/
theorem left_partition (h : Function.Injective right) :
    ((pairs (merge le left right)).map Prod.fst ++ leftOnly (merge le left right)).Perm
      (List.finRange m) := by
  have hpaired : ∀ i, i ∈ (pairs (merge le left right)).map Prod.fst ↔ ∃ j, left i = right j := by
    intro i
    simp only [List.mem_map, Prod.exists, exists_and_right, exists_eq_right, mem_pairs]
  apply (List.perm_ext_iff_of_nodup _ (List.nodup_finRange m)).mpr
  · intro i
    rw [List.mem_append, hpaired, mem_leftOnly]
    simp only [List.mem_finRange, iff_true, ← not_exists]
    by_cases hex : ∃ j, left i = right j
    · exact .inl hex
    · exact .inr fun hex' => hex (hex'.imp fun _ => Eq.symm)
  · apply List.nodup_append'.mpr
    refine ⟨?_, nodup_leftOnly, ?_⟩
    · apply nodup_pairs.map_on
      rintro ⟨i, j⟩ hp ⟨i', j'⟩ hp' rfl
      have hsame : right j = right j' := (mem_pairs.mp hp).symm.trans (mem_pairs.mp hp')
      rw [h hsame]
    · intro i hi hi'
      obtain ⟨j, hj⟩ := (hpaired i).mp hi
      exact mem_leftOnly.mp hi' j hj.symm

theorem right_partition (h : Function.Injective left) :
    ((pairs (merge le left right)).map Prod.snd ++ rightOnly (merge le left right)).Perm
      (List.finRange n) := by
  have hpaired : ∀ j, j ∈ (pairs (merge le left right)).map Prod.snd ↔ ∃ i, left i = right j := by
    intro j
    simp only [List.mem_map, Prod.exists, exists_eq_right, mem_pairs]
  apply (List.perm_ext_iff_of_nodup _ (List.nodup_finRange n)).mpr
  · intro j
    rw [List.mem_append, hpaired, mem_rightOnly]
    simp only [List.mem_finRange, iff_true, ← not_exists]
    exact Classical.em _
  · apply List.nodup_append'.mpr
    refine ⟨?_, nodup_rightOnly, ?_⟩
    · apply nodup_pairs.map_on
      rintro ⟨i, j⟩ hp ⟨i', j'⟩ hp' rfl
      have hsame : left i = left i' := (mem_pairs.mp hp).trans (mem_pairs.mp hp').symm
      rw [h hsame]
    · intro j hj hj'
      obtain ⟨i, hi⟩ := (hpaired j).mp hj
      exact mem_rightOnly.mp hj' i hi

/-! ## The sides exchanged -/

section Exchange
variable {κ' : Type*} [DecidableEq κ'] {le' : κ' → κ' → Prop} [DecidableRel le']
variable {left' : Fin n → κ'} {right' : Fin m → κ'}

theorem pairs_exchange (h : ∀ i j, left' j = right' i ↔ left i = right j) :
    (pairs (merge le' left' right')).Perm ((pairs (merge le left right)).map Prod.swap) := by
  apply (List.perm_ext_iff_of_nodup nodup_pairs (nodup_pairs.map Prod.swap_injective)).mpr
  rintro ⟨j, i⟩
  rw [mem_pairs, h, List.mem_map]
  constructor
  · intro hij
    exact ⟨(i, j), mem_pairs.mpr hij, rfl⟩
  · rintro ⟨⟨i', j'⟩, hp, heq⟩
    obtain ⟨rfl, rfl⟩ := Prod.mk.inj heq
    exact mem_pairs.mp hp

theorem leftOnly_exchange (h : ∀ i j, left' j = right' i ↔ left i = right j) :
    (leftOnly (merge le' left' right')).Perm (rightOnly (merge le left right)) := by
  apply (List.perm_ext_iff_of_nodup nodup_leftOnly nodup_rightOnly).mpr
  intro j
  rw [mem_leftOnly, mem_rightOnly]
  exact forall_congr' fun i => not_congr (eq_comm.trans (h i j))

theorem rightOnly_exchange (h : ∀ i j, left' j = right' i ↔ left i = right j) :
    (rightOnly (merge le' left' right')).Perm (leftOnly (merge le left right)) := by
  apply (List.perm_ext_iff_of_nodup nodup_rightOnly nodup_leftOnly).mpr
  intro i
  rw [mem_leftOnly, mem_rightOnly]
  exact forall_congr' fun j => not_congr ((h i j).trans eq_comm)

end Exchange

end DataQ.OuterMerge
