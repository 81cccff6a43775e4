import DataQ.Foundations.Dictionary
import Mathlib.Data.List.Sort

/-! # Numbered rows

Rows in the order of a key, each with its number in that order; a left outer join onto the numbers
gives the rows back, and nothing past the last of them. -/

namespace DataQ.Numbering
set_option autoImplicit false

variable {β γ κ : Type*}

section Order

variable [LinearOrder κ] {key : β → κ} {rows : List β}

/-- `ORDER BY key`. -/
def orderBy (key : β → κ) (rows : List β) : List β :=
  rows.insertionSort fun row other => key row ≤ key other

/-- `ROW_NUMBER() OVER (ORDER BY key)` of one of the rows. -/
def rowNumber (key : β → κ) (rows : List β) (row : β) : ℕ :=
  (rows.countP fun other => key other < key row) + 1

theorem orderBy_perm (key : β → κ) (rows : List β) : (orderBy key rows).Perm rows :=
  List.perm_insertionSort _ rows

theorem orderBy_sorted (key : β → κ) (rows : List β) :
    (orderBy key rows).Pairwise fun row other => key row ≤ key other := by
  have : Std.Total fun row other : β => key row ≤ key other :=
    ⟨fun row other => le_total (key row) (key other)⟩
  have : IsTrans β fun row other : β => key row ≤ key other :=
    ⟨fun _ _ _ h h' => le_trans h h'⟩
  exact List.pairwise_insertionSort _ rows

theorem orderBy_of_sorted (h : rows.Pairwise fun row other => key row ≤ key other) :
    orderBy key rows = rows :=
  h.insertionSort_eq

/-- No two rows with one key: the order is strict. -/
theorem orderBy_strict (h : (rows.map key).Nodup) :
    (orderBy key rows).Pairwise fun row other => key row < key other := by
  have hnodup : ((orderBy key rows).map key).Nodup :=
    ((orderBy_perm key rows).map key).nodup_iff.mpr h
  have hne := List.pairwise_map.mp hnodup
  exact ((orderBy_sorted key rows).and hne).imp fun h => lt_of_le_of_ne h.1 h.2

theorem countP_of_strict {first : β} {rest : List β}
    (h : (first :: rest).Pairwise fun row other => key row < key other) :
    ((first :: rest).countP fun other => key other < key first) = 0 := by
  rw [List.countP_eq_zero]
  intro other hmem
  have hle : key first ≤ key other := by
    obtain rfl | hrest := List.mem_cons.mp hmem
    · exact le_refl _
    · exact le_of_lt ((List.pairwise_cons.mp h).1 other hrest)
  simpa using hle

/-- The rows of a strict order are numbered from one. -/
theorem map_countP_of_strict (h : rows.Pairwise fun row other => key row < key other) :
    (rows.map fun row => rows.countP fun other => key other < key row) =
      List.range rows.length := by
  induction rows with
  | nil => rfl
  | cons first rest ih =>
    obtain ⟨hfirst, hrest⟩ := List.pairwise_cons.mp h
    have hlater : (rest.map fun row => (first :: rest).countP fun other => key other < key row) =
        (List.range rest.length).map Nat.succ := by
      rw [← ih hrest, List.map_map]
      refine List.map_congr_left fun row hrow => ?_
      rw [List.countP_cons_of_pos (by simpa using hfirst row hrow)]
      rfl
    rw [List.map_cons, countP_of_strict h, hlater, List.length_cons, List.range_succ_eq_map]

/-- Rows that are read in the order they are numbered by stand under their own numbers. -/
theorem map_rowNumber_orderBy (h : (rows.map key).Nodup) :
    ((orderBy key rows).map fun row => (row, rowNumber key rows row)) =
      (orderBy key rows).zipIdx 1 := by
  have hcount : ∀ row, rowNumber key rows row =
      ((orderBy key rows).countP fun other => key other < key row) + 1 := fun row => by
    rw [rowNumber, (orderBy_perm key rows).countP_eq]
  have hnumbers : (orderBy key rows).map (rowNumber key rows) =
      List.range' 1 (orderBy key rows).length := by
    rw [funext hcount, List.range'_eq_map_range, ← map_countP_of_strict (orderBy_strict h),
      List.map_map]
    refine List.map_congr_left fun row _ => ?_
    exact Nat.add_comm _ 1
  rw [List.zipIdx_eq_zip_range', ← hnumbers, ← List.map_prod_left_eq_zip]

end Order

/-! ## The outer join -/

/-- `left LEFT OUTER JOIN right ON …`. -/
def leftJoin (on : β → γ → Bool) (left : List β) (right : List γ) : List (β × Option γ) :=
  left.flatMap fun row =>
    match right.filter (on row) with
    | [] => [(row, none)]
    | found => found.map fun other => (row, some other)

/-- Where a row meets at most one other, the join adds that one to it. -/
theorem leftJoin_of_unique {on : β → γ → Bool} {left : List β} {right : List γ}
    {found : β → Option γ} (h : ∀ row ∈ left, right.filter (on row) = (found row).toList) :
    leftJoin on left right = left.map fun row => (row, found row) := by
  induction left with
  | nil => rfl
  | cons row left ih =>
    have hrow : (match right.filter (on row) with
        | [] => [(row, none)]
        | found => found.map fun other => (row, some other)) = [(row, found row)] := by
      rw [h row List.mem_cons_self]
      cases found row with
      | none => rfl
      | some other => rfl
    rw [leftJoin, List.flatMap_cons, hrow, List.map_cons]
    exact congrArg _ (ih fun other hother => h other (List.mem_cons_of_mem _ hother))

theorem filter_zipIdx (rows : List β) (start number : ℕ) :
    ((rows.zipIdx start).filter fun row => row.2 = number) =
      if start ≤ number then ((rows[number - start]?).map fun row => (row, number)).toList
      else [] := by
  induction rows generalizing start with
  | nil => simp
  | cons row rows ih =>
    rw [List.zipIdx_cons, List.filter_cons]
    by_cases heq : start = number
    · subst heq
      have hlater : ¬ start + 1 ≤ start := by omega
      rw [if_pos (by simp), ih, if_neg hlater, if_pos le_rfl, Nat.sub_self]
      rfl
    · rw [if_neg (by simpa using heq), ih]
      by_cases hle : start ≤ number
      · have hsub : number - start = (number - (start + 1)) + 1 := by omega
        rw [if_pos (by omega), if_pos hle, hsub, List.getElem?_cons_succ]
      · rw [if_neg (by omega), if_neg hle]

theorem take_zipIdx (rows : List β) (start n : ℕ) :
    (rows.zipIdx start).take n = (rows.take n).zipIdx start := by
  induction rows generalizing start n with
  | nil => simp
  | cons row rows ih =>
    cases n with
    | zero => rfl
    | succ n =>
      rw [List.zipIdx_cons, List.take_succ_cons, ih, List.take_succ_cons, List.zipIdx_cons]

/-- What the numbers up to `n` find are the first `n` rows. -/
theorem filterMap_numbers (rows : List β) (n : ℕ) :
    ((List.range' 1 n).filterMap fun number => rows[number - 1]?) = rows.take n := by
  induction n with
  | zero => simp
  | succ n ih =>
    rw [List.range'_concat, List.filterMap_append, ih, List.take_add_one]
    have hlast : 1 + 1 * n - 1 = n := by omega
    rw [List.filterMap_cons, List.filterMap_nil, hlast]
    cases rows[n]? with
    | none => rfl
    | some row => rfl

/-! ## Buckets -/

section Buckets

variable [BEq κ] [LawfulBEq κ]

/-- `buckets.setdefault(key, []).append(value)`. -/
def appendTo (buckets : List (κ × List β)) (entry : κ × β) : List (κ × List β) :=
  setField entry.1 ((buckets.lookup entry.1).getD [] ++ [entry.2]) buckets

theorem nodup_buckets (entries : List (κ × β)) :
    ((entries.foldl appendTo []).map Prod.fst).Nodup := by
  induction entries using List.reverseRecOn with
  | nil => exact List.nodup_nil
  | append_singleton entries entry ih =>
    rw [List.foldl_append]
    exact nodup_setField ih

/-- Each bucket holds the values of its key, in their order; there is no empty bucket. -/
theorem lookup_buckets (entries : List (κ × β)) (key : κ) :
    (entries.foldl appendTo []).lookup key =
      let values := (entries.filter fun entry => entry.1 == key).map Prod.snd
      if values = [] then none else some values := by
  induction entries using List.reverseRecOn with
  | nil => rfl
  | append_singleton entries entry ih =>
    rw [List.foldl_append, List.filter_append, List.map_append]
    change (appendTo (entries.foldl appendTo []) entry).lookup key = _
    by_cases hkey : entry.1 = key
    · subst hkey
      rw [appendTo, lookup_setField_self, ih]
      by_cases hnil : (entries.filter fun other => other.1 == entry.1).map Prod.snd = []
      · simp [hnil]
      · simp [hnil]
    · have hnone : ([entry].filter fun other => other.1 == key) = [] :=
        List.filter_cons_of_neg (by simpa using hkey)
      rw [appendTo, lookup_setField_ne (Ne.symm hkey), ih, hnone, List.map_nil, List.append_nil]

end Buckets

end DataQ.Numbering
