import DataQ.Foundations.Fallible
import DataQ.Profile.TopValues
import Mathlib.Data.List.Dedup

/-! # Batches of columns

What the batched statements give for a column is what the statement of that column alone gives. -/

namespace DataQ.Profile
open DataQ.Fallible DataQ.Numbering DataQ.Winners
set_option autoImplicit false

variable {α : Type} [LinearOrder α]

/-! ## What is built -/

/-- The identifiers that a column's statement needs are checked. -/
def checked (target : Target) (col : Text) : Except ProfileError Unit := do
  let _ ← groupedColumn col
  let _ ← target.clause
  pure ()

def bothTerms : List OrderTerm := [.countDesc, .column]

def queryOf (target : Target) (topN : ℤ) (col : Text) : TopValuesQuery :=
  { source := target, column := foldingIdentifier col, ordering := bothTerms, limit := topN }

theorem validateIdentifier_some {name name' : Text}
    (h : validateIdentifier (some name) = .ok name') : name' = name := by
  simp only [validateIdentifier] at h
  split at h
  · exact (Except.ok.inj h).symm
  · cases h

theorem groupedColumn_ok {col : Text} {grouped : Identifier × List OrderTerm}
    (h : groupedColumn col = .ok grouped) : grouped = (foldingIdentifier col, bothTerms) := by
  obtain ⟨name, hname, hpure⟩ := bind_eq_ok.mp h
  rw [validateIdentifier_some hname] at hpure
  exact (pure_eq_ok.mp hpure).symm

theorem clause_ok {target source : Target} (h : target.clause = .ok source) : source = target := by
  obtain ⟨_, -, h⟩ := bind_eq_ok.mp h
  obtain ⟨_, -, h⟩ := bind_eq_ok.mp h
  split at h
  · obtain ⟨_, -, h⟩ := bind_eq_ok.mp h
    split at h
    · exact (pure_eq_ok.mp h).symm
    · cases h
  · exact (pure_eq_ok.mp h).symm

theorem buildTopValuesQuery_eq (target : Target) (col : Text) (topN : ℤ) :
    buildTopValuesQuery target col topN =
      (checked target col).map fun _ => queryOf target topN col := by
  unfold buildTopValuesQuery checked
  cases hgrouped : groupedColumn col with
  | error e => rfl
  | ok grouped =>
    obtain rfl := groupedColumn_ok hgrouped
    cases hclause : target.clause with
    | error e => rfl
    | ok source =>
      obtain rfl := clause_ok hclause
      rfl

theorem buildRanked_eq (target : Target) (col : Text) (topN : ℤ) :
    (do
      let (_, ordering) ← groupedColumn col
      let query ← buildTopValuesQuery target col topN
      pure { query, orderedBy := ordering : RankedQuery } : Except ProfileError RankedQuery) =
      (checked target col).map fun _ => ⟨queryOf target topN col, bothTerms⟩ := by
  rw [buildTopValuesQuery_eq]
  unfold checked
  cases hgrouped : groupedColumn col with
  | error e => rfl
  | ok grouped =>
    obtain rfl := groupedColumn_ok hgrouped
    cases target.clause with
    | error e => rfl
    | ok source => rfl

/-- A list is mapped with success where each of its elements passes the check. -/
theorem mapM_checked {γ δ : Type} {ε : Type*} {f : γ → Except ε δ} {check : γ → Except ε Unit}
    {g : γ → δ} (h : ∀ x, f x = (check x).map fun _ => g x) (xs : List γ) :
    xs.mapM f = (forM xs check).map fun _ => xs.map g := by
  induction xs with
  | nil => rfl
  | cons x xs ih =>
    rw [List.mapM_cons, List.forM_cons, h x, ih]
    cases check x with
    | error e => rfl
    | ok _ =>
      cases forM xs check with
      | error e => rfl
      | ok _ => rfl

theorem buildBatched_eq (target : Target) {columns : List Text} (hne : columns ≠ []) {topN : ℤ}
    (htop : 0 < topN) :
    buildBatchedTopValuesQuery target columns topN = (forM columns (checked target)).map fun _ =>
      ⟨topN, columns.map fun col => ⟨queryOf target topN col, bothTerms⟩⟩ := by
  have hpositive : ¬ topN < 1 := by omega
  unfold buildBatchedTopValuesQuery
  rw [if_neg hne, if_neg hpositive, mapM_checked fun col => buildRanked_eq target col topN]
  cases forM columns (checked target) with
  | error e => rfl
  | ok _ => rfl

/-! ## The rows of the statement -/

variable {wh : Warehouse α} {target : Target} {topN : ℤ}

theorem sortKey_nodup (rows : List (Row α)) (c : Identifier) :
    ((groups rows c).map (sortKey bothTerms)).Nodup := by
  have hvalue : ∀ row other : Counted α, sortKey bothTerms row = sortKey bothTerms other →
      row.value = other.value := by
    intro row other h
    have hcells := List.cons.inj h
    have hlast := (List.cons.inj hcells.2).1
    exact Sum.inr.inj (toLex.injective hlast)
  unfold groups
  rw [List.map_map]
  refine List.Nodup.map_on ?_ (List.nodup_dedup _)
  intro value _ other _ h
  exact hvalue _ _ h

/-- The rows of a sub-select are those of its column, numbered from one. -/
theorem ranked_rows (wh : Warehouse α) (target : Target) (topN : ℤ) (col : Text) :
    RankedQuery.rows wh ⟨queryOf target topN col, bothTerms⟩ =
      ((queryOf target topN col).rows wh).zipIdx 1 := by
  unfold RankedQuery.rows TopValuesQuery.rows
  rw [← take_zipIdx]
  exact congrArg _ (map_rowNumber_orderBy (sortKey_nodup _ _))

/-- The cells of a column at a rank. -/
def cellAt (wh : Warehouse α) (target : Target) (topN : ℤ) (rank : ℕ) (col : Text) :
    Option α × Option ℕ :=
  cellOf ((((queryOf target topN col).rows wh)[rank - 1]?).map fun row => (row, rank))

theorem joinTop_eq {joined : List (BatchedRow α)} (hranks : ∀ row ∈ joined, 1 ≤ row.rn)
    (col : Text) :
    joinTop wh joined ⟨queryOf target topN col, bothTerms⟩ = joined.map fun row =>
      { row with cells := row.cells ++ [cellAt wh target topN row.rn col] } := by
  unfold joinTop
  rw [ranked_rows]
  have hfound : ∀ left ∈ joined,
      (((queryOf target topN col).rows wh).zipIdx 1).filter (fun row => decide (row.2 = left.rn)) =
        ((((queryOf target topN col).rows wh)[left.rn - 1]?).map fun row =>
          (row, left.rn)).toList := by
    intro left hleft
    rw [filter_zipIdx, if_pos (hranks left hleft)]
  rw [leftJoin_of_unique hfound, List.map_map]
  rfl

theorem foldl_joinTop {joined : List (BatchedRow α)} (hranks : ∀ row ∈ joined, 1 ≤ row.rn)
    (columns : List Text) :
    (columns.map fun col => (⟨queryOf target topN col, bothTerms⟩ : RankedQuery)).foldl
        (joinTop wh) joined =
      joined.map fun row =>
        { row with cells := row.cells ++ columns.map (cellAt wh target topN row.rn) } := by
  induction columns generalizing joined with
  | nil => simp
  | cons col columns ih =>
    rw [List.map_cons, List.foldl_cons, joinTop_eq hranks, ih, List.map_map]
    · refine List.map_congr_left fun row _ => ?_
      simp
    · intro row hrow
      obtain ⟨before, hbefore, rfl⟩ := List.mem_map.mp hrow
      exact hranks before hbefore

/-- One row for each rank, with the cells of the columns at that rank. -/
theorem batched_rows (wh : Warehouse α) (target : Target) (topN : ℤ) (columns : List Text) :
    BatchedQuery.rows wh ⟨topN, columns.map fun col => ⟨queryOf target topN col, bothTerms⟩⟩ =
      (List.range' 1 topN.toNat).map fun rank =>
        ⟨rank, columns.map (cellAt wh target topN rank)⟩ := by
  have hranks : ∀ row ∈ (List.range' 1 topN.toNat).map
      fun rank => ({ rn := rank, cells := [] } : BatchedRow α), 1 ≤ row.rn := by
    intro row hrow
    obtain ⟨rank, hrank, rfl⟩ := List.mem_map.mp hrow
    exact (List.mem_range'_1.mp hrank).1
  unfold BatchedQuery.rows
  dsimp only
  rw [foldl_joinTop hranks, List.map_map, orderBy_of_sorted]
  · rfl
  · rw [List.pairwise_map]
    exact (List.pairwise_lt_range' (s := 1)).imp fun h => le_of_lt h

/-! ## Reading the rows back -/

/-- The entry that a row holds for a column. -/
def BatchedRow.entry (row : BatchedRow α) (index : ℕ) : Option (TopValue α) :=
  (row.freq index).map fun freq => { value := row.value index, freq }

/-- `by_index`: the entries of all the rows, in a bucket for each column. -/
def byIndex (rows : List (BatchedRow α)) (n : ℕ) : List (ℕ × List (TopValue α)) :=
  (rows.flatMap fun row => (List.range n).filterMap fun index =>
    (row.entry index).map fun entry => (index, entry)).foldl appendTo []

omit [LinearOrder α] in
theorem collect_eq {rows : List (BatchedRow α)}
    (hsorted : rows.Pairwise fun row other => row.rn ≤ other.rn) (columns : List Text) :
    collectBatchedTopValues rows columns =
      dictOf (fun entry => columns.getD entry.1 []) Prod.snd (byIndex rows columns.length) := by
  unfold collectBatchedTopValues byIndex
  dsimp only
  rw [orderBy_of_sorted hsorted, List.foldl_flatMap]
  congr 2
  funext byIndex row
  rw [List.foldl_filterMap]
  congr 1
  funext byIndex index
  unfold BatchedRow.entry
  cases row.freq index with
  | none => rfl
  | some freq => rfl

theorem filter_filterMap_range {β : Type} (f : ℕ → Option β) (n index : ℕ) :
    (((List.range n).filterMap fun i => (f i).map fun value => (i, value)).filter
        fun entry => entry.1 == index).map Prod.snd =
      if index < n then (f index).toList else [] := by
  induction n with
  | zero => rfl
  | succ n ih =>
    rw [List.range_succ, List.filterMap_append, List.filter_append, List.map_append, ih,
      List.filterMap_cons, List.filterMap_nil]
    by_cases hlast : index = n
    · subst hlast
      rw [if_neg (by omega), if_pos (by omega)]
      cases f index <;> simp
    · have hlt : index < n + 1 ↔ index < n := by omega
      simp only [hlt]
      cases f n with
      | none => simp
      | some value => simp [Ne.symm hlast]

omit [LinearOrder α] in
/-- What `by_index` holds for a column is its entries in the order of the rows. -/
theorem lookup_byIndex (rows : List (BatchedRow α)) (n index : ℕ) :
    (byIndex rows n).lookup index =
      let entries := if index < n then rows.filterMap fun row => row.entry index else []
      if entries = [] then none else some entries := by
  have hvalues : (((rows.flatMap fun row => (List.range n).filterMap fun index =>
      (row.entry index).map fun entry => (index, entry)).filter
        fun entry => entry.1 == index).map Prod.snd) =
      if index < n then rows.filterMap fun row => row.entry index else [] := by
    rw [List.filter_flatMap, List.map_flatMap]
    simp only [filter_filterMap_range]
    split
    · rw [List.filterMap_eq_flatMap_toList]
    · simp
  rw [byIndex, lookup_buckets, hvalues]

/-- The dict holds the entries of each of the columns, and an absent column has none. -/
structure Gives (entries : Text → List (TopValue α)) (found : TopValues α)
    (columns : List Text) : Prop where
  right : ∀ col values, found.lookup col = some values → col ∈ columns ∧ values = entries col
  missing : ∀ col ∈ columns, found.lookup col = none → entries col = []

omit [LinearOrder α] in
theorem collect_gives {rows : List (BatchedRow α)} {columns : List Text}
    {entries : Text → List (TopValue α)}
    (hsorted : rows.Pairwise fun row other => row.rn ≤ other.rn)
    (h : ∀ i (hi : i < columns.length),
      (rows.filterMap fun row => row.entry i) = entries columns[i]) :
    Gives entries (collectBatchedTopValues rows columns) columns := by
  rw [collect_eq hsorted]
  have hnodup : ((byIndex rows columns.length).map Prod.fst).Nodup := nodup_buckets _
  have hat : ∀ i (hi : i < columns.length), (byIndex rows columns.length).lookup i =
      if entries columns[i] = [] then none else some (entries columns[i]) := by
    intro i hi
    rw [lookup_byIndex, if_pos hi, h i hi]
  constructor
  · intro col values hlookup
    obtain ⟨⟨i, found⟩, hmem, -, rfl, rfl⟩ := lookup_eq_some.mp hlookup
    have hfound := (mem_iff_lookup hnodup).mp hmem
    have hi : i < columns.length := by
      by_contra hge
      rw [lookup_byIndex, if_neg hge] at hfound
      simp at hfound
    rw [hat i hi] at hfound
    have hname : columns.getD i [] = columns[i] := by simp [List.getD_eq_getElem?_getD, hi]
    rw [hname]
    split at hfound
    · cases hfound
    · exact ⟨List.getElem_mem hi, (Option.some.inj hfound).symm⟩
  · intro col hcol hnone
    obtain ⟨i, hi, rfl⟩ := List.mem_iff_getElem.mp hcol
    by_contra hne
    have hentry : (i, entries columns[i]) ∈ byIndex rows columns.length := by
      rw [mem_iff_lookup hnodup, hat i hi, if_neg hne]
    obtain ⟨winner, hwinner, hwins, hkey⟩ : ∃ winner ∈ byIndex rows columns.length,
        Wins (fun entry => columns.getD entry.1 []) (byIndex rows columns.length) winner ∧
          columns.getD winner.1 [] = columns.getD i [] := exists_wins hentry
    have hname : columns.getD i [] = columns[i] := by simp [List.getD_eq_getElem?_getD, hi]
    have hsome : (dictOf (fun entry => columns.getD entry.1 []) Prod.snd
        (byIndex rows columns.length)).lookup columns[i] = some winner.2 :=
      lookup_eq_some.mpr ⟨winner, hwinner, hwins, hkey.trans hname, rfl⟩
    rw [hnone] at hsome
    cases hsome

/-! ## One column and a batch -/

/-- What the statement of a column alone gives. -/
def entriesOf (wh : Warehouse α) (target : Target) (topN : ℤ) (col : Text) : List (TopValue α) :=
  ((queryOf target topN col).rows wh).map fun row => { value := some row.value, freq := row.freq }

theorem batched_entries (wh : Warehouse α) (target : Target) (topN : ℤ) (columns : List Text)
    (i : ℕ) (hi : i < columns.length) :
    (((List.range' 1 topN.toNat).map fun rank =>
        (⟨rank, columns.map (cellAt wh target topN rank)⟩ : BatchedRow α)).filterMap
          fun row => row.entry i) =
      entriesOf wh target topN columns[i] := by
  have hentry : ∀ rank, BatchedRow.entry ⟨rank, columns.map (cellAt wh target topN rank)⟩ i =
      (((queryOf target topN columns[i]).rows wh)[rank - 1]?).map fun row =>
        ({ value := some row.value, freq := row.freq } : TopValue α) := by
    intro rank
    unfold BatchedRow.entry BatchedRow.freq BatchedRow.value
    rw [List.getElem?_map, List.getElem?_eq_getElem hi, Option.map_some]
    unfold cellAt cellOf
    cases ((queryOf target topN columns[i]).rows wh)[rank - 1]? with
    | none => rfl
    | some row => rfl
  have hlength : ((queryOf target topN columns[i]).rows wh).length ≤ topN.toNat := by
    unfold TopValuesQuery.rows
    exact List.length_take_le _ _
  rw [List.filterMap_map, entriesOf]
  simp only [Function.comp_def, hentry]
  rw [← List.map_filterMap, filterMap_numbers, List.take_of_length_le hlength]

/-- The rows of the batched statement give each of its columns. -/
theorem batched_gives (wh : Warehouse α) (target : Target) (topN : ℤ) (columns : List Text) :
    Gives (entriesOf wh target topN)
      (collectBatchedTopValues (BatchedQuery.rows wh
        ⟨topN, columns.map fun col => ⟨queryOf target topN col, bothTerms⟩⟩) columns) columns := by
  rw [batched_rows]
  refine collect_gives ?_ (batched_entries wh target topN columns)
  rw [List.pairwise_map]
  exact (List.pairwise_lt_range' (s := 1)).imp fun h => le_of_lt h

omit [LinearOrder α] in
theorem dictOf_gives (entries : Text → List (TopValue α)) (columns : List Text) :
    Gives entries (dictOf Prod.fst Prod.snd (columns.map fun col => (col, entries col)))
      columns := by
  constructor
  · intro col values h
    obtain ⟨entry, hmem, -, rfl, rfl⟩ := lookup_eq_some.mp h
    obtain ⟨col, hcol, rfl⟩ := List.mem_map.mp hmem
    exact ⟨hcol, rfl⟩
  · intro col hcol h
    have hentry : (col, entries col) ∈ columns.map fun col => (col, entries col) :=
      List.mem_map.mpr ⟨col, hcol, rfl⟩
    obtain ⟨winner, hwinner, hwins, hkey⟩ : ∃ winner ∈ columns.map fun col => (col, entries col),
        Wins Prod.fst (columns.map fun col => (col, entries col)) winner ∧ winner.1 = col :=
      exists_wins hentry
    have hsome : (dictOf Prod.fst Prod.snd (columns.map fun col => (col, entries col))).lookup col =
        some winner.2 := lookup_eq_some.mpr ⟨winner, hwinner, hwins, hkey, rfl⟩
    rw [h] at hsome
    cases hsome

theorem perColumn_eq (wh : Warehouse α) (target : Target) (columns : List Text) (topN : ℤ) :
    topValuesPerColumn wh target columns topN =
      (forM columns (checked target)).map fun _ =>
        dictOf Prod.fst Prod.snd (columns.map fun col => (col, entriesOf wh target topN col)) := by
  have hone : ∀ col, (do
      let query ← buildTopValuesQuery target col topN
      pure (col, (query.rows wh).map fun row =>
        ({ value := some row.value, freq := row.freq } : TopValue α)) : Except ProfileError _) =
      (checked target col).map fun _ => (col, entriesOf wh target topN col) := by
    intro col
    rw [buildTopValuesQuery_eq]
    cases checked target col with
    | error e => rfl
    | ok _ => rfl
  unfold topValuesPerColumn
  rw [mapM_checked hone]
  cases forM columns (checked target) with
  | error e => rfl
  | ok _ => rfl

/-! ## Every batch -/

omit [LinearOrder α] in
theorem update_gives {entries : Text → List (TopValue α)} {collected found : TopValues α}
    {columns batch : List Text} (hcollected : Gives entries collected columns)
    (hnodup : (found.map Prod.fst).Nodup) (hfound : Gives entries found batch) :
    Gives entries (update collected found) (columns ++ batch) := by
  constructor
  · intro col values h
    rw [List.mem_append]
    obtain hnew | hold := lookup_foldl_setField h
    · obtain ⟨hmem, hright⟩ := hfound.right col values ((mem_iff_lookup hnodup).mp hnew)
      exact ⟨.inr hmem, hright⟩
    · obtain ⟨hmem, hright⟩ := hcollected.right col values hold
      exact ⟨.inl hmem, hright⟩
  · intro col hcol h
    have hkeys := lookup_eq_none_iff_keys.mp h
    rw [update, mem_keys_foldl_setField, not_or] at hkeys
    obtain hold | hnew := List.mem_append.mp hcol
    · exact hcollected.missing col hold (lookup_eq_none_iff_keys.mpr hkeys.2)
    · exact hfound.missing col hnew (lookup_eq_none_iff_keys.mpr hkeys.1)

/-- A batch is refused where one of its identifiers is; else it gives its columns, whether its
statement was answered or not. -/
theorem fetchBatch_eq (wh : Warehouse α) (target : Target) {topN : ℤ} (htop : 0 < topN)
    {collected : TopValues α} {columns : List Text}
    (hcollected : Gives (entriesOf wh target topN) collected columns) (batch : List Text × Bool)
    (hne : batch.1 ≠ []) :
    ∃ found, Gives (entriesOf wh target topN) found (columns ++ batch.1) ∧
      fetchBatch wh target topN collected batch =
        (forM batch.1 (checked target)).map fun _ => found := by
  unfold fetchBatch
  rw [buildBatched_eq target hne htop, perColumn_eq]
  cases hanswered : batch.2 with
  | true =>
    refine ⟨_, update_gives hcollected (nodup_dictOf _ _ _)
      (batched_gives wh target topN batch.1), ?_⟩
    cases forM batch.1 (checked target) with
    | error e => rfl
    | ok _ => rfl
  | false =>
    refine ⟨_, update_gives hcollected (nodup_dictOf _ _ _)
      (dictOf_gives (entriesOf wh target topN) batch.1), ?_⟩
    cases forM batch.1 (checked target) with
    | error e => rfl
    | ok _ => rfl

theorem foldlM_fetchBatch (wh : Warehouse α) (target : Target) {topN : ℤ} (htop : 0 < topN)
    {batches : List (List Text × Bool)} (hne : ∀ batch ∈ batches, batch.1 ≠ [])
    {collected : TopValues α} {columns : List Text}
    (hcollected : Gives (entriesOf wh target topN) collected columns) :
    ∃ found, Gives (entriesOf wh target topN) found
        (columns ++ (batches.map Prod.fst).flatten) ∧
      batches.foldlM (fetchBatch wh target topN) collected =
        (forM (batches.map Prod.fst).flatten (checked target)).map fun _ => found := by
  induction batches generalizing collected columns with
  | nil => exact ⟨collected, by simpa using hcollected, rfl⟩
  | cons batch batches ih =>
    obtain ⟨middle, hmiddle, hfetch⟩ :=
      fetchBatch_eq wh target htop hcollected batch (hne batch List.mem_cons_self)
    obtain ⟨found, hfound, hrest⟩ :=
      ih (fun other hother => hne other (List.mem_cons_of_mem _ hother)) hmiddle
    rw [List.append_assoc] at hfound
    refine ⟨found, by simpa using hfound, ?_⟩
    rw [List.foldlM_cons, hfetch, List.map_cons, List.flatten_cons, List.forM_append]
    cases forM batch.1 (checked target) with
    | error e => rfl
    | ok _ => exact hrest

omit [LinearOrder α] in
/-- A profile reads nothing of the dict but the entries of its columns. -/
theorem assembleProfile_congr {β : Type} {sanitize : Option α → β} {target : Target}
    {profiled columns : List Text} {aggregate : Aggregate α}
    {entries : Text → List (TopValue α)} {found found' : TopValues α}
    (h : Gives entries found columns) (h' : Gives entries found' columns) :
    assembleProfile sanitize target profiled aggregate found =
      assembleProfile sanitize target profiled aggregate found' := by
  have hread : ∀ {dict : TopValues α}, Gives entries dict columns → ∀ col,
      (dict.lookup col).getD [] = if col ∈ columns then entries col else [] := by
    intro dict hdict col
    cases hlookup : dict.lookup col with
    | none =>
      split
      · next hmem => exact (hdict.missing col hmem hlookup).symm
      · rfl
    | some values =>
      obtain ⟨hmem, hright⟩ := hdict.right col values hlookup
      rw [if_pos hmem]
      exact hright
  unfold assembleProfile
  simp only [hread h, hread h']

/-! ## The slices -/

theorem flatten_slices (columns : List Text) (size k : ℕ) :
    ((List.range k).map fun i => (columns.drop (i * size)).take size).flatten =
      columns.take (k * size) := by
  induction k with
  | zero => simp
  | succ k ih =>
    rw [List.range_succ, List.map_append, List.flatten_append, ih, Nat.succ_mul, List.take_add]
    simp

theorem flatten_batchesOf (columns : List Text) : (batchesOf columns).flatten = columns := by
  unfold batchesOf topValuesBatch
  rw [flatten_slices, List.take_of_length_le]
  omega

theorem ne_nil_of_mem_batchesOf {columns batch : List Text} (h : batch ∈ batchesOf columns) :
    batch ≠ [] := by
  obtain ⟨i, hi, rfl⟩ := List.mem_map.mp h
  rw [List.mem_range] at hi
  unfold topValuesBatch at hi ⊢
  intro hnil
  have hlength := congrArg List.length hnil
  rw [List.length_take, List.length_drop, List.length_nil] at hlength
  omega

/-- Whatever the batches and whichever of them are answered, a profile shows the top values that
the statement of each column alone gives, or is refused for the same identifier. -/
theorem batched_top_values_agree {β : Type} (sanitize : Option α → β) (wh : Warehouse α)
    (target : Target) (columns profiled : List Text) (topN : ℤ) (htop : 0 < topN)
    (aggregate : Aggregate α) :
    (∀ batches : List (List Text × Bool), (∀ batch ∈ batches, batch.1 ≠ []) →
      (batches.map Prod.fst).flatten = columns →
      (fetchBatches wh target topN batches).map
          (assembleProfile sanitize target profiled aggregate) =
        (topValuesPerColumn wh target columns topN).map
          (assembleProfile sanitize target profiled aggregate)) ∧
    ∀ answered : ℕ → Bool,
      (fetchTopValues wh target columns topN answered).map
          (assembleProfile sanitize target profiled aggregate) =
        (topValuesPerColumn wh target columns topN).map
          (assembleProfile sanitize target profiled aggregate) := by
  have hsplit : ∀ batches : List (List Text × Bool), (∀ batch ∈ batches, batch.1 ≠ []) →
      (batches.map Prod.fst).flatten = columns →
      (fetchBatches wh target topN batches).map
          (assembleProfile sanitize target profiled aggregate) =
        (topValuesPerColumn wh target columns topN).map
          (assembleProfile sanitize target profiled aggregate) := by
    intro batches hne hflatten
    have hempty : Gives (entriesOf wh target topN) [] [] :=
      ⟨fun _ _ h => (by cases h), fun _ h => (by cases h)⟩
    obtain ⟨found, hfound, hfetch⟩ := foldlM_fetchBatch wh target htop hne hempty
    rw [hflatten, List.nil_append] at hfound
    rw [fetchBatches, hfetch, hflatten, perColumn_eq]
    cases forM columns (checked target) with
    | error e => rfl
    | ok _ =>
      exact congrArg Except.ok (assembleProfile_congr hfound (dictOf_gives _ columns))
  refine ⟨hsplit, fun answered => ?_⟩
  have hpositive : ¬ topN < 1 := by omega
  unfold fetchTopValues
  rw [if_neg hpositive]
  split
  · next hnil =>
    subst hnil
    rfl
  · refine hsplit _ ?_ ?_
    · intro batch hbatch
      obtain ⟨⟨names, i⟩, hmem, rfl⟩ := List.mem_map.mp hbatch
      exact ne_nil_of_mem_batchesOf (List.fst_mem_of_mem_zipIdx hmem)
    · rw [List.map_map]
      have hfst : (Prod.fst ∘ fun batch : List Text × ℕ => (batch.1, answered batch.2)) =
          Prod.fst := rfl
      rw [hfst, List.zipIdx_map_fst, flatten_batchesOf]

/-- Two columns of one table, the second of them named twice; the batch is not answered. -/
theorem batched_top_values_agree_two :
    (fetchTopValues (α := ℕ) (fun _ => [fun c => if c.name = "a".toList then some 1 else none,
        fun _ => some 2]) ⟨"s".toList, "t".toList, none, false⟩
        ["a".toList, "b".toList, "b".toList] 5 (fun _ => false)).map
          (assembleProfile id ⟨"s".toList, "t".toList, none, false⟩ ["a".toList, "b".toList]
            ⟨2, fun _ => 0, fun _ => some 1, fun _ => none, fun _ => none⟩) =
      (topValuesPerColumn (α := ℕ) (fun _ =>
        [fun c => if c.name = "a".toList then some 1 else none,
        fun _ => some 2]) ⟨"s".toList, "t".toList, none, false⟩
        ["a".toList, "b".toList, "b".toList] 5).map
          (assembleProfile id ⟨"s".toList, "t".toList, none, false⟩ ["a".toList, "b".toList]
            ⟨2, fun _ => 0, fun _ => some 1, fun _ => none, fun _ => none⟩) :=
  (batched_top_values_agree id _ _ _ _ 5 (by decide) _).2 _

end DataQ.Profile
