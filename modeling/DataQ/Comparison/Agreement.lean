import DataQ.Comparison.Exchange
import Mathlib.Data.Fin.VecNotation

/-! # The grains agree

One theorem over both grains: what they count of an alignment, what a larger tolerance leaves
matched, and what the exchanged sides give. -/

namespace DataQ.Comparison
set_option autoImplicit false

/-! ## Larger tolerances -/

def Tolerance.AtMost (tol larger : Tolerance) : Prop :=
  tol.absolute ≤ larger.absolute ∧ tol.relative ≤ larger.relative

/-- No tolerance is the least. -/
def Looser : Option Tolerance → Option Tolerance → Prop
  | none, _ => True
  | some tol, some larger => tol.AtMost larger
  | some _, none => False

theorem Tolerance.AtMost.close {tol larger : Tolerance} (h : tol.AtMost larger) {a b : Number}
    (hclose : tol.close a b = true) : larger.close a b = true := by
  obtain ⟨habsolute, hrelative⟩ := h
  cases a with
  | nan => cases hclose
  | inf x =>
    cases b with
    | nan => cases hclose
    | inf y =>
      simp only [Tolerance.close, Bool.and_eq_true, decide_eq_true_eq] at hclose ⊢
      exact ⟨hclose.1, hclose.2.trans_le hrelative⟩
    | fin q =>
      simp only [Tolerance.close, decide_eq_true_eq] at hclose ⊢
      exact hclose.trans_le hrelative
  | fin p =>
    cases b with
    | nan => cases hclose
    | inf y =>
      simp only [Tolerance.close, decide_eq_true_eq] at hclose ⊢
      exact hclose.trans_le hrelative
    | fin q =>
      simp only [Tolerance.close, decide_eq_true_eq] at hclose ⊢
      have hsize : (0 : ℚ) ≤ max |p| |q| := (abs_nonneg p).trans (le_max_left _ _)
      exact hclose.trans (max_le_max habsolute (mul_le_mul_of_nonneg_right hrelative hsize))

section Rows
variable {m n : ℕ} {tolerance larger : Option Tolerance}

theorem NormalizedPair.equal_looser {pair : NormalizedPair m n} (h : Looser tolerance larger)
    {i : Fin m} {j : Fin n} (hequal : pair.equal tolerance i j = true) :
    pair.equal larger i j = true := by
  rw [NormalizedPair.equal, Bool.or_eq_true] at hequal ⊢
  refine hequal.imp id fun hnear => ?_
  obtain ⟨tol, nums, rfl, hnums, hclose⟩ := NormalizedPair.near_iff.mp hnear
  cases larger with
  | none => cases h
  | some larger => exact NormalizedPair.near_iff.mpr ⟨larger, nums, rfl, hnums, h.close hclose⟩

theorem matchedRows_looser {aligned : Aligned m n} (h : Looser tolerance larger) :
    ∀ rows ∈ matchedRows aligned tolerance, rows ∈ matchedRows aligned larger := by
  intro rows hrows
  rw [matchedRows_eq, List.mem_filter] at hrows ⊢
  refine ⟨hrows.1, ?_⟩
  simp only [Aligned.differs, Bool.not_eq_true', List.any_eq_false,
    Bool.not_eq_false] at hrows ⊢
  exact fun column hcolumn => NormalizedPair.equal_looser h (hrows.2 column hcolumn)

/-! ## Counts by column -/

/-- Columns of one name are of one pair. -/
def OfNames (columns : List (Paired m n)) (pairOf : Text → NormalizedPair m n) : Prop :=
  ∀ column ∈ columns, column.2 = pairOf column.1

theorem lookup_addColumn {both : List (Fin m × Fin n)} {acc : Mismatches} {column : Paired m n}
    {name : Text} :
    ((addColumn both tolerance acc column).counts.lookup name).getD 0 =
      if name = column.1 ∧ slotsApart both tolerance column.2 ≠ 0 then
        slotsApart both tolerance column.2
      else (acc.counts.lookup name).getD 0 := by
  rw [addColumn_eq]
  dsimp only
  by_cases hcount : slotsApart both tolerance column.2 = 0
  · rw [if_neg (not_not_intro hcount), if_neg fun h => h.2 hcount]
  · rw [if_pos hcount]
    by_cases hname : name = column.1
    · rw [if_pos ⟨hname, hcount⟩, hname, lookup_setField_self, Option.getD_some]
    · rw [if_neg fun h => hname h.1, lookup_setField_ne hname]

theorem lookup_foldl_addColumn {both : List (Fin m × Fin n)} {columns : List (Paired m n)}
    {pairOf : Text → NormalizedPair m n} (h : OfNames columns pairOf) (acc : Mismatches)
    (name : Text) :
    ((columns.foldl (addColumn both tolerance) acc).counts.lookup name).getD 0 =
      if name ∈ columns.map Prod.fst ∧ slotsApart both tolerance (pairOf name) ≠ 0 then
        slotsApart both tolerance (pairOf name)
      else (acc.counts.lookup name).getD 0 := by
  induction columns generalizing acc with
  | nil => simp
  | cons column columns ih =>
    have hcolumn := h column List.mem_cons_self
    rw [List.foldl_cons, ih fun c hc => h c (List.mem_cons_of_mem _ hc), lookup_addColumn, hcolumn]
    by_cases hname : name = column.1
    · subst hname
      by_cases hcount : slotsApart both tolerance (pairOf column.1) = 0
      · simp [hcount]
      · simp [hcount]
    · have hlater : name ∈ (column :: columns).map Prod.fst ↔ name ∈ columns.map Prod.fst := by
        rw [List.map_cons, List.mem_cons]
        exact or_iff_right hname
      simp only [hlater, hname, false_and, if_false]

theorem mismatchCount_eq {aligned : Aligned m n} {pairOf : Text → NormalizedPair m n}
    (h : OfNames aligned.compared pairOf) {column : Paired m n}
    (hcolumn : column ∈ aligned.compared) :
    ((mismatches aligned tolerance).counts.lookup column.1).getD 0 =
      slotsApart aligned.both tolerance column.2 := by
  have hname : column.1 ∈ aligned.compared.map Prod.fst := List.mem_map_of_mem hcolumn
  unfold mismatches
  split
  · rw [lookup_foldl_addColumn h, h column hcolumn]
    by_cases hcount : slotsApart aligned.both tolerance (pairOf column.1) = 0
    · rw [if_neg fun hc => hc.2 hcount, hcount]
      rfl
    · rw [if_pos ⟨hname, hcount⟩]
  · next hnone =>
    have hboth : aligned.both = [] := by
      by_contra hne
      exact hnone ⟨List.ne_nil_of_mem hcolumn, fun hzero => hne (List.length_eq_zero_iff.mp hzero)⟩
    rw [hboth]
    rfl

theorem perColumn_eq (aligned : Aligned m n) (tolerance : Option Tolerance) (sampleLimit : ℕ) :
    (slots aligned tolerance sampleLimit).perColumn = Winners.dictOf Prod.fst
      (fun column => (slotMasks aligned tolerance column.2).counts) aligned.compared :=
  (List.foldl_hom Slots.perColumn fun _ _ => rfl).symm

theorem lookup_perColumn {aligned : Aligned m n} {pairOf : Text → NormalizedPair m n}
    (h : OfNames aligned.compared pairOf) {column : Paired m n}
    (hcolumn : column ∈ aligned.compared) (sampleLimit : ℕ) :
    (slots aligned tolerance sampleLimit).perColumn.lookup column.1 =
      some (slotMasks aligned tolerance column.2).counts := by
  have hexists : ∃ winner ∈ aligned.compared,
      Winners.Wins Prod.fst aligned.compared winner ∧ winner.1 = column.1 :=
    Winners.exists_wins hcolumn
  obtain ⟨winner, hwinner, hwins, hname⟩ := hexists
  rw [perColumn_eq]
  apply Winners.lookup_eq_some.mpr
  refine ⟨winner, hwinner, hwins, hname, ?_⟩
  rw [h winner hwinner, h column hcolumn, hname]

/-! ## Totals -/

def SlotCounts.swap (counts : SlotCounts) : SlotCounts :=
  ⟨counts.matched, counts.mismatched, counts.additionalInTarget, counts.additionalInSource⟩

instance (f : Paired m n → SlotCounts) :
    RightCommutative fun (totals : SlotCounts) (column : Paired m n) => totals.add (f column) where
  right_comm a b c := by
    simp only [SlotCounts.add, SlotCounts.mk.injEq]
    omega

theorem totals_eq (aligned : Aligned m n) (tolerance : Option Tolerance) (sampleLimit : ℕ) :
    (slots aligned tolerance sampleLimit).totals = aligned.compared.foldl
      (fun totals column => totals.add (slotMasks aligned tolerance column.2).counts)
      ⟨0, 0, 0, 0⟩ :=
  (List.foldl_hom Slots.totals fun _ _ => rfl).symm

/-! ## The sides exchanged -/

variable {aligned : Aligned m n} {aligned' : Aligned n m}

theorem Exchanged.countP (h : Exchanged aligned aligned') {p : Fin n × Fin m → Bool}
    {q : Fin m × Fin n → Bool} (hpq : ∀ rows, p rows.swap = q rows) :
    aligned'.both.countP p = aligned.both.countP q := by
  rw [h.both.countP_eq, List.countP_map]
  congr 1
  funext rows
  exact hpq rows

theorem Exchanged.differs (h : Exchanged aligned aligned') (rows : Fin m × Fin n) :
    aligned'.differs tolerance rows.swap = aligned.differs tolerance rows := by
  rw [Aligned.differs, h.compared.any_eq, List.any_map, Aligned.differs]
  congr 1
  funext column
  exact congrArg not (column.2.equal_swap tolerance rows.1 rows.2)

theorem Exchanged.mismatched (h : Exchanged aligned aligned') :
    (mismatchedRows aligned' tolerance).length = (mismatchedRows aligned tolerance).length := by
  rw [mismatchedRows_eq, mismatchedRows_eq, ← List.countP_eq_length_filter,
    ← List.countP_eq_length_filter]
  exact h.countP h.differs

theorem Exchanged.length_both (h : Exchanged aligned aligned') :
    aligned'.both.length = aligned.both.length := by
  rw [h.both.length_eq, List.length_map]

theorem Exchanged.apart (h : Exchanged aligned aligned') (pair : NormalizedPair m n) :
    slotsApart aligned'.both tolerance pair.swap = slotsApart aligned.both tolerance pair :=
  h.countP fun rows => congrArg not (pair.equal_swap tolerance rows.1 rows.2)

theorem Exchanged.counts (h : Exchanged aligned aligned') (pair : NormalizedPair m n) :
    (slotMasks aligned' tolerance pair.swap).counts =
      (slotMasks aligned tolerance pair).counts.swap := by
  have hequal := fun rows : Fin m × Fin n => pair.equal_swap tolerance rows.1 rows.2
  rw [counts_slotMasks, counts_slotMasks, SlotCounts.swap]
  simp only [SlotCounts.mk.injEq]
  refine ⟨h.countP hequal, h.countP fun rows => ?_, ?_, ?_⟩
  · show ((pair.targetStr rows.2).isSome && (pair.sourceStr rows.1).isSome &&
      !pair.swap.equal tolerance rows.2 rows.1) = _
    rw [hequal rows, Bool.and_comm (pair.targetStr rows.2).isSome]
  · exact congrArg₂ (· + ·) (h.countP fun rows => rfl) (h.onlySrc.countP_eq _)
  · exact congrArg₂ (· + ·) (h.countP fun rows => rfl) (h.onlyTgt.countP_eq _)

theorem foldl_add_swap (counts : Paired m n → SlotCounts) (columns : List (Paired m n))
    (totals : SlotCounts) :
    columns.foldl (fun totals column => totals.add (counts column).swap) totals.swap =
      (columns.foldl (fun totals column => totals.add (counts column)) totals).swap := by
  induction columns generalizing totals with
  | nil => rfl
  | cons column columns ih => exact ih (totals.add (counts column))

theorem Exchanged.totals (h : Exchanged aligned aligned') (sampleLimit : ℕ) :
    (slots aligned' tolerance sampleLimit).totals =
      (slots aligned tolerance sampleLimit).totals.swap := by
  rw [totals_eq, totals_eq, h.compared.foldl_eq, List.foldl_map]
  have hcounts : (fun (totals : SlotCounts) (column : Paired m n) =>
      totals.add (slotMasks aligned' tolerance (swapColumn column).2).counts) =
        fun totals column => totals.add (slotMasks aligned tolerance column.2).counts.swap := by
    funext totals column
    rw [swapColumn, h.counts]
  rw [hcounts]
  exact foldl_add_swap _ aligned.compared ⟨0, 0, 0, 0⟩

end Rows

/-! ## Both grains -/

section Grains
variable {m n : ℕ}

/-- Every row is in one bucket, and the buckets of the paired rows are told by their columns. -/
structure RowsConserved (aligned : Aligned m n) (tolerance : Option Tolerance)
    (records : RecordComparisonResult) : Prop where
  paired : ∀ i j, (i, j) ∈ aligned.both ↔
    keyAt (sourceKeys aligned.keys) i = keyAt (targetKeys aligned.keys) j
  sourceRows : ((matchedRows aligned tolerance).map Prod.fst ++
    (mismatchedRows aligned tolerance).map Prod.fst ++ aligned.onlySrc).Perm (List.finRange m)
  targetRows : ((matchedRows aligned tolerance).map Prod.snd ++
    (mismatchedRows aligned tolerance).map Prod.snd ++ aligned.onlyTgt).Perm (List.finRange n)
  matched : records.matched = (matchedRows aligned tolerance).length
  mismatched : records.mismatched = (mismatchedRows aligned tolerance).length
  additionalInSource : records.additionalInSource = aligned.onlySrc.length
  additionalInTarget : records.additionalInTarget = aligned.onlyTgt.length
  apart : ∀ rows ∈ aligned.both, rows ∈ mismatchedRows aligned tolerance ↔
    ∃ column ∈ aligned.compared, column.2.equal tolerance rows.1 rows.2 = false

/-- The slots of a column over the paired rows, as both grains count them. -/
structure SlotsAgree (aligned : Aligned m n) (records : RecordComparisonResult)
    (column : Paired m n) (counts : SlotCounts) : Prop where
  sourceSlots : counts.additionalInSource = sourceSlots aligned.both column.2 +
    aligned.onlySrc.countP fun i => (column.2.sourceStr i).isSome
  targetSlots : counts.additionalInTarget = targetSlots aligned.both column.2 +
    aligned.onlyTgt.countP fun j => (column.2.targetStr j).isSome
  conserved : counts.matched + counts.mismatched + Comparison.sourceSlots aligned.both column.2 +
    Comparison.targetSlots aligned.both column.2 = aligned.both.length
  agreed : counts.mismatched + Comparison.sourceSlots aligned.both column.2 +
    Comparison.targetSlots aligned.both column.2 =
      (records.columnMismatchCounts.lookup column.1).getD 0

/-- The exchanged sides have the same counts, with the one-sided ones exchanged. -/
structure Mirrored (aligned : Aligned m n) (aligned' : Aligned n m) (tolerance : Option Tolerance)
    (sampleLimit : ℕ) : Prop where
  matched : (recordComparison aligned' tolerance sampleLimit).matched =
    (recordComparison aligned tolerance sampleLimit).matched
  mismatched : (recordComparison aligned' tolerance sampleLimit).mismatched =
    (recordComparison aligned tolerance sampleLimit).mismatched
  additionalInSource : (recordComparison aligned' tolerance sampleLimit).additionalInSource =
    (recordComparison aligned tolerance sampleLimit).additionalInTarget
  additionalInTarget : (recordComparison aligned' tolerance sampleLimit).additionalInTarget =
    (recordComparison aligned tolerance sampleLimit).additionalInSource
  mismatchCounts : ∀ column ∈ aligned.compared,
    ((recordComparison aligned' tolerance sampleLimit).columnMismatchCounts.lookup
      column.1).getD 0 =
    ((recordComparison aligned tolerance sampleLimit).columnMismatchCounts.lookup column.1).getD 0
  totals : (columnComparison aligned' tolerance sampleLimit).totals =
    (columnComparison aligned tolerance sampleLimit).totals.swap
  perColumn : ∀ column ∈ aligned.compared,
    (columnComparison aligned' tolerance sampleLimit).perColumn.lookup column.1 =
      ((columnComparison aligned tolerance sampleLimit).perColumn.lookup column.1).map
        SlotCounts.swap

variable {S : ℕ → Type} {pd : Pandas S} {source : Columns S m} {target : Columns S n}
  {keyCols valueCols : List Text} {aligned : Aligned m n} {aligned' : Aligned n m}

theorem Aligns.ofNames (h : Aligns pd source target keyCols valueCols aligned) :
    OfNames aligned.compared fun name => (pairedColumn pd source target name).2 := by
  intro column hcolumn
  rw [h.compared] at hcolumn
  obtain ⟨name, -, rfl⟩ := List.mem_map.mp hcolumn
  dsimp only
  rw [pairedColumn_fst]

theorem Aligns.numbered (hpd : pd.KeepsNumbers)
    (h : Aligns pd source target keyCols valueCols aligned) {column : Paired m n}
    (hcolumn : column ∈ aligned.compared) : column.2.Numbered := by
  rw [h.compared] at hcolumn
  obtain ⟨name, hname, rfl⟩ := List.mem_map.mp hcolumn
  obtain ⟨hsource, htarget⟩ := h.found name (List.mem_append_right _ hname)
  obtain ⟨s, hs⟩ := Option.isSome_iff_exists.mp hsource
  obtain ⟨t, ht⟩ := Option.isSome_iff_exists.mp htarget
  unfold pairedColumn
  rw [hs, ht]
  exact numbered_normalizePair hpd s t

theorem Aligns.rowsConserved (h : Aligns pd source target keyCols valueCols aligned)
    (tolerance : Option Tolerance) (sampleLimit : ℕ) :
    RowsConserved aligned tolerance (recordComparison aligned tolerance sampleLimit) := by
  have hperm := matched_append_mismatched aligned tolerance
  have hsplit : ∀ {α : Type} (f : Fin m × Fin n → α),
      ((matchedRows aligned tolerance).map f ++ (mismatchedRows aligned tolerance).map f).Perm
        (aligned.both.map f) := by
    intro α f
    rw [← List.map_append]
    exact hperm.map f
  refine ⟨?_, ?_, ?_, ?_, rfl, rfl, rfl, ?_⟩
  · intro i j
    rw [h.both]
    exact OuterMerge.mem_pairs
  · refine ((hsplit Prod.fst).append_right _).trans ?_
    rw [h.both, h.onlySrc]
    exact OuterMerge.left_partition h.targetUnique
  · refine ((hsplit Prod.snd).append_right _).trans ?_
    rw [h.both, h.onlyTgt]
    exact OuterMerge.right_partition h.sourceUnique
  · show aligned.both.length - (mismatchedRows aligned tolerance).length = _
    have hlength := hperm.length_eq
    rw [List.length_append] at hlength
    omega
  · intro rows hrows
    rw [mismatchedRows_eq, List.mem_filter, Aligned.differs, List.any_eq_true]
    simp only [hrows, true_and, Bool.not_eq_true']

theorem Aligns.slotsAgree (hpd : pd.KeepsNumbers)
    (h : Aligns pd source target keyCols valueCols aligned) {column : Paired m n}
    (hcolumn : column ∈ aligned.compared) (tolerance : Option Tolerance) (sampleLimit : ℕ) :
    ∃ counts, (columnComparison aligned tolerance sampleLimit).perColumn.lookup column.1 =
        some counts ∧
      SlotsAgree aligned (recordComparison aligned tolerance sampleLimit) column counts := by
  refine ⟨_, lookup_perColumn h.ofNames hcolumn sampleLimit, ?_⟩
  have hconserved := slots_conserved (h.numbered hpd hcolumn) aligned.both tolerance
  have hmismatch : ((mismatches aligned tolerance).counts.lookup column.1).getD 0 =
      slotsApart aligned.both tolerance column.2 := mismatchCount_eq h.ofNames hcolumn
  have hall := slots_complete aligned.both tolerance column.2
  rw [counts_slotMasks]
  refine ⟨rfl, rfl, ?_, ?_⟩
  · dsimp only
    omega
  · exact hconserved.symm.trans hmismatch.symm

theorem Exchanged.mirrored (h : Exchanged aligned aligned')
    {pairOf : Text → NormalizedPair m n} (hone : OfNames aligned.compared pairOf)
    {pairOf' : Text → NormalizedPair n m} (hone' : OfNames aligned'.compared pairOf')
    (tolerance : Option Tolerance) (sampleLimit : ℕ) :
    Mirrored aligned aligned' tolerance sampleLimit := by
  have hback : ∀ column ∈ aligned.compared, swapColumn column ∈ aligned'.compared :=
    fun column hcolumn => h.compared.mem_iff.mpr (List.mem_map_of_mem hcolumn)
  refine ⟨?_, h.mismatched, h.onlySrc.length_eq, h.onlyTgt.length_eq, ?_, h.totals sampleLimit, ?_⟩
  · show aligned'.both.length - _ = aligned.both.length - _
    rw [h.length_both, h.mismatched]
  · intro column hcolumn
    have hcount' : ((mismatches aligned' tolerance).counts.lookup column.1).getD 0 =
        slotsApart aligned'.both tolerance column.2.swap :=
      mismatchCount_eq hone' (hback column hcolumn)
    have hcount : ((mismatches aligned tolerance).counts.lookup column.1).getD 0 =
        slotsApart aligned.both tolerance column.2 := mismatchCount_eq hone hcolumn
    exact hcount'.trans ((h.apart column.2).trans hcount.symm)
  · intro column hcolumn
    have hcounts' : (slots aligned' tolerance sampleLimit).perColumn.lookup column.1 =
        some (slotMasks aligned' tolerance column.2.swap).counts :=
      lookup_perColumn hone' (hback column hcolumn) sampleLimit
    have hcounts : (slots aligned tolerance sampleLimit).perColumn.lookup column.1 =
        some (slotMasks aligned tolerance column.2).counts :=
      lookup_perColumn hone hcolumn sampleLimit
    show (slots aligned' tolerance sampleLimit).perColumn.lookup column.1 =
      ((slots aligned tolerance sampleLimit).perColumn.lookup column.1).map SlotCounts.swap
    rw [hcounts', hcounts, h.counts, Option.map_some]

end Grains

section Frames
variable {S : ℕ → Type} {pd : Pandas S} {source target : Frame S} {keys : List Key}
  {columns : Option (List Text)} {aligned : Aligned source.rows target.rows}

theorem aligns_of_align (h : align pd source target keys columns = .ok aligned) :
    ∃ plan, Planned source.columns target.columns (normalizeKeys keys) columns plan ∧
      Aligns pd source.columns (rename (normalizeKeys keys) target.columns)
        (keyNames (normalizeKeys keys)) plan.compared aligned := by
  obtain ⟨plan, hplan, hrows⟩ := Fallible.bind_eq_ok.mp h
  exact ⟨plan, planned_of_ok hplan, alignRows_aligns hrows⟩

theorem grains_conserve_and_agree (hpd : pd.KeepsNumbers)
    (h : align pd source target keys columns = .ok aligned) (tolerance : Option Tolerance)
    (sampleLimit : ℕ) :
    let records := recordComparison aligned tolerance sampleLimit
    let slots := columnComparison aligned tolerance sampleLimit
    compareRecords pd source target keys columns tolerance sampleLimit = .ok records ∧
    (aligned.compared ≠ [] →
      compareColumns pd source target keys columns tolerance sampleLimit = .ok slots) ∧
    RowsConserved aligned tolerance records ∧
    (∀ column ∈ aligned.compared, ∃ counts, slots.perColumn.lookup column.1 = some counts ∧
      SlotsAgree aligned records column counts) ∧
    (∀ larger, Looser tolerance larger →
      ∀ rows ∈ matchedRows aligned tolerance, rows ∈ matchedRows aligned larger) ∧
    ∀ aligned', align pd target source (keys.map Key.swap) columns = .ok aligned' →
      Mirrored aligned aligned' tolerance sampleLimit := by
  obtain ⟨plan, hplan, haligns⟩ := aligns_of_align h
  refine ⟨?_, ?_, haligns.rowsConserved tolerance sampleLimit, ?_, ?_, ?_⟩
  · rw [compareRecords, h]
    rfl
  · intro hcompared
    rw [compareColumns, h]
    show (if aligned.compared = [] then _ else _) = _
    rw [if_neg hcompared]
    rfl
  · intro column hcolumn
    exact haligns.slotsAgree hpd hcolumn tolerance sampleLimit
  · intro larger hlooser
    exact matchedRows_looser hlooser
  · intro aligned' h'
    obtain ⟨plan', hplan', haligns'⟩ := aligns_of_align h'
    rw [normalizeKeys_swap] at hplan' haligns'
    have hexchanged := exchanged_of_aligns hplan hplan' haligns haligns'
    exact hexchanged.mirrored haligns.ofNames haligns'.ofNames tolerance sampleLimit

/-- Series of texts are compared as they are. -/
def texts : Pandas fun n => Fin n → Option Text where
  isDatetime64 _ := false
  arrowType _ := none
  isNumeric _ := false
  isBool _ := false
  isInteger _ := false
  isna s i := (s i).isNone
  toDatetime _ _ := none
  toNumeric _ _ := none
  hasZone _ := false
  asDatetime s := s
  asDatetimeUtc s := s
  toNaiveUtc s := s
  strftime s := s
  asInt64 _ := none
  asFloat64 s := s
  strings s := s
  numbers _ _ := .nan

theorem grains_conserve_and_agree_orders :
    let source : Frame fun n => Fin n → Option Text := ⟨2, [
      ("order_id".toList, ![some "1".toList, some "2".toList]),
      ("status".toList, ![some "open".toList, none])]⟩
    let target : Frame fun n => Fin n → Option Text := ⟨2, [
      ("status".toList, ![some "paid".toList, some "sent".toList]),
      ("oid".toList, ![some "2".toList, some "3".toList])]⟩
    ∃ aligned, align texts source target [.mapped "order_id".toList "oid".toList] none =
        .ok aligned ∧
      RowsConserved aligned none (recordComparison aligned none sampleLimitDefault) := by
  intro source target
  have hok : (align texts source target [.mapped "order_id".toList "oid".toList] none).isOk =
      true := by decide +kernel
  obtain ⟨aligned, haligned⟩ : ∃ aligned, align texts source target
      [.mapped "order_id".toList "oid".toList] none = .ok aligned := by
    cases haligned : align texts source target [.mapped "order_id".toList "oid".toList] none with
    | error e =>
      rw [haligned] at hok
      cases hok
    | ok aligned => exact ⟨aligned, rfl⟩
  have hpd : texts.KeepsNumbers := fun _ _ h => absurd rfl h
  exact ⟨aligned, haligned,
    (grains_conserve_and_agree hpd haligned none sampleLimitDefault).2.2.1⟩

end Frames

end DataQ.Comparison
