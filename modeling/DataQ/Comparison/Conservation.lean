import DataQ.Comparison.Grains

/-! # What the two grains count

The masks of both grains are predicates on the paired rows. From these: every row is in one bucket,
every slot of a paired row is in one bucket, and the two grains tell the same slots apart. -/

namespace DataQ.Comparison
set_option autoImplicit false

section Alignments
variable {S : ℕ → Type} {pd : Pandas S} {m n : ℕ} {source : Columns S m} {target : Columns S n}

/-- A column of both sides, as far as both have it. -/
def pairedColumn (pd : Pandas S) (source : Columns S m) (target : Columns S n) (name : Text) :
    Paired m n :=
  match column? source name, column? target name with
  | some s, some t => (name, normalizePair pd s t)
  | _, _ => (name, ⟨fun _ => none, fun _ => none, none⟩)

theorem pairedColumn_fst (pd : Pandas S) (source : Columns S m) (target : Columns S n)
    (name : Text) : (pairedColumn pd source target name).1 = name := by
  unfold pairedColumn
  split <;> rfl

def mergedKeys (aligned : Aligned m n) : List (OuterMerge.Row m n) :=
  OuterMerge.merge keyOrdered (keyAt (sourceKeys aligned.keys)) (keyAt (targetKeys aligned.keys))

/-- What an alignment over these columns is. -/
structure Aligns (pd : Pandas S) (source : Columns S m) (target : Columns S n)
    (keyCols valueCols : List Text) (aligned : Aligned m n) : Prop where
  keys : aligned.keys = keyCols.map (pairedColumn pd source target)
  compared : aligned.compared = valueCols.map (pairedColumn pd source target)
  found : ∀ name ∈ keyCols ++ valueCols,
    (column? source name).isSome = true ∧ (column? target name).isSome = true
  sourceUnique : Function.Injective (keyAt (sourceKeys aligned.keys))
  targetUnique : Function.Injective (keyAt (targetKeys aligned.keys))
  both : aligned.both = OuterMerge.pairs (mergedKeys aligned)
  onlySrc : aligned.onlySrc = OuterMerge.leftOnly (mergedKeys aligned)
  onlyTgt : aligned.onlyTgt = OuterMerge.rightOnly (mergedKeys aligned)

theorem normalizeColumn_eq_ok {name : Text} {column : Paired m n} :
    normalizeColumn pd source target name = .ok column ↔
      (column? source name).isSome = true ∧ (column? target name).isSome = true ∧
        column = pairedColumn pd source target name := by
  unfold normalizeColumn pairedColumn
  cases column? source name <;> cases column? target name <;> simp [eq_comm]

theorem normalizeColumns {wanted : List Text} {columns : List (Paired m n)}
    (h : wanted.mapM (normalizeColumn pd source target) = .ok columns) :
    columns = wanted.map (pairedColumn pd source target) ∧ ∀ name ∈ wanted,
      (column? source name).isSome = true ∧ (column? target name).isSome = true := by
  refine ⟨Fallible.mapM_eq_ok_map (fun name column hcolumn => ?_) h, ?_⟩
  · exact (normalizeColumn_eq_ok.mp hcolumn).2.2
  · intro name hname
    obtain ⟨column, -, hcolumn⟩ := Fallible.mapM_eq_ok_mem h hname
    obtain ⟨hsource, htarget, -⟩ := normalizeColumn_eq_ok.mp hcolumn
    exact ⟨hsource, htarget⟩

theorem rejectDuplicateKeys_eq_ok {frame : KeyFrame n} {side : Side} {u : Unit}
    (h : rejectDuplicateKeys frame side = .ok u) : Function.Injective (keyAt frame) := by
  unfold rejectDuplicateKeys at h
  split at h
  · next hnodup =>
    intro i j hij
    exact List.inj_on_of_nodup_map hnodup (List.mem_finRange i) (List.mem_finRange j) hij
  · cases h

theorem alignRows_aligns {keyCols : List Text} {plan : ColumnPlan} {aligned : Aligned m n}
    (h : alignRows pd source target keyCols plan = .ok aligned) :
    Aligns pd source target keyCols plan.compared aligned := by
  obtain ⟨keys, hkeys, h⟩ := Fallible.bind_eq_ok.mp h
  obtain ⟨compared, hcompared, h⟩ := Fallible.bind_eq_ok.mp h
  obtain ⟨_, -, h⟩ := Fallible.bind_eq_ok.mp h
  obtain ⟨_, -, h⟩ := Fallible.bind_eq_ok.mp h
  obtain ⟨_, hsource, h⟩ := Fallible.bind_eq_ok.mp h
  obtain ⟨_, htarget, h⟩ := Fallible.bind_eq_ok.mp h
  obtain ⟨-, h⟩ | ⟨-, h⟩ := Fallible.guard_eq_ok.mp h
  · cases h
  · obtain rfl := Fallible.pure_eq_ok.mp h
    obtain ⟨hkeys, hfoundKeys⟩ := normalizeColumns hkeys
    obtain ⟨hcompared, hfound⟩ := normalizeColumns hcompared
    refine ⟨hkeys, hcompared, ?_, rejectDuplicateKeys_eq_ok hsource,
      rejectDuplicateKeys_eq_ok htarget, rfl, rfl, rfl⟩
    intro name hname
    obtain hname | hname := List.mem_append.mp hname
    · exact hfoundKeys name hname
    · exact hfound name hname

end Alignments

section Masks
variable {m n : ℕ} {both : List (Fin m × Fin n)} {aligned : Aligned m n}
variable {tolerance : Option Tolerance}

theorem pairEquality_eq (both : List (Fin m × Fin n)) (pair : NormalizedPair m n)
    (tolerance : Option Tolerance) :
    pairEquality both pair tolerance =
      (both.map fun rows => pair.equal tolerance rows.1 rows.2,
        both.map fun rows => pair.sourceStr rows.1,
        both.map fun rows => pair.targetStr rows.2) := by
  unfold pairEquality NormalizedPair.equal NormalizedPair.near
  cases tolerance with
  | none => simp [List.zipWith_map]
  | some tol => cases pair.nums <;> simp [List.zipWith_map]

theorem rowsWhere_map {α : Type} (rows : List α) (p : α → Bool) :
    rowsWhere rows (rows.map p) = rows.filter p := by
  rw [rowsWhere, Partition.indices_map]
  exact Partition.pick_indices rows p

/-- Whether some compared column tells two rows apart. -/
def Aligned.differs (aligned : Aligned m n) (tolerance : Option Tolerance)
    (rows : Fin m × Fin n) : Bool :=
  aligned.compared.any fun column => !column.2.equal tolerance rows.1 rows.2

/-- How many pairs of rows a column tells apart. -/
def slotsApart (both : List (Fin m × Fin n)) (tolerance : Option Tolerance)
    (pair : NormalizedPair m n) : ℕ :=
  both.countP fun rows => !pair.equal tolerance rows.1 rows.2

theorem addColumn_eq (acc : Mismatches) (column : Paired m n) :
    addColumn both tolerance acc column =
      ⟨if slotsApart both tolerance column.2 ≠ 0 then
          setField column.1 (slotsApart both tolerance column.2) acc.counts
        else acc.counts,
        List.zipWith or acc.neqAny
          (both.map fun rows => !column.2.equal tolerance rows.1 rows.2)⟩ := by
  have hcount : ((both.map fun rows => column.2.equal tolerance rows.1 rows.2).map not).count true =
      slotsApart both tolerance column.2 := by
    rw [slotsApart, List.map_map, List.count_eq_countP, List.countP_map]
    congr 1
    funext rows
    simp
  rw [addColumn, pairEquality_eq]
  dsimp only
  rw [hcount, List.map_map]
  rfl

theorem foldl_addColumn_neqAny (columns : List (Paired m n)) {acc : Mismatches}
    {p : Fin m × Fin n → Bool} (h : acc.neqAny = both.map p) :
    (columns.foldl (addColumn both tolerance) acc).neqAny =
      both.map fun rows => p rows ||
        columns.any fun column => !column.2.equal tolerance rows.1 rows.2 := by
  induction columns generalizing acc p with
  | nil => simpa using h
  | cons column columns ih =>
    rw [List.foldl_cons]
    have hnext : (addColumn both tolerance acc column).neqAny =
        both.map fun rows => p rows || !column.2.equal tolerance rows.1 rows.2 := by
      rw [addColumn_eq, h]
      simp [List.zipWith_map]
    rw [ih hnext]
    simp only [List.any_cons, Bool.or_assoc]

theorem neqAny_eq (aligned : Aligned m n) (tolerance : Option Tolerance) :
    (mismatches aligned tolerance).neqAny = aligned.both.map (aligned.differs tolerance) := by
  have hzeros : List.replicate aligned.both.length false =
      aligned.both.map fun _ => false := List.map_const'.symm
  unfold mismatches
  split
  · rw [foldl_addColumn_neqAny aligned.compared hzeros]
    simp [Aligned.differs]
  · next hnone =>
    rw [not_and_or, not_not, not_not] at hnone
    rw [hzeros]
    apply List.map_congr_left
    intro rows hrows
    obtain hcompared | hboth := hnone
    · rw [Aligned.differs, hcompared]
      rfl
    · rw [List.length_eq_zero_iff.mp hboth] at hrows
      cases hrows

theorem mismatchedRows_eq (aligned : Aligned m n) (tolerance : Option Tolerance) :
    mismatchedRows aligned tolerance = aligned.both.filter (aligned.differs tolerance) := by
  rw [mismatchedRows, neqAny_eq, rowsWhere_map]

/-- The pairs of rows that are left. -/
def matchedRows (aligned : Aligned m n) (tolerance : Option Tolerance) : List (Fin m × Fin n) :=
  rowsWhere aligned.both ((mismatches aligned tolerance).neqAny.map not)

theorem matchedRows_eq (aligned : Aligned m n) (tolerance : Option Tolerance) :
    matchedRows aligned tolerance =
      aligned.both.filter fun rows => !aligned.differs tolerance rows := by
  rw [matchedRows, neqAny_eq, List.map_map]
  exact rowsWhere_map _ _

theorem matched_append_mismatched (aligned : Aligned m n) (tolerance : Option Tolerance) :
    (matchedRows aligned tolerance ++ mismatchedRows aligned tolerance).Perm aligned.both := by
  rw [matchedRows_eq, mismatchedRows_eq]
  have hperm := List.filter_append_perm (fun rows => !aligned.differs tolerance rows) aligned.both
  simpa only [Bool.not_not] using hperm

/-! ## Slots -/

/-- The one-sided slots of the paired rows. -/
def sourceSlots (both : List (Fin m × Fin n)) (pair : NormalizedPair m n) : ℕ :=
  both.countP fun rows => (pair.sourceStr rows.1).isSome && !(pair.targetStr rows.2).isSome

def targetSlots (both : List (Fin m × Fin n)) (pair : NormalizedPair m n) : ℕ :=
  both.countP fun rows => (pair.targetStr rows.2).isSome && !(pair.sourceStr rows.1).isSome

theorem count_true_map {α : Type} (rows : List α) (p : α → Bool) :
    (rows.map p).count true = rows.countP p := by
  rw [List.count_eq_countP, List.countP_map]
  congr 1
  funext row
  simp

theorem counts_slotMasks (aligned : Aligned m n) (tolerance : Option Tolerance)
    (pair : NormalizedPair m n) :
    (slotMasks aligned tolerance pair).counts =
      { matched := aligned.both.countP fun rows => pair.equal tolerance rows.1 rows.2
        mismatched := aligned.both.countP fun rows => ((pair.sourceStr rows.1).isSome &&
          (pair.targetStr rows.2).isSome) && !pair.equal tolerance rows.1 rows.2
        additionalInSource := sourceSlots aligned.both pair +
          aligned.onlySrc.countP fun i => (pair.sourceStr i).isSome
        additionalInTarget := targetSlots aligned.both pair +
          aligned.onlyTgt.countP fun j => (pair.targetStr j).isSome } := by
  unfold slotMasks SlotMasks.counts sourceSlots targetSlots
  rw [pairEquality_eq]
  simp only [List.map_map, List.zipWith_map, Function.comp_def, List.zipWith_self,
    count_true_map]

theorem slots_complete (both : List (Fin m × Fin n)) (tolerance : Option Tolerance)
    (pair : NormalizedPair m n) :
    (both.countP fun rows => pair.equal tolerance rows.1 rows.2) +
      slotsApart both tolerance pair = both.length := by
  rw [slotsApart, List.length_eq_countP_add_countP fun rows => pair.equal tolerance rows.1 rows.2]
  congr 2
  funext rows
  simp

/-- Each slot of a paired row is matched, mismatched or null on one side. -/
theorem slots_conserved {pair : NormalizedPair m n} (hpair : pair.Numbered)
    (both : List (Fin m × Fin n)) (tolerance : Option Tolerance) :
    slotsApart both tolerance pair =
      (both.countP fun rows => ((pair.sourceStr rows.1).isSome &&
        (pair.targetStr rows.2).isSome) && !pair.equal tolerance rows.1 rows.2) +
        sourceSlots both pair + targetSlots both pair := by
  induction both with
  | nil => rfl
  | cons rows both ih =>
    have hnulls : pair.equal tolerance rows.1 rows.2 = true →
        (pair.sourceStr rows.1).isSome = (pair.targetStr rows.2).isSome := hpair.equal_nulls
    have hsame : pair.sourceStr rows.1 = pair.targetStr rows.2 →
        pair.equal tolerance rows.1 rows.2 = true := fun h => by
      rw [NormalizedPair.equal, sameValue_iff.mpr h, Bool.true_or]
    unfold slotsApart sourceSlots targetSlots at ih ⊢
    simp only [List.countP_cons, ih]
    cases hs : pair.sourceStr rows.1 <;> cases ht : pair.targetStr rows.2 <;>
      cases he : pair.equal tolerance rows.1 rows.2 <;> simp_all <;> omega

end Masks

end DataQ.Comparison
