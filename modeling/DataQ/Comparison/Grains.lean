import DataQ.Comparison.Alignment
import DataQ.Foundations.Partition
import Mathlib.Algebra.Order.Group.Nat

/-! # The two grains

`compare_records` counts pairs of rows, `compare_columns` the slots of each compared column; both go
over the masks of one alignment. -/

namespace DataQ.Comparison
set_option autoImplicit false

/-- `SAMPLE_LIMIT`. -/
def sampleLimitDefault : ℕ := 20

/-- A sample row, by column. -/
abbrev Sample := List (Text × Option Text)

structure RecordComparisonResult where
  sourceRows : ℕ
  targetRows : ℕ
  matched : ℕ
  mismatched : ℕ
  additionalInSource : ℕ
  additionalInTarget : ℕ
  /-- Before it is rounded to four places. -/
  mismatchPercent : ℚ
  columnsCompared : List Text
  columnsOnlyInSource : List Text
  columnsOnlyInTarget : List Text
  columnMismatchCounts : List (Text × ℕ)
  sampleMismatched : List Sample
  sampleAdditionalInSource : List Sample
  sampleAdditionalInTarget : List Sample

/-- `RecordComparisonResult.success`. -/
def RecordComparisonResult.success (result : RecordComparisonResult) : Bool :=
  result.mismatched = 0 && result.additionalInSource = 0 && result.additionalInTarget = 0

structure SlotCounts where
  matched : ℕ
  mismatched : ℕ
  additionalInSource : ℕ
  additionalInTarget : ℕ
  deriving DecidableEq

structure ColumnComparisonResult where
  sourceRows : ℕ
  targetRows : ℕ
  totals : SlotCounts
  /-- Before it is rounded to four places. -/
  mismatchPercent : ℚ
  columnsCompared : List Text
  columnsOnlyInSource : List Text
  columnsOnlyInTarget : List Text
  perColumn : List (Text × SlotCounts)
  sampleMismatched : List Sample
  sampleAdditionalInSource : List Sample
  sampleAdditionalInTarget : List Sample

/-- `ColumnComparisonResult.success`. -/
def ColumnComparisonResult.success (result : ColumnComparisonResult) : Bool :=
  result.totals.mismatched = 0 && result.totals.additionalInSource = 0 &&
    result.totals.additionalInTarget = 0

section Masks
variable {m n : ℕ}

/-- Later values of a name replace earlier ones. -/
def sampleRow (fields : Sample) : Sample :=
  fields.foldl (fun row entry => setField entry.1 entry.2 row) []

/-- `_pair_equality`: the mask over the paired rows, and their values on both sides. -/
def pairEquality (both : List (Fin m × Fin n)) (pair : NormalizedPair m n)
    (tolerance : Option Tolerance) : List Bool × List (Option Text) × List (Option Text) :=
  let s := both.map fun rows => pair.sourceStr rows.1
  let t := both.map fun rows => pair.targetStr rows.2
  let eq := List.zipWith sameValue s t
  match tolerance, pair.nums with
  | some tol, some nums =>
    let a := both.map fun rows => nums.1 rows.1
    let b := both.map fun rows => nums.2 rows.2
    (List.zipWith or eq (List.zipWith tol.close a b), s, t)
  | _, _ => (eq, s, t)

/-! ## Records -/

/-- What the loop over the compared columns holds. -/
structure Mismatches where
  counts : List (Text × ℕ)
  neqAny : List Bool

def addColumn (both : List (Fin m × Fin n)) (tolerance : Option Tolerance) (acc : Mismatches)
    (column : Paired m n) : Mismatches :=
  let neq := (pairEquality both column.2 tolerance).1.map not
  let count := neq.count true
  ⟨if count ≠ 0 then setField column.1 count acc.counts else acc.counts,
    List.zipWith or acc.neqAny neq⟩

def mismatches (aligned : Aligned m n) (tolerance : Option Tolerance) : Mismatches :=
  let zeros : Mismatches := ⟨[], List.replicate aligned.both.length false⟩
  if aligned.compared ≠ [] ∧ aligned.both.length ≠ 0 then
    aligned.compared.foldl (addColumn aligned.both tolerance) zeros
  else zeros

/-- `np.flatnonzero(mask)`, as the rows themselves. -/
def rowsWhere {α : Type} (rows : List α) (mask : List Bool) : List α :=
  Partition.pick rows (Partition.indices mask id)

def percent (bad all : ℕ) : ℚ := if all ≠ 0 then (bad / all : ℚ) * 100 else 0

def keySample (aligned : Aligned m n) (i : Fin m) : Sample :=
  aligned.keys.map fun column => (column.1, column.2.sourceStr i)

def keySampleTarget (aligned : Aligned m n) (j : Fin n) : Sample :=
  aligned.keys.map fun column => (column.1, column.2.targetStr j)

def mismatchSample (aligned : Aligned m n) (rows : Fin m × Fin n) : Sample :=
  sampleRow (keySample aligned rows.1 ++ aligned.compared.flatMap fun column =>
    [(suffixed column.1 "_src", column.2.sourceStr rows.1),
      (suffixed column.1 "_tgt", column.2.targetStr rows.2)])

def sourceSample (aligned : Aligned m n) (i : Fin m) : Sample :=
  sampleRow (keySample aligned i ++ aligned.compared.map fun column =>
    (suffixed column.1 "_src", column.2.sourceStr i))

def targetSample (aligned : Aligned m n) (j : Fin n) : Sample :=
  sampleRow (keySampleTarget aligned j ++ aligned.compared.map fun column =>
    (suffixed column.1 "_tgt", column.2.targetStr j))

/-- The pairs of rows that some compared column tells apart. -/
def mismatchedRows (aligned : Aligned m n) (tolerance : Option Tolerance) : List (Fin m × Fin n) :=
  rowsWhere aligned.both (mismatches aligned tolerance).neqAny

/-- The rest of `compare_records`. -/
def recordComparison (aligned : Aligned m n) (tolerance : Option Tolerance) (sampleLimit : ℕ) :
    RecordComparisonResult :=
  let bad := mismatchedRows aligned tolerance
  let mismatched := bad.length
  let matched := aligned.both.length - mismatched
  let addSrc := aligned.onlySrc.length
  let addTgt := aligned.onlyTgt.length
  { sourceRows := m
    targetRows := n
    matched := matched
    mismatched := mismatched
    additionalInSource := addSrc
    additionalInTarget := addTgt
    mismatchPercent :=
      percent (mismatched + addSrc + addTgt) (matched + mismatched + addSrc + addTgt)
    columnsCompared := aligned.compared.map Prod.fst
    columnsOnlyInSource := aligned.onlySourceCols
    columnsOnlyInTarget := aligned.onlyTargetCols
    columnMismatchCounts := (mismatches aligned tolerance).counts
    sampleMismatched := (bad.take sampleLimit).map (mismatchSample aligned)
    sampleAdditionalInSource := (aligned.onlySrc.take sampleLimit).map (sourceSample aligned)
    sampleAdditionalInTarget := (aligned.onlyTgt.take sampleLimit).map (targetSample aligned) }

/-! ## Columns -/

/-- The masks of a compared column: over the paired rows, and over those of one side only. -/
structure SlotMasks where
  eq : List Bool
  mism : List Bool
  addSrcPaired : List Bool
  addTgtPaired : List Bool
  onlySrc : List Bool
  onlyTgt : List Bool

def slotMasks (aligned : Aligned m n) (tolerance : Option Tolerance) (pair : NormalizedPair m n) :
    SlotMasks :=
  let (eq, s, t) := pairEquality aligned.both pair tolerance
  let sHas := s.map Option.isSome
  let tHas := t.map Option.isSome
  { eq := eq
    mism := List.zipWith and (List.zipWith and sHas tHas) (eq.map not)
    addSrcPaired := List.zipWith and sHas (tHas.map not)
    addTgtPaired := List.zipWith and tHas (sHas.map not)
    onlySrc := aligned.onlySrc.map fun i => (pair.sourceStr i).isSome
    onlyTgt := aligned.onlyTgt.map fun j => (pair.targetStr j).isSome }

def SlotMasks.counts (masks : SlotMasks) : SlotCounts where
  matched := masks.eq.count true
  mismatched := masks.mism.count true
  additionalInSource := masks.addSrcPaired.count true + masks.onlySrc.count true
  additionalInTarget := masks.addTgtPaired.count true + masks.onlyTgt.count true

/-- A bucket takes samples until it has as many as the limit. -/
def addSamples (sampleLimit : ℕ) (samples more : List Sample) : List Sample :=
  samples ++ more.take (sampleLimit - samples.length)

/-- What the loop over the compared columns holds. -/
structure Slots where
  perColumn : List (Text × SlotCounts)
  totals : SlotCounts
  mismatched : List Sample
  additionalInSource : List Sample
  additionalInTarget : List Sample

def SlotCounts.add (a b : SlotCounts) : SlotCounts :=
  ⟨a.matched + b.matched, a.mismatched + b.mismatched,
    a.additionalInSource + b.additionalInSource, a.additionalInTarget + b.additionalInTarget⟩

def addSlots (aligned : Aligned m n) (tolerance : Option Tolerance) (sampleLimit : ℕ) (acc : Slots)
    (column : Paired m n) : Slots :=
  let masks := slotMasks aligned tolerance column.2
  let src := fun i => (suffixed column.1 "_src", column.2.sourceStr i)
  let tgt := fun j => (suffixed column.1 "_tgt", column.2.targetStr j)
  let sourceRow := fun i => sampleRow (keySample aligned i ++ [src i])
  let targetRow := fun j => sampleRow (keySampleTarget aligned j ++ [tgt j])
  { perColumn := setField column.1 masks.counts acc.perColumn
    totals := acc.totals.add masks.counts
    mismatched := addSamples sampleLimit acc.mismatched
      ((rowsWhere aligned.both masks.mism).map fun rows =>
        sampleRow (keySample aligned rows.1 ++ [src rows.1, tgt rows.2]))
    additionalInSource := addSamples sampleLimit
      (addSamples sampleLimit acc.additionalInSource
        ((rowsWhere aligned.both masks.addSrcPaired).map fun rows => sourceRow rows.1))
      ((rowsWhere aligned.onlySrc masks.onlySrc).map sourceRow)
    additionalInTarget := addSamples sampleLimit
      (addSamples sampleLimit acc.additionalInTarget
        ((rowsWhere aligned.both masks.addTgtPaired).map fun rows => targetRow rows.2))
      ((rowsWhere aligned.onlyTgt masks.onlyTgt).map targetRow) }

def slots (aligned : Aligned m n) (tolerance : Option Tolerance) (sampleLimit : ℕ) : Slots :=
  aligned.compared.foldl (addSlots aligned tolerance sampleLimit) ⟨[], ⟨0, 0, 0, 0⟩, [], [], []⟩

/-- The rest of `compare_columns`. -/
def columnComparison (aligned : Aligned m n) (tolerance : Option Tolerance) (sampleLimit : ℕ) :
    ColumnComparisonResult :=
  let acc := slots aligned tolerance sampleLimit
  let nonMatched := acc.totals.mismatched + acc.totals.additionalInSource +
    acc.totals.additionalInTarget
  { sourceRows := m
    targetRows := n
    totals := acc.totals
    mismatchPercent := percent nonMatched (acc.totals.matched + nonMatched)
    columnsCompared := aligned.compared.map Prod.fst
    columnsOnlyInSource := aligned.onlySourceCols
    columnsOnlyInTarget := aligned.onlyTargetCols
    perColumn := acc.perColumn
    sampleMismatched := acc.mismatched
    sampleAdditionalInSource := acc.additionalInSource
    sampleAdditionalInTarget := acc.additionalInTarget }

end Masks

section Comparisons
variable {S : ℕ → Type} (pd : Pandas S)

/-- `compare_records`. -/
def compareRecords (source target : Frame S) (keys : List Key) (columns : Option (List Text))
    (tolerance : Option Tolerance) (sampleLimit : ℕ) : Except Refusal RecordComparisonResult := do
  let aligned ← align pd source target keys columns
  pure (recordComparison aligned tolerance sampleLimit)

/-- `compare_columns`. -/
def compareColumns (source target : Frame S) (keys : List Key) (columns : Option (List Text))
    (tolerance : Option Tolerance) (sampleLimit : ℕ) : Except Refusal ColumnComparisonResult := do
  let aligned ← align pd source target keys columns
  if aligned.compared = [] then throw (.nothingCompared (aligned.onlySourceCols.take 10))
  pure (columnComparison aligned tolerance sampleLimit)

end Comparisons

end DataQ.Comparison
