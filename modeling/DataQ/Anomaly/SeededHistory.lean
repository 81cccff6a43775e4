import DataQ.Anomaly.Baselines
import DataQ.Foundations.Partition
import Mathlib.Algebra.BigOperators.Group.List.Basic
import Mathlib.Algebra.Order.Floor.Ring
import Mathlib.Data.Rat.Floor

/-! # The history that a table tells

`seed_history` of `services/anomaly.py`, from the rows as the driver hands them back: a point for
every period after the first one that has rows, each with the total of its own rows. -/

namespace DataQ.Anomaly
open DataQ.Series
set_option autoImplicit false

/-! ## What the driver hands back -/

inductive DayCell
  | date (day : Day)
  | datetime (day : Day)
  | text (text : Text)
  | other
  deriving DecidableEq, Repr

inductive Measure
  | null
  | bool (value : Bool)
  | number (value : ℚ)
  | notFinite
  | text (text : Text)
  | other
  deriving DecidableEq, Repr

abbrev HistoryRow := DayCell × Measure

/-- What Python reads out of texts. -/
structure Readers where
  /-- `date.fromisoformat` -/
  fromisoformat : Text → Option Day
  /-- `int`, of a text -/
  int : Text → Option ℤ

variable (readers : Readers) (signature : Signature)

/-- `history_day`, `none` where it raises. -/
def historyDay : DayCell → Option Day
  | .date day => some day
  | .datetime day => some day
  | .text text => readers.fromisoformat (text.take 10)
  | .other => none

/-- `int(value)`. -/
def truncate (value : ℚ) : ℤ := if 0 ≤ value then ⌊value⌋ else ⌈value⌉

/-- `row_count_from_scalar`, `none` where it raises. -/
def rowCountFromScalar : Measure → Option ℤ
  | .bool value => some (if value then 1 else 0)
  | .number value => some (truncate value)
  | .text text => readers.int text
  | _ => none

/-- `aggregate_value`: the outer `none` where it raises, the inner one for no value. -/
def aggregateValue : Measure → Option (Option ℚ)
  | .null => some none
  | .number value => some (some value)
  | _ => none

/-- What a row adds to its period. -/
def amount (measure : Measure) : Option ℚ :=
  match signature.valueColumn with
  | none => (rowCountFromScalar readers measure).map fun count => (count : ℚ)
  | some _ => (aggregateValue measure).map (·.getD 0)

/-- One row of the loop over the scan. -/
def addRow (start before : Day) (totals : List (Day × ℚ)) (row : HistoryRow) :
    Option (List (Day × ℚ)) := do
  let day ← historyDay readers row.1
  let period := signature.unit.startOf day
  if start ≤ period ∧ period < before then
    let value ← amount readers signature row.2
    some (addAmount period value totals)
  else some totals

/-- The points that follow from the totals. -/
def pointsAfterFirst (before : Day) (totals : List (Day × ℚ)) : List Observation :=
  match (totals.map Prod.fst).min? with
  | none => []
  | some first =>
    let period := first + signature.unit.length
    seedPoints signature totals before (before - period).toNat period

/-- The start of the range that is scanned. -/
def historyStart (before : Day) : Day :=
  signature.unit.startOf before - signature.unit.historyPeriods * signature.unit.length

/-- `seed_history`, of the rows that the query returned. -/
def seedHistoryRows (before : Day) (rows : List HistoryRow) : Option (List Observation) := do
  let totals ← rows.foldlM (addRow readers signature (historyStart signature before) before) []
  some (pointsAfterFirst signature before totals)

/-- A row whose day and measure can both be read. -/
def readRow (row : HistoryRow) : Option (Day × ℚ) := do
  let day ← historyDay readers row.1
  let value ← amount readers signature row.2
  some (day, value)

variable {readers signature} in
/-- Where every row can be read, the scan is seeded from as the baseline has it. -/
theorem seedHistoryRows_read {before : Day} {rows : List HistoryRow} {read : List (Day × ℚ)}
    (h : rows.mapM (readRow readers signature) = some read) :
    seedHistoryRows readers signature before rows = some (seedHistory signature before read) := by
  have hfold : ∀ totals, rows.foldlM (addRow readers signature (historyStart signature before)
      before) totals = some (read.foldl (fun totals row =>
        let period := signature.unit.startOf row.1
        if historyStart signature before ≤ period ∧ period < before then
          addAmount period row.2 totals
        else totals) totals) := by
    induction rows generalizing read with
    | nil =>
      cases h
      exact fun _ => rfl
    | cons row rows ih =>
      intro totals
      rw [List.mapM_cons] at h
      obtain ⟨first, hfirst, h⟩ := Option.bind_eq_some_iff.mp h
      obtain ⟨rest, hrest, h⟩ := Option.bind_eq_some_iff.mp h
      cases h
      obtain ⟨day, hday, hfirst⟩ := Option.bind_eq_some_iff.mp hfirst
      obtain ⟨value, hvalue, hfirst⟩ := Option.bind_eq_some_iff.mp hfirst
      cases hfirst
      have hrow : addRow readers signature (historyStart signature before) before totals row =
          some (if historyStart signature before ≤ signature.unit.startOf day ∧
              signature.unit.startOf day < before then
            addAmount (signature.unit.startOf day) value totals else totals) := by
        simp only [addRow, hday, hvalue, Option.bind_eq_bind, Option.bind_some]
        split <;> rfl
      rw [List.foldlM_cons, hrow]
      exact ih hrest _
  rw [seedHistoryRows, hfold]
  rfl

/-! ## The rows in range -/

/-- What one row counts for: nothing out of range, otherwise its amount in its period. -/
def counted (start before : Day) (row : HistoryRow) : Option (List (Day × ℚ)) := do
  let day ← historyDay readers row.1
  let period := signature.unit.startOf day
  if start ≤ period ∧ period < before then
    let value ← amount readers signature row.2
    some [(period, value)]
  else some []

/-- The rows in range as amounts in periods, `none` where one of them cannot be read. -/
def rowsInRange (before : Day) (rows : List HistoryRow) : Option (List (Day × ℚ)) :=
  (rows.mapM (counted readers signature (historyStart signature before) before)).map List.flatten

/-- The totals of amounts by their periods. -/
def totalsOf (rows : List (Day × ℚ)) : List (Day × ℚ) :=
  rows.foldl (fun totals row => addAmount row.1 row.2 totals) []

variable {readers signature}

theorem addRow_counted (start before : Day) (totals : List (Day × ℚ)) (row : HistoryRow) :
    addRow readers signature start before totals row =
      (counted readers signature start before row).map
        (List.foldl (fun totals row => addAmount row.1 row.2 totals) totals) := by
  unfold addRow counted
  cases historyDay readers row.1 with
  | none => rfl
  | some day =>
    simp only [Option.bind_eq_bind, Option.bind_some]
    split
    · cases amount readers signature row.2 <;> rfl
    · rfl

theorem foldlM_addRow (start before : Day) (rows : List HistoryRow) (totals : List (Day × ℚ)) :
    rows.foldlM (addRow readers signature start before) totals =
      (rows.mapM (counted readers signature start before)).map fun found =>
        found.flatten.foldl (fun totals row => addAmount row.1 row.2 totals) totals := by
  induction rows generalizing totals with
  | nil => rfl
  | cons row rows ih =>
    rw [List.foldlM_cons, List.mapM_cons, addRow_counted]
    cases counted readers signature start before row with
    | none => rfl
    | some found =>
      simp only [Option.map_some, Option.bind_eq_bind, Option.bind_some, ih]
      cases rows.mapM (counted readers signature start before) with
      | none => rfl
      | some rest => simp [List.foldl_append]

theorem seedHistoryRows_eq (before : Day) (rows : List HistoryRow) :
    seedHistoryRows readers signature before rows =
      (rowsInRange readers signature before rows).map fun found =>
        pointsAfterFirst signature before (totalsOf found) := by
  unfold seedHistoryRows rowsInRange
  rw [foldlM_addRow]
  cases rows.mapM (counted readers signature (historyStart signature before) before) <;> rfl

theorem mem_keys_addAmount {period p : Day} {value : ℚ} {totals : List (Day × ℚ)} :
    p ∈ (addAmount period value totals).map Prod.fst ↔ p = period ∨ p ∈ totals.map Prod.fst := by
  induction totals with
  | nil => simp [addAmount]
  | cons total totals ih =>
    obtain ⟨q, old⟩ := total
    by_cases hq : q = period
    · simp [addAmount, hq]
    · simp only [addAmount, if_neg hq, List.map_cons, List.mem_cons, ih]
      tauto

theorem lookup_addAmount (period p : Day) (value : ℚ) (totals : List (Day × ℚ)) :
    ((addAmount period value totals).lookup p).getD 0 =
      (totals.lookup p).getD 0 + if period = p then value else 0 := by
  induction totals with
  | nil =>
    by_cases hp : period = p
    · simp [addAmount, hp]
    · simp [addAmount, List.lookup_cons, beq_eq_false_iff_ne.mpr (Ne.symm hp), hp]
  | cons total totals ih =>
    obtain ⟨q, old⟩ := total
    by_cases hq : q = period
    · subst hq
      by_cases hp : q = p
      · simp [addAmount, hp]
      · simp [addAmount, List.lookup_cons, beq_eq_false_iff_ne.mpr (Ne.symm hp), hp]
    · by_cases hp : q = p
      · subst hp
        have hne : period ≠ q := Ne.symm hq
        simp [addAmount, hq, hne]
      · simp only [addAmount, if_neg hq, List.lookup_cons, beq_eq_false_iff_ne.mpr (Ne.symm hp), ih]

theorem mem_keys_totalsOf {rows : List (Day × ℚ)} {p : Day} :
    p ∈ (totalsOf rows).map Prod.fst ↔ p ∈ rows.map Prod.fst := by
  induction rows using List.reverseRecOn with
  | nil => rfl
  | append_singleton rows row ih =>
    rw [totalsOf, List.foldl_append]
    show p ∈ (addAmount row.1 row.2 (totalsOf rows)).map Prod.fst ↔ _
    rw [mem_keys_addAmount, ih, List.map_append, List.mem_append, or_comm]
    simp

/-- The total of a period is the sum of the amounts in it. -/
theorem lookup_totalsOf (rows : List (Day × ℚ)) (p : Day) :
    ((totalsOf rows).lookup p).getD 0 =
      ((rows.filter fun row => decide (row.1 = p)).map Prod.snd).sum := by
  induction rows using List.reverseRecOn with
  | nil => rfl
  | append_singleton rows row ih =>
    rw [totalsOf, List.foldl_append]
    show ((addAmount row.1 row.2 (totalsOf rows)).lookup p).getD 0 = _
    rw [lookup_addAmount, ih, List.filter_append, List.map_append, List.sum_append]
    by_cases hp : row.1 = p <;> simp [hp]

/-! ## One point for each period -/

/-- A day that a period begins with. -/
def Begins (unit : PeriodUnit) (day : Day) : Prop := unit.startOf day = day

theorem begins_day (day : ℤ) : Begins .day day := rfl

/-- A week begins on a Monday. -/
theorem begins_week {day : ℤ} : Begins .week day ↔ (day + 6) % 7 = 0 := by
  show day - (day + 6) % 7 = day ↔ _
  omega

theorem begins_startOf (unit : PeriodUnit) (day : ℤ) : Begins unit (unit.startOf day) := by
  cases unit with
  | day => exact begins_day day
  | week =>
    show Begins .week (day - (day + 6) % 7)
    rw [begins_week]
    omega

/-- The periods after one that begins are whole lengths away. -/
theorem begins_after {unit : PeriodUnit} {first p : ℤ} (hfirst : Begins unit first) :
    Begins unit p ∧ first < p ↔ ∃ k : ℕ, p = first + unit.length + k * unit.length := by
  cases unit with
  | day =>
    simp only [begins_day, PeriodUnit.length, true_and]
    constructor
    · intro hlt
      exact ⟨(p - first - 1).toNat, by omega⟩
    · rintro ⟨k, rfl⟩
      omega
  | week =>
    rw [begins_week] at *
    simp only [PeriodUnit.length]
    constructor
    · rintro ⟨hp, hlt⟩
      exact ⟨((p - first) / 7 - 1).toNat, by omega⟩
    · rintro ⟨k, rfl⟩
      omega

theorem mem_seedPoints {totals : List (Day × ℚ)} {before : ℤ} {fuel : ℕ} {period : ℤ}
    (hfuel : (before - period).toNat ≤ fuel) (p : ℤ) :
    p ∈ (seedPoints signature totals before fuel period).map Observation.ts ↔
      (∃ k : ℕ, p = period + k * signature.unit.length) ∧ p < before := by
  have hlength : (0 : ℤ) < signature.unit.length := unit_length_pos signature.unit
  induction fuel generalizing period with
  | zero =>
    simp only [seedPoints, List.map_nil, List.not_mem_nil, false_iff]
    rintro ⟨⟨k, rfl⟩, hlt⟩
    have hk : 0 ≤ (k : ℤ) * signature.unit.length := by positivity
    omega
  | succ fuel ih =>
    rw [seedPoints]
    split
    · next hlt =>
      have hlt : period < before := hlt
      have hrest : p ∈ (seedPoints signature totals before fuel
          (period + signature.unit.length)).map Observation.ts ↔
          (∃ k : ℕ, p = period + signature.unit.length + k * signature.unit.length) ∧
            p < before := ih (by omega)
      rw [List.map_cons, List.mem_cons, hrest]
      constructor
      · rintro (rfl | ⟨⟨k, rfl⟩, hbefore⟩)
        · exact ⟨⟨0, by simp⟩, hlt⟩
        · exact ⟨⟨k + 1, by push_cast; ring⟩, hbefore⟩
      · rintro ⟨⟨k, rfl⟩, hbefore⟩
        cases k with
        | zero => exact .inl (by simp)
        | succ k => exact .inr ⟨⟨k, by push_cast; ring⟩, hbefore⟩
    · next hlt =>
      simp only [List.map_nil, List.not_mem_nil, false_iff]
      rintro ⟨⟨k, rfl⟩, hbefore⟩
      have hk : 0 ≤ (k : ℤ) * signature.unit.length := by positivity
      have hat : period < before := by omega
      exact hlt hat

theorem value_of_mem_seedPoints {totals : List (Day × ℚ)} {before : Day} {fuel : ℕ} {period : Day}
    {o : Observation} (h : o ∈ seedPoints signature totals before fuel period) :
    o.value = (totals.lookup o.ts).getD 0 := by
  induction fuel generalizing period with
  | zero => cases h
  | succ fuel ih =>
    rw [seedPoints] at h
    split at h
    · obtain rfl | h := List.mem_cons.mp h
      · rfl
      · exact ih h
    · cases h

/-- The points after the first of the periods that the rows fall in, up to the judged one. -/
structure Backfill (unit : PeriodUnit) (before first : Day) (rows : List (Day × ℚ))
    (points : List Observation) : Prop where
  inOrder : Increasing Observation.ts points
  contiguous : ∀ p, p ∈ points.map Observation.ts ↔ Begins unit p ∧ first < p ∧ p < before
  backfilled : ∀ o ∈ points, o.observed = false
  totals : ∀ o ∈ points, o.value = ((rows.filter fun row => decide (row.1 = o.ts)).map Prod.snd).sum
  /-- every row outside the first period counts in one point -/
  once : (points.flatMap fun o => rows.filter fun row => decide (row.1 = o.ts)).Perm
    (rows.filter fun row => decide (row.1 ≠ first))

theorem pointsAfterFirst_backfill {before first : Day} {rows : List (Day × ℚ)}
    (hrows : ∀ row ∈ rows, Begins signature.unit row.1 ∧ row.1 < before)
    (hfirst : IsLeast {p | p ∈ rows.map Prod.fst} first) :
    Backfill signature.unit before first rows
      (pointsAfterFirst signature before (totalsOf rows)) := by
  have hmin : ((totalsOf rows).map Prod.fst).min? = some first := by
    rw [List.min?_eq_some_iff]
    refine ⟨mem_keys_totalsOf.mpr hfirst.1, ?_⟩
    intro p hp
    exact hfirst.2 (mem_keys_totalsOf.mp hp)
  have hbegins : Begins signature.unit first := by
    obtain ⟨row, hrow, rfl⟩ := List.mem_map.mp hfirst.1
    exact (hrows row hrow).1
  have hpoints : pointsAfterFirst signature before (totalsOf rows) =
      seedPoints signature (totalsOf rows) before
        (before - (first + signature.unit.length)).toNat (first + signature.unit.length) := by
    rw [pointsAfterFirst, hmin]
  have hcontiguous : ∀ p, p ∈ (pointsAfterFirst signature before (totalsOf rows)).map
      Observation.ts ↔ Begins signature.unit p ∧ first < p ∧ p < before := by
    intro p
    rw [hpoints, mem_seedPoints (Nat.le_refl _) p, ← begins_after hbegins, and_assoc]
  have hspec := @seedPoints_spec signature (totalsOf rows) before
    (before - (first + signature.unit.length)).toNat (first + signature.unit.length)
  rw [← hpoints] at hspec
  refine ⟨hspec.1, hcontiguous, fun o ho => (hspec.2 o ho).2, fun o ho => ?_, ?_⟩
  · rw [hpoints] at ho
    rw [value_of_mem_seedPoints ho, lookup_totalsOf]
  · have hsame : (pointsAfterFirst signature before (totalsOf rows)).flatMap
          (fun o => rows.filter fun row => decide (row.1 = o.ts)) =
        ((pointsAfterFirst signature before (totalsOf rows)).map Observation.ts).flatMap fun p =>
          (rows.filter fun row => decide (row.1 ≠ first)).filter fun row => decide (row.1 = p) := by
      rw [List.flatMap_map]
      apply List.flatMap_congr
      intro o ho
      have hafter := ((hcontiguous o.ts).mp (List.mem_map_of_mem ho)).2.1
      rw [List.filter_filter]
      apply List.filter_congr
      intro row _
      by_cases hat : row.1 = o.ts
      · simp [hat, ne_of_gt hafter]
      · simp [hat]
    rw [hsame]
    apply Partition.flatMap_filter_perm _ Prod.fst hspec.1.nodup_dates
    intro row hrow
    obtain ⟨hmem, hne⟩ := List.mem_filter.mp hrow
    obtain ⟨hrow, hbefore⟩ := hrows row hmem
    have hle : first ≤ row.1 := hfirst.2 (List.mem_map_of_mem hmem)
    exact (hcontiguous row.1).mpr
      ⟨hrow, lt_of_le_of_ne hle (Ne.symm (by simpa using hne)), hbefore⟩

theorem of_mem_rowsInRange {before : Day} {rows : List HistoryRow} {found : List (Day × ℚ)}
    (h : rowsInRange readers signature before rows = some found) :
    ∀ row ∈ found, Begins signature.unit row.1 ∧ row.1 < before := by
  obtain ⟨parts, hparts, rfl⟩ := Option.map_eq_some_iff.mp h
  clear h
  induction rows generalizing parts with
  | nil =>
    cases hparts
    simp
  | cons row rows ih =>
    rw [List.mapM_cons] at hparts
    obtain ⟨part, hpart, hparts⟩ := Option.bind_eq_some_iff.mp hparts
    obtain ⟨rest, hrest, hparts⟩ := Option.bind_eq_some_iff.mp hparts
    cases hparts
    intro entry hentry
    obtain hentry | hentry := List.mem_append.mp hentry
    · unfold counted at hpart
      obtain ⟨day, _, hpart⟩ := Option.bind_eq_some_iff.mp hpart
      dsimp only at hpart
      split at hpart
      · next hrange =>
        obtain ⟨value, _, hpart⟩ := Option.bind_eq_some_iff.mp hpart
        cases hpart
        rw [List.mem_singleton.mp hentry]
        exact ⟨begins_startOf _ _, hrange.2⟩
      · cases hpart
        cases hentry
    · exact ih rest hrest entry hentry

end DataQ.Anomaly
