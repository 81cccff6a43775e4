import DataQ.Foundations.Json
import DataQ.Foundations.Partition
import DataQ.Lineage.Pulls
import Mathlib.Data.Prod.Lex

/-! # Column pairs on table edges

`lineage/columns.py`: what the rows of `lineage_edges` say of the columns of a table edge, over all
sources that observed it, and the cells that its pairs join. -/

namespace DataQ.Lineage.Columns
set_option autoImplicit false

/-! ## Coverage -/

/-- Strongest first. -/
inductive ColumnCoverage
  | recorded | noneRecorded | unavailable | unknown | notCaptured
  deriving DecidableEq, Repr

/-- `_PRECEDENCE`. -/
def precedence : List ColumnCoverage :=
  [.recorded, .noneRecorded, .unavailable, .unknown, .notCaptured]

/-- `WAREHOUSE_LINEAGE_CONNECTION_TYPES`. -/
def warehouseLineageConnectionTypes : List Text := ["snowflake".toList, "unity_catalog".toList]

/-- `_GRAIN_TO_COVERAGE`. -/
def grainToCoverage : List (Text × ColumnCoverage) :=
  [("captured".toList, .noneRecorded), ("unavailable".toList, .unavailable),
    ("not_supported".toList, .notCaptured)]

def rowCoverage (source : Text) (hasPairs : Bool) (columnGrain : Option Text) : ColumnCoverage :=
  if hasPairs then .recorded
  else if source ∉ warehouseLineageConnectionTypes then .notCaptured
  else
    match columnGrain with
    | none => .unknown
    | some grain => (grainToCoverage.lookup grain).getD .unknown

/-- The strongest statement of any source. -/
def combine (coverages : List ColumnCoverage) : ColumnCoverage :=
  (precedence.find? (· ∈ coverages)).getD .notCaptured

/-! ## The rows of the cache -/

/-- A row of `lineage_edges`; the ids are in the order of their texts. -/
structure EdgeRow where
  upstreamAssetId : ℕ
  downstreamAssetId : ℕ
  source : Text
  columns : Option Json
  columnGrain : Option Text

abbrev ColumnPair := Text ×ₗ Text

structure EdgeColumns where
  pairs : List ColumnPair
  coverage : ColumnCoverage

/-- What is cached, and the namespaces of the assets. -/
structure Cache where
  rows : List EdgeRow
  namespaces : List (ℕ × Text)

variable (py : Python) (cases : Cases)

/-- `(str(entry[0]), str(entry[1]))` of an entry of two. -/
def parseEntry : Json → Option ColumnPair
  | .arr [up, down] => some (toLex (py.str up, py.str down))
  | _ => none

/-- `_parse_pairs`: the valid pairs, and whether the value is malformed. -/
def parsePairs : Option Json → List ColumnPair × Bool
  | none | some .null => ([], false)
  | some (.arr entries) =>
    let valid := entries.filterMap (parseEntry py)
    (valid, valid.length ≠ entries.length)
  | some _ => ([], true)

def EdgeRow.key (row : EdgeRow) : ℕ × ℕ := (row.upstreamAssetId, row.downstreamAssetId)

def EdgeRow.pairs (row : EdgeRow) : List ColumnPair := (parsePairs py row.columns).1

def EdgeRow.coverage (row : EdgeRow) : ColumnCoverage :=
  let (parsed, malformed) := parsePairs py row.columns
  if malformed && parsed.isEmpty then .unknown
  else rowCoverage row.source (!parsed.isEmpty) row.columnGrain

/-- The rows of one table edge. -/
def edgeColumns (rows : List EdgeRow) : EdgeColumns where
  pairs := (rows.flatMap (EdgeRow.pairs py)).dedup.insertionSort (· ≤ ·)
  coverage := combine (rows.map (EdgeRow.coverage py))

/-- `_load`, with what is selected of the rows. -/
def load (cache : Cache) (selected : EdgeRow → Bool) : List ((ℕ × ℕ) × EdgeColumns) :=
  (Partition.grouped ((cache.rows.filter selected).map fun row => (row.key, row))).map
    fun group => (group.1, edgeColumns py group.2)

/-- `sorted(edges.items(), key=...)`: by the texts of both ids. -/
def inOrder (edges : List ((ℕ × ℕ) × EdgeColumns)) : List ((ℕ × ℕ) × EdgeColumns) :=
  edges.insertionSort fun a b => toLex a.1 ≤ toLex b.1

/-! ## Cells -/

/-- An asset, and one of its columns as its engine folds it. -/
abbrev Cell := ℕ × Text

/-- `fold_column`. -/
def foldColumn (ns column : Text) : Text := (Pulls.canonicalIdentity cases ns (pyStrip column)).2

/-- `_Namespaces.fold`, of an asset that is loaded. -/
def fold (cache : Cache) (asset : ℕ) (column : Text) : Text :=
  foldColumn cases ((cache.namespaces.lookup asset).getD []) column

/-- The cells of a pair of an edge. -/
def upCell (cache : Cache) (key : ℕ × ℕ) (pair : ColumnPair) : Cell :=
  (key.1, fold cases cache key.1 (ofLex pair).1)

def downCell (cache : Cache) (key : ℕ × ℕ) (pair : ColumnPair) : Cell :=
  (key.2, fold cases cache key.2 (ofLex pair).2)

/-- A recorded pair feeds the second cell out of the first one. -/
def Feeds (cache : Cache) (up down : Cell) : Prop :=
  ∃ row ∈ cache.rows, ∃ pair ∈ row.pairs py,
    up = upCell cases cache row.key pair ∧ down = downCell cases cache row.key pair

/-- The coverage of a table edge, over all rows that observed it. -/
def coverageOf (cache : Cache) (key : ℕ × ℕ) : ColumnCoverage :=
  (edgeColumns py (cache.rows.filter fun row => row.key = key)).coverage

/-! ## What is loaded -/

variable {py cases} {cache : Cache} {selected : EdgeRow → Bool} {key : ℕ × ℕ} {info : EdgeColumns}

theorem mem_pairs {rows : List EdgeRow} {pair : ColumnPair} :
    pair ∈ (edgeColumns py rows).pairs ↔ ∃ row ∈ rows, pair ∈ row.pairs py := by
  rw [edgeColumns, List.mem_insertionSort, List.mem_dedup, List.mem_flatMap]

theorem grouped_rows {rows : List EdgeRow} {members : List EdgeRow}
    (h : (key, members) ∈ Partition.grouped (rows.map fun row => (row.key, row))) :
    members = rows.filter fun row => row.key = key := by
  obtain ⟨hmembers, _⟩ := Partition.of_mem_grouped h
  rw [hmembers, List.filter_map, List.map_map]
  exact List.map_id _

/-- An edge is loaded with all of its rows where the selection is by the edge. -/
theorem of_mem_load {p : ℕ × ℕ → Bool} (h : (key, info) ∈ load py cache fun row => p row.key) :
    p key = true ∧ info = edgeColumns py (cache.rows.filter fun row => row.key = key) := by
  obtain ⟨⟨k, members⟩, hgroup, heq⟩ := List.mem_map.mp h
  obtain ⟨rfl, rfl⟩ := Prod.mk.inj heq
  have hmembers := grouped_rows hgroup
  have hsome := (Partition.of_mem_grouped hgroup).2
  have hp : p k = true := by
    obtain ⟨row, hrow⟩ := List.exists_mem_of_ne_nil _ hsome
    rw [hmembers] at hrow
    obtain ⟨hselected, hkey⟩ := List.mem_filter.mp hrow
    have hrowkey : row.key = k := by simpa using hkey
    exact hrowkey ▸ (List.mem_filter.mp hselected).2
  refine ⟨hp, ?_⟩
  rw [hmembers, List.filter_filter]
  congr 1
  apply List.filter_congr
  intro row _
  by_cases hrow : row.key = k
  · simp [hrow, hp]
  · simp [hrow]

theorem mem_load {p : ℕ × ℕ → Bool} {row : EdgeRow} (hrow : row ∈ cache.rows)
    (hp : p row.key = true) :
    (row.key, edgeColumns py (cache.rows.filter fun r => r.key = row.key)) ∈
      load py cache fun row => p row.key := by
  have hkey : row.key ∈ (Partition.grouped
      ((cache.rows.filter fun row => p row.key).map fun row => (row.key, row))).map Prod.fst := by
    rw [Partition.mem_keys_grouped, List.map_map]
    exact List.mem_map.mpr ⟨row, List.mem_filter.mpr ⟨hrow, hp⟩, rfl⟩
  obtain ⟨⟨k, members⟩, hgroup, hk⟩ := List.mem_map.mp hkey
  have hmem : (k, edgeColumns py members) ∈ load py cache fun row => p row.key :=
    List.mem_map.mpr ⟨_, hgroup, rfl⟩
  rw [(of_mem_load hmem).2] at hmem
  dsimp only at hk
  rwa [hk] at hmem

theorem mem_inOrder {edges : List ((ℕ × ℕ) × EdgeColumns)} {edge : (ℕ × ℕ) × EdgeColumns} :
    edge ∈ inOrder edges ↔ edge ∈ edges := List.mem_insertionSort _

/-! ## Recorded edges -/

theorem rowCoverage_recorded {source : Text} {hasPairs : Bool} {grain : Option Text} :
    rowCoverage source hasPairs grain = .recorded ↔ hasPairs = true := by
  have hgrain : ∀ entry ∈ grainToCoverage, entry.2 ≠ .recorded := by decide
  unfold rowCoverage
  cases hasPairs with
  | true => simp
  | false =>
    simp only [Bool.false_eq_true, if_false, iff_false]
    split
    · simp
    · cases grain with
      | none => simp
      | some grain =>
        show (grainToCoverage.lookup grain).getD .unknown ≠ .recorded
        cases hlookup : grainToCoverage.lookup grain with
        | none => simp
        | some coverage => exact hgrain _ (mem_of_lookup hlookup)

theorem coverage_recorded {row : EdgeRow} :
    row.coverage py = .recorded ↔ row.pairs py ≠ [] := by
  unfold EdgeRow.coverage EdgeRow.pairs
  generalize parsePairs py row.columns = parsed
  obtain ⟨pairs, malformed⟩ := parsed
  cases pairs with
  | nil => cases malformed <;> simp [rowCoverage_recorded]
  | cons pair pairs => simp [rowCoverage_recorded]

theorem combine_recorded {coverages : List ColumnCoverage} :
    combine coverages = .recorded ↔ .recorded ∈ coverages := by
  unfold combine
  by_cases h : ColumnCoverage.recorded ∈ coverages
  · simp [precedence, h]
  · cases hfind : precedence.find? (· ∈ coverages) with
    | none => simp [h]
    | some coverage =>
      have hmem : coverage ∈ coverages := by simpa using List.find?_some hfind
      refine ⟨fun heq => ?_, fun hrecorded => absurd hrecorded h⟩
      exact absurd (heq ▸ hmem) h

/-- An edge has pairs exactly where it is recorded. -/
theorem edgeColumns_recorded {rows : List EdgeRow} :
    (edgeColumns py rows).coverage = .recorded ↔ (edgeColumns py rows).pairs ≠ [] := by
  rw [edgeColumns, combine_recorded, List.mem_map]
  constructor
  · rintro ⟨row, hrow, hcoverage⟩ hnone
    obtain ⟨pair, hpair⟩ := List.exists_mem_of_ne_nil _ (coverage_recorded.mp hcoverage)
    have hmem := mem_pairs.mpr ⟨row, hrow, hpair⟩
    rw [edgeColumns, hnone] at hmem
    cases hmem
  · intro hsome
    obtain ⟨pair, hpair⟩ := List.exists_mem_of_ne_nil _ hsome
    obtain ⟨row, hrow, hpair⟩ := mem_pairs.mp hpair
    exact ⟨row, hrow, coverage_recorded.mpr (List.ne_nil_of_mem hpair)⟩

end DataQ.Lineage.Columns
