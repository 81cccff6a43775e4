import DataQ.Dqx.Streams
import DataQ.Foundations.Numbering
import DataQ.Foundations.Winners
import Mathlib.Data.List.Lex
import Mathlib.Data.Sum.Order

/-! # Top values

`services/profile_service.py`: the most frequent values of the columns of a table. One statement
asks for the values of one column; the batched statement joins one ranked sub-select for each column
onto a list of ranks, and `collect_batched_top_values` takes its rows apart again. -/

namespace DataQ.Profile
open DataQ.Dqx (isSqlIdentifier)
open DataQ.Numbering DataQ.Winners
set_option autoImplicit false

inductive ProfileError
  /-- `ProfileIdentifierInvalidError`, with its `detail`. -/
  | identifierInvalid (identifier : Option Text)
  | valueError (message : Text)
  deriving DecidableEq

/-- `folding_identifier`: a name, and whether it is quoted. -/
structure Identifier where
  name : Text
  quote : Bool
  deriving DecidableEq

def foldingIdentifier (name : Text) : Identifier := ⟨name, decide (name ≠ lower name)⟩

def validateIdentifier : Option Text → Except ProfileError Text
  | none => .error (.identifierInvalid none)
  | some name =>
    if isSqlIdentifier name then .ok name else .error (.identifierInvalid (some name))

/-- The table that a statement names, and whether there is a dialect to quote it with. -/
structure Target where
  schema : Text
  table : Text
  catalog : Option Text
  dialect : Bool
  deriving DecidableEq

/-- `_table`. -/
def Target.clause (target : Target) : Except ProfileError Target := do
  let _ ← validateIdentifier (some target.schema)
  let _ ← validateIdentifier (some target.table)
  if target.catalog.isSome then
    let _ ← validateIdentifier target.catalog
    if target.dialect then pure target
    else .error (.valueError ("table '".toList ++ target.table ++
      "' has a catalog but no dialect to quote it".toList))
  else pure target

/-! ## Statements -/

/-- What rows are ordered by: `func.count().desc()`, or the column. -/
inductive OrderTerm
  | countDesc
  | column
  deriving DecidableEq

/-- `SELECT c AS dq_value, count(*) AS dq_freq FROM source WHERE c IS NOT NULL GROUP BY c
ORDER BY … LIMIT …`. -/
structure TopValuesQuery where
  source : Target
  column : Identifier
  ordering : List OrderTerm
  limit : ℤ
  deriving DecidableEq

/-- The sub-select of one column: its query, with `row_number() OVER (ORDER BY …) AS dq_rn`. -/
structure RankedQuery where
  query : TopValuesQuery
  orderedBy : List OrderTerm
  deriving DecidableEq

/-- The ranks from one to `limit`, each sub-select joined onto them by `dq_rn`. -/
structure BatchedQuery where
  limit : ℤ
  tops : List RankedQuery
  deriving DecidableEq

def groupedColumn (col : Text) : Except ProfileError (Identifier × List OrderTerm) := do
  let name ← validateIdentifier (some col)
  pure (foldingIdentifier name, [.countDesc, .column])

def buildTopValuesQuery (target : Target) (col : Text) (topN : ℤ) :
    Except ProfileError TopValuesQuery := do
  let (c, ordering) ← groupedColumn col
  let source ← target.clause
  pure { source, column := c, ordering, limit := topN }

def buildBatchedTopValuesQuery (target : Target) (columns : List Text) (topN : ℤ) :
    Except ProfileError BatchedQuery :=
  if columns = [] then
    .error (.valueError "build_batched_top_values_query needs at least one column".toList)
  else if topN < 1 then
    .error (.valueError "build_batched_top_values_query needs a positive top_n".toList)
  else do
    let tops ← columns.mapM fun col => do
      let (_, ordering) ← groupedColumn col
      let query ← buildTopValuesQuery target col topN
      pure { query, orderedBy := ordering : RankedQuery }
    pure { limit := topN, tops }

/-! ## What a statement denotes -/

/-- A row of a table: the value in each of its columns, `none` for NULL. -/
abbrev Row (α : Type) := Identifier → Option α

abbrev Warehouse (α : Type) := Target → List (Row α)

/-- A value of a column with the number of rows that have it. -/
structure Counted (α : Type) where
  value : α
  freq : ℕ
  deriving DecidableEq

section Denotation

variable {α : Type} [LinearOrder α]

/-- What an order compares of a row; the greater count comes first. -/
def OrderTerm.cell : OrderTerm → Counted α → ℕᵒᵈ ⊕ₗ α
  | .countDesc, row => Sum.inlₗ (OrderDual.toDual row.freq)
  | .column, row => Sum.inrₗ row.value

def sortKey (ordering : List OrderTerm) (row : Counted α) : List (ℕᵒᵈ ⊕ₗ α) :=
  ordering.map fun term => term.cell row

/-- `WHERE c IS NOT NULL GROUP BY c`. -/
def groups (rows : List (Row α)) (c : Identifier) : List (Counted α) :=
  let values := rows.filterMap fun row => row c
  values.dedup.map fun value => ⟨value, values.count value⟩

def TopValuesQuery.groups (wh : Warehouse α) (q : TopValuesQuery) : List (Counted α) :=
  Profile.groups (wh q.source) q.column

def TopValuesQuery.rows (wh : Warehouse α) (q : TopValuesQuery) : List (Counted α) :=
  (orderBy (sortKey q.ordering) (q.groups wh)).take q.limit.toNat

/-- The numbers are given before the limit cuts the rows. -/
def RankedQuery.rows (wh : Warehouse α) (q : RankedQuery) : List (Counted α × ℕ) :=
  let groups := q.query.groups wh
  ((orderBy (sortKey q.query.ordering) groups).map fun row =>
    (row, rowNumber (sortKey q.orderedBy) groups row)).take q.query.limit.toNat

/-- A row of the batched statement: `rn`, and `v_i` and `f_i` for each column. -/
structure BatchedRow (α : Type) where
  rn : ℕ
  cells : List (Option α × Option ℕ)

def BatchedRow.value (row : BatchedRow α) (index : ℕ) : Option α :=
  (row.cells[index]?).bind Prod.fst

def BatchedRow.freq (row : BatchedRow α) (index : ℕ) : Option ℕ :=
  (row.cells[index]?).bind Prod.snd

/-- The columns `v_i` and `f_i` of one sub-select; NULL where it has no row of the rank. -/
def cellOf (matched : Option (Counted α × ℕ)) : Option α × Option ℕ :=
  (matched.map fun row => row.1.value, matched.map fun row => row.1.freq)

def joinTop (wh : Warehouse α) (joined : List (BatchedRow α)) (top : RankedQuery) :
    List (BatchedRow α) :=
  (leftJoin (fun left row => decide (row.2 = left.rn)) joined (top.rows wh)).map fun pair =>
    { pair.1 with cells := pair.1.cells ++ [cellOf pair.2] }

def BatchedQuery.rows (wh : Warehouse α) (q : BatchedQuery) : List (BatchedRow α) :=
  let ranks := (List.range' 1 q.limit.toNat).map fun rank => { rn := rank, cells := [] }
  orderBy BatchedRow.rn (q.tops.foldl (joinTop wh) ranks)

end Denotation

/-! ## Reading the rows -/

/-- An entry `{"value": …, "freq": …}`. -/
structure TopValue (α : Type) where
  value : Option α
  freq : ℕ
  deriving DecidableEq

abbrev TopValues (α : Type) := List (Text × List (TopValue α))

section Collect

variable {α : Type} [LinearOrder α]

def collectBatchedTopValues (rows : List (BatchedRow α)) (columns : List Text) : TopValues α :=
  let byIndex := (orderBy BatchedRow.rn rows).foldl (fun byIndex row =>
    (List.range columns.length).foldl (fun byIndex index =>
      match row.freq index with
      | none => byIndex
      | some freq => appendTo byIndex (index, { value := row.value index, freq })) byIndex) []
  dictOf (fun entry => columns.getD entry.1 []) Prod.snd byIndex

def topValuesPerColumn (wh : Warehouse α) (target : Target) (columns : List Text) (topN : ℤ) :
    Except ProfileError (TopValues α) := do
  let entries ← columns.mapM fun col => do
    let query ← buildTopValuesQuery target col topN
    pure (col, (query.rows wh).map fun row => { value := some row.value, freq := row.freq })
  pure (dictOf Prod.fst Prod.snd entries)

/-- `collected.update(…)`. -/
def update (collected found : TopValues α) : TopValues α :=
  found.foldl (fun collected entry => setField entry.1 entry.2 collected) collected

/-- One batch, and whether its statement was answered: where it was not, its columns are asked for
one by one. -/
def fetchBatch (wh : Warehouse α) (target : Target) (topN : ℤ) (collected : TopValues α)
    (batch : List Text × Bool) : Except ProfileError (TopValues α) := do
  let statement ← buildBatchedTopValuesQuery target batch.1 topN
  if batch.2 then
    pure (update collected (collectBatchedTopValues (statement.rows wh) batch.1))
  else do
    let found ← topValuesPerColumn wh target batch.1 topN
    pure (update collected found)

def fetchBatches (wh : Warehouse α) (target : Target) (topN : ℤ)
    (batches : List (List Text × Bool)) : Except ProfileError (TopValues α) :=
  batches.foldlM (fetchBatch wh target topN) []

/-- `_TOP_VALUES_BATCH`. -/
def topValuesBatch : ℕ := 25

/-- `columns[start : start + _TOP_VALUES_BATCH]` for each start. -/
def batchesOf (columns : List Text) : List (List Text) :=
  (List.range ((columns.length + topValuesBatch - 1) / topValuesBatch)).map fun i =>
    (columns.drop (i * topValuesBatch)).take topValuesBatch

/-- `_fetch_top_values`, where `answered` says which of the batched statements were answered. -/
def fetchTopValues (wh : Warehouse α) (target : Target) (columns : List Text) (topN : ℤ)
    (answered : ℕ → Bool) : Except ProfileError (TopValues α) :=
  if columns = [] then pure []
  else if topN < 1 then pure (dictOf id (fun _ => []) columns)
  else fetchBatches wh target topN
    ((batchesOf columns).zipIdx.map fun batch => (batch.1, answered batch.2))

end Collect

/-! ## Profiles -/

/-- The row of the aggregate query, its columns by their index. -/
structure Aggregate (α : Type) where
  rowCount : ℕ
  nulls : ℕ → ℕ
  distinct : ℕ → Option ℕ
  min : ℕ → Option α
  max : ℕ → Option α

structure ColumnProfile (β : Type) where
  column : Text
  nullCount : ℕ
  nullFraction : ℚ
  distinctCount : Option ℕ
  minValue : β
  maxValue : β
  topValues : List (β × ℕ)

structure ProfileResult (β : Type) where
  target : Target
  rowCount : ℕ
  columns : List (ColumnProfile β)

def nullFraction (nullCount rowCount : ℕ) : ℚ :=
  if rowCount = 0 then 0 else (nullCount : ℚ) / rowCount

/-- `assemble_profile`, where `sanitize` is `sanitize_json` of what the driver returned. -/
def assembleProfile {α β : Type} (sanitize : Option α → β) (target : Target) (columns : List Text)
    (aggregate : Aggregate α) (topValues : TopValues α) : ProfileResult β :=
  { target
    rowCount := aggregate.rowCount
    columns := columns.zipIdx.map fun (col, i) =>
      { column := col
        nullCount := aggregate.nulls i
        nullFraction := nullFraction (aggregate.nulls i) aggregate.rowCount
        distinctCount := aggregate.distinct i
        minValue := sanitize (aggregate.min i)
        maxValue := sanitize (aggregate.max i)
        topValues := ((topValues.lookup col).getD []).map fun r => (sanitize r.value, r.freq) } }

end DataQ.Profile
