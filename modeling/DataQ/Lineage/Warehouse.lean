import DataQ.Foundations.Capped
import DataQ.Foundations.Transition
import DataQ.Foundations.Locks
import DataQ.Foundations.Registry
import DataQ.Lineage.Assets
import Mathlib.Data.Prod.Lex

/-! # Lineage pulled from a warehouse

`warehouse_refresh._persist`: what a warehouse reports is stored under its connection. A transaction
locks the assets that it names, reads the column pairs that their edges have, and writes both
together; the transactions of other refreshes come between. -/

namespace DataQ.Lineage.Warehouse
open DataQ.Interleaving DataQ.Locking
set_option autoImplicit false

/-! ## What a warehouse reports -/

inductive ColumnGrain
  | captured | unavailable | notSupported
  deriving DecidableEq, Repr

/-- A column of the upstream table and one of the downstream table, in the order of tuples. -/
abbrev ColumnPair := Text ×ₗ Text

def maxColumnPairsPerEdge : ℕ := 500

abbrev Ends := AssetKey × AssetKey

structure LineageEdgePair where
  upstream : AssetKey
  downstream : AssetKey
  columnPairs : List ColumnPair
  deriving DecidableEq

def LineageEdgePair.ends (edge : LineageEdgePair) : Ends := (edge.upstream, edge.downstream)

structure WarehouseLineageResult where
  edges : List LineageEdgePair
  prunable : Bool
  columnGrain : Option ColumnGrain
  columnsAuthoritative : Bool
  deriving DecidableEq

/-- A refresh of a connection by its provider. -/
structure Refresh where
  connectionId : ℕ
  source : Text
  isIncremental : Bool
  result : WarehouseLineageResult
  deriving DecidableEq

/-! ## The cache -/

/-- An edge; its assets are named by what identifies them. -/
structure Edge where
  ends : Ends
  source : Text
  connectionId : ℕ
  lastSeen : ℕ
  columns : Option (List ColumnPair)
  columnGrain : Option ColumnGrain
  deriving DecidableEq

/-- `uq_lineage_edges_up_down_source_conn`. -/
abbrev EdgeKey := Ends × Text × ℕ

def Edge.key (e : Edge) : EdgeKey := (e.ends, e.source, e.connectionId)

def Refresh.key (r : Refresh) (ends : Ends) : EdgeKey := (ends, r.source, r.connectionId)

/-- Whether an edge is of the source and the connection of a refresh. -/
def Refresh.owns (r : Refresh) (e : Edge) : Bool :=
  e.source = r.source && e.connectionId = r.connectionId

/-- The clock of the database: when a refresh started, and when it saw each edge. -/
structure Clock where
  startedAt : ℕ
  seenAt : Ends → ℕ
  later : ∀ ends, startedAt ≤ seenAt ends

/-! ## The regimes -/

/-- `_suspension_exhausted`; times are in microseconds. -/
def suspensionExhausted (thresholdHours : ℤ) (lastPrunedAt : Option ℕ) (now : ℕ) : Bool :=
  match lastPrunedAt with
  | none => false
  | some last => 0 < thresholdHours ∧ thresholdHours * 3600000000 < (now : ℤ) - last

def Refresh.authoritativeSnapshot (r : Refresh) : Bool := !r.isIncremental && r.result.prunable

def Refresh.pruneForced (thresholdHours : ℤ) (r : Refresh) (lastPrunedAt : Option ℕ) (now : ℕ) :
    Bool :=
  !r.isIncremental && !r.result.prunable && !r.result.edges.isEmpty &&
    suspensionExhausted thresholdHours lastPrunedAt now

def Refresh.replaceColumns (r : Refresh) : Bool :=
  r.authoritativeSnapshot && r.result.columnsAuthoritative

/-! ## The rows -/

def Refresh.stored (r : Refresh) (e : Edge) : Option (Ends × List ColumnPair) :=
  if r.owns e then e.columns.map fun cols => (e.ends, cols) else none

/-- `_existing_columns`. -/
def existingColumns (r : Refresh) (edges : List Edge) : List (Ends × List ColumnPair) :=
  edges.filterMap r.stored

structure EdgeRow where
  ends : Ends
  columns : Option (List ColumnPair)
  columnGrain : Option ColumnGrain
  deriving DecidableEq

/-- The merged column pairs of `_edge_rows`. -/
def mergedColumns (prior : Option (List ColumnPair)) (new : List ColumnPair) :
    Option (List ColumnPair) :=
  if new = [] ∧ prior.getD [] = [] then none
  else some (Capped.capped maxColumnPairsPerEdge (prior.getD [] ++ new))

def edgeRowsFrom (grain : Option ColumnGrain) (existing : List (Ends × List ColumnPair)) :
    List Ends → List LineageEdgePair → List EdgeRow
  | _, [] => []
  | seen, edge :: edges =>
    if edge.ends ∈ seen then edgeRowsFrom grain existing seen edges
    else
      ⟨edge.ends, mergedColumns (existing.lookup edge.ends) edge.columnPairs, grain⟩ ::
        edgeRowsFrom grain existing (edge.ends :: seen) edges

/-- `_edge_rows`. -/
def edgeRows (result : WarehouseLineageResult) (existing : List (Ends × List ColumnPair)) :
    List EdgeRow :=
  edgeRowsFrom result.columnGrain existing [] result.edges

/-- The update of an edge that is there. -/
def EdgeRow.update (replace : Bool) (clock : Clock) (row : EdgeRow) (e : Edge) : Edge :=
  { e with
    lastSeen := clock.seenAt row.ends
    columns := if replace then row.columns else row.columns.or e.columns
    columnGrain :=
      if replace then row.columnGrain.or e.columnGrain
      else if row.columnGrain = some .captured then some .captured
      else e.columnGrain.or row.columnGrain }

def EdgeRow.insert (r : Refresh) (clock : Clock) (row : EdgeRow) : Edge :=
  ⟨row.ends, r.source, r.connectionId, clock.seenAt row.ends, row.columns, row.columnGrain⟩

/-- `_upsert_edges`, one row. -/
def upsertEdge (r : Refresh) (clock : Clock) (edges : List Edge) (row : EdgeRow) : List Edge :=
  Registry.upsert Edge.key (r.key row.ends) (row.update r.replaceColumns clock)
    (row.insert r clock) edges

/-- `_upsert_edges`. -/
def upsertEdges (r : Refresh) (clock : Clock) (rows : List EdgeRow) (edges : List Edge) :
    List Edge :=
  rows.foldl (upsertEdge r clock) edges

def pruneStale (r : Refresh) (startedAt : ℕ) (edges : List Edge) : List Edge :=
  edges.filter fun e => ¬ (r.owns e ∧ e.lastSeen < startedAt)

/-! ## The transactions -/

/-- `lastPruned` is the `lineage_last_authoritative_refresh_at` of a connection; a session holds the
row locks of assets. -/
structure Store where
  edges : List Edge
  lastPruned : ℕ → Option ℕ
  locks : Locks AssetKey ℕ

/-- What a session has in its hands: the connection's stamp as it was loaded, and once the assets
are locked the column pairs that were read. -/
inductive Session
  | idle
  | fetched (r : Refresh) (lastPrunedAt : Option ℕ)
  | loaded (r : Refresh) (lastPrunedAt : Option ℕ) (now : ℕ) (clock : Clock)
      (existing : List (Ends × List ColumnPair))

inductive Act
  | fetch (r : Refresh)
  | load (now : ℕ) (clock : Clock)
  | write
  | fail

/-- The assets that `upsert_assets` inserts or updates. -/
def Refresh.identities (r : Refresh) : List AssetKey :=
  r.result.edges.flatMap fun edge => [edge.upstream, edge.downstream]

/-- The writes of `_persist`, and its commit. -/
def persist (thresholdHours : ℤ) (i : ℕ) (s : Store) (r : Refresh) (lastPrunedAt : Option ℕ)
    (now : ℕ) (clock : Clock) (existing : List (Ends × List ColumnPair)) : Store :=
  let edges := upsertEdges r clock (edgeRows r.result existing) s.edges
  let prune := r.authoritativeSnapshot || r.pruneForced thresholdHours lastPrunedAt now
  { edges := if prune then pruneStale r clock.startedAt edges else edges
    lastPruned :=
      if prune then Function.update s.lastPruned r.connectionId (some clock.startedAt)
      else s.lastPruned
    locks := s.locks.release i }

def act (thresholdHours : ℤ) (i : ℕ) (a : Act) (s : Store) (session : Session) :
    Option (Store × Session) :=
  match a, session with
  | .fetch r, .idle => some (s, .fetched r (s.lastPruned r.connectionId))
  | .load now clock, .fetched r lastPrunedAt =>
    if ∀ key ∈ r.identities, s.locks.Free i key then
      some ({ s with locks := s.locks.takeAll i r.identities },
        .loaded r lastPrunedAt now clock
          (if r.replaceColumns then [] else existingColumns r s.edges))
    else none
  | .write, .loaded r lastPrunedAt now clock existing =>
    some (persist thresholdHours i s r lastPrunedAt now clock existing, .idle)
  | .fail, _ => some ({ s with locks := s.locks.release i }, .idle)
  | _, _ => none

abbrev World := Config ℕ Store Session

def step (thresholdHours : ℤ) (c : World) (e : ℕ × Act) : Option World :=
  (act thresholdHours e.1 e.2 c.store (c.session e.1)).map (c.put e.1)

/-- No session is at work and no edge is there twice. -/
structure Quiet (c : World) : Prop where
  idle : ∀ i, c.session i = .idle
  keys : (c.store.edges.map Edge.key).Nodup

end DataQ.Lineage.Warehouse
