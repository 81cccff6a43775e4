import DataQ.Foundations.Dictionary
import DataQ.Lineage.DbtEdges

/-! # Lineage pulled from a catalog

`pull.refresh_pulled_edges`: the catalog is asked for the datasets of every namespace an asset is
in, and for the graph around each of them that an asset's name folds to. What it reports is stored
without a connection, and what it no longer reports is pruned unless it was unavailable. -/

namespace DataQ.Lineage.Pulls
set_option autoImplicit false

/-! ## What the catalog answers -/

/-- `LineageNodeKind`. -/
inductive NodeKind
  | dataset | job | biReport | dashboard | unknown
  deriving DecidableEq, Repr

structure Node where
  kind : NodeKind
  nodeNamespace : Option Text
  name : Option Text
  deriving DecidableEq, Repr

/-- A graph; `nodes` is a dict. -/
structure Graph where
  nodes : List (Text × Node)
  edges : List (Text × Text)
  deriving DecidableEq, Repr

/-- The catalog during one refresh; `none` is a `LineageUnavailableError`. -/
structure Catalog where
  listDatasets : Text → Option (List Text)
  getLineage : Text → Text → Option Graph

/-! ## Identities -/

def snowflakePrefix : Text := "snowflake://".toList

def unityCatalogPrefix : Text := "unitycatalog://".toList

/-- `canonical_identity`. -/
def canonicalIdentity (cases : Cases) (ns name : Text) : AssetKey :=
  let ns := pyStrip ns
  let lowered := cases.lower ns
  if snowflakePrefix.isPrefixOf lowered then (ns, cases.upper name)
  else if unityCatalogPrefix.isPrefixOf lowered then (ns, cases.lower name)
  else (ns, name)

/-- The entry of `_catalog_index` for an asset. -/
def candidates (cases : Cases) (ns : Text) (catalogNames : List Text) (name : Text) : List Text :=
  catalogNames.filter fun other => canonicalIdentity cases ns other = canonicalIdentity cases ns name

/-- `_identity_resolver`. -/
def resolve (cases : Cases) (seeds : List AssetKey) (identity : AssetKey) : AssetKey :=
  if identity ∈ seeds then identity
  else
    let key := canonicalIdentity cases identity.1 identity.2
    match seeds.filter fun seed => canonicalIdentity cases seed.1 seed.2 = key with
    | [] => key
    | [owner] => owner
    | _ => identity

/-! ## The lookups -/

/-- `_SeedOutcome`. -/
structure SeedOutcome where
  unavailable : ℕ
  absent : ℕ
  resolved : ℕ
  deriving DecidableEq, Repr

/-- What the lookups have brought so far. -/
structure Collected where
  nodes : List (Text × Node)
  edges : List (Text × Text)
  outcome : SeedOutcome
  deriving DecidableEq, Repr

def Collected.empty : Collected := ⟨[], [], ⟨0, 0, 0⟩⟩

def Collected.merge (acc : Collected) (graph : Graph) : Collected :=
  { acc with
    nodes := graph.nodes.foldl (fun nodes node => setField node.1 node.2 nodes) acc.nodes
    edges := acc.edges ++ graph.edges }

/-- The loop over the candidates of an asset: the names fetched so far, the number of lookups that
failed, what was collected. -/
def fetch (catalog : Catalog) (ns : Text) : List Text → List Text → Collected →
    List Text × ℕ × Collected
  | [], pulled, acc => (pulled, 0, acc)
  | name :: names, pulled, acc =>
    if name ∈ pulled then fetch catalog ns names pulled acc
    else
      match catalog.getLineage ns name with
      | none =>
        let rest := fetch catalog ns names (name :: pulled) acc
        (rest.1, rest.2.1 + 1, rest.2.2)
      | some graph => fetch catalog ns names (name :: pulled) (acc.merge graph)

def SeedOutcome.addUnavailable (o : SeedOutcome) (n : ℕ) : SeedOutcome :=
  { o with unavailable := o.unavailable + n }

def SeedOutcome.addAbsent (o : SeedOutcome) : SeedOutcome := { o with absent := o.absent + 1 }

def SeedOutcome.addResolved (o : SeedOutcome) : SeedOutcome := { o with resolved := o.resolved + 1 }

/-- The loop over the assets of a namespace that the catalog has listed. -/
def collectAssets (cases : Cases) (catalog : Catalog) (ns : Text) (catalogNames : List Text) :
    List Text → List Text → Collected → Collected
  | [], _, acc => acc
  | name :: names, pulled, acc =>
    let found := candidates cases ns catalogNames name
    if found = [] then
      collectAssets cases catalog ns catalogNames names pulled
        { acc with outcome := acc.outcome.addAbsent }
    else
      let r := fetch catalog ns found pulled acc
      let outcome :=
        if r.2.1 ≠ 0 ∧ r.2.1 = found.length then r.2.2.outcome.addUnavailable 1
        else r.2.2.outcome.addResolved
      collectAssets cases catalog ns catalogNames names r.1 { r.2.2 with outcome := outcome }

/-- The names of the assets in a namespace. -/
def assetNames (seeds : List AssetKey) (ns : Text) : List Text :=
  (seeds.filter fun seed => seed.1 = ns).map Prod.snd

/-- The loop over the namespaces. -/
def collectNamespaces (cases : Cases) (catalog : Catalog) (seeds : List AssetKey) :
    List Text → Collected → Collected
  | [], acc => acc
  | ns :: rest, acc =>
    match catalog.listDatasets ns with
    | none => collectNamespaces cases catalog seeds rest
        { acc with outcome := acc.outcome.addUnavailable (assetNames seeds ns).length }
    | some catalogNames => collectNamespaces cases catalog seeds rest
        (collectAssets cases catalog ns catalogNames (assetNames seeds ns) [] acc)

def Node.identity (node : Node) : Option AssetKey :=
  match node.kind, node.nodeNamespace, node.name with
  | .dataset, some ns, some name => if ns ≠ [] ∧ name ≠ [] then some (ns, name) else none
  | _, _, _ => none

/-- `_collapse_to_datasets`. -/
def collapseToDatasets (nodes : List (Text × Node)) (edges : List (Text × Text)) :
    List (AssetKey × AssetKey) :=
  let dataset := fun id => (nodes.lookup id).bind Node.identity
  nodes.flatMap fun node =>
    let downs := (edges.filter fun e => e.1 = node.1).filterMap fun e =>
      (dataset e.2).map fun down => (e.2, down)
    match node.2.identity with
    | some up => downs.map fun down => (up, down.2)
    | none =>
      if node.2.kind = .dataset then []
      else
        let ups := (edges.filter fun e => e.2 = node.1).filterMap fun e =>
          (dataset e.1).map fun up => (e.1, up)
        ups.flatMap fun up => (downs.filter fun down => down.1 ≠ up.1).map fun down => (up.2, down.2)

/-- `_collect_dataset_edges`. -/
def collectDatasetEdges (cases : Cases) (catalog : Catalog) (seeds : List AssetKey) :
    List (AssetKey × AssetKey) × SeedOutcome :=
  let collected := collectNamespaces cases catalog seeds (seeds.map Prod.fst).eraseDups .empty
  (collapseToDatasets collected.nodes collected.edges, collected.outcome)

/-! ## The cache -/

def marquezSource : Text := "marquez".toList

/-- A pulled edge. -/
def pulled (e : LineageEdge) : Bool := e.source = marquezSource && e.connectionId = none

/-- What the unique indexes of the edges tell apart. -/
abbrev EdgeKey := (ℕ × ℕ) × Text × Option ℕ

def edgeKey (e : LineageEdge) : EdgeKey := (e.pair, e.source, e.connectionId)

/-- `_edge_rows`. -/
def edgeRows (assets : List Asset) (pairs : List (AssetKey × AssetKey)) : List (ℕ × ℕ) :=
  pairs.filterMap fun pair =>
    match assetId assets pair.1, assetId assets pair.2 with
    | some up, some down => if up = down then none else some (up, down)
    | _, _ => none

/-- `_upsert_edges`, one row. -/
def upsertEdge (clock : Clock) (edges : List LineageEdge) (pair : ℕ × ℕ) : List LineageEdge :=
  Registry.upsert edgeKey (pair, marquezSource, none)
    (fun e => { e with lastSeen := clock.seenAt pair })
    ⟨pair.1, pair.2, marquezSource, none, clock.seenAt pair⟩ edges

def upsertEdges (clock : Clock) (rows : List (ℕ × ℕ)) (edges : List LineageEdge) :
    List LineageEdge :=
  rows.foldl (upsertEdge clock) edges

/-- `_prune_stale`. -/
def pruneStale (startedAt : ℕ) (edges : List LineageEdge) : List LineageEdge :=
  edges.filter fun e => ¬ (pulled e ∧ e.lastSeen < startedAt)

/-- The identities of the pairs as assets that the pull may add. -/
def pairRows (pairs : List (AssetKey × AssetKey)) : List AssetRow :=
  ((pairs.flatMap fun pair => [pair.1, pair.2]).eraseDups).map fun key => ⟨key.1, key.2, none, none⟩

/-- The pairs that the lookups report, as DataQ identities. -/
def reportedPairs (cases : Cases) (catalog : Catalog) (assets : List Asset) :
    List (AssetKey × AssetKey) :=
  let seeds := assets.map Asset.key
  (collectDatasetEdges cases catalog seeds).1.map fun pair =>
    (resolve cases seeds pair.1, resolve cases seeds pair.2)

/-- The assets once those of the reported pairs are among them. -/
def withReported (cases : Cases) (catalog : Catalog) (now : ℕ) (assets : List Asset) : List Asset :=
  upsertAssets true now (pairRows (reportedPairs cases catalog assets)) assets

/-- `_refresh_pulled_edges`. -/
def refreshPulledEdges (cases : Cases) (catalog : Catalog) (now : ℕ) (clock : Clock)
    (store : Store) : Store :=
  let seeds := store.assets.map Asset.key
  let collected := collectDatasetEdges cases catalog seeds
  let unavailable := collected.2.unavailable
  if collected.1 = [] then
    if unavailable = 0 ∧ collected.2.resolved ≠ 0 then
      { store with edges := pruneStale clock.startedAt store.edges }
    else store
  else
    let assets := withReported cases catalog now store.assets
    let edges := upsertEdges clock (edgeRows assets (reportedPairs cases catalog store.assets))
      store.edges
    ⟨assets, if unavailable = 0 then pruneStale clock.startedAt edges else edges⟩

end DataQ.Lineage.Pulls
