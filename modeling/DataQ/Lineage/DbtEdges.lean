import DataQ.Foundations.Transition
import DataQ.Lineage.Assets

/-! # Lineage edges of dbt manifests

`edges.refresh_dbt_edges`: the edges of one job's manifest are stored under its connection, and the
connection's edges that the manifest does not have are pruned. -/

namespace DataQ.Lineage
open DataQ.Transition
set_option autoImplicit false

structure NodeIdentity where
  database : Text
  schema : Text
  name : Text
  deriving DecidableEq, Repr

/-- A parsed manifest; `nodes` is a dict. -/
structure ManifestGraph where
  adapterType : Text
  nodes : List (Text × NodeIdentity)
  edges : List (Text × Text)
  deriving DecidableEq, Repr

/-- `lineageNamespace` is the text that the config has under `lineage_namespace`. -/
structure DbtConnection where
  id : ℕ
  env : Option Text
  lineageNamespace : Option Text
  deriving DecidableEq, Repr

structure LineageEdge where
  upstreamAssetId : ℕ
  downstreamAssetId : ℕ
  source : Text
  connectionId : Option ℕ
  lastSeen : ℕ
  deriving DecidableEq, Repr

structure Store where
  assets : List Asset
  edges : List LineageEdge
  deriving DecidableEq, Repr

/-- The clock of the database during a refresh: when it started, and when it saw each edge. -/
structure Clock where
  startedAt : ℕ
  seenAt : ℕ × ℕ → ℕ
  later : ∀ pair, startedAt ≤ seenAt pair

def dbtSource : Text := "dbt".toList

def ucAdapters : List Text := ["databricks".toList, "spark".toList]

variable (cases : Cases) (c : DbtConnection)

def canonicalName (adapterType : Text) (ident : NodeIdentity) : Option Text :=
  if adapterType = "snowflake".toList then
    formatName cases .snowflake ident.database ident.schema ident.name
  else if adapterType ∈ ucAdapters then
    formatName cases .unityCatalog ident.database ident.schema ident.name
  else some (dotted ([ident.database, ident.schema, ident.name].filter (· ≠ [])))

/-- The names of the nodes that have one; `none` where a name raises. -/
def canonicalNames (graph : ManifestGraph) : Option (List (Text × Text)) :=
  (graph.nodes.mapM fun node =>
    (canonicalName cases graph.adapterType node.2).map fun name => (node.1, name)).map
      (List.filter (·.2 ≠ []))

def anchorNamespace (names : List Text) (env : Option Text) (assets : List Asset) : Option Text :=
  let pool := assets.filter fun a => a.name ∈ names ∧ (a.env = env ∨ a.env = none)
  let namespaces := (pool.map Asset.assetNamespace).dedup.insertionSort (· ≤ ·)
  let count := fun ns => pool.countP (·.assetNamespace = ns)
  let top := namespaces.filter fun ns => count ns = (namespaces.map count).foldl max 0
  let latest := fun ns => ((pool.filter (·.assetNamespace = ns)).map Asset.lastSeen).foldl max 0
  (top.filter fun ns => latest ns = (top.map latest).foldl max 0).head?

def resolveNamespace (names : List Text) (assets : List Asset) : Option Text :=
  match c.lineageNamespace with
  | some pinned => if pyStrip pinned ≠ [] then some (pyStrip pinned)
      else anchorNamespace names c.env assets
  | none => anchorNamespace names c.env assets

/-- The loop of `_edge_rows`; `seen` has the rows so far. -/
def edgeRows (ids : Text → Option ℕ) : List (Text × Text) → List (ℕ × ℕ) → List (ℕ × ℕ)
  | [], _ => []
  | (parent, child) :: edges, seen =>
    match ids parent, ids child with
    | some upstream, some downstream =>
      if (upstream, downstream) ∈ seen then edgeRows ids edges seen
      else (upstream, downstream) :: edgeRows ids edges ((upstream, downstream) :: seen)
    | _, _ => edgeRows ids edges seen

/-- A dbt edge of the connection. -/
def LineageEdge.ofConnection (e : LineageEdge) : Bool :=
  e.source = dbtSource && e.connectionId = some c.id

def LineageEdge.pair (e : LineageEdge) : ℕ × ℕ := (e.upstreamAssetId, e.downstreamAssetId)

/-- `_upsert_edges`, one row. -/
def upsertEdge (clock : Clock) (edges : List LineageEdge) (pair : ℕ × ℕ) : List LineageEdge :=
  if edges.any fun e => e.pair = pair ∧ e.ofConnection c = true then
    edges.map fun e =>
      if e.pair = pair ∧ e.ofConnection c = true then { e with lastSeen := clock.seenAt pair } else e
  else edges ++ [⟨pair.1, pair.2, dbtSource, some c.id, clock.seenAt pair⟩]

def upsertEdges (clock : Clock) (rows : List (ℕ × ℕ)) (edges : List LineageEdge) :
    List LineageEdge :=
  rows.foldl (upsertEdge c clock) edges

def pruneStale (startedAt : ℕ) (edges : List LineageEdge) : List LineageEdge :=
  edges.filter fun e => ¬ (e.ofConnection c = true ∧ e.lastSeen < startedAt)

/-- `refresh_dbt_edges`, with the namespace that it resolved; `none` where it stores nothing. -/
def refreshDbtEdges (now : ℕ) (clock : Clock) (graph : ManifestGraph) (store : Store) :
    Option (Text × Store) :=
  match canonicalNames cases graph with
  | none => none
  | some canonical =>
    let names := (canonical.map Prod.snd).dedup.insertionSort (· ≤ ·)
    if names = [] then none
    else
      match resolveNamespace c names store.assets with
      | none => none
      | some ns =>
        let assets := upsertAssets true now
          (names.map fun name => ⟨ns, name, c.env, some c.id⟩) store.assets
        let rows := edgeRows
          (fun uid => (canonical.lookup uid).bind fun name => assetId assets (ns, name))
          graph.edges []
        some (ns, ⟨assets,
          pruneStale c clock.startedAt (upsertEdges c clock rows store.edges)⟩)

/-! ## Sequences of refreshes -/

/-- One run of the task, with the manifest that it read. -/
structure Refresh where
  job : Text
  graph : ManifestGraph
  now : ℕ
  clock : Clock

/-- The tables, and the refreshes that stored their manifest (the last one first), each with the
namespace that it resolved. -/
structure History where
  store : Store
  refreshed : List (Text × Text × ManifestGraph)

/-- A refresh starts after every edge of the connection was seen. -/
def refresh (h : History) (r : Refresh) : Option History :=
  if ∀ e ∈ h.store.edges, e.ofConnection c = true → e.lastSeen < r.clock.startedAt then
    match refreshDbtEdges cases c r.now r.clock r.graph h.store with
    | none => some h
    | some (ns, store) => some ⟨store, (r.job, ns, r.graph) :: h.refreshed⟩
  else none

/-- The edges of a manifest between the assets of a namespace. -/
def manifestEdges (ns : Text) (graph : ManifestGraph) : List (AssetKey × AssetKey) :=
  graph.edges.filterMap fun edge =>
    match ((canonicalNames cases graph).getD []).lookup edge.1,
        ((canonicalNames cases graph).getD []).lookup edge.2 with
    | some upstream, some downstream => some ((ns, upstream), (ns, downstream))
    | _, _ => none

/-- The latest refresh of a job. -/
def History.latest (h : History) (job : Text) : Option (Text × ManifestGraph) :=
  h.refreshed.lookup job

/-- The connection's dbt edges are the ones between these assets. -/
structure StoresExactly (store : Store) (edges : AssetKey × AssetKey → Prop) : Prop where
  sound : ∀ e ∈ store.edges, e.ofConnection c = true → ∃ edge, edges edge ∧
    assetId store.assets edge.1 = some e.upstreamAssetId ∧
    assetId store.assets edge.2 = some e.downstreamAssetId
  complete : ∀ edge, edges edge → ∃ e ∈ store.edges, e.ofConnection c = true ∧
    assetId store.assets edge.1 = some e.upstreamAssetId ∧
    assetId store.assets edge.2 = some e.downstreamAssetId

/-- The edges of the manifests that the jobs' latest refreshes read. -/
def History.union (h : History) (edge : AssetKey × AssetKey) : Prop :=
  ∃ job ns graph, h.latest job = some (ns, graph) ∧ edge ∈ manifestEdges cases ns graph

/-! ## One refresh -/

variable {cases c}

theorem mem_edgeRows {ids : Text → Option ℕ} {edges : List (Text × Text)} {seen : List (ℕ × ℕ)}
    {pair : ℕ × ℕ} :
    pair ∈ edgeRows ids edges seen ↔ pair ∉ seen ∧
      ∃ edge ∈ edges, ids edge.1 = some pair.1 ∧ ids edge.2 = some pair.2 := by
  induction edges generalizing seen with
  | nil => simp [edgeRows]
  | cons edge edges ih =>
    obtain ⟨parent, child⟩ := edge
    unfold edgeRows
    split
    · next upstream downstream hup hdown =>
      have hthis : ∀ q : ℕ × ℕ, (ids parent = some q.1 ∧ ids child = some q.2) ↔
          q = (upstream, downstream) := by
        intro q
        rw [hup, hdown, Option.some.injEq, Option.some.injEq]
        constructor
        · rintro ⟨h1, h2⟩
          exact Prod.ext h1.symm h2.symm
        · rintro rfl
          exact ⟨rfl, rfl⟩
      simp only [List.mem_cons, exists_eq_or_imp, hthis]
      split
      · next hseen =>
        rw [ih]
        constructor
        · rintro ⟨hnew, hedge⟩
          exact ⟨hnew, .inr hedge⟩
        · rintro ⟨hnew, rfl | hedge⟩
          · exact absurd hseen hnew
          · exact ⟨hnew, hedge⟩
      · next hseen =>
        rw [List.mem_cons, ih, List.mem_cons]
        constructor
        · rintro (rfl | ⟨hnew, hedge⟩)
          · exact ⟨hseen, .inl rfl⟩
          · exact ⟨fun hin => hnew (.inr hin), .inr hedge⟩
        · rintro ⟨hnew, heq | hedge⟩
          · exact .inl heq
          · by_cases heq : pair = (upstream, downstream)
            · exact .inl heq
            · exact .inr ⟨fun hin => hin.elim heq hnew, hedge⟩
    · next hnone =>
      rw [ih]
      simp only [List.mem_cons, exists_eq_or_imp]
      constructor
      · rintro ⟨hnew, hedge⟩
        exact ⟨hnew, .inr hedge⟩
      · rintro ⟨hnew, ⟨hup, hdown⟩ | hedge⟩
        · exact absurd hdown (hnone _ _ hup)
        · exact ⟨hnew, hedge⟩

theorem upsertEdge_there (clock : Clock) (edges : List LineageEdge) (pair : ℕ × ℕ) :
    ∃ e ∈ upsertEdge c clock edges pair, e.ofConnection c = true ∧ e.pair = pair ∧
      e.lastSeen = clock.seenAt pair := by
  unfold upsertEdge
  split
  · next hany =>
    obtain ⟨e, he, hkey⟩ := List.any_eq_true.mp hany
    have hkey : e.pair = pair ∧ e.ofConnection c = true := by simpa using hkey
    exact ⟨_, List.mem_map.mpr ⟨e, he, if_pos hkey⟩, hkey.2, hkey.1, rfl⟩
  · exact ⟨_, List.mem_append_right _ (List.mem_singleton.mpr rfl),
      by simp [LineageEdge.ofConnection], rfl, rfl⟩

theorem mem_upsertEdge {clock : Clock} {edges : List LineageEdge} {pair : ℕ × ℕ} {e : LineageEdge}
    (h : e ∈ upsertEdge c clock edges pair) (hconn : e.ofConnection c = true) :
    (e.pair = pair ∧ e.lastSeen = clock.seenAt pair) ∨ (e ∈ edges ∧ e.pair ≠ pair) := by
  unfold upsertEdge at h
  split at h
  · obtain ⟨old, hold, rfl⟩ := List.mem_map.mp h
    by_cases hkey : old.pair = pair ∧ old.ofConnection c = true
    · rw [if_pos hkey]
      exact .inl ⟨hkey.1, rfl⟩
    · rw [if_neg hkey] at hconn ⊢
      exact .inr ⟨hold, fun hpair => hkey ⟨hpair, hconn⟩⟩
  · next hany =>
    rcases List.mem_append.mp h with h | h
    · refine .inr ⟨h, fun hpair => hany ?_⟩
      exact List.any_eq_true.mpr ⟨e, h, by simp [hpair, hconn]⟩
    · rw [List.mem_singleton.mp h]
      exact .inl ⟨rfl, rfl⟩

theorem mem_upsertEdge_of_ne {clock : Clock} {edges : List LineageEdge} {pair : ℕ × ℕ}
    {e : LineageEdge} (h : e ∈ edges) (hne : e.pair ≠ pair) :
    e ∈ upsertEdge c clock edges pair := by
  unfold upsertEdge
  split
  · exact List.mem_map.mpr ⟨e, h, if_neg fun hkey => hne hkey.1⟩
  · exact List.mem_append_left _ h

theorem upsertEdges_there {clock : Clock} {rows : List (ℕ × ℕ)} {edges : List LineageEdge}
    {pair : ℕ × ℕ} (h : pair ∈ rows ∨ ∃ e ∈ edges, e.ofConnection c = true ∧ e.pair = pair ∧
      e.lastSeen = clock.seenAt pair) :
    ∃ e ∈ upsertEdges c clock rows edges, e.ofConnection c = true ∧ e.pair = pair ∧
      e.lastSeen = clock.seenAt pair := by
  induction rows generalizing edges with
  | nil =>
    rcases h with h | h
    · cases h
    · exact h
  | cons row rows ih =>
    apply ih
    by_cases hrow : pair = row
    · subst hrow
      exact .inr (upsertEdge_there clock edges pair)
    · rcases h with h | ⟨e, he, hconn, hpair, hseen⟩
      · exact .inl ((List.mem_cons.mp h).resolve_left hrow)
      · exact .inr ⟨e, mem_upsertEdge_of_ne he (by rw [hpair]; exact hrow), hconn, hpair, hseen⟩

theorem mem_upsertEdges {clock : Clock} {rows : List (ℕ × ℕ)} {edges : List LineageEdge}
    {e : LineageEdge} (h : e ∈ upsertEdges c clock rows edges) (hconn : e.ofConnection c = true) :
    e.pair ∈ rows ∨ e ∈ edges := by
  induction rows generalizing edges with
  | nil => exact .inr h
  | cons row rows ih =>
    rcases ih h with hin | hin
    · exact .inl (List.mem_cons_of_mem _ hin)
    · rcases mem_upsertEdge hin hconn with ⟨hpair, -⟩ | ⟨hold, -⟩
      · exact .inl (by rw [hpair]; exact List.mem_cons_self)
      · exact .inr hold

/-- What a refresh leaves of the connection's edges are the rows of its manifest. -/
theorem mem_pruned {clock : Clock} {rows : List (ℕ × ℕ)} {edges : List LineageEdge}
    (hold : ∀ e ∈ edges, e.ofConnection c = true → e.lastSeen < clock.startedAt) {pair : ℕ × ℕ} :
    (∃ e ∈ pruneStale c clock.startedAt (upsertEdges c clock rows edges),
      e.ofConnection c = true ∧ e.pair = pair) ↔ pair ∈ rows := by
  constructor
  · rintro ⟨e, he, hconn, rfl⟩
    obtain ⟨hmem, hkept⟩ := List.mem_filter.mp he
    rcases mem_upsertEdges hmem hconn with hrow | hedge
    · exact hrow
    · exact absurd ⟨hconn, hold e hedge hconn⟩ (of_decide_eq_true hkept)
  · intro hrow
    have hthere : ∃ e ∈ upsertEdges c clock rows edges, e.ofConnection c = true ∧ e.pair = pair ∧
        e.lastSeen = clock.seenAt pair := upsertEdges_there (.inl hrow)
    obtain ⟨e, he, hconn, hpair, hseen⟩ := hthere
    refine ⟨e, List.mem_filter.mpr ⟨he, decide_eq_true ?_⟩, hconn, hpair⟩
    have hlater := clock.later pair
    omega

theorem mem_manifestEdges {ns : Text} {graph : ManifestGraph} {canonical : List (Text × Text)}
    (h : canonicalNames cases graph = some canonical) {up down : AssetKey} :
    (up, down) ∈ manifestEdges cases ns graph ↔ ∃ edge ∈ graph.edges, ∃ a b,
      canonical.lookup edge.1 = some a ∧ canonical.lookup edge.2 = some b ∧
      up = (ns, a) ∧ down = (ns, b) := by
  rw [manifestEdges, List.mem_filterMap, h]
  simp only [Option.getD_some]
  constructor
  · rintro ⟨edge, hedge, hsome⟩
    split at hsome
    · next a b ha hb =>
      cases hsome
      exact ⟨edge, hedge, a, b, ha, hb, rfl, rfl⟩
    · cases hsome
  · rintro ⟨edge, hedge, a, b, ha, hb, rfl, rfl⟩
    exact ⟨edge, hedge, by rw [ha, hb]⟩

theorem mem_of_lookup {α β : Type} [BEq α] [LawfulBEq α] {entries : List (α × β)} {key : α}
    {value : β} (h : entries.lookup key = some value) : (key, value) ∈ entries := by
  obtain ⟨before, after, hsplit, -⟩ := List.lookup_eq_some_iff.mp h
  rw [hsplit]
  simp

theorem mem_names_of_lookup {canonical : List (Text × Text)} {uid name : Text}
    (h : canonical.lookup uid = some name) :
    name ∈ (canonical.map Prod.snd).dedup.insertionSort (· ≤ ·) := by
  rw [List.mem_insertionSort, List.mem_dedup]
  exact List.mem_map.mpr ⟨(uid, name), mem_of_lookup h, rfl⟩

theorem mem_upsertEdges_other {clock : Clock} {rows : List (ℕ × ℕ)} {edges : List LineageEdge}
    {e : LineageEdge} (hother : e.ofConnection c = false) :
    e ∈ upsertEdges c clock rows edges ↔ e ∈ edges := by
  have hone : ∀ (edges : List LineageEdge) (pair : ℕ × ℕ),
      e ∈ upsertEdge c clock edges pair ↔ e ∈ edges := by
    intro edges pair
    unfold upsertEdge
    split
    · rw [List.mem_map]
      constructor
      · rintro ⟨old, hold, rfl⟩
        by_cases hkey : old.pair = pair ∧ old.ofConnection c = true
        · rw [if_pos hkey] at hother
          have hown : old.ofConnection c = false := hother
          rw [hkey.2] at hown
          cases hown
        · rw [if_neg hkey]
          exact hold
      · intro hin
        refine ⟨e, hin, if_neg fun hkey => ?_⟩
        rw [hkey.2] at hother
        cases hother
    · rw [List.mem_append, List.mem_singleton]
      constructor
      · rintro (hin | rfl)
        · exact hin
        · simp [LineageEdge.ofConnection] at hother
      · exact .inl
  induction rows generalizing edges with
  | nil => rfl
  | cons row rows ih =>
    have hrest : e ∈ upsertEdges c clock rows (upsertEdge c clock edges row) ↔
        e ∈ upsertEdge c clock edges row := ih
    exact hrest.trans (hone edges row)

/-- What a refresh that stores its manifest leaves. -/
structure Stored (cases : Cases) (c : DbtConnection) (ns : Text) (graph : ManifestGraph)
    (before after : Store) : Prop where
  identified : Identified before.assets → Identified after.assets
  kept : ∀ key i, assetId before.assets key = some i → assetId after.assets key = some i
  exactly : StoresExactly c after (· ∈ manifestEdges cases ns graph)
  others : ∀ e : LineageEdge, e.ofConnection c = false → (e ∈ after.edges ↔ e ∈ before.edges)

theorem refreshDbtEdges_stored {now : ℕ} {clock : Clock} {graph : ManifestGraph}
    {store after : Store} {ns : Text}
    (hold : ∀ e ∈ store.edges, e.ofConnection c = true → e.lastSeen < clock.startedAt)
    (h : refreshDbtEdges cases c now clock graph store = some (ns, after)) :
    Stored cases c ns graph store after := by
  unfold refreshDbtEdges at h
  split at h
  · cases h
  · next canonical hcanonical =>
    simp only at h
    split at h
    · cases h
    · split at h
      · cases h
      · cases h
        let rows := ((canonical.map Prod.snd).dedup.insertionSort (· ≤ ·)).map
          fun name => (⟨ns, name, c.env, some c.id⟩ : AssetRow)
        have hasset : ∀ uid name, canonical.lookup uid = some name →
            (assetId (upsertAssets true now rows store.assets) (ns, name)).isSome := by
          intro uid name hname
          have hmem : (⟨ns, name, c.env, some c.id⟩ : AssetRow) ∈ rows :=
            List.mem_map_of_mem (mem_names_of_lookup hname)
          exact assetId_upsertAssets_of_mem hmem
        refine ⟨upsertAssets_identified, fun key i => assetId_upsertAssets, ⟨?_, ?_⟩, ?_⟩
        · intro e he hconn
          have hrow := (mem_pruned hold).mp ⟨e, he, hconn, rfl⟩
          obtain ⟨-, edge, hedge, hup, hdown⟩ := mem_edgeRows.mp hrow
          obtain ⟨a, ha, hup⟩ := Option.bind_eq_some_iff.mp hup
          obtain ⟨b, hb, hdown⟩ := Option.bind_eq_some_iff.mp hdown
          exact ⟨((ns, a), (ns, b)), (mem_manifestEdges hcanonical).mpr
            ⟨edge, hedge, a, b, ha, hb, rfl, rfl⟩, hup, hdown⟩
        · rintro ⟨up, down⟩ hin
          obtain ⟨edge, hedge, a, b, ha, hb, rfl, rfl⟩ := (mem_manifestEdges hcanonical).mp hin
          obtain ⟨i, hi⟩ := Option.isSome_iff_exists.mp (hasset edge.1 a ha)
          obtain ⟨j, hj⟩ := Option.isSome_iff_exists.mp (hasset edge.2 b hb)
          have hrow : (i, j) ∈ edgeRows (fun uid => (canonical.lookup uid).bind fun name =>
              assetId (upsertAssets true now rows store.assets) (ns, name)) graph.edges [] := by
            rw [mem_edgeRows]
            exact ⟨by simp, edge, hedge, Option.bind_eq_some_iff.mpr ⟨a, ha, hi⟩,
              Option.bind_eq_some_iff.mpr ⟨b, hb, hj⟩⟩
          obtain ⟨e, he, hconn, hpair⟩ := (mem_pruned hold).mpr hrow
          obtain ⟨rfl, rfl⟩ := Prod.mk.inj hpair
          exact ⟨e, he, hconn, hi, hj⟩
        · intro e hother
          rw [pruneStale, List.mem_filter, mem_upsertEdges_other hother]
          simp [hother]

theorem StoresExactly.of_sound {store : Store} {edges others : AssetKey × AssetKey → Prop}
    (hid : Identified store.assets) (h : StoresExactly c store edges)
    (h' : StoresExactly c store others) {edge : AssetKey × AssetKey} (hedge : edges edge) :
    others edge := by
  obtain ⟨e, he, hconn, hup, hdown⟩ := h.complete edge hedge
  obtain ⟨edge', hedge', hup', hdown'⟩ := h'.sound e he hconn
  have hsame : edge = edge' := Prod.ext (hid.idOf_inj hup hup') (hid.idOf_inj hdown hdown')
  rw [hsame]
  exact hedge'

/-! ## All jobs of a connection -/

/-- What holds after every sequence of refreshes: the connection's edges are the last manifest's,
and no other edge has changed. -/
structure LastStored (cases : Cases) (c : DbtConnection) (store : Store) (h : History) : Prop where
  identified : Identified h.store.assets
  exactly : ∀ job ns graph, h.refreshed.head? = some (job, ns, graph) →
    StoresExactly c h.store (· ∈ manifestEdges cases ns graph)
  others : ∀ e : LineageEdge, e.ofConnection c = false → (e ∈ h.store.edges ↔ e ∈ store.edges)

theorem refresh_lastStored {store : Store} {h after : History} {r : Refresh}
    (hlast : LastStored cases c store h) (hstep : refresh cases c h r = some after) :
    LastStored cases c store after := by
  unfold refresh at hstep
  split at hstep
  · next hold =>
    split at hstep
    · cases hstep
      exact hlast
    · next ns stored hstores =>
      cases hstep
      have hstored := refreshDbtEdges_stored hold hstores
      refine ⟨hstored.identified hlast.identified, fun job ns' graph hhead => ?_, fun e he => ?_⟩
      · cases hhead
        exact hstored.exactly
      · exact (hstored.others e he).trans (hlast.others e he)
  · cases hstep

theorem head?_latest {refreshed : List (Text × Text × ManifestGraph)} {job ns : Text}
    {graph : ManifestGraph} (h : refreshed.head? = some (job, ns, graph)) :
    refreshed.lookup job = some (ns, graph) := by
  obtain ⟨rest, rfl⟩ := List.head?_eq_some_iff.mp h
  simp

/-- The connection's edges are those of the manifest that was stored last, other edges are as they
were, and the union over the jobs is stored exactly when that manifest has every edge of the other
jobs' latest manifests. -/
theorem stores_last_manifest (cases : Cases) (c : DbtConnection) (store : Store)
    (refreshes : List Refresh) {h : History} {job ns : Text} {graph : ManifestGraph}
    (hidentified : Identified store.assets)
    (hrun : Transition.run (refresh cases c) ⟨store, []⟩ refreshes = some h)
    (hlast : h.refreshed.head? = some (job, ns, graph)) :
    StoresExactly c h.store (· ∈ manifestEdges cases ns graph) ∧
      (∀ e : LineageEdge, e.ofConnection c = false → (e ∈ h.store.edges ↔ e ∈ store.edges)) ∧
      (StoresExactly c h.store (h.union cases) ↔
        ∀ job' ns' graph', h.latest job' = some (ns', graph') →
          ∀ edge ∈ manifestEdges cases ns' graph', edge ∈ manifestEdges cases ns graph) := by
  have hstart : LastStored cases c store ⟨store, []⟩ := by
    refine ⟨hidentified, ?_, fun e _ => Iff.rfl⟩
    intro job ns graph hhead
    cases hhead
  have hkept : LastStored cases c store h :=
    run_keeps (fun s e t hs hst => refresh_lastStored hs hst) hstart hrun
  have hexactly := hkept.exactly job ns graph hlast
  refine ⟨hexactly, hkept.others, fun hunion => ?_, fun hall => ?_⟩
  · intro job' ns' graph' hlatest edge hin
    exact hunion.of_sound hkept.identified hexactly ⟨job', ns', graph', hlatest, hin⟩
  · have hsame : ∀ edge, h.union cases edge ↔ edge ∈ manifestEdges cases ns graph := by
      intro edge
      constructor
      · rintro ⟨job', ns', graph', hlatest, hin⟩
        exact hall job' ns' graph' hlatest edge hin
      · intro hin
        exact ⟨job, ns, graph, head?_latest hlast, hin⟩
    have hfun : h.union cases = fun edge => edge ∈ manifestEdges cases ns graph := by
      funext edge
      exact propext (hsame edge)
    rw [hfun]
    exact hexactly

/-- Two jobs of one project: the nightly one builds the orders, the hourly one the payments. -/
def asciiCases : Cases := ⟨List.map Char.toUpper, lower⟩

def shop : DbtConnection := ⟨1, none, some "snowflake://acme".toList⟩

def shopTable (name : String) : Text × NodeIdentity :=
  (name.toList, ⟨"shop".toList, "public".toList, name.toList⟩)

def shopManifest (upstream downstream : String) : ManifestGraph where
  adapterType := "snowflake".toList
  nodes := [shopTable upstream, shopTable downstream]
  edges := [(upstream.toList, downstream.toList)]

def refreshAt (time : ℕ) (job upstream downstream : String) : Refresh where
  job := job.toList
  graph := shopManifest upstream downstream
  now := time
  clock := ⟨time, fun _ => time, fun _ => Nat.le_refl time⟩

/-- The hourly job's manifest comes to have the edge of the nightly one's. -/
def alike : List Refresh :=
  [refreshAt 1 "nightly" "raw" "orders", refreshAt 2 "hourly" "raw" "orders"]

theorem stores_last_manifest_alike :
    ∃ h, Transition.run (refresh asciiCases shop) ⟨⟨[], []⟩, []⟩ alike = some h ∧
      StoresExactly shop h.store (h.union asciiCases) := by
  refine ⟨_, rfl, ?_⟩
  have hempty : Identified [] := by
    intro a ha
    cases ha
  refine (stores_last_manifest asciiCases shop ⟨[], []⟩ alike hempty rfl rfl).2.2.mpr ?_
  intro job ns graph hlatest edge hedge
  have hmem : (job, ns, graph) ∈ [("hourly".toList, "snowflake://acme".toList,
      shopManifest "raw" "orders"), ("nightly".toList, "snowflake://acme".toList,
      shopManifest "raw" "orders")] := mem_of_lookup hlatest
  simp only [List.mem_cons, List.not_mem_nil, or_false, Prod.mk.injEq] at hmem
  rcases hmem with ⟨-, rfl, rfl⟩ | ⟨-, rfl, rfl⟩ <;> exact hedge

/-- The hourly job's refresh deletes the edge that the nightly job's manifest still has. -/
theorem hourly_deletes_nightly :
    ∃ h, Transition.run (refresh asciiCases shop) ⟨⟨[], []⟩, []⟩
        [refreshAt 1 "nightly" "raw" "orders", refreshAt 2 "hourly" "orders" "payments"] = some h ∧
      h.latest "nightly".toList = some ("snowflake://acme".toList, shopManifest "raw" "orders") ∧
      h.store.edges.map LineageEdge.pair = [(1, 3)] ∧
      ¬ StoresExactly shop h.store (h.union asciiCases) := by
  refine ⟨_, rfl, by decide, by decide, fun hunion => ?_⟩
  have hlost := hunion.complete (("snowflake://acme".toList, "SHOP.PUBLIC.RAW".toList),
    ("snowflake://acme".toList, "SHOP.PUBLIC.ORDERS".toList))
    ⟨"nightly".toList, "snowflake://acme".toList, shopManifest "raw" "orders", by decide,
      by decide⟩
  obtain ⟨e, he, -, hup, -⟩ := hlost
  revert e
  decide

end DataQ.Lineage
