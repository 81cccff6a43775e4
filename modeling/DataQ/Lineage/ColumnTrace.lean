import DataQ.Foundations.Dictionary
import DataQ.Foundations.Exploration
import DataQ.Lineage.Columns
import Mathlib.Data.Finset.Insert

/-! # The trace of one column

`trace_column` of `lineage/columns.py`: one column is followed up to where it comes from and down to
what derives from it; a cell that nothing feeds is an origin, confirmed where nothing is missing. -/

namespace DataQ.Lineage.Traces
open DataQ.Exploration DataQ.Lineage.Columns
set_option autoImplicit false

/-- `MAX_TRACE_DEPTH`. -/
def maxTraceDepth : ℕ := 25

/-- `MAX_TRACE_NODES`. -/
def maxTraceNodes : ℕ := 500

inductive TraceDirection
  | upstream | downstream | both
  deriving DecidableEq, Repr

inductive TraceStatus
  | traced | noTableLineage | noneRecorded | incomplete
  deriving DecidableEq, Repr

structure ColumnNode where
  assetId : ℕ
  column : Text
  depth : ℕ
  deriving DecidableEq, Repr

structure ColumnHop where
  upstreamAssetId : ℕ
  upstreamColumn : Text
  downstreamAssetId : ℕ
  downstreamColumn : Text
  deriving DecidableEq, Repr

structure CoverageGap where
  upstreamAssetId : ℕ
  downstreamAssetId : ℕ
  coverage : ColumnCoverage
  deriving DecidableEq, Repr

structure ColumnOrigin where
  assetId : ℕ
  column : Text
  depth : ℕ
  confirmed : Bool
  deriving DecidableEq, Repr

/-- `_Walk`, with the variables of its loop. -/
structure Walk where
  nodes : List ColumnNode
  hops : List ColumnHop
  gaps : List CoverageGap
  truncated : Bool
  gappedAssets : Finset ℕ
  fed : Finset Cell
  frontierAtCap : Finset Cell
  visited : Finset Cell
  next : List Cell
  sawAnyEdge : Bool
  sawStartGap : Bool

structure ColumnTrace where
  assetId : ℕ
  column : Text
  upstream : List ColumnNode
  downstream : List ColumnNode
  hops : List ColumnHop
  gaps : List CoverageGap
  origins : List ColumnOrigin
  upstreamStatus : Option TraceStatus
  downstreamStatus : Option TraceStatus
  truncated : Bool

section Walking
variable (py : Python) (cases : Cases) (cache : Cache) (upstream : Bool)

/-- The end of an edge that the walk comes from. -/
def near (key : ℕ × ℕ) : ℕ := if upstream then key.2 else key.1

/-- The cells of a pair: the one that the walk comes from, and the one that it leads to. -/
def hereCell (key : ℕ × ℕ) (pair : ColumnPair) : Cell :=
  if upstream then downCell cases cache key pair else upCell cases cache key pair

def thereCell (key : ℕ × ℕ) (pair : ColumnPair) : Cell :=
  if upstream then upCell cases cache key pair else downCell cases cache key pair

def thereColumn (pair : ColumnPair) : Text := if upstream then (ofLex pair).1 else (ofLex pair).2

/-- One pair of a recorded edge. -/
def followPair (atCap : Bool) (depth : ℕ) (frontier : List Cell) (key : ℕ × ℕ) (w : Walk)
    (pair : ColumnPair) : Walk :=
  let here := hereCell cases cache upstream key pair
  let there := thereCell cases cache upstream key pair
  let hop : ColumnHop := ⟨key.1, (ofLex pair).1, key.2, (ofLex pair).2⟩
  if here ∉ frontier then w
  else if there ∈ w.visited then { w with hops := w.hops ++ [hop], fed := insert here w.fed }
  else if atCap || maxTraceNodes ≤ w.nodes.length then
    { w with truncated := true, frontierAtCap := insert here w.frontierAtCap }
  else
    { w with
      visited := insert there w.visited
      nodes := w.nodes ++ [⟨there.1, thereColumn upstream pair, depth + 1⟩]
      next := w.next ++ [there]
      hops := w.hops ++ [hop]
      fed := insert here w.fed }

/-- One edge: a gap, or the pairs that it has. -/
def followEdge (atCap : Bool) (depth : ℕ) (frontier : List Cell) (w : Walk)
    (edge : (ℕ × ℕ) × EdgeColumns) : Walk :=
  let here := near upstream edge.1
  if here ∉ frontier.map Prod.fst then w
  else
    let w := { w with sawAnyEdge := w.sawAnyEdge || decide (depth = 0) }
    if edge.2.coverage ≠ .recorded then
      { w with
        gaps := w.gaps ++ [⟨edge.1.1, edge.1.2, edge.2.coverage⟩]
        gappedAssets := insert here w.gappedAssets
        sawStartGap := w.sawStartGap || decide (depth = 0) }
    else edge.2.pairs.foldl (followPair cases cache upstream atCap depth frontier edge.1) w

/-- The edges of the assets of a frontier. -/
def edgesOf (frontier : List Cell) : List ((ℕ × ℕ) × EdgeColumns) :=
  inOrder (load py cache fun row => near upstream row.key ∈ frontier.map Prod.fst)

def Walk.level (atCap : Bool) (depth : ℕ) (frontier : List Cell) (w : Walk) : Walk :=
  (edgesOf py cache upstream frontier).foldl
    (followEdge cases cache upstream atCap depth frontier) { w with next := [] }

/-- The levels up to the cap on the depth, which is that far away; the last one only looks. -/
def Walk.run : ℕ → ℕ → List Cell → Walk → Walk
  | levels, depth, frontier, w =>
    if frontier = [] then w
    else
      let after := w.level py cases cache upstream (levels = 0) depth frontier
      match levels with
      | 0 => after
      | levels + 1 => run levels (depth + 1) after.next after

def Walk.status (w : Walk) : TraceStatus :=
  if w.hops ≠ [] then .traced
  else if !w.sawAnyEdge then .noTableLineage
  else if w.sawStartGap then .incomplete
  else .noneRecorded

def Walk.start (start : Cell) : Walk :=
  ⟨[], [], [], false, ∅, ∅, ∅, {start}, [], false, false⟩

/-- `_walk`. -/
def walk (start : Cell) (maxDepth : ℕ) : Walk :=
  (Walk.start start).run py cases cache upstream maxDepth 0 [start]

/-- `namespaces.fold(node.asset_id, node.column)`, with the asset. -/
def ColumnNode.cell (node : ColumnNode) : Cell :=
  (node.assetId, fold cases cache node.assetId node.column)

/-- The nodes that nothing feeds. -/
def Walk.origins (w : Walk) : List ColumnOrigin :=
  (w.nodes.filter fun node => node.cell cases cache ∉ w.fed).map fun node =>
    { assetId := node.assetId
      column := node.column
      depth := node.depth
      confirmed := node.assetId ∉ w.gappedAssets && node.cell cases cache ∉ w.frontierAtCap }

/-- Each edge once, in the order in which the gaps came up. -/
def dedupeGaps (gaps : List CoverageGap) : List CoverageGap :=
  (gaps.foldl (fun found gap =>
    setField (gap.upstreamAssetId, gap.downstreamAssetId) gap found) []).map Prod.snd

/-- `max(1, min(max_depth, MAX_TRACE_DEPTH))`. -/
def traceDepth (maxDepth : ℤ) : ℕ := (max 1 (min maxDepth maxTraceDepth)).toNat

/-- `trace_column`. -/
def traceColumn (assetId : ℕ) (column : Text) (direction : TraceDirection) (maxDepth : ℤ) :
    ColumnTrace :=
  let start := (assetId, fold cases cache assetId column)
  let up := if direction = .downstream then none
    else some (walk py cases cache true start (traceDepth maxDepth))
  let down := if direction = .upstream then none
    else some (walk py cases cache false start (traceDepth maxDepth))
  { assetId := assetId
    column := pyStrip column
    upstream := (up.map Walk.nodes).getD []
    downstream := (down.map Walk.nodes).getD []
    hops := (up.map Walk.hops).getD [] ++ (down.map Walk.hops).getD []
    gaps := dedupeGaps ((up.map Walk.gaps).getD [] ++ (down.map Walk.gaps).getD [])
    origins := (up.map (Walk.origins cases cache)).getD []
    upstreamStatus := up.map Walk.status
    downstreamStatus := down.map Walk.status
    truncated := up.any Walk.truncated || down.any Walk.truncated }

end Walking

/-! ## What one visit does -/

section Visits
variable (py : Python) (cases : Cases) (cache : Cache) (upstream : Bool)

/-- A recorded pair leads from one cell to the other, in the direction of the walk. -/
def Leads (a b : Cell) : Prop :=
  if upstream then Feeds py cases cache b a else Feeds py cases cache a b

variable {py cases cache upstream}

theorem leads_of_mem {row : EdgeRow} (hrow : row ∈ cache.rows) {pair : ColumnPair}
    (hpair : pair ∈ row.pairs py) :
    Leads py cases cache upstream (hereCell cases cache upstream row.key pair)
      (thereCell cases cache upstream row.key pair) := by
  have hfeeds : Feeds py cases cache (upCell cases cache row.key pair)
      (downCell cases cache row.key pair) := ⟨row, hrow, pair, hpair, rfl, rfl⟩
  cases upstream <;> exact hfeeds

theorem exists_pair {a b : Cell} (h : Leads py cases cache upstream a b) :
    ∃ row ∈ cache.rows, ∃ pair ∈ row.pairs py, hereCell cases cache upstream row.key pair = a ∧
      thereCell cases cache upstream row.key pair = b := by
  cases upstream with
  | true =>
    obtain ⟨row, hrow, pair, hpair, rfl, rfl⟩ := h
    exact ⟨row, hrow, pair, hpair, rfl, rfl⟩
  | false =>
    obtain ⟨row, hrow, pair, hpair, rfl, rfl⟩ := h
    exact ⟨row, hrow, pair, hpair, rfl, rfl⟩

theorem hereCell_asset (key : ℕ × ℕ) (pair : ColumnPair) :
    (hereCell cases cache upstream key pair).1 = near upstream key := by
  cases upstream <;> rfl

/-- The node of a pair is the cell that it leads to. -/
theorem cell_node (key : ℕ × ℕ) (pair : ColumnPair) (depth : ℕ) :
    (ColumnNode.mk (thereCell cases cache upstream key pair).1 (thereColumn upstream pair)
      depth).cell cases cache = thereCell cases cache upstream key pair := by
  cases upstream <;> rfl

variable {atCap : Bool} {depth : ℕ} {frontier : List Cell} {key : ℕ × ℕ} {pair : ColumnPair}
  {w : Walk}

theorem followPair_cases (cases : Cases) (cache : Cache) (upstream atCap : Bool) (depth : ℕ)
    (frontier : List Cell) (key : ℕ × ℕ) (w : Walk) (pair : ColumnPair) :
    let here := hereCell cases cache upstream key pair
    let there := thereCell cases cache upstream key pair
    let hops := w.hops ++ [⟨key.1, (ofLex pair).1, key.2, (ofLex pair).2⟩]
    let after := followPair cases cache upstream atCap depth frontier key w pair
    (here ∉ frontier ∧ after = w) ∨ here ∈ frontier ∧
      ((there ∈ w.visited ∧ after = { w with hops := hops, fed := insert here w.fed }) ∨
        after = { w with truncated := true, frontierAtCap := insert here w.frontierAtCap } ∨
        (there ∉ w.visited ∧ atCap = false ∧ after = { w with
          visited := insert there w.visited
          nodes := w.nodes ++ [⟨there.1, thereColumn upstream pair, depth + 1⟩]
          next := w.next ++ [there]
          hops := hops
          fed := insert here w.fed })) := by
  intro here there hops after
  by_cases hhere : here ∈ frontier
  · refine .inr ⟨hhere, ?_⟩
    have hnot : ¬here ∉ frontier := not_not.mpr hhere
    by_cases hseen : there ∈ w.visited
    · exact .inl ⟨hseen, (if_neg hnot).trans (if_pos hseen)⟩
    · by_cases hcap : (atCap || decide (maxTraceNodes ≤ w.nodes.length)) = true
      · exact .inr (.inl ((if_neg hnot).trans ((if_neg hseen).trans (if_pos hcap))))
      · refine .inr (.inr ⟨hseen, ?_, (if_neg hnot).trans ((if_neg hseen).trans (if_neg hcap))⟩)
        cases atCap
        · rfl
        · simp at hcap
  · exact .inl ⟨hhere, if_pos hhere⟩

/-- What a walk keeps once it has it. -/
structure Grows (w w' : Walk) : Prop where
  visited : w.visited ⊆ w'.visited
  fed : w.fed ⊆ w'.fed
  frontierAtCap : w.frontierAtCap ⊆ w'.frontierAtCap
  gappedAssets : w.gappedAssets ⊆ w'.gappedAssets
  truncated : w.truncated = true → w'.truncated = true

theorem Grows.refl (w : Walk) : Grows w w :=
  ⟨Finset.Subset.refl _, Finset.Subset.refl _, Finset.Subset.refl _, Finset.Subset.refl _, id⟩

theorem Grows.trans {w w' w'' : Walk} (h : Grows w w') (h' : Grows w' w'') : Grows w w'' :=
  ⟨h.visited.trans h'.visited, h.fed.trans h'.fed, h.frontierAtCap.trans h'.frontierAtCap,
    h.gappedAssets.trans h'.gappedAssets, h'.truncated ∘ h.truncated⟩

theorem followPair_grows :
    Grows w (followPair cases cache upstream atCap depth frontier key w pair) := by
  have hcases := followPair_cases cases cache upstream atCap depth frontier key w pair
  obtain ⟨_, heq⟩ | ⟨_, ⟨_, heq⟩ | heq | ⟨_, _, heq⟩⟩ := hcases
  · rw [heq]
    exact Grows.refl w
  · rw [heq]
    exact ⟨Finset.Subset.refl _, Finset.subset_insert _ _, Finset.Subset.refl _,
      Finset.Subset.refl _, id⟩
  · rw [heq]
    exact ⟨Finset.Subset.refl _, Finset.Subset.refl _, Finset.subset_insert _ _,
      Finset.Subset.refl _, fun _ => rfl⟩
  · rw [heq]
    exact ⟨Finset.subset_insert _ _, Finset.subset_insert _ _, Finset.Subset.refl _,
      Finset.Subset.refl _, id⟩

/-- A pair out of the frontier was looked at: its cell is fed by what is visited, or the walk says
that it was cut there. -/
structure PairDone (cases : Cases) (cache : Cache) (upstream : Bool) (frontier : List Cell)
    (key : ℕ × ℕ) (pair : ColumnPair) (w : Walk) : Prop where
  leads : hereCell cases cache upstream key pair ∈ frontier →
    w.truncated = true ∨ thereCell cases cache upstream key pair ∈ w.visited
  fed : hereCell cases cache upstream key pair ∈ frontier →
    hereCell cases cache upstream key pair ∈ w.fed ∨
      hereCell cases cache upstream key pair ∈ w.frontierAtCap

theorem PairDone.grows {w' : Walk} (h : PairDone cases cache upstream frontier key pair w)
    (hgrows : Grows w w') : PairDone cases cache upstream frontier key pair w' where
  leads := fun hhere => (h.leads hhere).imp hgrows.truncated fun hthere => hgrows.visited hthere
  fed := fun hhere =>
    (h.fed hhere).imp (fun hfed => hgrows.fed hfed) fun hcap => hgrows.frontierAtCap hcap

theorem followPair_done : PairDone cases cache upstream frontier key pair
    (followPair cases cache upstream atCap depth frontier key w pair) := by
  have hcases := followPair_cases cases cache upstream atCap depth frontier key w pair
  obtain ⟨hnot, _⟩ | ⟨_, ⟨hseen, heq⟩ | heq | ⟨_, _, heq⟩⟩ := hcases
  · exact ⟨fun hhere => absurd hhere hnot, fun hhere => absurd hhere hnot⟩
  · rw [heq]
    exact ⟨fun _ => .inr hseen, fun _ => .inl (Finset.mem_insert_self _ _)⟩
  · rw [heq]
    exact ⟨fun _ => .inl rfl, fun _ => .inr (Finset.mem_insert_self _ _)⟩
  · rw [heq]
    exact ⟨fun _ => .inr (Finset.mem_insert_self _ _), fun _ => .inl (Finset.mem_insert_self _ _)⟩

/-- What a level keeps: the start and the nodes are the cells visited, each of them once; they are
within a step more than those visited before, and the next frontier has all that are new. -/
structure Walk.Over (py : Python) (cases : Cases) (cache : Cache) (upstream atCap : Bool)
    (start : Cell) (depth : ℕ) (before : Finset Cell) (w : Walk) : Prop where
  nodup : (start :: w.nodes.map (ColumnNode.cell cases cache)).Nodup
  visited : ∀ c, c ∈ w.visited ↔ c ∈ start :: w.nodes.map (ColumnNode.cell cases cache)
  grows : before ⊆ w.visited
  fresh : ∀ c ∈ w.visited, c ∉ w.next → c ∈ before
  next : ∀ c ∈ w.next, c ∈ w.visited
  within : ∀ c ∈ w.visited, Within (Leads py cases cache upstream) (depth + 1) start c
  atCap : atCap = true → w.next = []

variable {start : Cell} {before : Finset Cell}

theorem Walk.Over.followPair (h : w.Over py cases cache upstream atCap start depth before)
    (hfrontier : ∀ c ∈ frontier, Within (Leads py cases cache upstream) depth start c)
    (hleads : Leads py cases cache upstream (hereCell cases cache upstream key pair)
      (thereCell cases cache upstream key pair)) :
    (followPair cases cache upstream atCap depth frontier key w pair).Over py cases cache upstream
      atCap start depth before := by
  have hcases := followPair_cases cases cache upstream atCap depth frontier key w pair
  obtain ⟨_, heq⟩ | ⟨hhere, ⟨_, heq⟩ | heq | ⟨hnew, hcap, heq⟩⟩ := hcases
  · rwa [heq]
  · rw [heq]
    exact ⟨h.nodup, h.visited, h.grows, h.fresh, h.next, h.within, h.atCap⟩
  · rw [heq]
    exact ⟨h.nodup, h.visited, h.grows, h.fresh, h.next, h.within, h.atCap⟩
  · have hnodes : (start :: (w.nodes ++ [ColumnNode.mk
        (thereCell cases cache upstream key pair).1 (thereColumn upstream pair)
          (depth + 1)]).map (ColumnNode.cell cases cache)) =
        (start :: w.nodes.map (ColumnNode.cell cases cache)) ++
          [thereCell cases cache upstream key pair] := by
      rw [List.map_append, List.map_singleton, cell_node, List.cons_append]
    rw [heq]
    refine ⟨?_, ?_, h.grows.trans (Finset.subset_insert _ _), ?_, ?_, ?_, ?_⟩
    · rw [hnodes, List.nodup_append]
      refine ⟨h.nodup, List.nodup_singleton _, ?_⟩
      rintro c hc d hd rfl
      rw [List.mem_singleton.mp hd] at hc
      exact hnew ((h.visited _).mpr hc)
    · intro c
      rw [hnodes, Finset.mem_insert, List.mem_append, h.visited, List.mem_singleton, or_comm]
    · intro c hc hnext
      rw [List.mem_append, List.mem_singleton, not_or] at hnext
      exact h.fresh c ((Finset.mem_insert.mp hc).resolve_left hnext.2) hnext.1
    · intro c hc
      obtain hc | hc := List.mem_append.mp hc
      · exact Finset.mem_insert_of_mem (h.next c hc)
      · rw [List.mem_singleton.mp hc]
        exact Finset.mem_insert_self _ _
    · intro c hc
      obtain rfl | hc := Finset.mem_insert.mp hc
      · exact .inr ⟨_, hfrontier _ hhere, hleads⟩
      · exact h.within c hc
    · intro hatCap
      rw [hcap] at hatCap
      cases hatCap

/-- An edge of the cache, with all of its rows. -/
def OfCache (py : Python) (cache : Cache) (edge : (ℕ × ℕ) × EdgeColumns) : Prop :=
  edge.2 = edgeColumns py (cache.rows.filter fun row => row.key = edge.1)

variable {edge : (ℕ × ℕ) × EdgeColumns}

theorem OfCache.leads (h : OfCache py cache edge) {pair : ColumnPair}
    (hpair : pair ∈ edge.2.pairs) :
    Leads py cases cache upstream (hereCell cases cache upstream edge.1 pair)
      (thereCell cases cache upstream edge.1 pair) := by
  rw [h] at hpair
  obtain ⟨row, hrow, hmem⟩ := mem_pairs.mp hpair
  obtain ⟨hin, hkey⟩ := List.mem_filter.mp hrow
  have hkey : row.key = edge.1 := by simpa using hkey
  rw [← hkey]
  exact leads_of_mem hin hmem

theorem followEdge_cases (cases : Cases) (cache : Cache) (upstream atCap : Bool) (depth : ℕ)
    (frontier : List Cell) (w : Walk) (edge : (ℕ × ℕ) × EdgeColumns) :
    let here := near upstream edge.1
    let seen := { w with sawAnyEdge := w.sawAnyEdge || decide (depth = 0) }
    let after := followEdge cases cache upstream atCap depth frontier w edge
    (here ∉ frontier.map Prod.fst ∧ after = w) ∨ here ∈ frontier.map Prod.fst ∧
      ((edge.2.coverage ≠ .recorded ∧ after = { seen with
          gaps := w.gaps ++ [⟨edge.1.1, edge.1.2, edge.2.coverage⟩]
          gappedAssets := insert here w.gappedAssets
          sawStartGap := w.sawStartGap || decide (depth = 0) }) ∨
        (edge.2.coverage = .recorded ∧ after = edge.2.pairs.foldl
          (followPair cases cache upstream atCap depth frontier edge.1) seen)) := by
  intro here seen after
  by_cases hhere : here ∈ frontier.map Prod.fst
  · refine .inr ⟨hhere, ?_⟩
    by_cases hcoverage : edge.2.coverage = .recorded
    · exact .inr ⟨hcoverage,
        (if_neg (not_not.mpr hhere)).trans (if_neg (not_not.mpr hcoverage))⟩
    · exact .inl ⟨hcoverage, (if_neg (not_not.mpr hhere)).trans (if_pos hcoverage)⟩
  · exact .inl ⟨hhere, if_pos hhere⟩

theorem Walk.Over.followEdge (h : w.Over py cases cache upstream atCap start depth before)
    (hfrontier : ∀ c ∈ frontier, Within (Leads py cases cache upstream) depth start c)
    (hedge : OfCache py cache edge) :
    (followEdge cases cache upstream atCap depth frontier w edge).Over py cases cache upstream
      atCap start depth before := by
  have hcases := followEdge_cases cases cache upstream atCap depth frontier w edge
  obtain ⟨_, heq⟩ | ⟨_, ⟨_, heq⟩ | ⟨_, heq⟩⟩ := hcases
  · rwa [heq]
  · rw [heq]
    exact ⟨h.nodup, h.visited, h.grows, h.fresh, h.next, h.within, h.atCap⟩
  · rw [heq]
    apply foldl_keeps
    · intro s pair hpair hs
      exact hs.followPair hfrontier (hedge.leads hpair)
    · exact ⟨h.nodup, h.visited, h.grows, h.fresh, h.next, h.within, h.atCap⟩

theorem followEdge_grows :
    Grows w (followEdge cases cache upstream atCap depth frontier w edge) := by
  have hcases := followEdge_cases cases cache upstream atCap depth frontier w edge
  obtain ⟨_, heq⟩ | ⟨_, ⟨_, heq⟩ | ⟨_, heq⟩⟩ := hcases
  · rw [heq]
    exact Grows.refl w
  · rw [heq]
    exact ⟨Finset.Subset.refl _, Finset.Subset.refl _, Finset.Subset.refl _,
      Finset.subset_insert _ _, id⟩
  · rw [heq]
    apply foldl_keeps
    · intro s pair _ hs
      exact hs.trans followPair_grows
    · exact ⟨Finset.Subset.refl _, Finset.Subset.refl _, Finset.Subset.refl _,
        Finset.Subset.refl _, id⟩

/-- An edge of the frontier was looked at: it is a gap of its asset, or its pairs are done. -/
structure EdgeDone (cases : Cases) (cache : Cache) (upstream : Bool) (frontier : List Cell)
    (edge : (ℕ × ℕ) × EdgeColumns) (w : Walk) : Prop where
  gap : near upstream edge.1 ∈ frontier.map Prod.fst → edge.2.coverage ≠ .recorded →
    near upstream edge.1 ∈ w.gappedAssets
  pairs : edge.2.coverage = .recorded →
    ∀ pair ∈ edge.2.pairs, PairDone cases cache upstream frontier edge.1 pair w

theorem EdgeDone.grows {w' : Walk} (h : EdgeDone cases cache upstream frontier edge w)
    (hgrows : Grows w w') : EdgeDone cases cache upstream frontier edge w' where
  gap := fun hnear hcoverage => hgrows.gappedAssets (h.gap hnear hcoverage)
  pairs := fun hcoverage pair hpair => (h.pairs hcoverage pair hpair).grows hgrows

theorem followEdge_done : EdgeDone cases cache upstream frontier edge
    (followEdge cases cache upstream atCap depth frontier w edge) := by
  have hcases := followEdge_cases cases cache upstream atCap depth frontier w edge
  obtain ⟨hnot, heq⟩ | ⟨_, ⟨hcoverage, heq⟩ | ⟨hrecorded, heq⟩⟩ := hcases
  · refine ⟨fun hnear => absurd hnear hnot, fun _ pair _ => ?_⟩
    have haway : hereCell cases cache upstream edge.1 pair ∉ frontier := by
      intro hhere
      have hasset := List.mem_map_of_mem (f := Prod.fst) hhere
      rw [hereCell_asset] at hasset
      exact hnot hasset
    exact ⟨fun hhere => absurd hhere haway, fun hhere => absurd hhere haway⟩
  · rw [heq]
    exact ⟨fun _ _ => Finset.mem_insert_self _ _, fun hrecorded => absurd hrecorded hcoverage⟩
  · rw [heq]
    refine ⟨fun _ hcoverage => absurd hrecorded hcoverage, fun _ pair hpair => ?_⟩
    apply foldl_reaches _ _ hpair
    · intro s pair _
      exact followPair_done
    · intro s pair _ other _ hs
      exact hs.grows followPair_grows

/-! ## One level -/

theorem of_mem_edgesOf (h : edge ∈ edgesOf py cache upstream frontier) : OfCache py cache edge :=
  (of_mem_load (p := fun key => near upstream key ∈ frontier.map Prod.fst) (mem_inOrder.mp h)).2

theorem mem_edgesOf {row : EdgeRow} (hrow : row ∈ cache.rows)
    (hnear : near upstream row.key ∈ frontier.map Prod.fst) :
    (row.key, edgeColumns py (cache.rows.filter fun r => r.key = row.key)) ∈
      edgesOf py cache upstream frontier :=
  mem_inOrder.mpr (mem_load (p := fun key => near upstream key ∈ frontier.map Prod.fst) hrow
    (by simpa using hnear))

theorem level_grows : Grows w (w.level py cases cache upstream atCap depth frontier) := by
  apply foldl_keeps
  · intro s edge _ hs
    exact hs.trans followEdge_grows
  · exact ⟨Finset.Subset.refl _, Finset.Subset.refl _, Finset.Subset.refl _,
      Finset.Subset.refl _, id⟩

theorem level_done (hedge : edge ∈ edgesOf py cache upstream frontier) :
    EdgeDone cases cache upstream frontier edge
      (w.level py cases cache upstream atCap depth frontier) := by
  apply foldl_reaches _ _ hedge
  · intro s edge _
    exact followEdge_done
  · intro s edge _ other _ hs
    exact hs.grows followEdge_grows

/-- A cell was looked at: each edge of its asset that says nothing of columns is a gap, and it is
fed by what leads from it, unless the walk was cut there. -/
structure Examined (py : Python) (cases : Cases) (cache : Cache) (upstream : Bool) (w : Walk)
    (c : Cell) : Prop where
  gaps : ∀ row ∈ cache.rows, near upstream row.key = c.1 → coverageOf py cache row.key ≠ .recorded →
    c.1 ∈ w.gappedAssets
  fed : ∀ b, Leads py cases cache upstream c b → c ∈ w.fed ∨ c ∈ w.frontierAtCap

theorem Examined.grows {w' : Walk} {c : Cell} (h : Examined py cases cache upstream w c)
    (hgrows : Grows w w') : Examined py cases cache upstream w' c where
  gaps := fun row hrow hnear hcoverage => hgrows.gappedAssets (h.gaps row hrow hnear hcoverage)
  fed := fun b hb => (h.fed b hb).imp (fun hfed => hgrows.fed hfed) fun hcap =>
    hgrows.frontierAtCap hcap

/-- The edge of a row that has pairs is recorded. -/
theorem coverageOf_recorded {row : EdgeRow} (hrow : row ∈ cache.rows) {pair : ColumnPair}
    (hpair : pair ∈ row.pairs py) :
    pair ∈ (edgeColumns py (cache.rows.filter fun r => r.key = row.key)).pairs ∧
      coverageOf py cache row.key = .recorded := by
  have hin : row ∈ cache.rows.filter fun r => r.key = row.key := by simp [hrow]
  have hmem := mem_pairs.mpr ⟨row, hin, hpair⟩
  exact ⟨hmem, edgeColumns_recorded.mpr (List.ne_nil_of_mem hmem)⟩

theorem level_pair {a b : Cell} (ha : a ∈ frontier) (h : Leads py cases cache upstream a b) :
    ((w.level py cases cache upstream atCap depth frontier).truncated = true ∨
      b ∈ (w.level py cases cache upstream atCap depth frontier).visited) ∧
    (a ∈ (w.level py cases cache upstream atCap depth frontier).fed ∨
      a ∈ (w.level py cases cache upstream atCap depth frontier).frontierAtCap) := by
  obtain ⟨row, hrow, pair, hpair, rfl, rfl⟩ := exists_pair h
  have hnear := List.mem_map_of_mem (f := Prod.fst) ha
  rw [hereCell_asset] at hnear
  obtain ⟨hmem, hrecorded⟩ := coverageOf_recorded hrow hpair
  have hedge : EdgeDone cases cache upstream frontier _
      (w.level py cases cache upstream atCap depth frontier) := level_done (mem_edgesOf hrow hnear)
  have hdone := hedge.pairs hrecorded pair hmem
  exact ⟨hdone.leads ha, hdone.fed ha⟩

theorem level_examined {c : Cell} (hc : c ∈ frontier) : Examined py cases cache upstream
    (w.level py cases cache upstream atCap depth frontier) c where
  gaps := by
    intro row hrow hnear hcoverage
    have hin : near upstream row.key ∈ frontier.map Prod.fst := by
      rw [hnear]
      exact List.mem_map_of_mem hc
    have hedge : EdgeDone cases cache upstream frontier _
        (w.level py cases cache upstream atCap depth frontier) := level_done (mem_edgesOf hrow hin)
    have hgap := hedge.gap hin hcoverage
    rwa [hnear] at hgap
  fed := fun b hb => (level_pair hc hb).2

/-! ## The walk -/

/-- What holds between two levels. -/
structure Walk.Sound (py : Python) (cases : Cases) (cache : Cache) (upstream : Bool) (start : Cell)
    (depth : ℕ) (frontier : List Cell) (w : Walk) : Prop where
  nodup : (start :: w.nodes.map (ColumnNode.cell cases cache)).Nodup
  visited : ∀ c, c ∈ w.visited ↔ c ∈ start :: w.nodes.map (ColumnNode.cell cases cache)
  within : ∀ c ∈ w.visited, Within (Leads py cases cache upstream) depth start c
  marked : ∀ c ∈ frontier, c ∈ w.visited
  closed : w.truncated = false →
    Closed (Leads py cases cache upstream) {start} ↑w.visited {c | c ∈ frontier}
  examined : ∀ c ∈ w.visited, c ∉ frontier → Examined py cases cache upstream w c

theorem Walk.Sound.over (h : w.Sound py cases cache upstream start depth frontier)
    (atCap : Bool) :
    (w.level py cases cache upstream atCap depth frontier).Over py cases cache upstream atCap start
      depth w.visited := by
  apply foldl_keeps
  · intro s edge hedge hs
    exact hs.followEdge (fun c hc => h.within c (h.marked c hc)) (of_mem_edgesOf hedge)
  · exact ⟨h.nodup, h.visited, Finset.Subset.refl _, fun c hc _ => hc, by simp,
      fun c hc => .inl (h.within c hc), fun _ => rfl⟩

theorem Walk.Sound.level (h : w.Sound py cases cache upstream start depth frontier)
    (atCap : Bool) :
    (w.level py cases cache upstream atCap depth frontier).Sound py cases cache upstream start
      (if atCap then depth else depth + 1)
      (w.level py cases cache upstream atCap depth frontier).next := by
  have hover := h.over atCap
  have hgrows : Grows w (w.level py cases cache upstream atCap depth frontier) := level_grows
  refine ⟨hover.nodup, hover.visited, fun c hc => ?_, hover.next, fun htruncated => ?_, ?_⟩
  · cases hcap : atCap with
    | false =>
      rw [hcap] at hc hover
      exact hover.within c hc
    | true =>
      rw [hcap] at hc hover
      have hnone : c ∉ (w.level py cases cache upstream true depth frontier).next := by
        simp [hover.atCap rfl]
      exact h.within c (hover.fresh c hc hnone)
  · have hbefore : w.truncated = false := by
      by_contra hcut
      have hafter := hgrows.truncated (by simpa using hcut)
      rw [htruncated] at hafter
      cases hafter
    apply (h.closed hbefore).level
    · exact fun c hc => hgrows.visited hc
    · intro c hc b hb
      exact (level_pair hc hb).1.resolve_left (by simp [htruncated])
    · exact hover.fresh
  · intro c hc hbehind
    by_cases hfrontier : c ∈ frontier
    · exact level_examined hfrontier
    · exact (h.examined c (hover.fresh c hc hbehind) hfrontier).grows hgrows

/-- The walk ends with nothing that was not looked at. -/
theorem Walk.Sound.run (h : w.Sound py cases cache upstream start depth frontier) (levels : ℕ) :
    ∃ last ≤ depth + levels,
      (w.run py cases cache upstream levels depth frontier).Sound py cases cache upstream start
        last [] := by
  induction levels generalizing w depth frontier with
  | zero =>
    rw [Walk.run]
    split
    · next hempty =>
      rw [hempty] at h
      exact ⟨depth, by omega, h⟩
    · have hlevel := h.level true
      rw [(h.over true).atCap rfl] at hlevel
      exact ⟨depth, by omega, hlevel⟩
  | succ levels ih =>
    rw [Walk.run]
    split
    · next hempty =>
      rw [hempty] at h
      exact ⟨depth, by omega, h⟩
    · have hlevel := h.level false
      rw [if_neg Bool.false_ne_true] at hlevel
      obtain ⟨last, hlast, hsound⟩ := ih hlevel
      exact ⟨last, by omega, hsound⟩

variable (py cases cache upstream) in
theorem walk_sound (start : Cell) (maxDepth : ℕ) :
    ∃ last ≤ maxDepth, (walk py cases cache upstream start maxDepth).Sound py cases cache upstream
      start last [] := by
  have hstart : (Walk.start start).Sound py cases cache upstream start 0 [start] := by
    refine ⟨List.nodup_singleton _, fun c => ?_, fun c hc => ?_, fun c hc => ?_, fun _ => ?_, ?_⟩
    · simp [Walk.start]
    · rw [Finset.mem_singleton.mp hc]
      rfl
    · rw [List.mem_singleton.mp hc]
      exact Finset.mem_singleton_self _
    · refine ⟨by simp [Walk.start], fun c hc hbehind => ?_⟩
      exact absurd (by simpa [Walk.start] using hc) hbehind
    · intro c hc hbehind
      exact absurd (by simpa [Walk.start] using hc) hbehind
  obtain ⟨last, hlast, hsound⟩ := hstart.run maxDepth
  exact ⟨last, by omega, hsound⟩

/-- Without truncation the nodes are what is reached within the depth, next to the start. -/
theorem walk_reaches {maxDepth : ℕ}
    (htruncated : (walk py cases cache upstream start maxDepth).truncated = false) (c : Cell) :
    c ∈ start :: (walk py cases cache upstream start maxDepth).nodes.map
        (ColumnNode.cell cases cache) ↔
      Within (Leads py cases cache upstream) maxDepth start c := by
  obtain ⟨last, hlast, hsound⟩ := walk_sound py cases cache upstream start maxDepth
  rw [← hsound.visited]
  constructor
  · intro hc
    exact (hsound.within c hc).mono hlast
  · intro hc
    have hclosed := hsound.closed htruncated
    have hnone : {c : Cell | c ∈ ([] : List Cell)} = ∅ := by simp
    rw [hnone] at hclosed
    exact hclosed.complete rfl hc.reaches

/-- A confirmed origin is fed by no pair, and no edge into its asset is without columns. -/
theorem confirmed_origin {maxDepth : ℕ} {o : ColumnOrigin}
    (ho : o ∈ (walk py cases cache true start maxDepth).origins cases cache)
    (hconfirmed : o.confirmed = true) :
    (∀ up, ¬Feeds py cases cache up (o.assetId, fold cases cache o.assetId o.column)) ∧
      ∀ row ∈ cache.rows, row.downstreamAssetId = o.assetId →
        coverageOf py cache row.key = .recorded := by
  obtain ⟨last, _, hsound⟩ := walk_sound py cases cache true start maxDepth
  obtain ⟨node, hnode, rfl⟩ := List.mem_map.mp ho
  obtain ⟨hmem, hfed⟩ := List.mem_filter.mp hnode
  have hfed : node.cell cases cache ∉ (walk py cases cache true start maxDepth).fed := by
    simpa using hfed
  obtain ⟨hgapped, hcap⟩ : node.assetId ∉ (walk py cases cache true start maxDepth).gappedAssets ∧
      node.cell cases cache ∉ (walk py cases cache true start maxDepth).frontierAtCap := by
    simpa using hconfirmed
  have hvisited := (hsound.visited (node.cell cases cache)).mpr
    (List.mem_cons_of_mem _ (List.mem_map_of_mem hmem))
  have hexamined := hsound.examined _ hvisited (by simp)
  constructor
  · intro up hup
    obtain hin | hin := hexamined.fed up hup
    · exact hfed hin
    · exact hcap hin
  · intro row hrow hdown
    by_contra hcoverage
    exact hgapped (hexamined.gaps row hrow hdown hcoverage)

end Visits

/-- Without truncation a trace has, with its start, the cells that are within the depth in its
direction, each once; and a confirmed origin is one. -/
theorem trace_column_is_exact (py : Python) (cases : Cases) (cache : Cache) (assetId : ℕ)
    (column : Text) (direction : TraceDirection) (maxDepth : ℤ) :
    let trace := traceColumn py cases cache assetId column direction maxDepth
    let start := (assetId, fold cases cache assetId column)
    (trace.truncated = false → direction ≠ .downstream →
      (start :: trace.upstream.map (ColumnNode.cell cases cache)).Nodup ∧
      ∀ c, c ∈ start :: trace.upstream.map (ColumnNode.cell cases cache) ↔
        Within (fun a b => Feeds py cases cache b a) (traceDepth maxDepth) start c) ∧
    (trace.truncated = false → direction ≠ .upstream →
      (start :: trace.downstream.map (ColumnNode.cell cases cache)).Nodup ∧
      ∀ c, c ∈ start :: trace.downstream.map (ColumnNode.cell cases cache) ↔
        Within (Feeds py cases cache) (traceDepth maxDepth) start c) ∧
    ∀ o ∈ trace.origins, o.confirmed = true →
      (∀ up, ¬Feeds py cases cache up (o.assetId, fold cases cache o.assetId o.column)) ∧
        ∀ row ∈ cache.rows, row.downstreamAssetId = o.assetId →
          coverageOf py cache row.key = .recorded := by
  intro trace start
  have hup : trace.truncated = false → direction ≠ .downstream →
      (walk py cases cache true start (traceDepth maxDepth)).truncated = false := by
    intro htruncated hdirection
    have hcut := (Bool.or_eq_false_iff.mp htruncated).1
    rw [if_neg hdirection] at hcut
    exact hcut
  have hdown : trace.truncated = false → direction ≠ .upstream →
      (walk py cases cache false start (traceDepth maxDepth)).truncated = false := by
    intro htruncated hdirection
    have hcut := (Bool.or_eq_false_iff.mp htruncated).2
    rw [if_neg hdirection] at hcut
    exact hcut
  refine ⟨fun htruncated hdirection => ?_, fun htruncated hdirection => ?_, fun o ho => ?_⟩
  · have hnodes : trace.upstream =
        (walk py cases cache true start (traceDepth maxDepth)).nodes := by
      show (Option.map _ (if _ then _ else _)).getD [] = _
      rw [if_neg hdirection]
      rfl
    obtain ⟨last, _, hsound⟩ := walk_sound py cases cache true start (traceDepth maxDepth)
    rw [hnodes]
    exact ⟨hsound.nodup, walk_reaches (hup htruncated hdirection)⟩
  · have hnodes : trace.downstream =
        (walk py cases cache false start (traceDepth maxDepth)).nodes := by
      show (Option.map _ (if _ then _ else _)).getD [] = _
      rw [if_neg hdirection]
      rfl
    obtain ⟨last, _, hsound⟩ := walk_sound py cases cache false start (traceDepth maxDepth)
    rw [hnodes]
    exact ⟨hsound.nodup, walk_reaches (hdown htruncated hdirection)⟩
  · have horigins : o ∈ (Option.map (Walk.origins cases cache) (if direction = .downstream then none
        else some (walk py cases cache true start (traceDepth maxDepth)))).getD [] := ho
    split at horigins
    · cases horigins
    · exact confirmed_origin horigins

end DataQ.Lineage.Traces
