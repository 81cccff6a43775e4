import DataQ.Foundations.Exploration
import Mathlib.Data.Finset.Sort
import Mathlib.Data.Prod.Lex

/-! # The lineage neighbourhood of an asset

`lineage_neighbourhood` of `lineage/edges.py`: two walks over the stored edges, up and down, that
stop at a depth, and the edges that they have gone over. -/

namespace DataQ.Lineage.Neighbourhood
open DataQ.Exploration
set_option autoImplicit false

inductive Direction
  | up | down
  deriving DecidableEq

/-- An edge in walk order, and in its true direction again. -/
def Direction.orient {ι : Type} : Direction → ι × ι → ι × ι
  | .down, edge => edge
  | .up, edge => edge.swap

theorem orient_orient {ι : Type} (direction : Direction) (edge : ι × ι) :
    direction.orient (direction.orient edge) = edge := by
  cases direction with
  | up => exact Prod.swap_swap edge
  | down => rfl

theorem toLex_orient_inj {ι : Type} {direction : Direction} {edge edge' : ι × ι} :
    toLex (direction.orient edge) = toLex (direction.orient edge') ↔ edge = edge' := by
  constructor
  · intro h
    have horient : direction.orient edge = direction.orient edge' := toLex.injective h
    rw [← orient_orient direction edge, horient, orient_orient]
  · intro h
    rw [h]

/-- The assets and the edges between them, by id; several sources may have stored one edge. -/
structure Database (ι : Type) [DecidableEq ι] where
  assets : List ι
  edges : List (ι × ι)
  /-- the foreign keys -/
  known : ∀ edge ∈ edges, edge.1 ∈ assets ∧ edge.2 ∈ assets
  /-- `select(from_col, to_col).where(from_col.in_(frontier))` -/
  select : Direction → List ι → List (ι × ι)
  /-- in some order -/
  select_perm : ∀ direction frontier, (select direction frontier).Perm
    ((edges.map direction.orient).filter fun edge => edge.1 ∈ frontier)

structure Walk (ι : Type) where
  visited : Finset ι
  frontier : List ι
  order : List (ι × ℕ)
  edges : Finset (ι ×ₗ ι)

variable {ι : Type} [LinearOrder ι]

/-- One row of a level; the frontier is the next one. -/
def addRow (direction : Direction) (depth : ℕ) (w : Walk ι) (row : ι × ι) : Walk ι :=
  let edges := insert (toLex (direction.orient row)) w.edges
  if row.2 ∈ w.visited then { w with edges := edges }
  else
    { visited := insert row.2 w.visited
      frontier := w.frontier ++ [row.2]
      order := w.order ++ [(row.2, depth + 1)]
      edges := edges }

section Model
variable (db : Database ι)

def level (direction : Direction) (depth : ℕ) (w : Walk ι) : Walk ι :=
  (db.select direction w.frontier).foldl (addRow direction depth) { w with frontier := [] }

/-- The `while`, with the levels that the limit leaves. -/
def levels (direction : Direction) : ℕ → ℕ → Walk ι → Walk ι
  | 0, _, w => w
  | left + 1, depth, w =>
    if w.frontier = [] then w else levels direction left (depth + 1) (level db direction depth w)

/-- `_walk_graph`. -/
def walkGraph (start : ι) (direction : Direction) (maxDepth : ℤ) : Walk ι :=
  levels db direction maxDepth.toNat 0 ⟨{start}, [start], [], ∅⟩

structure LineageNeighbourhood (ι : Type) where
  upstream : List (ι × ℕ)
  downstream : List (ι × ℕ)
  edges : List (ι ×ₗ ι)

/-- `lineage_neighbourhood`. -/
def lineageNeighbourhood (start : ι) (maxDepth : ℤ) : LineageNeighbourhood ι :=
  let up := walkGraph db start .up maxDepth
  let down := walkGraph db start .down maxDepth
  let ids := up.order.map Prod.fst ++ down.order.map Prod.fst
  let byId := db.assets.filter fun asset => asset ∈ ids
  { upstream := up.order.filter fun node => node.1 ∈ byId
    downstream := down.order.filter fun node => node.1 ∈ byId
    edges := (up.edges ∪ down.edges).sort }

/-! ## One level -/

/-- An edge, in walk order. -/
def Leads (direction : Direction) (a b : ι) : Prop := (a, b) ∈ db.edges.map direction.orient

end Model

/-- What the rows have added to a walk. -/
structure Scanned (direction : Direction) (depth : ℕ) (w : Walk ι) (rows : List (ι × ι))
    (w' : Walk ι) : Prop where
  visited : ∀ v, v ∈ w'.visited ↔ v ∈ w.visited ∨ ∃ u, (u, v) ∈ rows
  frontier : ∀ v, v ∈ w'.frontier ↔ v ∉ w.visited ∧ ∃ u, (u, v) ∈ rows
  nodup : w'.frontier.Nodup
  order : w'.order = w.order ++ w'.frontier.map (·, depth + 1)
  edges : ∀ a b, toLex (direction.orient (a, b)) ∈ w'.edges ↔
    toLex (direction.orient (a, b)) ∈ w.edges ∨ (a, b) ∈ rows

theorem addRow_scanned {direction : Direction} {depth : ℕ} {w w' : Walk ι} {rows : List (ι × ι)}
    (h : Scanned direction depth w rows w') (row : ι × ι) :
    Scanned direction depth w (rows ++ [row]) (addRow direction depth w' row) := by
  obtain ⟨src, dst⟩ := row
  have hrows : ∀ v, (∃ u, (u, v) ∈ rows ++ [(src, dst)]) ↔ (∃ u, (u, v) ∈ rows) ∨ v = dst := by
    intro v
    simp only [List.mem_append, List.mem_singleton, Prod.mk.injEq, exists_or]
    simp
  have hedges : ∀ a b, toLex (direction.orient (a, b)) ∈
      insert (toLex (direction.orient (src, dst))) w'.edges ↔
        toLex (direction.orient (a, b)) ∈ w.edges ∨ (a, b) ∈ rows ++ [(src, dst)] := by
    intro a b
    rw [Finset.mem_insert, h.edges, toLex_orient_inj, List.mem_append, List.mem_singleton]
    tauto
  simp only [addRow]
  split
  · next hseen =>
    have hknown := (h.visited dst).mp hseen
    refine ⟨fun v => ?_, fun v => ?_, h.nodup, h.order, hedges⟩
    · rw [h.visited, hrows]
      constructor
      · tauto
      · rintro (hv | hv | rfl)
        · exact .inl hv
        · exact .inr hv
        · exact hknown
    · rw [h.frontier, hrows]
      constructor
      · tauto
      · rintro ⟨hnew, hv | rfl⟩
        · exact ⟨hnew, hv⟩
        · exact ⟨hnew, hknown.resolve_left hnew⟩
  · next hnew =>
    have hunknown : dst ∉ w.visited ∧ ¬ ∃ u, (u, dst) ∈ rows := by
      rw [h.visited] at hnew
      exact not_or.mp hnew
    refine ⟨fun v => ?_, fun v => ?_, ?_, ?_, hedges⟩
    · rw [Finset.mem_insert, h.visited, hrows]
      tauto
    · rw [List.mem_append, List.mem_singleton, h.frontier, hrows]
      constructor
      · rintro (⟨hv, hmem⟩ | rfl)
        · exact ⟨hv, .inl hmem⟩
        · exact ⟨hunknown.1, .inr rfl⟩
      · rintro ⟨hv, hmem | rfl⟩
        · exact .inl ⟨hv, hmem⟩
        · exact .inr rfl
    · have hfresh : dst ∉ w'.frontier := fun hmem => hunknown.2 ((h.frontier dst).mp hmem).2
      have hconcat := List.Nodup.concat hfresh h.nodup
      rwa [List.concat_eq_append] at hconcat
    · show w'.order ++ _ = _
      rw [h.order, List.map_append, List.append_assoc]
      rfl

theorem foldl_addRow (direction : Direction) (depth : ℕ) (w : Walk ι) (rows : List (ι × ι)) :
    Scanned direction depth w rows
      (rows.foldl (addRow direction depth) { w with frontier := [] }) := by
  induction rows using List.reverseRecOn with
  | nil => exact ⟨by simp, by simp, List.nodup_nil, by simp, by simp⟩
  | append_singleton rows row ih =>
    rw [List.foldl_append]
    exact addRow_scanned ih row

/-! ## All levels -/

variable {db : Database ι} {direction : Direction} {start : ι}

theorem mem_select {frontier : List ι} {a b : ι} :
    (a, b) ∈ db.select direction frontier ↔ Leads db direction a b ∧ a ∈ frontier := by
  rw [(db.select_perm direction frontier).mem_iff, List.mem_filter, decide_eq_true_eq, Leads]

/-- What a walk is, this many levels from the start. -/
structure Sound (db : Database ι) (direction : Direction) (start : ι) (depth : ℕ) (w : Walk ι) :
    Prop where
  visited : ∀ v, v ∈ w.visited ↔ Within (Leads db direction) depth start v
  frontier : ∀ v, v ∈ w.frontier ↔ Distance (Leads db direction) depth start v
  order : ∀ v k, (v, k) ∈ w.order ↔
    1 ≤ k ∧ k ≤ depth ∧ Distance (Leads db direction) k start v
  nodup : (w.order.map Prod.fst).Nodup
  sorted : (w.order.map Prod.snd).Pairwise (· ≤ ·)
  edges : ∀ a b, toLex (direction.orient (a, b)) ∈ w.edges ↔
    Leads db direction a b ∧ ∃ k < depth, Distance (Leads db direction) k start a

theorem sound_start : Sound db direction start 0 ⟨{start}, [start], [], ∅⟩ where
  visited v := by
    rw [Finset.mem_singleton]
    exact eq_comm
  frontier v := by
    rw [List.mem_singleton, distance_zero]
    exact eq_comm
  order v k := by
    constructor
    · intro h
      cases h
    · rintro ⟨hpos, hle, -⟩
      omega
  nodup := List.nodup_nil
  sorted := List.Pairwise.nil
  edges a b := by simp

theorem level_sound {depth : ℕ} {w : Walk ι} (h : Sound db direction start depth w) :
    Sound db direction start (depth + 1) (level db direction depth w) := by
  have hrows : ∀ a b, (a, b) ∈ db.select direction w.frontier ↔
      Leads db direction a b ∧ Distance (Leads db direction) depth start a := by
    intro a b
    rw [mem_select, h.frontier]
  have hscan := foldl_addRow direction depth w (db.select direction w.frontier)
  rw [← level] at hscan
  generalize level db direction depth w = w' at hscan
  have hvisited : ∀ v, v ∈ w'.visited ↔ Within (Leads db direction) (depth + 1) start v := by
    intro v
    rw [hscan.visited, h.visited, within_succ]
    simp only [hrows]
    exact or_congr_right (exists_congr fun u => and_comm)
  have hfrontier : ∀ v, v ∈ w'.frontier ↔
      Distance (Leads db direction) (depth + 1) start v := by
    intro v
    rw [distance_succ, ← hvisited, hscan.visited, hscan.frontier, h.visited]
    tauto
  refine ⟨hvisited, hfrontier, fun v k => ?_, ?_, ?_, fun a b => ?_⟩
  · have hnew : (v, k) ∈ w'.frontier.map (·, depth + 1) ↔ v ∈ w'.frontier ∧ k = depth + 1 := by
      rw [List.mem_map]
      constructor
      · rintro ⟨u, hu, heq⟩
        obtain ⟨rfl, rfl⟩ := Prod.mk.inj heq
        exact ⟨hu, rfl⟩
      · rintro ⟨hv, rfl⟩
        exact ⟨v, hv, rfl⟩
    rw [hscan.order, List.mem_append, h.order, hnew, hfrontier]
    constructor
    · rintro (⟨hpos, hle, hdistance⟩ | ⟨hdistance, rfl⟩)
      · exact ⟨hpos, by omega, hdistance⟩
      · exact ⟨by omega, le_rfl, hdistance⟩
    · rintro ⟨hpos, hle, hdistance⟩
      by_cases hlast : k = depth + 1
      · rw [hlast] at hdistance
        exact .inr ⟨hdistance, hlast⟩
      · exact .inl ⟨hpos, by omega, hdistance⟩
  · rw [hscan.order, List.map_append, List.map_map]
    have hfst : (w'.frontier.map (Prod.fst ∘ (·, depth + 1))) = w'.frontier := List.map_id' _
    rw [hfst]
    apply List.nodup_append'.mpr
    refine ⟨h.nodup, hscan.nodup, ?_⟩
    intro v hold hnew
    obtain ⟨⟨_, k⟩, hmem, rfl⟩ := List.mem_map.mp hold
    obtain ⟨-, hle, hdistance⟩ := (h.order _ k).mp hmem
    have hsame := hdistance.unique ((hfrontier _).mp hnew)
    omega
  · rw [hscan.order, List.map_append, List.map_map, List.pairwise_append]
    refine ⟨h.sorted, ?_, ?_⟩
    · apply List.pairwise_map.mpr
      exact hscan.nodup.imp fun _ => le_rfl
    · intro k hold k' hnew
      obtain ⟨⟨v, _⟩, hmem, rfl⟩ := List.mem_map.mp hold
      obtain ⟨_, _, rfl⟩ := List.mem_map.mp hnew
      have hle := ((h.order v _).mp hmem).2.1
      show _ ≤ depth + 1
      omega
  · rw [hscan.edges, h.edges, hrows]
    constructor
    · rintro (⟨hleads, k, hk, hdistance⟩ | ⟨hleads, hdistance⟩)
      · exact ⟨hleads, k, by omega, hdistance⟩
      · exact ⟨hleads, depth, Nat.lt_succ_self depth, hdistance⟩
    · rintro ⟨hleads, k, hk, hdistance⟩
      by_cases hlast : k = depth
      · rw [hlast] at hdistance
        exact .inr ⟨hleads, hdistance⟩
      · exact .inl ⟨hleads, k, by omega, hdistance⟩

/-- A walk without a frontier has nothing left to find. -/
theorem Sound.idle {depth : ℕ} {w : Walk ι} (h : Sound db direction start depth w)
    (hempty : w.frontier = []) : Sound db direction start (depth + 1) w := by
  have hnone : ∀ v, ¬ Distance (Leads db direction) depth start v := by
    intro v hv
    have hmem := (h.frontier v).mpr hv
    rw [hempty] at hmem
    cases hmem
  have hwithin : ∀ v, Within (Leads db direction) (depth + 1) start v ↔
      Within (Leads db direction) depth start v := by
    intro v
    rw [within_succ]
    exact or_iff_left fun ⟨u, hu, _⟩ => hnone u hu
  have hnext : ∀ v, ¬ Distance (Leads db direction) (depth + 1) start v := by
    intro v hv
    rw [distance_succ, hwithin] at hv
    exact hv.2 hv.1
  refine ⟨fun v => ?_, fun v => ?_, fun v k => ?_, h.nodup, h.sorted, fun a b => ?_⟩
  · rw [h.visited, hwithin]
  · rw [hempty]
    exact ⟨fun hmem => absurd hmem List.not_mem_nil, fun hv => absurd hv (hnext v)⟩
  · rw [h.order]
    constructor
    · rintro ⟨hpos, hle, hdistance⟩
      exact ⟨hpos, by omega, hdistance⟩
    · rintro ⟨hpos, hle, hdistance⟩
      by_cases hlast : k = depth + 1
      · rw [hlast] at hdistance
        exact absurd hdistance (hnext v)
      · exact ⟨hpos, by omega, hdistance⟩
  · rw [h.edges]
    constructor
    · rintro ⟨hleads, k, hk, hdistance⟩
      exact ⟨hleads, k, by omega, hdistance⟩
    · rintro ⟨hleads, k, hk, hdistance⟩
      by_cases hlast : k = depth
      · rw [hlast] at hdistance
        exact absurd hdistance (hnone a)
      · exact ⟨hleads, k, by omega, hdistance⟩

theorem levels_sound {left depth : ℕ} {w : Walk ι} (h : Sound db direction start depth w) :
    Sound db direction start (depth + left) (levels db direction left depth w) := by
  induction left generalizing depth w with
  | zero => exact h
  | succ left ih =>
    rw [levels, Nat.add_comm left, ← Nat.add_assoc]
    split
    · next hempty =>
      have hidle := ih (h.idle hempty)
      have hstay : levels db direction left (depth + 1) w = w := by
        cases left with
        | zero => rfl
        | succ left => rw [levels, if_pos hempty]
      rwa [hstay] at hidle
    · exact ih (level_sound h)

theorem walkGraph_sound (maxDepth : ℤ) :
    Sound db direction start maxDepth.toNat (walkGraph db start direction maxDepth) := by
  have h := @levels_sound ι _ db direction start maxDepth.toNat 0 _ sound_start
  rwa [Nat.zero_add] at h

/-! ## The neighbourhood -/

/-- An edge that some source has stored. -/
def Stored (db : Database ι) (a b : ι) : Prop := (a, b) ∈ db.edges

theorem leads_down : Leads db .down = Stored db := by
  funext a b
  rw [Leads, Stored]
  exact congrArg ((a, b) ∈ ·) (List.map_id' db.edges)

theorem leads_up : Leads db .up = fun a b => Stored db b a := by
  funext a b
  apply propext
  rw [Leads, Stored, List.mem_map]
  constructor
  · rintro ⟨edge, hedge, heq⟩
    rw [Direction.orient, Prod.swap_eq_iff_eq_swap] at heq
    rwa [heq] at hedge
  · intro hedge
    exact ⟨(b, a), hedge, rfl⟩

/-- The assets of a walk are those of the database. -/
theorem Sound.mem_assets {depth : ℕ} {w : Walk ι} (h : Sound db direction start depth w)
    {v : ι} {k : ℕ} (hv : (v, k) ∈ w.order) : v ∈ db.assets := by
  obtain ⟨hpos, -, hdistance⟩ := (h.order v k).mp hv
  obtain ⟨k, rfl⟩ := Nat.exists_eq_add_of_le' hpos
  obtain hwithin | ⟨u, -, hleads⟩ := hdistance.1
  · exact absurd hwithin (hdistance.2 k (Nat.lt_succ_self k))
  · obtain ⟨edge, hedge, horient⟩ := List.mem_map.mp hleads
    have hknown := db.known edge hedge
    cases direction with
    | down =>
      rw [show edge = (u, v) from horient] at hknown
      exact hknown.2
    | up =>
      rw [Direction.orient, Prod.swap_eq_iff_eq_swap] at horient
      rw [horient] at hknown
      exact hknown.1

/-- What is reached within the depth is the start or in the order. -/
theorem Sound.mem_order {depth : ℕ} {w : Walk ι} (h : Sound db direction start depth w) {v : ι}
    {k : ℕ} (hk : k ≤ depth) (hv : Within (Leads db direction) k start v) :
    v = start ∨ v ∈ w.order.map Prod.fst := by
  obtain ⟨j, hj, hdistance⟩ := within_iff_distance.mp hv
  obtain rfl | hpos := Nat.eq_zero_or_pos j
  · exact .inl (distance_zero.mp hdistance).symm
  · exact .inr (List.mem_map.mpr ⟨(v, j), (h.order v j).mpr ⟨hpos, by omega, hdistance⟩, rfl⟩)

/-- The nodes of a walk, each with its distance, the nearest first. -/
theorem Sound.nodes {depth : ℕ} {w : Walk ι} (h : Sound db direction start depth w) :
    (∀ v k, (v, k) ∈ w.order ↔ v ≠ start ∧ k ≤ depth ∧ Distance (Leads db direction) k start v) ∧
      (w.order.map Prod.fst).Nodup ∧ (w.order.map Prod.snd).Pairwise (· ≤ ·) := by
  refine ⟨fun v k => ?_, h.nodup, h.sorted⟩
  rw [h.order]
  constructor
  · rintro ⟨hpos, hle, hdistance⟩
    refine ⟨?_, hle, hdistance⟩
    rintro rfl
    have hzero := hdistance.unique (distance_zero.mpr rfl)
    omega
  · rintro ⟨hne, hle, hdistance⟩
    refine ⟨?_, hle, hdistance⟩
    apply Nat.pos_of_ne_zero
    rintro rfl
    exact hne (distance_zero.mp hdistance).symm

theorem upstream_eq (maxDepth : ℤ) : (lineageNeighbourhood db start maxDepth).upstream =
    (walkGraph db start .up maxDepth).order := by
  apply List.filter_eq_self.mpr
  intro node hnode
  have hassets := (walkGraph_sound maxDepth).mem_assets hnode
  have hids : node.1 ∈ (walkGraph db start .up maxDepth).order.map Prod.fst :=
    List.mem_map_of_mem hnode
  simp [hassets, hids]

theorem downstream_eq (maxDepth : ℤ) : (lineageNeighbourhood db start maxDepth).downstream =
    (walkGraph db start .down maxDepth).order := by
  apply List.filter_eq_self.mpr
  intro node hnode
  have hassets := (walkGraph_sound maxDepth).mem_assets hnode
  have hids : node.1 ∈ (walkGraph db start .down maxDepth).order.map Prod.fst :=
    List.mem_map_of_mem hnode
  simp [hassets, hids]

/-- The edges are those with an end on the walk's side nearer than the limit. -/
theorem mem_edges (maxDepth : ℤ) (a b : ι) :
    toLex (a, b) ∈ (lineageNeighbourhood db start maxDepth).edges ↔ Stored db a b ∧
      ((∃ k < maxDepth.toNat, Distance (Stored db) k start a) ∨
        ∃ k < maxDepth.toNat, Distance (Stored db) k b start) := by
  have hup := (@walkGraph_sound ι _ db .up start maxDepth).edges b a
  have hdown := (@walkGraph_sound ι _ db .down start maxDepth).edges a b
  rw [leads_up] at hup
  rw [leads_down] at hdown
  simp only [distance_swap] at hup
  have hedges : toLex (a, b) ∈ (lineageNeighbourhood db start maxDepth).edges ↔
      toLex (a, b) ∈ (walkGraph db start .up maxDepth).edges ∨
        toLex (a, b) ∈ (walkGraph db start .down maxDepth).edges := by
    rw [lineageNeighbourhood, Finset.mem_sort, Finset.mem_union]
  rw [hedges, show toLex (a, b) ∈ (walkGraph db start .up maxDepth).edges ↔ _ from hup,
    show toLex (a, b) ∈ (walkGraph db start .down maxDepth).edges ↔ _ from hdown, ← and_or_left]
  exact and_congr_right fun _ => or_comm

/-- The neighbourhood is what is reached within the limit: every asset but the start with its
distance, and the stored edges that a step short of the limit goes over. -/
theorem neighbourhood_is_exact (db : Database ι) (start : ι) (maxDepth : ℤ) :
    let n := lineageNeighbourhood db start maxDepth
    let limit := maxDepth.toNat
    ((∀ asset depth, (asset, depth) ∈ n.upstream ↔
        asset ≠ start ∧ depth ≤ limit ∧ Distance (Stored db) depth asset start) ∧
      (n.upstream.map Prod.fst).Nodup ∧ (n.upstream.map Prod.snd).Pairwise (· ≤ ·)) ∧
    ((∀ asset depth, (asset, depth) ∈ n.downstream ↔
        asset ≠ start ∧ depth ≤ limit ∧ Distance (Stored db) depth start asset) ∧
      (n.downstream.map Prod.fst).Nodup ∧ (n.downstream.map Prod.snd).Pairwise (· ≤ ·)) ∧
    (n.edges.Nodup ∧ ∀ a b, toLex (a, b) ∈ n.edges ↔ Stored db a b ∧
      ((∃ k < limit, Distance (Stored db) k start a) ∨
        ∃ k < limit, Distance (Stored db) k b start)) ∧
    ∀ a b, toLex (a, b) ∈ n.edges → ∀ asset, asset = a ∨ asset = b →
      asset = start ∨ asset ∈ n.upstream.map Prod.fst ∨ asset ∈ n.downstream.map Prod.fst := by
  intro n limit
  have hup := @walkGraph_sound ι _ db .up start maxDepth
  have hdown := @walkGraph_sound ι _ db .down start maxDepth
  have hnup := hup.nodes
  have hndown := hdown.nodes
  rw [leads_up] at hnup
  rw [leads_down] at hndown
  simp only [distance_swap] at hnup
  rw [← upstream_eq] at hnup
  rw [← downstream_eq] at hndown
  refine ⟨hnup, hndown, ⟨Finset.sort_nodup _ _, mem_edges maxDepth⟩, ?_⟩
  intro a b hedge asset hend
  obtain ⟨hstored, hnear⟩ := (mem_edges maxDepth a b).mp hedge
  obtain ⟨k, hk, hdistance⟩ | ⟨k, hk, hdistance⟩ := hnear
  · have hwithin : Within (Leads db .down) (k + 1) start asset := by
      rw [leads_down]
      obtain rfl | rfl := hend
      · exact .inl hdistance.1
      · exact .inr ⟨a, hdistance.1, hstored⟩
    have hmem := hdown.mem_order hk hwithin
    rw [← downstream_eq] at hmem
    exact hmem.imp_right .inr
  · have hwithin : Within (Leads db .up) (k + 1) start asset := by
      rw [leads_up]
      have hback := (distance_swap.mpr hdistance).1
      obtain rfl | rfl := hend
      · exact .inr ⟨b, hback, hstored⟩
      · exact .inl hback
    have hmem := hup.mem_order hk hwithin
    rw [← upstream_eq] at hmem
    exact hmem.imp_right .inl

end DataQ.Lineage.Neighbourhood
