import DataQ.Foundations.Dictionary
import DataQ.Lineage.Warehouse
import Mathlib.Data.List.DropRight

/-! # Scratch tables of a warehouse

`lineage/warehouse_snowflake.py`: the edges that a pull collects, with the scratch tables of its
sessions among them, and the stitch that collapses the chains through these. The assets of one pull
are of one namespace, so a table is its name. -/

namespace DataQ.Lineage.Ephemera
open DataQ.Lineage.Warehouse (ColumnPair maxColumnPairsPerEdge)
set_option autoImplicit false

/-- `_EPHEMERAL_STITCH_MAX_DEPTH`. -/
def ephemeralStitchMaxDepth : ℕ := 5

/-- `_is_ephemeral`: by what comes after the last point. -/
def isEphemeral (qualifiedName : Text) : Bool :=
  "SNOWPARK_TEMP_".toList.isPrefixOf (qualifiedName.rtakeWhile (· ≠ '.'))

/-- A lineage row: a table that another one was written from, and their columns. -/
structure Row where
  upstream : Text
  downstream : Text
  pairs : List ColumnPair
  deriving DecidableEq

/-! ## Sets of column pairs -/

/-- Adds to a set until it is full. -/
def addCapped (bucket : List ColumnPair) : List ColumnPair → List ColumnPair
  | [] => bucket
  | pair :: pairs =>
    if maxColumnPairsPerEdge ≤ bucket.length then bucket
    else addCapped (if pair ∈ bucket then bucket else bucket ++ [pair]) pairs

/-- `_compose_pairs`: over the column in the middle. -/
def composePairs (first second : List ColumnPair) : List ColumnPair :=
  addCapped [] (first.flatMap fun p =>
    (second.filter fun q => (ofLex q).1 = (ofLex p).2).map fun q =>
      toLex ((ofLex p).1, (ofLex q).2))

/-- `_EdgeSet`. -/
abbrev EdgeSet := List ((Text × Text) × List ColumnPair)

def EdgeSet.add (edges : EdgeSet) (row : Row) : EdgeSet :=
  let key := (row.upstream, row.downstream)
  setField key (addCapped ((edges.lookup key).getD []) row.pairs) edges

/-- The edges of rows that are added one after the other. -/
def collect (rows : List Row) : EdgeSet := rows.foldl EdgeSet.add []

/-! ## The stitch -/

/-- A physical table that is reached, over which columns, and through how many scratch tables. -/
structure Entry where
  ident : Text
  pairs : List ColumnPair
  hops : ℕ
  deriving DecidableEq

abbrev Memo := List (Text × List Entry)

/-- `self._out.get(node, ())`. -/
def outOf (raw : EdgeSet) (node : Text) : List (Text × List ColumnPair) :=
  raw.filterMap fun edge =>
    if isEphemeral edge.1.1 && edge.1.1 = node then some (edge.1.2, edge.2) else none

/-- One step before the chains of a child, without those that get too long. -/
def prolonged (pairs : List ColumnPair) (entries : List Entry) : List Entry :=
  entries.filterMap fun entry =>
    if ephemeralStitchMaxDepth < entry.hops + 1 then none
    else some ⟨entry.ident, composePairs pairs entry.pairs, entry.hops + 1⟩

/-- A child of a node that is being resolved. -/
def resolveChild (resolve : Text → Memo → List Entry × Memo) (acc : List Entry × Memo)
    (child : Text × List ColumnPair) : List Entry × Memo :=
  if !isEphemeral child.1 then (acc.1 ++ [⟨child.1, child.2, 1⟩], acc.2)
  else
    let (entries, memo) := resolve child.1 acc.2
    (acc.1 ++ prolonged child.2 entries, memo)

/-- `_resolve`: a node has an empty entry while it is being resolved. -/
def resolve (raw : EdgeSet) : ℕ → Text → Memo → List Entry × Memo
  | fuel, node, memo =>
    match memo.lookup node with
    | some cached => (cached, memo)
    | none =>
      match fuel with
      | 0 => ([], memo)
      | fuel + 1 =>
        let (out, memo) := (outOf raw node).foldl (resolveChild (resolve raw fuel))
          ([], setField node [] memo)
        (out, setField node out memo)

/-- One row of `stitched_edges`; a resolution marks a table of the rows each time it goes deeper. -/
def stitchRow (raw : EdgeSet) (acc : EdgeSet × Memo) (edge : (Text × Text) × List ColumnPair) :
    EdgeSet × Memo :=
  if isEphemeral edge.1.1 then acc
  else if !isEphemeral edge.1.2 then (acc.1.add ⟨edge.1.1, edge.1.2, edge.2⟩, acc.2)
  else
    let (resolved, memo) := resolve raw raw.length edge.1.2 acc.2
    (resolved.foldl (fun edges entry =>
      edges.add ⟨edge.1.1, entry.ident, composePairs edge.2 entry.pairs⟩) acc.1, memo)

/-- `stitched_edges`. -/
def stitchedEdges (raw : EdgeSet) : EdgeSet := (raw.foldl (stitchRow raw) ([], [])).1

/-- `dedupe_edges`, after the keys that were seen. -/
def dedupeEdges : List (Text × Text) → EdgeSet → EdgeSet
  | _, [] => []
  | seen, edge :: edges =>
    if edge.1.1 = edge.1.2 then dedupeEdges seen edges
    else if edge.1 ∈ seen then dedupeEdges seen edges
    else edge :: dedupeEdges (edge.1 :: seen) edges

/-- `to_edges`: the pairs of each edge in order. -/
def EdgeSet.toEdges (edges : EdgeSet) : EdgeSet :=
  dedupeEdges [] (edges.map fun edge => (edge.1, edge.2.insertionSort (· ≤ ·)))

/-- `_stitch_ephemera`, over the rows of a pull. -/
def stitchEphemera (rows : List Row) : EdgeSet := (stitchedEdges (collect rows)).toEdges

/-! ## Full sets -/

/-- No more than so many pairs are of a kind. -/
def AtMost (n : ℕ) (S : ColumnPair → Prop) : Prop :=
  ∃ all : List ColumnPair, all.length ≤ n ∧ ∀ p, S p → p ∈ all

theorem addCapped_sound {bucket pairs : List ColumnPair} (h : bucket.Nodup) :
    (addCapped bucket pairs).Nodup ∧ ∀ p ∈ addCapped bucket pairs, p ∈ bucket ∨ p ∈ pairs := by
  induction pairs generalizing bucket with
  | nil => exact ⟨h, fun p hp => .inl hp⟩
  | cons pair pairs ih =>
    rw [addCapped]
    split
    · exact ⟨h, fun p hp => .inl hp⟩
    · split
      · obtain ⟨hnodup, hmem⟩ := ih h
        exact ⟨hnodup, fun p hp => (hmem p hp).imp id (List.mem_cons_of_mem _)⟩
      · next hnew =>
        have hmore := h.concat hnew
        rw [List.concat_eq_append] at hmore
        obtain ⟨hnodup, hmem⟩ := ih hmore
        refine ⟨hnodup, fun p hp => ?_⟩
        obtain hp | hp := hmem p hp
        · obtain hp | hp := List.mem_append.mp hp
          · exact .inl hp
          · exact .inr (List.mem_singleton.mp hp ▸ List.mem_cons_self)
        · exact .inr (List.mem_cons_of_mem _ hp)

/-- A set that is never full takes all. -/
theorem addCapped_complete {bucket pairs : List ColumnPair} (h : bucket.Nodup)
    (hcap : AtMost maxColumnPairsPerEdge fun p => p ∈ bucket ∨ p ∈ pairs) :
    ∀ p, p ∈ bucket ∨ p ∈ pairs → p ∈ addCapped bucket pairs := by
  induction pairs generalizing bucket with
  | nil =>
    intro p hp
    exact hp.resolve_right List.not_mem_nil
  | cons pair pairs ih =>
    obtain ⟨all, hlength, hall⟩ := hcap
    rw [addCapped]
    split
    · next hfull =>
      intro p hp
      have hsub : bucket ⊆ all := fun q hq => hall q (.inl hq)
      have hperm := (List.subperm_of_subset h hsub).perm_of_length_le (by omega)
      exact hperm.mem_iff.mpr (hall p hp)
    · split
      · next hold =>
        intro p hp
        apply ih h ⟨all, hlength, fun q hq => hall q (hq.imp id (List.mem_cons_of_mem _))⟩
        obtain hp | hp := hp
        · exact .inl hp
        · obtain rfl | hp := List.mem_cons.mp hp
          · exact .inl hold
          · exact .inr hp
      · next hnew =>
        have hmore := h.concat hnew
        rw [List.concat_eq_append] at hmore
        have hsplit : ∀ q, q ∈ bucket ++ [pair] ∨ q ∈ pairs ↔ q ∈ bucket ∨ q ∈ pair :: pairs := by
          intro q
          simp only [List.mem_append, List.mem_cons, List.not_mem_nil, or_false, or_assoc]
        intro p hp
        exact ih hmore ⟨all, hlength, fun q hq => hall q ((hsplit q).mp hq)⟩ p ((hsplit p).mpr hp)

theorem mem_composable {first second : List ColumnPair} {p : ColumnPair} :
    p ∈ (first.flatMap fun p => (second.filter fun q => (ofLex q).1 = (ofLex p).2).map fun q =>
        toLex ((ofLex p).1, (ofLex q).2)) ↔
      ∃ y, toLex ((ofLex p).1, y) ∈ first ∧ toLex (y, (ofLex p).2) ∈ second := by
  simp only [List.mem_flatMap, List.mem_map, List.mem_filter, decide_eq_true_eq]
  constructor
  · rintro ⟨a, ha, b, ⟨hb, hmiddle⟩, rfl⟩
    refine ⟨(ofLex a).2, ha, ?_⟩
    rw [← hmiddle]
    exact hb
  · rintro ⟨y, ha, hb⟩
    exact ⟨_, ha, _, ⟨hb, rfl⟩, rfl⟩

theorem composePairs_sound {first second : List ColumnPair} {p : ColumnPair}
    (h : p ∈ composePairs first second) :
    ∃ y, toLex ((ofLex p).1, y) ∈ first ∧ toLex (y, (ofLex p).2) ∈ second :=
  mem_composable.mp (((addCapped_sound List.nodup_nil).2 p h).resolve_left List.not_mem_nil)

theorem composePairs_complete {first second : List ColumnPair}
    (hcap : AtMost maxColumnPairsPerEdge fun p =>
      ∃ y, toLex ((ofLex p).1, y) ∈ first ∧ toLex (y, (ofLex p).2) ∈ second) {p : ColumnPair}
    (h : ∃ y, toLex ((ofLex p).1, y) ∈ first ∧ toLex (y, (ofLex p).2) ∈ second) :
    p ∈ composePairs first second := by
  obtain ⟨all, hlength, hall⟩ := hcap
  apply addCapped_complete List.nodup_nil _ _ (.inr (mem_composable.mpr h))
  refine ⟨all, hlength, fun q hq => hall q ?_⟩
  exact mem_composable.mp (hq.resolve_left List.not_mem_nil)

/-! ## Collected edges -/

def Joined (rows : List Row) (a b : Text) : Prop :=
  ∃ row ∈ rows, row.upstream = a ∧ row.downstream = b

/-- A column of `a` was written into one of `b`. -/
def Maps (rows : List Row) (a b : Text) (p : ColumnPair) : Prop :=
  ∃ row ∈ rows, row.upstream = a ∧ row.downstream = b ∧ p ∈ row.pairs

theorem collect_append (rows : List Row) (row : Row) :
    collect (rows ++ [row]) = (collect rows).add row := by
  rw [collect, List.foldl_append]
  rfl

theorem nodup_collect (rows : List Row) : ((collect rows).map Prod.fst).Nodup := by
  induction rows using List.reverseRecOn with
  | nil => exact List.nodup_nil
  | append_singleton rows row ih =>
    rw [collect_append]
    exact nodup_setField ih

theorem joined_append {rows : List Row} {row : Row} {a b : Text} :
    Joined (rows ++ [row]) a b ↔ Joined rows a b ∨ (row.upstream, row.downstream) = (a, b) := by
  simp only [Joined, List.mem_append, List.mem_singleton, Prod.mk.injEq]
  constructor
  · rintro ⟨r, hr | rfl, hends⟩
    · exact .inl ⟨r, hr, hends⟩
    · exact .inr hends
  · rintro (⟨r, hr, hends⟩ | hends)
    · exact ⟨r, .inl hr, hends⟩
    · exact ⟨row, .inr rfl, hends⟩

theorem mem_keys_collect {rows : List Row} {a b : Text} :
    (a, b) ∈ (collect rows).map Prod.fst ↔ Joined rows a b := by
  induction rows using List.reverseRecOn with
  | nil => simp [collect, Joined]
  | append_singleton rows row ih =>
    rw [collect_append, EdgeSet.add, mem_keys_setField, ih, joined_append, or_comm, eq_comm]

theorem maps_append {rows : List Row} {row : Row} {a b : Text} {p : ColumnPair} :
    Maps (rows ++ [row]) a b p ↔
      Maps rows a b p ∨ (row.upstream, row.downstream) = (a, b) ∧ p ∈ row.pairs := by
  simp only [Maps, List.mem_append, List.mem_singleton, Prod.mk.injEq]
  constructor
  · rintro ⟨r, hr | rfl, hup, hdown, hp⟩
    · exact .inl ⟨r, hr, hup, hdown, hp⟩
    · exact .inr ⟨⟨hup, hdown⟩, hp⟩
  · rintro (⟨r, hr, hends⟩ | ⟨⟨hup, hdown⟩, hp⟩)
    · exact ⟨r, .inl hr, hends⟩
    · exact ⟨row, .inr rfl, hup, hdown, hp⟩

/-- The pairs of a collected edge are pairs of its rows, each once. -/
theorem collect_sound (rows : List Row) (a b : Text) :
    (((collect rows).lookup (a, b)).getD []).Nodup ∧
      ∀ p ∈ ((collect rows).lookup (a, b)).getD [], Maps rows a b p := by
  induction rows using List.reverseRecOn with
  | nil => simp [collect]
  | append_singleton rows row ih =>
    rw [collect_append, EdgeSet.add]
    by_cases hkey : (a, b) = (row.upstream, row.downstream)
    · rw [← hkey, lookup_setField_self, Option.getD_some]
      have hadded : (addCapped _ row.pairs).Nodup ∧ _ := addCapped_sound ih.1
      obtain ⟨hnodup, hmem⟩ := hadded
      refine ⟨hnodup, fun p hp => maps_append.mpr ?_⟩
      exact (hmem p hp).imp (ih.2 p) fun hnew => ⟨hkey.symm, hnew⟩
    · rw [lookup_setField_ne hkey]
      exact ⟨ih.1, fun p hp => maps_append.mpr (.inl (ih.2 p hp))⟩

/-- Below the cap, they are all of them. -/
theorem collect_complete {rows : List Row} {a b : Text}
    (hcap : AtMost maxColumnPairsPerEdge (Maps rows a b)) {p : ColumnPair}
    (h : Maps rows a b p) : p ∈ ((collect rows).lookup (a, b)).getD [] := by
  induction rows using List.reverseRecOn generalizing p with
  | nil =>
    obtain ⟨row, hrow, _⟩ := h
    cases hrow
  | append_singleton rows row ih =>
    obtain ⟨all, hlength, hall⟩ := hcap
    have hbefore : ∀ q, Maps rows a b q → q ∈ ((collect rows).lookup (a, b)).getD [] :=
      fun q hq => ih ⟨all, hlength, fun q hq => hall q (maps_append.mpr (.inl hq))⟩ hq
    obtain ⟨hnodup, hmem⟩ := collect_sound rows a b
    rw [collect_append, EdgeSet.add]
    by_cases hkey : (a, b) = (row.upstream, row.downstream)
    · rw [← hkey, lookup_setField_self, Option.getD_some]
      apply addCapped_complete hnodup
      · refine ⟨all, hlength, fun q hq => hall q (maps_append.mpr ?_)⟩
        exact hq.imp (hmem q) fun hnew => ⟨hkey.symm, hnew⟩
      · exact (maps_append.mp h).imp (hbefore p) And.right
    · rw [lookup_setField_ne hkey]
      apply hbefore
      exact (maps_append.mp h).resolve_right fun hnew => hkey hnew.1.symm

end DataQ.Lineage.Ephemera
