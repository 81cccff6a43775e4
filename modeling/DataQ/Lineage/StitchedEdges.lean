import DataQ.Lineage.Stitching

/-! # The stitched edges

What `stitched_edges` collects over the rows of a pull, and which edges come out of it. -/

namespace DataQ.Lineage.Ephemera
open DataQ.Lineage.Warehouse (ColumnPair maxColumnPairsPerEdge)
set_option autoImplicit false

section Gathering
variable {F : Flow} {raw : EdgeSet}

/-- The row tells of a chain between two physical tables, with all that it carries. -/
structure Shows (F : Flow) (ts : List Text) (row : Row) : Prop where
  physical : isEphemeral row.upstream = false
  chain : Chain F row.upstream ts row.downstream
  pairs : ∀ p, p ∈ row.pairs ↔ Carries F row.upstream ts row.downstream p

/-- Rows of which each shows a chain, and that show every steady chain from the given edges on. -/
structure Gathered (F : Flow) (edges : EdgeSet) (rows : List Row) : Prop where
  sound : ∀ row ∈ rows, ∃ ts, Shows F ts row
  complete : ∀ edge ∈ edges, isEphemeral edge.1.1 = false → ∀ ts b, Chain F edge.1.1 ts b →
    Steady F ts → (ts ++ [b]).head? = some edge.1.2 →
    ∃ row ∈ rows, row.upstream = edge.1.1 ∧ row.downstream = b ∧ Shows F ts row

theorem Gathered.append {edges : EdgeSet} {edge : (Text × Text) × List ColumnPair}
    {rows more : List Row} (h : Gathered F edges rows) (hsound : ∀ row ∈ more, ∃ ts, Shows F ts row)
    (hcomplete : isEphemeral edge.1.1 = false → ∀ ts b, Chain F edge.1.1 ts b →
      Steady F ts → (ts ++ [b]).head? = some edge.1.2 →
      ∃ row ∈ more, row.upstream = edge.1.1 ∧ row.downstream = b ∧ Shows F ts row) :
    Gathered F (edges ++ [edge]) (rows ++ more) where
  sound := by
    intro row hrow
    obtain hrow | hrow := List.mem_append.mp hrow
    · exact h.sound row hrow
    · exact hsound row hrow
  complete := by
    intro e he hphysical ts b hchain hsteady hhead
    obtain he | he := List.mem_append.mp he
    · obtain ⟨row, hrow, hfound⟩ := h.complete e he hphysical ts b hchain hsteady hhead
      exact ⟨row, List.mem_append_left more hrow, hfound⟩
    · obtain rfl := List.mem_singleton.mp he
      obtain ⟨row, hrow, hfound⟩ := hcomplete hphysical ts b hchain hsteady hhead
      exact ⟨row, List.mem_append_right rows hrow, hfound⟩

theorem foldl_add {α : Type*} (f : α → Row) (items : List α) (rows : List Row) :
    items.foldl (fun edges item => edges.add (f item)) (collect rows) =
      collect (rows ++ items.map f) := by
  rw [collect, collect, List.foldl_append, List.foldl_map]

theorem shows_direct {a b : Text} {pairs : List ColumnPair} (ha : isEphemeral a = false)
    (hb : isEphemeral b = false) (hjoined : F.joined a b)
    (hpairs : ∀ p, p ∈ pairs ↔ F.maps a b p) : Shows F [] ⟨a, b, pairs⟩ := by
  refine ⟨ha, ⟨hjoined, hb, ?_, ?_⟩, hpairs⟩
  · rw [scratch_of_physical ha]
    exact List.nodup_nil
  · rw [scratch_of_physical ha]
    exact Nat.zero_le _

/-- A physical table before a chain that starts at a scratch table. -/
theorem shows_chain (hcap : BelowCap F) {a t : Text} {ts : List Text} {pairs : List ColumnPair}
    {entry : Entry} (ha : isEphemeral a = false) (ht : isEphemeral t = true)
    (hjoined : F.joined a t) (hpairs : ∀ p, p ∈ pairs ↔ F.maps a t p) (h : Tells F t ts entry) :
    Shows F (t :: ts) ⟨a, entry.ident, composePairs pairs entry.pairs⟩ := by
  have hdistinct := h.chain.distinct
  have hshort := h.chain.short
  rw [scratch_of_ephemeral ht] at hdistinct hshort
  have hchain : Chain F a (t :: ts) entry.ident := by
    refine ⟨⟨hjoined, ht, h.chain.joins⟩, h.chain.physical, ?_, ?_⟩
    · rw [scratch_of_physical ha]
      exact hdistinct
    · rw [scratch_of_physical ha]
      exact hshort
  exact ⟨ha, hchain, composePairs_chain hcap hpairs h hchain⟩

theorem stitchRow_spec (hcap : BelowCap F) (hraw : Recorded F raw) {edges : EdgeSet}
    {edge : (Text × Text) × List ColumnPair} {rows : List Row} {memo : Memo} (hedge : edge ∈ raw)
    (hkept : Kept F [] memo) (h : Gathered F edges rows) :
    ∃ more memo', stitchRow raw (collect rows, memo) edge = (collect (rows ++ more), memo') ∧
      Kept F [] memo' ∧ Gathered F (edges ++ [edge]) (rows ++ more) := by
  obtain ⟨⟨a, x⟩, pairs⟩ := edge
  have hkey : _ ∈ raw.map Prod.fst := List.mem_map_of_mem hedge
  have hjoined := (hraw.keys a x).mp hkey
  have hpairs := hraw.pairs a x pairs hedge
  rw [stitchRow]
  cases ha : isEphemeral a with
  | true =>
    refine ⟨[], memo, by rw [List.append_nil]; rfl, hkept, h.append ?_ ?_⟩
    · exact fun row hrow => absurd hrow List.not_mem_nil
    · intro hphysical
      rw [ha] at hphysical
      cases hphysical
  | false =>
    cases hx : isEphemeral x with
    | false =>
      have hshows := shows_direct ha hx hjoined hpairs
      refine ⟨[⟨a, x, pairs⟩], memo, by rw [collect_append]; rfl, hkept, h.append ?_ ?_⟩
      · intro row hrow
        obtain rfl := List.mem_singleton.mp hrow
        exact ⟨[], hshows⟩
      · intro _ ts b hchain _ hhead
        cases ts with
        | nil =>
          obtain rfl := Option.some.inj hhead
          exact ⟨_, List.mem_cons_self, rfl, rfl, hshows⟩
        | cons t ts =>
          obtain rfl := Option.some.inj hhead
          rw [hchain.joins.2.1] at hx
          cases hx
    | true =>
      have hdown : x ∈ raw.map fun edge => edge.1.2 := List.mem_map_of_mem hedge
      have hfuel : (unmarked raw memo).length ≤ raw.length :=
        (List.length_filter_le _ _).trans_eq (List.length_map _)
      have hout := resolve_spec hcap hraw hfuel hx hdown hkept fun _ => .start ha hjoined hx
      refine ⟨(resolve raw raw.length x memo).1.map fun entry =>
        ⟨a, entry.ident, composePairs pairs entry.pairs⟩, (resolve raw raw.length x memo).2, ?_,
        hout.kept, h.append ?_ ?_⟩
      · rw [← foldl_add]
        rfl
      · intro row hrow
        obtain ⟨entry, hentry, rfl⟩ := List.mem_map.mp hrow
        obtain ⟨ts, htells, -⟩ := hout.sound entry hentry
        exact ⟨x :: ts, shows_chain hcap ha hx hjoined hpairs htells⟩
      · intro _ ts b hchain hsteady hhead
        cases ts with
        | nil =>
          obtain rfl := Option.some.inj hhead
          rw [hchain.physical] at hx
          cases hx
        | cons t ts =>
          obtain rfl := Option.some.inj hhead
          obtain ⟨entry, hentry, rfl, htells⟩ :=
            hout.complete List.not_mem_nil ts b hchain.tail hsteady
          exact ⟨_, List.mem_map_of_mem hentry, rfl, rfl,
            shows_chain hcap ha hx hjoined hpairs htells⟩

theorem stitchedEdges_spec (hcap : BelowCap F) (hraw : Recorded F raw) :
    ∃ rows, stitchedEdges raw = collect rows ∧ Gathered F raw rows := by
  have hrun : ∀ edges, edges ⊆ raw → ∃ rows memo, edges.foldl (stitchRow raw) ([], []) =
      (collect rows, memo) ∧ Kept F [] memo ∧ Gathered F edges rows := by
    intro edges
    induction edges using List.reverseRecOn with
    | nil =>
      intro _
      refine ⟨[], [], rfl, ⟨?_, ?_⟩, ⟨?_, ?_⟩⟩
      · exact fun n hn => absurd hn List.not_mem_nil
      · exact fun n entries _ hlookup => nomatch hlookup
      · exact fun row hrow => absurd hrow List.not_mem_nil
      · exact fun edge hedge => absurd hedge List.not_mem_nil
    | append_singleton edges edge ih =>
      intro hsub
      obtain ⟨hbefore, hedge⟩ := List.append_subset.mp hsub
      obtain ⟨rows, memo, heq, hkept, hgathered⟩ := ih hbefore
      obtain ⟨more, memo', hrow, hkept', hgathered'⟩ :=
        stitchRow_spec hcap hraw (hedge List.mem_cons_self) hkept hgathered
      refine ⟨rows ++ more, memo', ?_, hkept', hgathered'⟩
      rw [List.foldl_append, heq]
      exact hrow
  obtain ⟨rows, memo, heq, -, hgathered⟩ := hrun raw (List.Subset.refl raw)
  exact ⟨rows, by rw [stitchedEdges, heq], hgathered⟩

end Gathering

/-! ## What comes out -/

theorem mem_dedupeEdges {seen : List (Text × Text)} {edges : EdgeSet}
    (h : (edges.map Prod.fst).Nodup) {edge : (Text × Text) × List ColumnPair} :
    edge ∈ dedupeEdges seen edges ↔ edge ∈ edges ∧ edge.1.1 ≠ edge.1.2 ∧ edge.1 ∉ seen := by
  induction edges generalizing seen with
  | nil => simp [dedupeEdges]
  | cons e edges ih =>
    obtain ⟨hnew, hrest⟩ := List.nodup_cons.mp h
    rw [dedupeEdges]
    split
    · next hself =>
      rw [ih hrest, List.mem_cons]
      constructor
      · rintro ⟨hmem, hkept⟩
        exact ⟨.inr hmem, hkept⟩
      · rintro ⟨rfl | hmem, hkept⟩
        · exact absurd hself hkept.1
        · exact ⟨hmem, hkept⟩
    · next hself =>
      split
      · next hseen =>
        rw [ih hrest, List.mem_cons]
        constructor
        · rintro ⟨hmem, hkept⟩
          exact ⟨.inr hmem, hkept⟩
        · rintro ⟨rfl | hmem, hkept⟩
          · exact absurd hseen hkept.2
          · exact ⟨hmem, hkept⟩
      · next hseen =>
        rw [List.mem_cons, ih hrest, List.mem_cons, List.mem_cons, not_or]
        constructor
        · rintro (rfl | ⟨hmem, hends, hne, hout⟩)
          · exact ⟨.inl rfl, hself, hseen⟩
          · exact ⟨.inr hmem, hends, hout⟩
        · rintro ⟨rfl | hmem, hends, hout⟩
          · exact .inl rfl
          · refine .inr ⟨hmem, hends, ?_, hout⟩
            intro heq
            exact hnew (heq ▸ List.mem_map_of_mem hmem)

theorem dedupeEdges_sublist (seen : List (Text × Text)) (edges : EdgeSet) :
    (dedupeEdges seen edges).Sublist edges := by
  induction edges generalizing seen with
  | nil => exact List.Sublist.refl _
  | cons e edges ih =>
    rw [dedupeEdges]
    split
    · exact (ih seen).cons e
    · split
      · exact (ih seen).cons e
      · exact (ih (e.1 :: seen)).cons_cons e

/-- The keys of the edges in order, each once. -/
theorem keys_sorted (edges : EdgeSet) :
    (edges.map fun edge => (edge.1, edge.2.insertionSort (· ≤ ·))).map Prod.fst =
      edges.map Prod.fst := by
  rw [List.map_map]
  rfl

/-- The edges that come out: not the ones from a table to itself, and the pairs in order. -/
theorem mem_toEdges {rows : List Row} {a b : Text} {pairs : List ColumnPair} :
    ((a, b), pairs) ∈ (collect rows).toEdges ↔
      a ≠ b ∧ ∃ bucket, (collect rows).lookup (a, b) = some bucket ∧
        pairs = bucket.insertionSort (· ≤ ·) := by
  have hnodup := nodup_collect rows
  rw [EdgeSet.toEdges, mem_dedupeEdges (keys_sorted (collect rows) ▸ hnodup)]
  simp only [List.mem_map, List.not_mem_nil, not_false_eq_true, and_true]
  constructor
  · rintro ⟨⟨⟨key, bucket⟩, hmem, heq⟩, hne⟩
    obtain ⟨rfl, rfl⟩ := Prod.mk.inj heq
    exact ⟨hne, bucket, (mem_iff_lookup hnodup).mp hmem, rfl⟩
  · rintro ⟨hne, bucket, hlookup, rfl⟩
    exact ⟨⟨((a, b), bucket), (mem_iff_lookup hnodup).mpr hlookup, rfl⟩, hne⟩

theorem mem_keys_toEdges {rows : List Row} {a b : Text} :
    (a, b) ∈ (collect rows).toEdges.map Prod.fst ↔ a ≠ b ∧ Joined rows a b := by
  rw [← mem_keys_collect]
  simp only [List.mem_map]
  constructor
  · rintro ⟨⟨key, pairs⟩, hmem, rfl⟩
    obtain ⟨hne, bucket, hlookup, -⟩ := mem_toEdges.mp hmem
    exact ⟨hne, _, mem_of_lookup hlookup, rfl⟩
  · rintro ⟨hne, ⟨key, bucket⟩, hmem, rfl⟩
    have hlookup := (mem_iff_lookup (nodup_collect rows)).mp hmem
    exact ⟨_, mem_toEdges.mpr ⟨hne, bucket, hlookup, rfl⟩, rfl⟩

theorem nodup_toEdges (rows : List Row) : ((collect rows).toEdges.map Prod.fst).Nodup :=
  (keys_sorted (collect rows) ▸ nodup_collect rows).sublist
    ((dedupeEdges_sublist [] _).map Prod.fst)

/-- The edges are the pairs of distinct physical tables that chains join, each once, and the columns
of an edge are the pairs that the chains carry, in order. -/
structure Stitches (F : Flow) (edges : EdgeSet) : Prop where
  keys : (edges.map Prod.fst).Nodup
  joined : ∀ a b, (a, b) ∈ edges.map Prod.fst ↔
    a ≠ b ∧ isEphemeral a = false ∧ ∃ ts, Chain F a ts b
  sorted : ∀ edge ∈ edges, edge.2.SortedLT
  carried : ∀ edge ∈ edges, ∀ p, p ∈ edge.2 ↔ Fed F edge.1.1 edge.1.2 p

/-- There is one such set of edges. -/
theorem Stitches.perm {F : Flow} {edges edges' : EdgeSet} (h : Stitches F edges)
    (h' : Stitches F edges') : edges.Perm edges' := by
  have hsub : ∀ {edges edges' : EdgeSet}, Stitches F edges → Stitches F edges' →
      ∀ edge ∈ edges, edge ∈ edges' := by
    intro edges edges' h h' edge hedge
    have hkey : edge.1 ∈ edges.map Prod.fst := List.mem_map_of_mem hedge
    obtain ⟨edge', hedge', heq⟩ := List.mem_map.mp ((h'.joined _ _).mpr ((h.joined _ _).mp hkey))
    have hcolumns : edge'.2 = edge.2 := by
      apply (h'.sorted edge' hedge').eq_of_mem_iff (h.sorted edge hedge)
      intro p
      rw [h'.carried edge' hedge', h.carried edge hedge, heq]
    have hsame : edge' = edge := Prod.ext heq hcolumns
    exact hsame ▸ hedge'
  have hnodup : ∀ {edges : EdgeSet}, Stitches F edges → edges.Nodup :=
    fun h => List.Nodup.of_map Prod.fst h.keys
  exact (List.perm_ext_iff_of_nodup (hnodup h) (hnodup h')).mpr
    fun edge => ⟨hsub h h' edge, hsub h' h edge⟩

section Exactness
variable {F : Flow} {raw : EdgeSet} {rows : List Row}

theorem Gathered.steady (h : Gathered F raw rows) (hraw : Recorded F raw) {a b : Text}
    {ts : List Text} (ha : isEphemeral a = false) (hchain : Chain F a ts b)
    (hsteady : Steady F ts) :
    ∃ row ∈ rows, row.upstream = a ∧ row.downstream = b ∧ Shows F ts row := by
  obtain ⟨c, hhead, hjoined⟩ := hchain.first
  obtain ⟨⟨key, pairs⟩, hedge, rfl⟩ := List.mem_map.mp ((hraw.keys a c).mpr hjoined)
  exact h.complete _ hedge ha ts b hchain hsteady hhead

theorem Gathered.joined (h : Gathered F raw rows) {a b : Text} (hab : Joined rows a b) :
    isEphemeral a = false ∧ ∃ ts, Chain F a ts b := by
  obtain ⟨row, hrow, rfl, rfl⟩ := hab
  obtain ⟨ts, hshows⟩ := h.sound row hrow
  exact ⟨hshows.physical, ts, hshows.chain⟩

theorem Gathered.fed (h : Gathered F raw rows) {a b : Text} {p : ColumnPair}
    (hp : Maps rows a b p) : Fed F a b p := by
  obtain ⟨row, hrow, rfl, rfl, hp⟩ := hp
  obtain ⟨ts, hshows⟩ := h.sound row hrow
  exact ⟨ts, hshows.chain, (hshows.pairs p).mp hp⟩

theorem Gathered.stitches (hcap : BelowCap F) (hraw : Recorded F raw) (hsettled : Settled F)
    (h : Gathered F raw rows) : Stitches F (collect rows).toEdges where
  keys := nodup_toEdges rows
  joined := by
    intro a b
    rw [mem_keys_toEdges]
    constructor
    · rintro ⟨hne, hab⟩
      exact ⟨hne, h.joined hab⟩
    · rintro ⟨hne, ha, ts, hchain⟩
      obtain ⟨ts, hchain, hsteady⟩ := hsettled.edges a b ha hne ts hchain
      obtain ⟨row, hrow, hup, hdown, -⟩ := h.steady hraw ha hchain hsteady
      exact ⟨hne, row, hrow, hup, hdown⟩
  sorted := by
    rintro ⟨⟨a, b⟩, pairs⟩ hedge
    obtain ⟨-, bucket, hlookup, rfl⟩ := mem_toEdges.mp hedge
    obtain ⟨hnodup, -⟩ := collect_sound rows a b
    rw [hlookup, Option.getD_some] at hnodup
    apply List.sortedLT_iff_nodup_and_sortedLE.mpr
    exact ⟨(List.perm_insertionSort _ _).nodup_iff.mpr hnodup,
      (List.pairwise_insertionSort _ _).sortedLE⟩
  carried := by
    rintro ⟨⟨a, b⟩, pairs⟩ hedge p
    obtain ⟨hne, bucket, hlookup, rfl⟩ := mem_toEdges.mp hedge
    have hbucket : ((collect rows).lookup (a, b)).getD [] = bucket := by
      rw [hlookup, Option.getD_some]
    have hjoined := (mem_keys_toEdges.mp (List.mem_map_of_mem hedge)).2
    rw [List.mem_insertionSort, ← hbucket]
    constructor
    · intro hp
      exact h.fed ((collect_sound rows a b).2 p hp)
    · intro hp
      obtain ⟨ts, hchain, hcarries, hsteady⟩ := hsettled.pairs a b (h.joined hjoined).1 hne p hp
      obtain ⟨row, hrow, rfl, rfl, hshows⟩ := h.steady hraw (h.joined hjoined).1 hchain hsteady
      apply collect_complete ((hcap.chains _ _).mono fun q hq => h.fed hq)
      exact ⟨row, hrow, rfl, rfl, (hshows.pairs p).mpr hcarries⟩

end Exactness

theorem stitch_is_exact {rows rows' : List Row} (hcap : BelowCap (flow rows))
    (h : Settled (flow rows)) (hperm : rows'.Perm rows) :
    Stitches (flow rows) (stitchEphemera rows') ∧
      (stitchEphemera rows').Perm (stitchEphemera rows) := by
  have hone : ∀ rows : List Row, BelowCap (flow rows) → Settled (flow rows) →
      Stitches (flow rows) (stitchEphemera rows) := by
    intro rows hcap h
    have hraw := recorded_collect hcap
    obtain ⟨given, heq, hgathered⟩ := stitchedEdges_spec hcap hraw
    rw [stitchEphemera, heq]
    exact hgathered.stitches hcap hraw h
  have hflow := flow_perm hperm
  have hother := hone rows' (hflow ▸ hcap) (hflow ▸ h)
  rw [hflow] at hother
  exact ⟨hother, hother.perm (hone rows hcap h)⟩

/-! ## When no chain is lost -/

theorem Way.rank {F : Flow} {rank : Text → ℕ}
    (hrank : ∀ u v, F.joined u v → isEphemeral u = true → isEphemeral v = true → rank u < rank v)
    {u : Text} {ts : List Text} (h : Way F (u :: ts)) :
    isEphemeral u = true ∧ ∀ t ∈ u :: ts, rank t ≤ rank u := by
  generalize hall : u :: ts = all at h
  induction h generalizing u ts with
  | start physical joined scratch =>
    obtain ⟨rfl, rfl⟩ := List.cons.inj hall
    exact ⟨scratch, fun t ht => (congrArg rank (List.mem_singleton.mp ht)).le⟩
  | step way joined scratch new ih =>
    obtain ⟨rfl, rfl⟩ := List.cons.inj hall
    obtain ⟨hlast, hbefore⟩ := ih rfl
    refine ⟨scratch, fun t ht => ?_⟩
    obtain rfl | ht := List.mem_cons.mp ht
    · exact le_rfl
    · have hle := hbefore t ht
      have hlt := hrank _ _ joined hlast scratch
      omega

theorem steady_of_rank {F : Flow} {rank : Text → ℕ}
    (hrank : ∀ u v, F.joined u v → isEphemeral u = true → isEphemeral v = true → rank u < rank v)
    {a b : Text} {ts : List Text} (h : Joins F a ts b) : Steady F ts := by
  induction ts generalizing a with
  | nil => exact .nil
  | cons u ts ih =>
    have hrest : Steady F ts := ih h.2.2
    cases ts with
    | nil => exact .singleton u
    | cons v ts =>
      refine List.isChain_cons_cons.mpr ⟨?_, hrest⟩
      rintro ⟨way, hway, hmem⟩
      have hle := (hway.rank hrank).2 v hmem
      have hlt := hrank u v h.2.2.1 h.2.1 h.2.2.2.1
      omega

/-- Scratch tables without a cycle lose no chain. -/
theorem settled_of_rank {rows : List Row} (rank : Text → ℕ)
    (h : ∀ row ∈ rows, isEphemeral row.upstream = true → isEphemeral row.downstream = true →
      rank row.upstream < rank row.downstream) : Settled (flow rows) := by
  have hrank : ∀ u v, (flow rows).joined u v → isEphemeral u = true → isEphemeral v = true →
      rank u < rank v := by
    rintro u v ⟨row, hrow, rfl, rfl⟩ hu hv
    exact h row hrow hu hv
  refine ⟨?_, ?_⟩
  · intro a b _ _ ts hchain
    exact ⟨ts, hchain, steady_of_rank hrank hchain.joins⟩
  · rintro a b _ _ p ⟨ts, hchain, hcarries⟩
    exact ⟨ts, hchain, hcarries, steady_of_rank hrank hchain.joins⟩

theorem Carries.columns {rows : List Row} {a b : Text} {ts : List Text} {p : ColumnPair}
    (h : Carries (flow rows) a ts b p) :
    (∃ q ∈ rows.flatMap Row.pairs, (ofLex q).1 = (ofLex p).1) ∧
      ∃ q ∈ rows.flatMap Row.pairs, (ofLex q).2 = (ofLex p).2 := by
  induction ts generalizing a p with
  | nil =>
    obtain ⟨row, hrow, -, -, hp⟩ := h
    have hmem : p ∈ rows.flatMap Row.pairs := List.mem_flatMap_of_mem hrow hp
    exact ⟨⟨p, hmem, rfl⟩, p, hmem, rfl⟩
  | cons t ts ih =>
    obtain ⟨y, ⟨row, hrow, -, -, hp⟩, hrest⟩ := h
    exact ⟨⟨_, List.mem_flatMap_of_mem hrow hp, rfl⟩, (ih hrest).2⟩

/-- A few column pairs stay below the cap however they are composed. -/
theorem belowCap_of_few {rows : List Row}
    (h : (rows.flatMap Row.pairs).length * (rows.flatMap Row.pairs).length ≤
      maxColumnPairsPerEdge) : BelowCap (flow rows) := by
  have hall : ∀ S : ColumnPair → Prop, (∀ p, S p → ∃ a ts b, Carries (flow rows) a ts b p) →
      AtMost maxColumnPairsPerEdge S := by
    intro S hS
    refine ⟨(rows.flatMap Row.pairs).flatMap fun q => (rows.flatMap Row.pairs).map fun r =>
      toLex ((ofLex q).1, (ofLex r).2), ?_, ?_⟩
    · simpa [List.length_flatMap] using h
    · intro p hp
      obtain ⟨a, ts, b, hcarries⟩ := hS p hp
      obtain ⟨⟨q, hq, hfirst⟩, r, hr, hsecond⟩ := hcarries.columns
      apply List.mem_flatMap_of_mem hq
      apply List.mem_map.mpr
      exact ⟨r, hr, by rw [hfirst, hsecond]; rfl⟩
  refine ⟨?_, ?_⟩
  · intro a b
    exact hall _ fun p hp => ⟨a, [], b, hp⟩
  · intro a b
    apply hall
    rintro p ⟨ts, -, hcarries⟩
    exact ⟨a, ts, b, hcarries⟩

theorem stitch_is_exact_two_scratch_tables :
    let rows : List Row := [
      ⟨"A".toList, "SNOWPARK_TEMP_1".toList, [toLex ("x".toList, "y".toList)]⟩,
      ⟨"SNOWPARK_TEMP_1".toList, "SNOWPARK_TEMP_22".toList, [toLex ("y".toList, "z".toList)]⟩,
      ⟨"SNOWPARK_TEMP_22".toList, "B".toList, [toLex ("z".toList, "w".toList)]⟩]
    Stitches (flow rows) (stitchEphemera rows.reverse) ∧
      (stitchEphemera rows.reverse).Perm (stitchEphemera rows) :=
  stitch_is_exact (belowCap_of_few (by decide)) (settled_of_rank List.length (by decide))
    (List.reverse_perm _)

/-- Two scratch tables that were written from each other, and a physical table on both sides of
each. -/
def crossed : List Row :=
  [⟨"A".toList, "SNOWPARK_TEMP_1".toList, []⟩, ⟨"C".toList, "SNOWPARK_TEMP_2".toList, []⟩,
    ⟨"SNOWPARK_TEMP_1".toList, "SNOWPARK_TEMP_2".toList, []⟩,
    ⟨"SNOWPARK_TEMP_2".toList, "SNOWPARK_TEMP_1".toList, []⟩,
    ⟨"SNOWPARK_TEMP_1".toList, "B".toList, []⟩, ⟨"SNOWPARK_TEMP_2".toList, "D".toList, []⟩]

/-- The walk from `A` resolves the second table while the first is still being resolved. -/
theorem crossed_scratch_tables_lose_an_edge :
    BelowCap (flow crossed) ∧ ¬ Stitches (flow crossed) (stitchEphemera crossed) ∧
      ¬ (stitchEphemera crossed.reverse).Perm (stitchEphemera crossed) := by
  have hout : ("C".toList, "B".toList) ∉ (stitchEphemera crossed).map Prod.fst := by decide +kernel
  have hin : ("C".toList, "B".toList) ∈ (stitchEphemera crossed.reverse).map Prod.fst := by
    decide +kernel
  have hrow : ∀ row ∈ crossed, Joined crossed row.upstream row.downstream :=
    fun row hrow => ⟨row, hrow, rfl, rfl⟩
  have hchain : Chain (flow crossed) "C".toList
      ["SNOWPARK_TEMP_2".toList, "SNOWPARK_TEMP_1".toList] "B".toList := by
    refine ⟨⟨?_, by decide, ?_, by decide, ?_⟩, by decide, by decide, by decide⟩
    · exact hrow ⟨_, _, []⟩ (by decide)
    · exact hrow ⟨_, _, []⟩ (by decide)
    · exact hrow ⟨_, _, []⟩ (by decide)
  refine ⟨belowCap_of_few (by decide), ?_, ?_⟩
  · intro h
    exact hout ((h.joined _ _).mpr ⟨by decide, by decide, _, hchain⟩)
  · intro hperm
    exact hout ((hperm.map Prod.fst).mem_iff.mp hin)

end DataQ.Lineage.Ephemera
