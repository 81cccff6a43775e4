import DataQ.Foundations.Transition
import DataQ.Lineage.Warehouse

/-! # Column pairs accrete

While a refresh holds the locks of the assets that it names nobody writes an edge between them, so
the column pairs that it read are those that it merges with. What it can lose of them it loses to
the cap: a stored pair that enough others sort before. -/

namespace DataQ.Lineage.Warehouse
open DataQ.Interleaving DataQ.Locking DataQ.Transition
set_option autoImplicit false

/-! ## The rows of a refresh -/

section Rows

variable {grain : Option ColumnGrain} {existing : List (Ends × List ColumnPair)}

theorem mem_edgeRowsFrom {seen : List Ends} {edges : List LineageEdgePair} {row : EdgeRow} :
    row ∈ edgeRowsFrom grain existing seen edges ↔ row.ends ∉ seen ∧
      ∃ edge, edges.find? (fun edge => edge.ends = row.ends) = some edge ∧
        row = ⟨edge.ends, mergedColumns (existing.lookup edge.ends) edge.columnPairs, grain⟩ := by
  induction edges generalizing seen with
  | nil => simp [edgeRowsFrom]
  | cons first edges ih =>
    unfold edgeRowsFrom
    by_cases hends : first.ends = row.ends
    · rw [List.find?_cons_of_pos (by simpa using hends)]
      split
      · next hseen =>
        rw [ih]
        constructor
        · rintro ⟨hnew, -⟩
          exact absurd (hends ▸ hseen) hnew
        · rintro ⟨hnew, -⟩
          exact absurd (hends ▸ hseen) hnew
      · next hnew =>
        rw [List.mem_cons, ih]
        constructor
        · rintro (rfl | ⟨hold, -⟩)
          · exact ⟨hnew, first, rfl, rfl⟩
          · exact absurd (hends ▸ List.mem_cons_self) hold
        · rintro ⟨-, edge, hedge, hrow⟩
          obtain rfl : first = edge := Option.some.inj hedge
          exact .inl hrow
    · rw [List.find?_cons_of_neg (by simpa using hends)]
      split
      · exact ih
      · have hne : row.ends ≠ first.ends := fun h => hends h.symm
        rw [List.mem_cons, ih, List.mem_cons, not_or]
        constructor
        · rintro (rfl | ⟨⟨-, hold⟩, hfound⟩)
          · exact absurd rfl hends
          · exact ⟨hold, hfound⟩
        · rintro ⟨hold, hfound⟩
          exact .inr ⟨⟨hne, hold⟩, hfound⟩

theorem edgeRowsFrom_nodup (seen : List Ends) (edges : List LineageEdgePair) :
    ((edgeRowsFrom grain existing seen edges).map EdgeRow.ends).Nodup := by
  induction edges generalizing seen with
  | nil => exact List.nodup_nil
  | cons first edges ih =>
    unfold edgeRowsFrom
    split
    · exact ih seen
    · rw [List.map_cons, List.nodup_cons]
      refine ⟨fun hmem => ?_, ih _⟩
      obtain ⟨row, hrow, hends⟩ := List.mem_map.mp hmem
      exact (mem_edgeRowsFrom.mp hrow).1 (hends ▸ List.mem_cons_self)

end Rows

/-! ## The upserts -/

section Upserts

variable {r : Refresh} {clock : Clock}

@[simp] theorem EdgeRow.update_key (replace : Bool) (row : EdgeRow) (e : Edge) :
    (row.update replace clock e).key = e.key := rfl

theorem key_inj {ends ends' : Ends} (h : r.key ends = r.key ends') : ends = ends' :=
  congrArg Prod.fst h

theorem upsertEdge_keys {edges : List Edge} (row : EdgeRow) (h : (edges.map Edge.key).Nodup) :
    ((upsertEdge r clock edges row).map Edge.key).Nodup := by
  unfold upsertEdge Registry.upsert
  split
  · rw [List.map_map]
    have hsame : Edge.key ∘ (fun e => if e.key = r.key row.ends then
        row.update r.replaceColumns clock e else e) = Edge.key := by
      funext e
      show Edge.key (if _ then _ else _) = _
      split <;> rfl
    rwa [hsame]
  · next hnone =>
    rw [List.map_append, List.nodup_append]
    refine ⟨h, List.nodup_singleton _, fun key hkey other hother heq => hnone ?_⟩
    obtain ⟨e, he, rfl⟩ := List.mem_map.mp hkey
    rw [List.map_singleton, List.mem_singleton] at hother
    exact List.any_eq_true.mpr ⟨e, he, decide_eq_true (heq.trans hother)⟩

/-- An edge of another key is there after an upsert exactly if it was there before. -/
theorem mem_upsertEdge_ne {edges : List Edge} {row : EdgeRow} {e : Edge}
    (h : e.key ≠ r.key row.ends) : e ∈ upsertEdge r clock edges row ↔ e ∈ edges := by
  unfold upsertEdge Registry.upsert
  split
  · rw [List.mem_map]
    constructor
    · rintro ⟨old, hold, rfl⟩
      by_cases hkey : old.key = r.key row.ends
      · rw [if_pos hkey] at h
        exact absurd hkey h
      · rwa [if_neg hkey]
    · exact fun he => ⟨e, he, if_neg h⟩
  · rw [List.mem_append, List.mem_singleton]
    constructor
    · rintro (he | rfl)
      · exact he
      · exact absurd rfl h
    · exact .inl

theorem mem_upsertEdges_ne {rows : List EdgeRow} {edges : List Edge} {e : Edge}
    (h : ∀ row ∈ rows, e.key ≠ r.key row.ends) :
    e ∈ upsertEdges r clock rows edges ↔ e ∈ edges := by
  induction rows generalizing edges with
  | nil => exact Iff.rfl
  | cons row rows ih =>
    obtain ⟨hfirst, hrest⟩ := List.forall_mem_cons.mp h
    show e ∈ upsertEdges r clock rows _ ↔ _
    rw [ih hrest, mem_upsertEdge_ne hfirst]

theorem upsertEdges_keys {rows : List EdgeRow} {edges : List Edge}
    (h : (edges.map Edge.key).Nodup) : ((upsertEdges r clock rows edges).map Edge.key).Nodup := by
  induction rows generalizing edges with
  | nil => exact h
  | cons row rows ih => exact ih (upsertEdge_keys row h)

variable (clock) in
/-- What an upsert of several rows makes of an edge that one of them is about. -/
theorem update_mem_upsertEdges {rows : List EdgeRow} {edges : List Edge} {row : EdgeRow} {e : Edge}
    (hrows : (rows.map EdgeRow.ends).Nodup) (hrow : row ∈ rows) (he : e ∈ edges)
    (hkey : e.key = r.key row.ends) :
    row.update r.replaceColumns clock e ∈ upsertEdges r clock rows edges := by
  induction rows generalizing edges with
  | nil => cases hrow
  | cons first rows ih =>
    obtain ⟨hfresh, hnodup⟩ := List.nodup_cons.mp hrows
    show _ ∈ upsertEdges r clock rows _
    by_cases hends : row.ends = first.ends
    · have hsame : row = first := by
        rcases List.mem_cons.mp hrow with h | h
        · exact h
        · exact absurd (hends ▸ List.mem_map_of_mem h) hfresh
      subst hsame
      have hother : ∀ other ∈ rows,
          (row.update r.replaceColumns clock e).key ≠ r.key other.ends := by
        intro other hmem heq
        rw [EdgeRow.update_key, hkey] at heq
        exact hfresh (key_inj heq ▸ List.mem_map_of_mem hmem)
      rw [mem_upsertEdges_ne hother]
      unfold upsertEdge Registry.upsert
      rw [if_pos (List.any_eq_true.mpr ⟨e, he, decide_eq_true hkey⟩)]
      exact List.mem_map.mpr ⟨e, he, if_pos hkey⟩
    · have hlater : row ∈ rows := (List.mem_cons.mp hrow).resolve_left fun h => hends (h ▸ rfl)
      apply ih hnodup hlater
      rwa [mem_upsertEdge_ne]
      rw [hkey]
      exact fun h => hends (key_inj h)

end Upserts

/-! ## What a session has read -/

theorem owns_iff {r : Refresh} {e : Edge} {ends : Ends} (h : e.ends = ends) :
    r.owns e = true ↔ e.key = r.key ends := by
  simp [Refresh.owns, Edge.key, Refresh.key, h]

theorem stored_eq_some {r : Refresh} {e : Edge} {ends : Ends} {cols : List ColumnPair} :
    r.stored e = some (ends, cols) ↔ e.key = r.key ends ∧ e.columns = some cols := by
  unfold Refresh.stored
  split
  · next howns =>
    simp only [Option.map_eq_some_iff, Prod.mk.injEq]
    constructor
    · rintro ⟨cols, hcols, hends, rfl⟩
      exact ⟨(owns_iff hends).mp howns, hcols⟩
    · rintro ⟨hkey, hcols⟩
      exact ⟨cols, hcols, congrArg Prod.fst hkey, rfl⟩
  · next hother =>
    constructor
    · intro h
      cases h
    · rintro ⟨hkey, -⟩
      exact absurd ((owns_iff (congrArg Prod.fst hkey)).mpr hkey) hother

theorem lookup_existingColumns_none {r : Refresh} {edges : List Edge} {ends : Ends}
    (h : ∀ e ∈ edges, e.key ≠ r.key ends) : (existingColumns r edges).lookup ends = none := by
  rw [List.lookup_eq_none_iff]
  rintro ⟨other, cols⟩ hentry
  obtain ⟨e, he, hstored⟩ := List.mem_filterMap.mp hentry
  rw [bne_iff_ne]
  rintro rfl
  exact h e he (stored_eq_some.mp hstored).1

theorem lookup_existingColumns {r : Refresh} {edges : List Edge} {ends : Ends} {e : Edge}
    (hkeys : (edges.map Edge.key).Nodup) (he : e ∈ edges) (hkey : e.key = r.key ends) :
    (existingColumns r edges).lookup ends = e.columns := by
  induction edges with
  | nil => cases he
  | cons first edges ih =>
    obtain ⟨hfresh, hnodup⟩ := List.nodup_cons.mp hkeys
    show (List.filterMap _ (first :: edges)).lookup ends = _
    by_cases hfirst : first.key = r.key ends
    · have hsame : e = first := by
        rcases List.mem_cons.mp he with h | h
        · exact h
        · have hmem : first.key ∈ edges.map Edge.key := by
            rw [hfirst, ← hkey]
            exact List.mem_map_of_mem h
          exact absurd hmem hfresh
      subst hsame
      cases hcols : e.columns with
      | none =>
        have hskip : r.stored e = none := by
          unfold Refresh.stored
          rw [hcols]
          split <;> rfl
        rw [List.filterMap_cons_none hskip]
        apply lookup_existingColumns_none
        intro other hother heq
        exact hfresh (hfirst.trans heq.symm ▸ List.mem_map_of_mem hother)
      | some cols =>
        rw [List.filterMap_cons_some (stored_eq_some.mpr ⟨hfirst, hcols⟩), List.lookup_cons_self]
    · have hlater : e ∈ edges := (List.mem_cons.mp he).resolve_left fun h => hfirst (h ▸ hkey)
      cases hentry : r.stored first with
      | none =>
        rw [List.filterMap_cons_none hentry]
        exact ih hnodup hlater
      | some entry =>
        rw [List.filterMap_cons_some hentry]
        have hother : ends ≠ entry.1 := fun h => hfirst (h ▸ (stored_eq_some.mp hentry).1)
        rw [List.lookup_cons, beq_false_of_ne hother]
        exact ih hnodup hlater

/-- A session holds the locks of the assets it names, and has read what their edges have. -/
structure Held (s : Store) (i : ℕ) (r : Refresh) (existing : List (Ends × List ColumnPair)) :
    Prop where
  locked : ∀ key ∈ r.identities, s.locks key = some i
  current : r.replaceColumns = false → ∀ edge ∈ r.result.edges, ∀ e ∈ s.edges,
    e.key = r.key edge.ends → existing.lookup edge.ends = e.columns

structure Sound (c : World) : Prop where
  keys : (c.store.edges.map Edge.key).Nodup
  held : ∀ {i r stamp now clock existing},
    c.session i = .loaded r stamp now clock existing → Held c.store i r existing

theorem Quiet.sound {c : World} (h : Quiet c) : Sound c := by
  refine ⟨h.keys, fun {i _ _ _ _ _} hloaded => ?_⟩
  rw [h.idle i] at hloaded
  cases hloaded

theorem upstream_mem_identities {r : Refresh} {edge : LineageEdgePair} (h : edge ∈ r.result.edges) :
    edge.upstream ∈ r.identities :=
  List.mem_flatMap.mpr ⟨edge, h, List.mem_cons_self⟩

/-- The row of an edge is made of the first report of it. -/
theorem mem_edgeRows {result : WarehouseLineageResult} {existing : List (Ends × List ColumnPair)}
    {row : EdgeRow} : row ∈ edgeRows result existing ↔
      ∃ edge, result.edges.find? (fun edge => edge.ends = row.ends) = some edge ∧
        row = ⟨edge.ends, mergedColumns (existing.lookup edge.ends) edge.columnPairs,
          result.columnGrain⟩ := by
  rw [edgeRows, mem_edgeRowsFrom]
  simp

theorem upstream_of_row {r : Refresh} {existing : List (Ends × List ColumnPair)} {row : EdgeRow}
    (h : row ∈ edgeRows r.result existing) : row.ends.1 ∈ r.identities := by
  obtain ⟨edge, hfound, -⟩ := mem_edgeRows.mp h
  have hends : edge.ends = row.ends := by simpa using List.find?_some hfound
  rw [← hends]
  exact upstream_mem_identities (List.mem_of_find?_eq_some hfound)

/-- The edges after the writes of a refresh were there before, or are those of its rows. -/
theorem mem_persist {thresholdHours : ℤ} {i : ℕ} {s : Store} {r : Refresh} {stamp : Option ℕ}
    {now : ℕ} {clock : Clock} {existing : List (Ends × List ColumnPair)} {e : Edge}
    (h : e ∈ (persist thresholdHours i s r stamp now clock existing).edges) :
    e ∈ upsertEdges r clock (edgeRows r.result existing) s.edges := by
  simp only [persist] at h
  split at h
  · exact (List.mem_filter.mp h).1
  · exact h

theorem persist_keys {thresholdHours : ℤ} {i : ℕ} {s : Store} {r : Refresh} {stamp : Option ℕ}
    {now : ℕ} {clock : Clock} {existing : List (Ends × List ColumnPair)}
    (h : (s.edges.map Edge.key).Nodup) :
    ((persist thresholdHours i s r stamp now clock existing).edges.map Edge.key).Nodup := by
  simp only [persist]
  split
  · exact (upsertEdges_keys h).sublist (List.filter_sublist.map _)
  · exact upsertEdges_keys h

/-- The writes of one session leave what another one holds. -/
theorem Held.persist {thresholdHours : ℤ} {i j : ℕ} {s : Store} {r r' : Refresh}
    {stamp : Option ℕ} {now : ℕ} {clock : Clock}
    {existing existing' : List (Ends × List ColumnPair)} (hij : j ≠ i) (hi : Held s i r existing)
    (hj : Held s j r' existing') :
    Held (persist thresholdHours i s r stamp now clock existing) j r' existing' := by
  refine ⟨fun key hkey => Locks.release_keeps hij (hj.locked key hkey), ?_⟩
  intro hmerge edge hedge e he hkey
  refine hj.current hmerge edge hedge e ?_ hkey
  have hother : ∀ row ∈ edgeRows r.result existing, e.key ≠ r.key row.ends := by
    intro row hrow heq
    have hends : edge.ends = row.ends := congrArg Prod.fst (hkey.symm.trans heq)
    have hmine := hi.locked _ (upstream_of_row hrow)
    have htheirs := hj.locked _ (upstream_mem_identities hedge)
    rw [← hends] at hmine
    exact hij (Option.some.inj (htheirs.symm.trans hmine))
  exact (mem_upsertEdges_ne hother).mp (mem_persist he)

end DataQ.Lineage.Warehouse
