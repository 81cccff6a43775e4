import DataQ.Lineage.Outages

/-! # What a refresh erases

The edges that a refresh leaves in the cache, once a lookup of it has raised. -/

namespace DataQ.Lineage.Pulls
set_option autoImplicit false

variable {cases : Cases} {catalog : Catalog}

/-! ## The cache -/

/-- An edge with the columns that its unique index covers. -/
def Cached (edges : List LineageEdge) (key : EdgeKey) : Prop := ∃ e ∈ edges, edgeKey e = key

theorem cached_upsertEdge {clock : Clock} {edges : List LineageEdge} {pair : ℕ × ℕ} {key : EdgeKey}
    (h : Cached edges key) : Cached (upsertEdge clock edges pair) key := by
  obtain ⟨e, he, rfl⟩ := h
  unfold upsertEdge Registry.upsert
  split
  · refine ⟨_, List.mem_map_of_mem he, ?_⟩
    split <;> rfl
  · exact ⟨e, List.mem_append_left _ he, rfl⟩

theorem cached_upsertEdges {clock : Clock} {rows : List (ℕ × ℕ)} {edges : List LineageEdge}
    {key : EdgeKey} (h : Cached edges key) : Cached (upsertEdges clock rows edges) key := by
  induction rows generalizing edges with
  | nil => exact h
  | cons row rows ih => exact ih (cached_upsertEdge h)

/-- The edge of a row is as the refresh has seen it. -/
theorem seen_upsertEdges {clock : Clock} {rows : List (ℕ × ℕ)} {edges : List LineageEdge}
    {pair : ℕ × ℕ}
    (h : pair ∈ rows ∨
      ∃ e ∈ edges, edgeKey e = (pair, marquezSource, none) ∧ e.lastSeen = clock.seenAt pair) :
    ∃ e ∈ upsertEdges clock rows edges, edgeKey e = (pair, marquezSource, none) ∧
      e.lastSeen = clock.seenAt pair := by
  induction rows generalizing edges with
  | nil =>
    rcases h with h | h
    · cases h
    · exact h
  | cons row rows ih =>
    apply ih
    by_cases hrow : pair = row
    · subst hrow
      refine .inr ?_
      unfold upsertEdge Registry.upsert
      split
      · next hany =>
        obtain ⟨e, he, hkey⟩ := List.any_eq_true.mp hany
        have hkey : edgeKey e = (pair, marquezSource, none) := by simpa using hkey
        refine ⟨_, List.mem_map_of_mem he, ?_, ?_⟩
        · rw [if_pos hkey]
          exact hkey
        · rw [if_pos hkey]
      · exact ⟨_, List.mem_append_right _ List.mem_cons_self, rfl, rfl⟩
    · rcases h with h | ⟨e, he, hkey, hseen⟩
      · exact .inl ((List.mem_cons.mp h).resolve_left hrow)
      · refine .inr ⟨e, ?_, hkey, hseen⟩
        have hother : edgeKey e ≠ (row, marquezSource, none) := by
          rw [hkey]
          simpa using hrow
        unfold upsertEdge Registry.upsert
        split
        · exact List.mem_map.mpr ⟨e, he, if_neg hother⟩
        · exact List.mem_append_left _ he

/-- What an edge of no row was before. -/
theorem mem_upsertEdges {clock : Clock} {rows : List (ℕ × ℕ)} {edges : List LineageEdge}
    {e : LineageEdge} (h : e ∈ upsertEdges clock rows edges)
    (hpair : edgeKey e = (e.pair, marquezSource, none) → e.pair ∉ rows) : e ∈ edges := by
  induction rows generalizing edges with
  | nil => exact h
  | cons row rows ih =>
    have hbefore := ih h fun hkey hmem => hpair hkey (List.mem_cons_of_mem _ hmem)
    have hother : edgeKey e ≠ (row, marquezSource, none) := by
      intro hkey
      have hrow : e.pair = row := congrArg Prod.fst hkey
      exact hpair (hrow ▸ hkey) (hrow ▸ List.mem_cons_self)
    unfold upsertEdge Registry.upsert at hbefore
    split at hbefore
    · obtain ⟨old, hold, rfl⟩ := List.mem_map.mp hbefore
      split at hother
      · next hkey => exact absurd hkey hother
      · next hkey =>
        rw [if_neg hkey]
        exact hold
    · rcases List.mem_append.mp hbefore with hold | hnew
      · exact hold
      · rw [List.mem_singleton.mp hnew] at hother
        exact absurd rfl hother

theorem pulled_iff {e : LineageEdge} : pulled e ↔ edgeKey e = (e.pair, marquezSource, none) := by
  simp [pulled, edgeKey]

/-- An edge of no row stays as it is. -/
theorem kept_upsertEdges {clock : Clock} {rows : List (ℕ × ℕ)} {edges : List LineageEdge}
    {e : LineageEdge} (h : e ∈ edges)
    (hpair : edgeKey e = (e.pair, marquezSource, none) → e.pair ∉ rows) :
    e ∈ upsertEdges clock rows edges := by
  induction rows generalizing edges with
  | nil => exact h
  | cons row rows ih =>
    have hother : edgeKey e ≠ (row, marquezSource, none) := by
      intro hkey
      have hrow : e.pair = row := congrArg Prod.fst hkey
      exact hpair (hrow ▸ hkey) (hrow ▸ List.mem_cons_self)
    apply ih
    · unfold upsertEdge Registry.upsert
      split
      · exact List.mem_map.mpr ⟨e, h, if_neg hother⟩
      · exact List.mem_append_left _ h
    · exact fun hkey hmem => hpair hkey (List.mem_cons_of_mem _ hmem)

/-- A pruned cache has lost the pulled edges that the refresh has not seen. -/
theorem cached_pruneStale {clock : Clock} {rows : List (ℕ × ℕ)} {edges : List LineageEdge}
    (hkeys : (edges.map edgeKey).Nodup) {e : LineageEdge} (he : e ∈ edges) :
    Cached (pruneStale clock.startedAt (upsertEdges clock rows edges)) (edgeKey e) ↔
      (pulled e → e.lastSeen < clock.startedAt → e.pair ∈ rows) := by
  constructor
  · rintro ⟨e', he', hkey⟩ hpulled hstale
    by_contra hrow
    obtain ⟨hmem, hkept⟩ := List.mem_filter.mp he'
    have hpair : e'.pair = e.pair := congrArg Prod.fst hkey
    have hold : e' ∈ edges := mem_upsertEdges hmem fun _ hin => hrow (hpair ▸ hin)
    obtain rfl : e' = e := List.inj_on_of_nodup_map hkeys hold he hkey
    exact of_decide_eq_true hkept ⟨hpulled, hstale⟩
  · intro h
    by_cases hrow : pulled e ∧ e.pair ∈ rows
    · have hrefreshed : ∃ e' ∈ upsertEdges clock rows edges,
          edgeKey e' = (e.pair, marquezSource, none) ∧ e'.lastSeen = clock.seenAt e.pair :=
        seen_upsertEdges (.inl hrow.2)
      obtain ⟨e', he', hkey, hseen⟩ := hrefreshed
      refine ⟨e', List.mem_filter.mpr ⟨he', decide_eq_true fun hboth => ?_⟩, ?_⟩
      · have hlater := clock.later e.pair
        have hless := hboth.2
        omega
      · rw [hkey, pulled_iff.mp hrow.1]
    · have hkept : e ∈ upsertEdges clock rows edges :=
        kept_upsertEdges he fun hkey hin => hrow ⟨pulled_iff.mpr hkey, hin⟩
      refine ⟨e, List.mem_filter.mpr ⟨hkept, decide_eq_true fun hboth => ?_⟩, rfl⟩
      exact hrow ⟨hboth.1, h hboth.1 hboth.2⟩

/-- A stale pulled edge that the answered lookups do not report. -/
def Unreported (cases : Cases) (catalog : Catalog) (now : ℕ) (clock : Clock) (store : Store)
    (e : LineageEdge) : Prop :=
  pulled e ∧ e.lastSeen < clock.startedAt ∧
    e.pair ∉ edgeRows (withReported cases catalog now store.assets)
      (reportedPairs cases catalog store.assets)

/-- An edge survives a refresh of an outage if something was counted as unavailable, or it is not
a stale one that went unreported. -/
theorem cached_refresh_iff {now : ℕ} {clock : Clock} {store : Store}
    (hraised : ListingFailed catalog (store.assets.map Asset.key) ∨
      LookupFailed cases catalog (store.assets.map Asset.key))
    (hkeys : (store.edges.map edgeKey).Nodup) {e : LineageEdge} (he : e ∈ store.edges) :
    Cached (refreshPulledEdges cases catalog now clock store).edges (edgeKey e) ↔
      (ListingFailed catalog (store.assets.map Asset.key) ∨
        AssetLost cases catalog (store.assets.map Asset.key)) ∨
        ¬ Unreported cases catalog now clock store e := by
  have hcounted : (collectDatasetEdges cases catalog (store.assets.map Asset.key)).2.unavailable ≠ 0
      ↔ ListingFailed catalog (store.assets.map Asset.key) ∨
        AssetLost cases catalog (store.assets.map Asset.key) := unavailable_iff
  have hpruned : ∀ rows, rows = edgeRows (withReported cases catalog now store.assets)
        (reportedPairs cases catalog store.assets) →
      (Cached (pruneStale clock.startedAt (upsertEdges clock rows store.edges)) (edgeKey e) ↔
        ¬ Unreported cases catalog now clock store e) := by
    rintro rows rfl
    rw [cached_pruneStale hkeys he, Unreported]
    tauto
  rw [← hcounted]
  simp only [refreshPulledEdges]
  by_cases hnone : (collectDatasetEdges cases catalog
      (store.assets.map Asset.key)).2.unavailable = 0
  · -- nothing was counted: the refresh prunes, on whichever path it ends
    have hprune : ¬ (collectDatasetEdges cases catalog
        (store.assets.map Asset.key)).2.unavailable ≠ 0 := fun hne => hne hnone
    rw [or_iff_right hprune]
    split
    · next hempty =>
      rw [if_pos ⟨hnone, resolved_of_raised hraised hnone⟩]
      have hrows : [] = edgeRows (withReported cases catalog now store.assets)
          (reportedPairs cases catalog store.assets) := by
        rw [reportedPairs, hempty]
        rfl
      exact hpruned [] hrows
    · exact hpruned _ rfl
  · have hkept : Cached store.edges (edgeKey e) := ⟨e, he, rfl⟩
    refine iff_of_true ?_ (.inl hnone)
    split
    · rw [if_neg fun hboth => hnone hboth.1]
      exact hkept
    · exact cached_upsertEdges hkept

/-- A refresh during which the catalog raised an error deletes no cached edge, exactly if a listing
failed, an asset was lost, or the answered lookups report every stale edge. -/
theorem outage_erases_nothing_iff {now : ℕ} {clock : Clock} {store : Store}
    (hraised : ListingFailed catalog (store.assets.map Asset.key) ∨
      LookupFailed cases catalog (store.assets.map Asset.key))
    (hkeys : (store.edges.map edgeKey).Nodup) :
    (∀ e ∈ store.edges, Cached (refreshPulledEdges cases catalog now clock store).edges
      (edgeKey e)) ↔
      ListingFailed catalog (store.assets.map Asset.key) ∨
        AssetLost cases catalog (store.assets.map Asset.key) ∨
        ∀ e ∈ store.edges, ¬ Unreported cases catalog now clock store e := by
  constructor
  · intro hall
    by_cases hlisting : ListingFailed catalog (store.assets.map Asset.key)
    · exact .inl hlisting
    · by_cases hasset : AssetLost cases catalog (store.assets.map Asset.key)
      · exact .inr (.inl hasset)
      · refine .inr (.inr fun e he => ?_)
        have hcached := (cached_refresh_iff hraised hkeys he).mp (hall e he)
        tauto
  · intro h e he
    rw [cached_refresh_iff hraised hkeys he]
    rcases h with hlisting | hasset | hall
    · exact .inl (.inl hlisting)
    · exact .inl (.inr hasset)
    · exact .inr (hall e he)

/-- A catalog with the orders under two spellings: the lookup of one of them raises, and the other
knows no edge. -/
def twoSpellings (known : List String) : Catalog where
  listDatasets := fun _ => some (known.map String.toList)
  getLineage := fun _ name => if name = "ORDERS".toList then none else some ⟨[], []⟩

def acmeAsset (id : ℕ) (name : String) : Asset :=
  ⟨id, "snowflake://acme".toList, name.toList, none, none, 1⟩

/-- Customers flow into orders. -/
def cachedShop : Store :=
  ⟨[acmeAsset 1 "CUSTOMERS", acmeAsset 2 "ORDERS"], [⟨1, 2, marquezSource, none, 3⟩]⟩

def tenOClock : Clock := ⟨10, fun _ => 10, fun _ => le_refl 10⟩

theorem orders_lookup_raises (known : List String) (h : "ORDERS" ∈ known) :
    LookupFailed asciiCases (twoSpellings known) (cachedShop.assets.map Asset.key) := by
  refine ⟨("snowflake://acme".toList, "ORDERS".toList), by decide, known.map String.toList, rfl,
    "ORDERS".toList, ?_, rfl⟩
  exact mem_candidates.mpr ⟨List.mem_map_of_mem h, rfl⟩

/-- With one spelling the outage is seen. -/
theorem outage_of_one_spelling_erases_nothing :
    Cached (refreshPulledEdges asciiCases (twoSpellings ["ORDERS"]) 10 tenOClock cachedShop).edges
      (edgeKey ⟨1, 2, marquezSource, none, 3⟩) := by
  have hkept := @outage_erases_nothing_iff asciiCases (twoSpellings ["ORDERS"]) 10 tenOClock
    cachedShop (.inr (orders_lookup_raises ["ORDERS"] (by decide))) (by decide)
  refine hkept.mpr ?_ _ List.mem_cons_self
  refine .inr (.inl ⟨("snowflake://acme".toList, "ORDERS".toList), by decide, _, rfl, ?_⟩)
  unfold Lost
  decide

/-- With two the edge into the orders is deleted, though nothing was learned of it. -/
theorem outage_of_two_spellings_erases :
    LookupFailed asciiCases (twoSpellings ["ORDERS", "orders"])
        (cachedShop.assets.map Asset.key) ∧
      ∃ e ∈ cachedShop.edges, ¬ Cached (refreshPulledEdges asciiCases
        (twoSpellings ["ORDERS", "orders"]) 10 tenOClock cachedShop).edges (edgeKey e) := by
  refine ⟨orders_lookup_raises _ (by decide), _, List.mem_cons_self, ?_⟩
  have hempty : (refreshPulledEdges asciiCases (twoSpellings ["ORDERS", "orders"]) 10 tenOClock
      cachedShop).edges = [] := by decide
  rintro ⟨e, he, -⟩
  rw [hempty] at he
  cases he

end DataQ.Lineage.Pulls
