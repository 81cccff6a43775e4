import DataQ.Lineage.Accretion

/-! # Column pairs that the cap evicts

What every step of a run of refreshes leaves of the edges and of their column pairs. -/

namespace DataQ.Lineage.Warehouse
open DataQ.Interleaving DataQ.Locking DataQ.Transition
set_option autoImplicit false

variable {thresholdHours : ℤ}

/-! ## What a step should keep -/

def Edge.pairs (e : Edge) : List ColumnPair := e.columns.getD []

def Cached (edges : List Edge) (key : EdgeKey) : Prop := ∃ e ∈ edges, e.key = key

/-- The pair is recorded on the edge. -/
def Recorded (edges : List Edge) (key : EdgeKey) (pair : ColumnPair) : Prop :=
  ∃ e ∈ edges, e.key = key ∧ pair ∈ e.pairs

/-- A refresh that replaces the column pairs, outside the merge regime. -/
def Session.replaces : Session → Prop
  | .loaded r _ _ _ _ => r.replaceColumns = true
  | _ => False

/-- An authoritative refresh, or one with a result after the suspension threshold. -/
def Session.mayPrune (thresholdHours : ℤ) : Session → Prop
  | .loaded r lastPrunedAt now _ _ => r.authoritativeSnapshot = true ∨
      (r.result.edges ≠ [] ∧ suspensionExhausted thresholdHours lastPrunedAt now = true)
  | _ => False

/-- An edge goes only with a refresh that may prune it, and while it stays a refresh under the merge
regime loses none of its pairs. -/
def Keeps (thresholdHours : ℤ) (c : World) (e : ℕ × Act) : Prop :=
  ∀ d, step thresholdHours c e = some d → ∀ key, Cached c.store.edges key →
    (¬ Cached d.store.edges key → e.2 = .write ∧ (c.session e.1).mayPrune thresholdHours) ∧
    (Cached d.store.edges key → ¬ (e.2 = .write ∧ (c.session e.1).replaces) →
      ∀ pair, Recorded c.store.edges key pair → Recorded d.store.edges key pair)

/-- Each pair stored on an edge that a merging refresh reports has its place under the cap, once the
reported pairs are beside the stored ones. -/
def RoomFor (c : World) (e : ℕ × Act) : Prop :=
  e.2 = .write → match c.session e.1 with
    | .loaded r _ _ _ _ => r.replaceColumns = false →
        ∀ stored ∈ c.store.edges, r.owns stored = true → ∀ edge,
          r.result.edges.find? (fun edge => edge.ends = stored.ends) = some edge →
          ∀ pair ∈ stored.pairs,
            (Capped.below (stored.pairs ++ edge.columnPairs) pair).length < maxColumnPairsPerEdge
    | _ => True

/-! ## One step -/

/-- What a session can do. -/
theorem act_cases {i : ℕ} {a : Act} {s s' : Store} {session session' : Session}
    (h : act thresholdHours i a s session = some (s', session')) :
    (∃ r, a = .fetch r ∧ s' = s ∧ session' = .fetched r (s.lastPruned r.connectionId)) ∨
    (∃ r stamp now clock, session = .fetched r stamp ∧ a = .load now clock ∧
      (∀ key ∈ r.identities, s.locks.Free i key) ∧
      s' = { s with locks := s.locks.takeAll i r.identities } ∧
      session' = .loaded r stamp now clock
        (if r.replaceColumns then [] else existingColumns r s.edges)) ∨
    (∃ r stamp now clock existing, session = .loaded r stamp now clock existing ∧ a = .write ∧
      s' = persist thresholdHours i s r stamp now clock existing ∧ session' = .idle) ∨
    (a = .fail ∧ s' = { s with locks := s.locks.release i } ∧ session' = .idle) := by
  cases a with
  | fetch r =>
    cases session with
    | idle =>
      obtain ⟨rfl, rfl⟩ := Prod.mk.inj (Option.some.inj h)
      exact .inl ⟨r, rfl, rfl, rfl⟩
    | fetched => cases h
    | loaded => cases h
  | load now clock =>
    cases session with
    | idle => cases h
    | fetched r stamp =>
      simp only [act] at h
      split at h
      · next hfree =>
        obtain ⟨rfl, rfl⟩ := Prod.mk.inj (Option.some.inj h)
        exact .inr (.inl ⟨r, stamp, now, clock, rfl, rfl, hfree, rfl, rfl⟩)
      · cases h
    | loaded => cases h
  | write =>
    cases session with
    | idle => cases h
    | fetched => cases h
    | loaded r stamp now clock existing =>
      obtain ⟨rfl, rfl⟩ := Prod.mk.inj (Option.some.inj h)
      exact .inr (.inr (.inl ⟨r, stamp, now, clock, existing, rfl, rfl, rfl, rfl⟩))
  | fail =>
    obtain ⟨rfl, rfl⟩ := Prod.mk.inj (Option.some.inj h)
    exact .inr (.inr (.inr ⟨rfl, rfl, rfl⟩))

theorem Sound.step {c d : World} {e : ℕ × Act} (h : Sound c)
    (hstep : step thresholdHours c e = some d) : Sound d := by
  obtain ⟨⟨s, session⟩, hact, rfl⟩ := Option.map_eq_some_iff.mp hstep
  obtain ⟨i, a⟩ := e
  have hput : (s.edges.map Edge.key).Nodup →
      (∀ {r stamp now clock existing}, session = .loaded r stamp now clock existing →
        Held s i r existing) →
      (∀ {j r existing}, j ≠ i → Held c.store j r existing → Held s j r existing) →
      Sound (c.put i (s, session)) := by
    intro hkeys hmine htheirs
    refine ⟨hkeys, fun {j r stamp now clock existing} hloaded => ?_⟩
    by_cases hji : j = i
    · subst hji
      rw [Config.put_session_self] at hloaded
      exact hmine hloaded
    · rw [Config.put_session_ne _ _ hji] at hloaded
      exact htheirs hji (h.held hloaded)
  obtain ⟨r, -, rfl, rfl⟩ | ⟨r, stamp, now, clock, -, -, hfree, rfl, rfl⟩ |
    ⟨r, stamp, now, clock, existing, hsession, -, rfl, rfl⟩ | ⟨-, rfl, rfl⟩ := act_cases hact
  · exact hput h.keys nofun fun _ hheld => hheld
  · apply hput h.keys
    · intro r' stamp' now' clock' existing' hloaded
      obtain ⟨rfl, -, -, -, rfl⟩ := Session.loaded.inj hloaded
      refine ⟨fun key hkey => Locks.takeAll_mem _ _ hkey, fun hmerge edge _ e he hkey => ?_⟩
      rw [hmerge]
      exact lookup_existingColumns h.keys he hkey
    · intro j r' existing' hji hheld
      exact ⟨fun key hkey => Locks.takeAll_keeps hfree (hheld.locked key hkey), hheld.current⟩
  · exact hput (persist_keys h.keys) nofun fun hji hheld => (h.held hsession).persist hji hheld
  · refine hput h.keys nofun fun hji hheld => ⟨fun key hkey => ?_, hheld.current⟩
    exact Locks.release_keeps hji (hheld.locked key hkey)

/-- A stored pair outlives a merge if it has its place under the cap. -/
theorem mem_merged {prior : Option (List ColumnPair)} {new : List ColumnPair} {pair : ColumnPair}
    (h : pair ∈ prior.getD []) : pair ∈ ((mergedColumns prior new).or prior).getD [] ↔
      (Capped.below (prior.getD [] ++ new) pair).length < maxColumnPairsPerEdge := by
  have hsome : ¬ (new = [] ∧ prior.getD [] = []) := fun hnone => List.ne_nil_of_mem h hnone.2
  rw [mergedColumns, if_neg hsome]
  show pair ∈ Capped.capped _ _ ↔ _
  rw [Capped.mem_capped]
  exact and_iff_right (List.mem_append_left _ h)

section Write

variable {i : ℕ} {s : Store} {r : Refresh} {stamp : Option ℕ} {now : ℕ} {clock : Clock}
  {existing : List (Ends × List ColumnPair)} {e : Edge}

variable (thresholdHours i stamp now clock) in
/-- An edge that the refresh does not report stays as it is, or is pruned. -/
theorem unreported_persist (he : e ∈ s.edges)
    (hother : ∀ row ∈ edgeRows r.result existing, e.key ≠ r.key row.ends) :
    e ∈ (persist thresholdHours i s r stamp now clock existing).edges ∨
      (r.authoritativeSnapshot || r.pruneForced thresholdHours stamp now) = true := by
  have hupserted : e ∈ upsertEdges r clock (edgeRows r.result existing) s.edges :=
    (mem_upsertEdges_ne hother).mpr he
  simp only [persist]
  split
  · next hprune => exact .inr hprune
  · exact .inl hupserted

variable (thresholdHours i stamp now clock) in
/-- An edge that it reports is there afterwards, with the merged pairs. -/
theorem reported_persist (he : e ∈ s.edges) {row : EdgeRow}
    (hrow : row ∈ edgeRows r.result existing) (hkey : e.key = r.key row.ends) :
    row.update r.replaceColumns clock e ∈
      (persist thresholdHours i s r stamp now clock existing).edges := by
  have hupserted := update_mem_upsertEdges clock
    (edgeRowsFrom_nodup [] r.result.edges) hrow he hkey
  simp only [persist]
  split
  · refine List.mem_filter.mpr ⟨hupserted, decide_eq_true fun hboth => ?_⟩
    have hlater := clock.later row.ends
    have hearlier : clock.seenAt row.ends < clock.startedAt := hboth.2
    omega
  · exact hupserted

theorem mayPrune_of_prune
    (h : (r.authoritativeSnapshot || r.pruneForced thresholdHours stamp now) = true) :
    (Session.loaded r stamp now clock existing).mayPrune thresholdHours := by
  rcases Bool.or_eq_true_iff.mp h with hauthoritative | hforced
  · exact .inl hauthoritative
  · simp only [Refresh.pruneForced, Bool.and_eq_true, Bool.not_eq_true', List.isEmpty_eq_false_iff]
      at hforced
    exact .inr ⟨hforced.1.2, hforced.2⟩

variable (clock) in
/-- The merged pairs of an edge that a merging refresh reports first by `edge`. -/
theorem merged_of_report (hheld : Held s i r existing) (hmerge : r.replaceColumns = false)
    (he : e ∈ s.edges) {edge : LineageEdgePair}
    (hfound : r.result.edges.find? (fun edge => edge.ends = e.ends) = some edge)
    (hkey : e.key = r.key e.ends) :
    ∃ row ∈ edgeRows r.result existing, row.ends = e.ends ∧
      (row.update r.replaceColumns clock e).pairs =
        ((mergedColumns e.columns edge.columnPairs).or e.columns).getD [] := by
  have hends : edge.ends = e.ends := by simpa using List.find?_some hfound
  have hread : existing.lookup edge.ends = e.columns :=
    hheld.current hmerge edge (List.mem_of_find?_eq_some hfound) e he (hends ▸ hkey)
  refine ⟨⟨edge.ends, mergedColumns (existing.lookup edge.ends) edge.columnPairs,
    r.result.columnGrain⟩, mem_edgeRows.mpr ⟨edge, hends ▸ hfound, rfl⟩, hends, ?_⟩
  rw [hread, hmerge]
  rfl

end Write

theorem recorded_iff {edges : List Edge} (hkeys : (edges.map Edge.key).Nodup) {e : Edge}
    (he : e ∈ edges) {pair : ColumnPair} : Recorded edges e.key pair ↔ pair ∈ e.pairs := by
  constructor
  · rintro ⟨e', he', hkey, hpair⟩
    obtain rfl : e' = e := List.inj_on_of_nodup_map hkeys he' he hkey
    exact hpair
  · exact fun hpair => ⟨e, he, rfl, hpair⟩

/-- Every step but a write leaves the edges alone. -/
theorem keeps_of_edges {c : World} {e : ℕ × Act}
    (h : ∀ d, step thresholdHours c e = some d → d.store.edges = c.store.edges) :
    Keeps thresholdHours c e := by
  intro d hstep key hcached
  rw [h d hstep]
  exact ⟨fun hgone => absurd hcached hgone, fun _ _ _ hrecorded => hrecorded⟩

section Loaded

variable {c : World} {i : ℕ} {r : Refresh} {stamp : Option ℕ} {now : ℕ} {clock : Clock}
  {existing : List (Ends × List ColumnPair)}

theorem step_write (hsession : c.session i = .loaded r stamp now clock existing) :
    step thresholdHours c (i, .write) =
      some (c.put i (persist thresholdHours i c.store r stamp now clock existing, .idle)) := by
  simp only [step, hsession, act, Option.map_some]

theorem room_of_keeps (h : Sound c) (hsession : c.session i = .loaded r stamp now clock existing)
    (hkeeps : Keeps thresholdHours c (i, .write)) : RoomFor c (i, .write) := by
  intro _
  simp only [hsession]
  intro hmerge stored hstored howns edge hfound pair hpair
  have hkey : stored.key = r.key stored.ends := (owns_iff rfl).mp howns
  obtain ⟨row, hrow, hends, hmerged⟩ :=
    merged_of_report clock (h.held hsession) hmerge hstored hfound hkey
  have hafter :=
    reported_persist thresholdHours i stamp now clock hstored hrow (hends ▸ hkey)
  have hnotreplaced : ¬ ((i, Act.write).2 = .write ∧ (c.session (i, Act.write).1).replaces) := by
    rintro ⟨-, hreplaces⟩
    rw [hsession] at hreplaces
    exact Bool.false_ne_true (hmerge.symm.trans hreplaces)
  have hrecorded := (hkeeps _ (step_write hsession) stored.key ⟨stored, hstored, rfl⟩).2
    ⟨_, hafter, EdgeRow.update_key _ _ _⟩ hnotreplaced pair ⟨stored, hstored, rfl, hpair⟩
  have hsame : (row.update r.replaceColumns clock stored).key = stored.key :=
    EdgeRow.update_key _ _ _
  rw [← hsame, Config.put_store, recorded_iff (persist_keys h.keys) hafter, hmerged] at hrecorded
  exact (mem_merged hpair).mp hrecorded

theorem keeps_of_room (h : Sound c) (hsession : c.session i = .loaded r stamp now clock existing)
    (hroom : RoomFor c (i, .write)) : Keeps thresholdHours c (i, .write) := by
  intro d hstep key hcached
  obtain rfl := Option.some.inj ((step_write hsession).symm.trans hstep)
  obtain ⟨e, he, rfl⟩ := hcached
  rw [Config.put_store]
  by_cases hreported : ∃ row ∈ edgeRows r.result existing, e.key = r.key row.ends
  · obtain ⟨row, hrow, hkey⟩ := hreported
    have hafter := reported_persist thresholdHours i stamp now clock he hrow hkey
    refine ⟨fun hgone => absurd ⟨_, hafter, EdgeRow.update_key _ _ _⟩ hgone, ?_⟩
    intro _ hnotreplaced pair hrecorded
    have hpair := (recorded_iff h.keys he).mp hrecorded
    have hmerge : r.replaceColumns = false := by
      rw [hsession] at hnotreplaced
      exact Bool.eq_false_iff.mpr fun hreplace => hnotreplaced ⟨rfl, hreplace⟩
    have hends : e.ends = row.ends := congrArg Prod.fst hkey
    obtain ⟨edge, hfound, -⟩ := mem_edgeRows.mp hrow
    have howns : r.owns e = true := (owns_iff hends).mpr hkey
    have hfits := hroom rfl
    simp only [hsession] at hfits
    obtain ⟨row', hrow', hends', hmerged⟩ := merged_of_report clock (h.held hsession)
      hmerge he (hends ▸ hfound) (hends ▸ hkey)
    have hmine := reported_persist thresholdHours i stamp now clock he hrow'
      (hends' ▸ hends ▸ hkey)
    refine ⟨_, hmine, EdgeRow.update_key _ _ _, ?_⟩
    rw [hmerged]
    exact (mem_merged hpair).mpr (hfits hmerge e he howns edge (hends ▸ hfound) pair hpair)
  · have hother : ∀ row ∈ edgeRows r.result existing, e.key ≠ r.key row.ends :=
      fun row hrow hkey => hreported ⟨row, hrow, hkey⟩
    rcases unreported_persist thresholdHours i stamp now clock he hother with hafter | hprune
    · refine ⟨fun hgone => absurd ⟨e, hafter, rfl⟩ hgone, fun _ _ pair hrecorded => ?_⟩
      exact ⟨e, hafter, rfl, (recorded_iff h.keys he).mp hrecorded⟩
    · refine ⟨fun _ => ⟨rfl, ?_⟩, fun hcached _ pair hrecorded => ?_⟩
      · rw [hsession]
        exact mayPrune_of_prune hprune
      · -- an edge of the key that is left is the edge itself
        obtain ⟨e', he', hkey⟩ := hcached
        have hold : e' ∈ c.store.edges :=
          (mem_upsertEdges_ne (hkey ▸ hother)).mp (mem_persist he')
        obtain rfl : e' = e := List.inj_on_of_nodup_map h.keys hold he hkey
        exact ⟨e', he', rfl, (recorded_iff h.keys he).mp hrecorded⟩

end Loaded

/-- A step keeps the edges and their pairs exactly if it has room for them. -/
theorem keeps_iff {c : World} {e : ℕ × Act} (h : Sound c) :
    Keeps thresholdHours c e ↔ RoomFor c e := by
  obtain ⟨i, a⟩ := e
  by_cases hwrite : a = .write
  · subst hwrite
    cases hsession : c.session i with
    | loaded r stamp now clock existing =>
      exact ⟨room_of_keeps h hsession, keeps_of_room h hsession⟩
    | idle =>
      refine iff_of_true (keeps_of_edges fun d hstep => ?_) fun _ => ?_
      · simp [step, hsession, act] at hstep
      · simp only [hsession]
    | fetched r stamp =>
      refine iff_of_true (keeps_of_edges fun d hstep => ?_) fun _ => ?_
      · simp [step, hsession, act] at hstep
      · simp only [hsession]
  · refine iff_of_true (keeps_of_edges fun d hstep => ?_) fun h => absurd h hwrite
    obtain ⟨⟨s, session⟩, hact, rfl⟩ := Option.map_eq_some_iff.mp hstep
    obtain ⟨r, -, rfl, -⟩ | ⟨r, stamp, now, clock, -, -, -, rfl, -⟩ |
      ⟨r, stamp, now, clock, existing, -, h, -, -⟩ | ⟨-, rfl, -⟩ := act_cases hact
    · rfl
    · rfl
    · exact absurd h hwrite
    · rfl

/-- In a run of refreshes edges go only with a refresh that may prune them and keep their pairs
under the merge regime, exactly if every merging refresh has room for the pairs that are stored. -/
theorem refreshes_accrete_iff {c : World} (h : Quiet c) (es : List (ℕ × Act)) :
    Meets (step thresholdHours) (Keeps thresholdHours) c es ↔
      Meets (step thresholdHours) RoomFor c es := by
  have hsound : ∀ {G : World → ℕ × Act → Prop} c e d, Sound c → G c e →
      step thresholdHours c e = some d → Sound d := fun _ _ _ hc _ hstep => hc.step hstep
  constructor
  · exact fun hkeeps => hkeeps.of_invariant hsound (fun _ _ hc => (keeps_iff hc).mp) h.sound
  · exact fun hroom => hroom.of_invariant hsound (fun _ _ hc => (keeps_iff hc).mpr) h.sound

/-! ## A wide table -/

def acmeTable (name : String) : AssetKey := ("snowflake://acme".toList, name.toList)

/-- The name of a column of the wide table. -/
def wideColumn (n : ℕ) : Text := 'A' :: List.replicate n 'A'

def zonePair : ColumnPair := toLex (['Z'], ['Z'])

def widePair (n : ℕ) : ColumnPair := toLex (wideColumn n, ['Z'])

/-- An incremental refresh that reports the pairs of one edge. -/
def wideRefresh (pairs : List ColumnPair) : Refresh where
  connectionId := 1
  source := "unity_catalog".toList
  isIncremental := true
  result := ⟨[⟨acmeTable "RAW", acmeTable "WIDE", pairs⟩], true, some .captured, true⟩

def zoneEdge : Edge :=
  ⟨(acmeTable "RAW", acmeTable "WIDE"), "unity_catalog".toList, 1, 3, some [zonePair],
    some .captured⟩

/-- The cache with the edge of an earlier refresh. -/
def zoneCache : World := ⟨⟨[zoneEdge], fun _ => none, Locks.none⟩, fun _ => .idle⟩

def tenOClock : Clock := ⟨10, fun _ => 10, fun _ => le_refl 10⟩

def refreshOnce (pairs : List ColumnPair) : List (ℕ × Act) :=
  [(0, .fetch (wideRefresh pairs)), (0, .load 10 tenOClock), (0, .write)]

theorem zoneCache_quiet : Quiet zoneCache := ⟨fun _ => rfl, List.nodup_singleton _⟩

theorem widePair_lt (n : ℕ) : widePair n < zonePair := by
  refine Prod.Lex.toLex_lt_toLex.mpr (.inl ?_)
  exact List.Lex.rel (by decide)

theorem widePairs_nodup (n : ℕ) : ((List.range n).map widePair).Nodup := by
  refine List.nodup_range.map fun m k h => ?_
  have hlength := congrArg (fun pair => (ofLex pair).1.length) h
  simpa [widePair, wideColumn] using hlength

/-- A narrow report is merged. -/
theorem narrow_refresh_keeps : Meets (step 48) (Keeps 48) zoneCache (refreshOnce [widePair 0]) := by
  refine (refreshes_accrete_iff zoneCache_quiet _).mpr ?_
  refine ⟨nofun, fun c hc => ⟨nofun, fun d hd => ⟨fun _ => ?_, fun _ _ => trivial⟩⟩⟩
  obtain rfl := Option.some.inj hc
  obtain rfl : _ = d := Option.some.inj hd
  intro _ stored hstored _ edge hfound pair hpair
  obtain rfl := List.mem_singleton.mp hstored
  obtain rfl : _ = edge := Option.some.inj hfound
  obtain rfl := List.mem_singleton.mp hpair
  decide

/-- What a refresh of the edge leaves of its pair. -/
theorem refreshOnce_recorded (pairs : List ColumnPair) :
    ∃ d, run (step 48) zoneCache (refreshOnce pairs) = some d ∧
      Cached d.store.edges zoneEdge.key ∧
      (Recorded d.store.edges zoneEdge.key zonePair →
        (Capped.below ([zonePair] ++ pairs) zonePair).length < maxColumnPairsPerEdge) := by
  refine ⟨_, rfl, ⟨_, List.mem_cons_self, rfl⟩, ?_⟩
  rintro ⟨e, he, -, hpair⟩
  obtain rfl := List.mem_singleton.mp he
  have hmerged : zonePair ∈ ((mergedColumns zoneEdge.columns pairs).or zoneEdge.columns).getD [] :=
    hpair
  exact (mem_merged List.mem_cons_self).mp hmerged

/-- A wide report evicts the pair that was recorded, and the edge stays. -/
theorem wide_refresh_evicts :
    ∃ d, run (step 48) zoneCache (refreshOnce ((List.range 500).map widePair)) = some d ∧
      Recorded zoneCache.store.edges zoneEdge.key zonePair ∧ Cached d.store.edges zoneEdge.key ∧
      ¬ Recorded d.store.edges zoneEdge.key zonePair := by
  obtain ⟨d, hrun, hcached, hfew⟩ := refreshOnce_recorded ((List.range 500).map widePair)
  refine ⟨d, hrun, ⟨zoneEdge, List.mem_cons_self, rfl, List.mem_cons_self⟩, hcached, ?_⟩
  intro hrecorded
  have hmany : ((List.range 500).map widePair).length ≤
      (Capped.below ([zonePair] ++ (List.range 500).map widePair) zonePair).length := by
    apply Capped.length_le_below (widePairs_nodup 500)
    intro pair hpair
    obtain ⟨n, -, rfl⟩ := List.mem_map.mp hpair
    exact ⟨List.mem_append_right _ hpair, widePair_lt n⟩
  rw [List.length_map, List.length_range] at hmany
  exact absurd (hfew hrecorded) (Nat.not_lt.mpr hmany)

end DataQ.Lineage.Warehouse
