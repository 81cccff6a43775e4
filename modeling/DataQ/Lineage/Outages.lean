import DataQ.Lineage.Pulls

/-! # What an outage does to the cache

A refresh prunes unless a lookup was counted as unavailable, and the lookups of an asset are counted
together: one that fails beside another that answers is not. -/

namespace DataQ.Lineage.Pulls
set_option autoImplicit false

variable {cases : Cases} {catalog : Catalog}

/-! ## The lookups of one asset -/

/-- A listing raised. -/
def ListingFailed (catalog : Catalog) (seeds : List AssetKey) : Prop :=
  ∃ seed ∈ seeds, catalog.listDatasets seed.1 = none

/-- The lookup of a candidate of an asset raised. -/
def LookupFailed (cases : Cases) (catalog : Catalog) (seeds : List AssetKey) : Prop :=
  ∃ seed ∈ seeds, ∃ names, catalog.listDatasets seed.1 = some names ∧
    ∃ name ∈ candidates cases seed.1 names seed.2, catalog.getLineage seed.1 name = none

/-- An asset has candidates, all different, and the lookup of each raised. -/
def Lost (cases : Cases) (catalog : Catalog) (ns : Text) (names : List Text) (asset : Text) :
    Prop :=
  candidates cases ns names asset ≠ [] ∧ (candidates cases ns names asset).Nodup ∧
    ∀ name ∈ candidates cases ns names asset, catalog.getLineage ns name = none

def AssetLost (cases : Cases) (catalog : Catalog) (seeds : List AssetKey) : Prop :=
  ∃ seed ∈ seeds, ∃ names, catalog.listDatasets seed.1 = some names ∧
    Lost cases catalog seed.1 names seed.2

@[simp] theorem fetch_nil (ns : Text) (pulled : List Text) (acc : Collected) :
    fetch catalog ns [] pulled acc = (pulled, 0, acc) := rfl

theorem fetch_cons (ns first : Text) (names pulled : List Text) (acc : Collected) :
    fetch catalog ns (first :: names) pulled acc =
      if first ∈ pulled then fetch catalog ns names pulled acc
      else
        match catalog.getLineage ns first with
        | none =>
          let rest := fetch catalog ns names (first :: pulled) acc
          (rest.1, rest.2.1 + 1, rest.2.2)
        | some graph => fetch catalog ns names (first :: pulled) (acc.merge graph) := rfl

theorem fetch_pulled (ns : Text) (names pulled : List Text) (acc : Collected) (name : Text) :
    name ∈ (fetch catalog ns names pulled acc).1 ↔ name ∈ pulled ∨ name ∈ names := by
  induction names generalizing pulled acc with
  | nil => simp
  | cons first names ih =>
    rw [fetch_cons]
    split
    · next hseen =>
      rw [ih, List.mem_cons]
      constructor
      · tauto
      · rintro (h | rfl | h)
        · exact .inl h
        · exact .inl hseen
        · exact .inr h
    · split
      · rw [ih, List.mem_cons, List.mem_cons]
        tauto
      · rw [ih, List.mem_cons, List.mem_cons]
        tauto

theorem fetch_outcome (ns : Text) (names pulled : List Text) (acc : Collected) :
    (fetch catalog ns names pulled acc).2.2.outcome = acc.outcome := by
  induction names generalizing pulled acc with
  | nil => rfl
  | cons first names ih =>
    rw [fetch_cons]
    split
    · exact ih pulled acc
    · split
      · exact ih _ acc
      · exact ih _ _

theorem fetch_failed_le (catalog : Catalog) (ns : Text) (names pulled : List Text)
    (acc : Collected) :
    (fetch catalog ns names pulled acc).2.1 ≤ names.length := by
  induction names generalizing pulled acc with
  | nil => exact Nat.le_refl 0
  | cons first names ih =>
    rw [fetch_cons]
    split
    · exact Nat.le_succ_of_le (ih pulled acc)
    · split
      · exact Nat.succ_le_succ (ih _ acc)
      · exact Nat.le_succ_of_le (ih _ _)

/-- Every candidate counts as failed only if each is looked up, and raises, at its own turn. -/
theorem fetch_failed_eq_length (ns : Text) (names pulled : List Text) (acc : Collected) :
    (fetch catalog ns names pulled acc).2.1 = names.length ↔
      names.Nodup ∧ ∀ name ∈ names, name ∉ pulled ∧ catalog.getLineage ns name = none := by
  induction names generalizing pulled acc with
  | nil => simp
  | cons first names ih =>
    rw [List.nodup_cons, List.forall_mem_cons, List.length_cons]
    rw [fetch_cons]
    split
    · next hseen =>
      have hle := fetch_failed_le catalog ns names pulled acc
      constructor
      · omega
      · exact fun h => absurd hseen h.2.1.1
    · next hnew =>
      split
      · next hraised =>
        have htail := ih (first :: pulled) acc
        simp only [List.mem_cons, not_or] at htail
        show (fetch catalog ns names (first :: pulled) acc).2.1 + 1 = names.length + 1 ↔ _
        constructor
        · intro heq
          obtain ⟨hnodup, hall⟩ := htail.mp (by omega)
          exact ⟨⟨fun hmem => (hall first hmem).1.1 rfl, hnodup⟩, ⟨hnew, hraised⟩,
            fun name hname => ⟨(hall name hname).1.2, (hall name hname).2⟩⟩
        · rintro ⟨⟨hfirst, hnodup⟩, -, hall⟩
          have heq := htail.mpr ⟨hnodup, fun name hname =>
            ⟨⟨fun hsame => hfirst (hsame ▸ hname), (hall name hname).1⟩, (hall name hname).2⟩⟩
          omega
      · next graph hanswered =>
        have hle := fetch_failed_le catalog ns names (first :: pulled)
          (acc.merge graph)
        constructor
        · omega
        · intro h
          rw [hanswered] at h
          exact absurd h.2.1.2 (by simp)

/-! ## The assets of a namespace -/

theorem mem_candidates {ns : Text} {names : List Text} {asset name : Text} :
    name ∈ candidates cases ns names asset ↔
      name ∈ names ∧ canonicalIdentity cases ns name = canonicalIdentity cases ns asset := by
  rw [candidates, List.mem_filter, decide_eq_true_eq]

/-- Assets that fold to one identity have the same candidates. -/
theorem candidates_congr {ns : Text} {names : List Text} {asset other : Text}
    (h : canonicalIdentity cases ns asset = canonicalIdentity cases ns other) :
    candidates cases ns names asset = candidates cases ns names other := by
  unfold candidates
  rw [h]

theorem Lost.congr {ns : Text} {names : List Text} {asset other : Text}
    (h : canonicalIdentity cases ns asset = canonicalIdentity cases ns other)
    (hlost : Lost cases catalog ns names asset) : Lost cases catalog ns names other := by
  unfold Lost at hlost ⊢
  rwa [← candidates_congr h]

/-- The names fetched are the candidates of the assets that have had their turn. -/
def Fetched (cases : Cases) (ns : Text) (names pulled done : List Text) : Prop :=
  ∀ name ∈ names, name ∈ pulled ↔
    ∃ other ∈ done, canonicalIdentity cases ns name = canonicalIdentity cases ns other

theorem Fetched.cons {ns : Text} {names pulled done : List Text} {asset : Text} {acc : Collected}
    (h : Fetched cases ns names pulled done) :
    Fetched cases ns names
      (fetch catalog ns (candidates cases ns names asset) pulled acc).1 (asset :: done) := by
  intro name hname
  rw [fetch_pulled, h name hname, mem_candidates]
  simp [hname, or_comm]

theorem Fetched.cons_nil {ns : Text} {names pulled done : List Text} {asset : Text}
    (h : Fetched cases ns names pulled done) (hnone : candidates cases ns names asset = []) :
    Fetched cases ns names pulled (asset :: done) := by
  intro name hname
  rw [h name hname]
  have hother : canonicalIdentity cases ns name ≠ canonicalIdentity cases ns asset := by
    intro heq
    have hmem := mem_candidates.mpr ⟨hname, heq⟩
    rw [hnone] at hmem
    cases hmem
  simp [hother]

/-- An asset is counted as unavailable if it is lost and none before it folds to its identity. -/
theorem counted_iff (catalog : Catalog) (acc : Collected) {ns : Text}
    {names pulled done : List Text} {asset : Text}
    (h : Fetched cases ns names pulled done) (hsome : candidates cases ns names asset ≠ []) :
    ((fetch catalog ns (candidates cases ns names asset) pulled acc).2.1 ≠ 0 ∧
      (fetch catalog ns (candidates cases ns names asset) pulled acc).2.1 =
        (candidates cases ns names asset).length) ↔
    (∀ other ∈ done, canonicalIdentity cases ns asset ≠ canonicalIdentity cases ns other) ∧
      Lost cases catalog ns names asset := by
  rw [fetch_failed_eq_length]
  constructor
  · rintro ⟨-, hnodup, hall⟩
    refine ⟨fun other hother heq => ?_, hsome, hnodup, fun name hname => (hall name hname).2⟩
    obtain ⟨name, hname⟩ := List.exists_mem_of_ne_nil _ hsome
    obtain ⟨hlisted, hkey⟩ := mem_candidates.mp hname
    exact (hall name hname).1 ((h name hlisted).mpr ⟨other, hother, hkey.trans heq⟩)
  · rintro ⟨hfirst, -, hnodup, hall⟩
    have hnew : ∀ name ∈ candidates cases ns names asset, name ∉ pulled := by
      intro name hname hpulled
      obtain ⟨hlisted, hkey⟩ := mem_candidates.mp hname
      obtain ⟨other, hother, heq⟩ := (h name hlisted).mp hpulled
      exact hfirst other hother (hkey.symm.trans heq)
    have hboth : (candidates cases ns names asset).Nodup ∧
        ∀ name ∈ candidates cases ns names asset,
          name ∉ pulled ∧ catalog.getLineage ns name = none :=
      ⟨hnodup, fun name hname => ⟨hnew name hname, hall name hname⟩⟩
    refine ⟨?_, hboth⟩
    rw [(fetch_failed_eq_length ns _ pulled acc).mpr hboth]
    exact fun hzero => hsome (List.length_eq_zero_iff.mp hzero)

theorem collectAssets_unavailable {ns : Text} {catalogNames names pulled done : List Text}
    {acc : Collected} (h : Fetched cases ns catalogNames pulled done) :
    (collectAssets cases catalog ns catalogNames names pulled acc).outcome.unavailable ≠ 0 ↔
      acc.outcome.unavailable ≠ 0 ∨ ∃ asset ∈ names,
        (∀ other ∈ done, canonicalIdentity cases ns asset ≠ canonicalIdentity cases ns other) ∧
          Lost cases catalog ns catalogNames asset := by
  induction names generalizing pulled done acc with
  | nil => simp [collectAssets]
  | cons first names ih =>
    have hstep : ∀ {count : Prop}, (count ↔ (∀ other ∈ done,
          canonicalIdentity cases ns first ≠ canonicalIdentity cases ns other) ∧
          Lost cases catalog ns catalogNames first) →
        (((acc.outcome.unavailable ≠ 0 ∨ count) ∨ ∃ asset ∈ names,
          (∀ other ∈ first :: done,
            canonicalIdentity cases ns asset ≠ canonicalIdentity cases ns other) ∧
            Lost cases catalog ns catalogNames asset) ↔
        (acc.outcome.unavailable ≠ 0 ∨ ∃ asset ∈ first :: names,
          (∀ other ∈ done,
            canonicalIdentity cases ns asset ≠ canonicalIdentity cases ns other) ∧
            Lost cases catalog ns catalogNames asset)) := by
      intro count hcount
      rw [hcount]
      constructor
      · rintro ((hacc | hfirst) | ⟨asset, hasset, hnew, hlost⟩)
        · exact .inl hacc
        · exact .inr ⟨first, List.mem_cons_self, hfirst⟩
        · exact .inr ⟨asset, List.mem_cons_of_mem _ hasset,
            fun other hother => hnew other (List.mem_cons_of_mem _ hother), hlost⟩
      · rintro (hacc | ⟨asset, hasset, hnew, hlost⟩)
        · exact .inl (.inl hacc)
        · by_cases hsame : canonicalIdentity cases ns asset = canonicalIdentity cases ns first
          · refine .inl (.inr ⟨fun other hother => ?_, hlost.congr hsame⟩)
            rw [← hsame]
            exact hnew other hother
          · have hrest : asset ∈ names := by
              rcases List.mem_cons.mp hasset with rfl | hrest
              · exact absurd rfl hsame
              · exact hrest
            refine .inr ⟨asset, hrest, fun other hother => ?_, hlost⟩
            rcases List.mem_cons.mp hother with rfl | hother
            · exact hsame
            · exact hnew other hother
    simp only [collectAssets]
    split
    · next hnone =>
      rw [ih (h.cons_nil hnone)]
      have hcount : False ↔ (∀ other ∈ done,
          canonicalIdentity cases ns first ≠ canonicalIdentity cases ns other) ∧
          Lost cases catalog ns catalogNames first :=
        ⟨False.elim, fun hlost => hlost.2.1 hnone⟩
      rw [← hstep hcount, or_false]
      rfl
    · next hsome =>
      have hcount := counted_iff catalog acc h hsome
      rw [ih h.cons, ← hstep hcount]
      dsimp only
      split
      · next hall => exact iff_of_true (.inl (Nat.succ_ne_zero _)) (.inl (.inr hall))
      · next hnot =>
        simp only [SeedOutcome.addResolved, fetch_outcome, hnot, or_false]

/-- An asset with a candidate is resolved or counted as unavailable. -/
theorem collectAssets_answered {ns : Text} {catalogNames names pulled : List Text}
    {acc : Collected} (h : acc.outcome.resolved ≠ 0 ∨ acc.outcome.unavailable ≠ 0 ∨
      ∃ asset ∈ names, candidates cases ns catalogNames asset ≠ []) :
    (collectAssets cases catalog ns catalogNames names pulled acc).outcome.resolved ≠ 0 ∨
      (collectAssets cases catalog ns catalogNames names pulled acc).outcome.unavailable ≠ 0 := by
  induction names generalizing pulled acc with
  | nil =>
    rcases h with h | h | ⟨_, hmem, _⟩
    · exact .inl h
    · exact .inr h
    · cases hmem
  | cons first names ih =>
    simp only [collectAssets]
    split
    · next hnone =>
      apply ih
      rcases h with h | h | ⟨asset, hasset, hsome⟩
      · exact .inl h
      · exact .inr (.inl h)
      · refine .inr (.inr ⟨asset, ?_, hsome⟩)
        exact (List.mem_cons.mp hasset).resolve_left fun heq => hsome (heq ▸ hnone)
    · apply ih
      dsimp only
      split
      · exact .inr (.inl (Nat.succ_ne_zero _))
      · exact .inl (Nat.succ_ne_zero _)

/-! ## All the lookups -/

theorem mem_assetNames {seeds : List AssetKey} {ns name : Text} :
    name ∈ assetNames seeds ns ↔ (ns, name) ∈ seeds := by
  unfold assetNames
  constructor
  · intro h
    obtain ⟨⟨ns', name'⟩, hmem, rfl⟩ := List.mem_map.mp h
    obtain ⟨hseed, hns⟩ := List.mem_filter.mp hmem
    have hns : ns' = ns := by simpa using hns
    exact hns ▸ hseed
  · intro h
    exact List.mem_map.mpr ⟨(ns, name), List.mem_filter.mpr ⟨h, by simp⟩, rfl⟩

/-- What a namespace adds to the unavailable assets. -/
def NamespaceLost (cases : Cases) (catalog : Catalog) (seeds : List AssetKey) (ns : Text) : Prop :=
  match catalog.listDatasets ns with
  | none => assetNames seeds ns ≠ []
  | some names => ∃ asset ∈ assetNames seeds ns, Lost cases catalog ns names asset

theorem collectNamespaces_unavailable {seeds : List AssetKey} {namespaces : List Text}
    {acc : Collected} :
    (collectNamespaces cases catalog seeds namespaces acc).outcome.unavailable ≠ 0 ↔
      acc.outcome.unavailable ≠ 0 ∨
        ∃ ns ∈ namespaces, NamespaceLost cases catalog seeds ns := by
  induction namespaces generalizing acc with
  | nil => simp [collectNamespaces]
  | cons ns rest ih =>
    have hfetched : ∀ names, Fetched cases ns names [] [] := fun names name _ => by simp
    rw [List.exists_mem_cons_iff, ← or_assoc]
    unfold collectNamespaces
    split
    · next hraised =>
      rw [ih]
      simp only [SeedOutcome.addUnavailable, NamespaceLost, hraised]
      have hsum : acc.outcome.unavailable + (assetNames seeds ns).length ≠ 0 ↔
          acc.outcome.unavailable ≠ 0 ∨ assetNames seeds ns ≠ [] := by
        rw [ne_eq, ne_eq, ne_eq, ← List.length_eq_zero_iff]
        omega
      rw [hsum]
    · next names hlisted =>
      rw [ih, collectAssets_unavailable (hfetched names)]
      simp [NamespaceLost, hlisted]

theorem collectNamespaces_answered {seeds : List AssetKey} {namespaces : List Text}
    {acc : Collected} (h : acc.outcome.resolved ≠ 0 ∨ acc.outcome.unavailable ≠ 0 ∨
      ∃ ns ∈ namespaces, ∃ names, catalog.listDatasets ns = some names ∧
        ∃ asset ∈ assetNames seeds ns, candidates cases ns names asset ≠ []) :
    (collectNamespaces cases catalog seeds namespaces acc).outcome.resolved ≠ 0 ∨
      (collectNamespaces cases catalog seeds namespaces acc).outcome.unavailable ≠ 0 := by
  induction namespaces generalizing acc with
  | nil =>
    rcases h with h | h | ⟨_, hmem, _⟩
    · exact .inl h
    · exact .inr h
    · cases hmem
  | cons ns rest ih =>
    unfold collectNamespaces
    split
    · next hraised =>
      apply ih
      rcases h with h | h | ⟨other, hother, names, hlisted, hsome⟩
      · exact .inl h
      · refine .inr (.inl ?_)
        show acc.outcome.unavailable + _ ≠ 0
        omega
      · refine .inr (.inr ⟨other, ?_, names, hlisted, hsome⟩)
        refine (List.mem_cons.mp hother).resolve_left fun heq => ?_
        rw [heq, hraised] at hlisted
        cases hlisted
    · next names hnames =>
      apply ih
      have hhere : acc.outcome.resolved ≠ 0 ∨ acc.outcome.unavailable ≠ 0 ∨
          (∃ asset ∈ assetNames seeds ns, candidates cases ns names asset ≠ []) →
          (collectAssets cases catalog ns names (assetNames seeds ns) [] acc).outcome.resolved ≠ 0 ∨
          (collectAssets cases catalog ns names (assetNames seeds ns) []
            acc).outcome.unavailable ≠ 0 := collectAssets_answered
      rcases h with h | h | ⟨other, hother, names', hlisted, hsome⟩
      · exact (hhere (.inl h)).imp id .inl
      · exact (hhere (.inr (.inl h))).imp id .inl
      · rcases List.mem_cons.mp hother with rfl | hother
        · obtain rfl : names = names' := Option.some.inj (hnames.symm.trans hlisted)
          exact (hhere (.inr (.inr hsome))).imp id .inl
        · exact .inr (.inr ⟨other, hother, names', hlisted, hsome⟩)

theorem unavailable_iff {seeds : List AssetKey} :
    (collectDatasetEdges cases catalog seeds).2.unavailable ≠ 0 ↔
      ListingFailed catalog seeds ∨ AssetLost cases catalog seeds := by
  rw [collectDatasetEdges, collectNamespaces_unavailable]
  constructor
  · rintro (hzero | ⟨ns, -, hlost⟩)
    · exact absurd rfl hzero
    · unfold NamespaceLost at hlost
      split at hlost
      · next hraised =>
        obtain ⟨name, hname⟩ := List.exists_mem_of_ne_nil _ hlost
        exact .inl ⟨(ns, name), mem_assetNames.mp hname, hraised⟩
      · next names hlisted =>
        obtain ⟨asset, hasset, hlost⟩ := hlost
        exact .inr ⟨(ns, asset), mem_assetNames.mp hasset, names, hlisted, hlost⟩
  · intro h
    have hnamespace : ∀ seed ∈ seeds, seed.1 ∈ (seeds.map Prod.fst).eraseDups := fun seed hseed =>
      List.mem_eraseDups.mpr (List.mem_map_of_mem hseed)
    rcases h with ⟨seed, hseed, hraised⟩ | ⟨seed, hseed, names, hlisted, hlost⟩
    · refine .inr ⟨seed.1, hnamespace seed hseed, ?_⟩
      simp only [NamespaceLost, hraised]
      exact List.ne_nil_of_mem (mem_assetNames.mpr hseed)
    · refine .inr ⟨seed.1, hnamespace seed hseed, ?_⟩
      simp only [NamespaceLost, hlisted]
      exact ⟨seed.2, mem_assetNames.mpr hseed, hlost⟩

/-- Where a lookup raised and nothing is counted as unavailable, something is as resolved. -/
theorem resolved_of_raised {seeds : List AssetKey}
    (hraised : ListingFailed catalog seeds ∨ LookupFailed cases catalog seeds)
    (hnone : (collectDatasetEdges cases catalog seeds).2.unavailable = 0) :
    (collectDatasetEdges cases catalog seeds).2.resolved ≠ 0 := by
  rcases hraised with hlisting | ⟨seed, hseed, names, hlisted, name, hname, -⟩
  · exact absurd hnone (unavailable_iff.mpr (.inl hlisting))
  · have hanswered : (collectDatasetEdges cases catalog seeds).2.resolved ≠ 0 ∨
        (collectDatasetEdges cases catalog seeds).2.unavailable ≠ 0 := by
      refine collectNamespaces_answered (.inr (.inr ⟨seed.1, ?_, names, hlisted, seed.2, ?_, ?_⟩))
      · exact List.mem_eraseDups.mpr (List.mem_map_of_mem hseed)
      · exact mem_assetNames.mpr hseed
      · exact List.ne_nil_of_mem hname
    exact hanswered.resolve_right fun hne => hne hnone

end DataQ.Lineage.Pulls
