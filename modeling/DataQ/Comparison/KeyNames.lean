import DataQ.Comparison.Conservation

/-! # Renamed keys

The keys of the target are renamed to those of the source; with the sides exchanged, those of the
source are renamed to those of the target. Where both leave each key one column, both pair the same
columns: what a name is renamed to last is what is last renamed to it. -/

namespace DataQ.Comparison
set_option autoImplicit false

def KeyPair.swap (key : KeyPair) : KeyPair := ⟨key.target, key.source⟩

def Key.swap : Key → Key
  | .plain name => .plain name
  | .mapped source target => .mapped target source

theorem normalizeKeys_swap (keys : List Key) :
    normalizeKeys (keys.map Key.swap) = (normalizeKeys keys).map KeyPair.swap := by
  rw [normalizeKeys, normalizeKeys, List.map_map, List.map_map]
  apply List.map_congr_left
  intro key _
  cases key <;> rfl

theorem swap_injective : Function.Injective KeyPair.swap := by
  rintro ⟨s, t⟩ ⟨s', t'⟩ h
  cases h
  rfl

theorem map_swap_swap (keys : List KeyPair) : (keys.map KeyPair.swap).map KeyPair.swap = keys := by
  rw [List.map_map]
  exact List.map_id keys

/-- The keys that are renamed. -/
def mappedKeys (keys : List KeyPair) : List KeyPair :=
  keys.filter fun key => key.target ≠ key.source

theorem mappedKeys_swap (keys : List KeyPair) :
    mappedKeys (keys.map KeyPair.swap) = (mappedKeys keys).map KeyPair.swap := by
  unfold mappedKeys
  rw [List.filter_map]
  congr 1
  apply List.filter_congr
  intro key _
  simp [KeyPair.swap, eq_comm]

theorem renameMap_eq_some {keys : List KeyPair} {name a : Text} :
    (renameMap keys).lookup name = some a ↔ ∃ key ∈ mappedKeys keys,
      Winners.Wins KeyPair.target (mappedKeys keys) key ∧ key.target = name ∧ key.source = a :=
  Winners.lookup_eq_some

theorem renamed_of_wins {keys : List KeyPair} {key : KeyPair} (hkey : key ∈ mappedKeys keys)
    (hwins : Winners.Wins KeyPair.target (mappedKeys keys) key) :
    renamed keys key.target = key.source := by
  have hlookup : (renameMap keys).lookup key.target = some key.source :=
    renameMap_eq_some.mpr ⟨key, hkey, hwins, rfl, rfl⟩
  rw [renamed, hlookup, Option.getD_some]

/-- A name is renamed to the source of a key, or it is that of no target that is renamed. -/
theorem renamed_cases (keys : List KeyPair) (name : Text) :
    (∃ key ∈ mappedKeys keys, Winners.Wins KeyPair.target (mappedKeys keys) key ∧
      key.target = name ∧ key.source = renamed keys name) ∨
    (renamed keys name = name ∧ ∀ key ∈ mappedKeys keys, key.target ≠ name) := by
  cases hlookup : (renameMap keys).lookup name with
  | some a =>
    obtain ⟨key, hkey, hwins, htarget, hsource⟩ := renameMap_eq_some.mp hlookup
    refine .inl ⟨key, hkey, hwins, htarget, ?_⟩
    rw [renamed, hlookup, Option.getD_some, hsource]
  | none =>
    refine .inr ⟨by rw [renamed, hlookup, Option.getD_none], ?_⟩
    rintro key hkey rfl
    have hexists : ∃ winner ∈ mappedKeys keys,
        Winners.Wins KeyPair.target (mappedKeys keys) winner ∧ winner.target = key.target :=
      Winners.exists_wins hkey
    obtain ⟨winner, hwinner, hwins, htarget⟩ := hexists
    have hsome := renameMap_eq_some.mpr ⟨winner, hwinner, hwins, htarget, rfl⟩
    rw [hsome] at hlookup
    cases hlookup

section Columns
variable {S : ℕ → Type} {m n : ℕ} {columns : Columns S n} {keys : List KeyPair} {name : Text}
  {s : S n}

theorem column?_eq_some :
    column? columns name = some s ↔
      columns.filter (fun column => column.1 = name) = [(name, s)] := by
  unfold column?
  constructor
  · intro h
    split at h
    · next column hfilter =>
      have hname : column.1 = name := by
        have hmem : column ∈ columns.filter fun column => column.1 = name := by
          rw [hfilter]
          exact List.mem_singleton_self column
        simpa using (List.mem_filter.mp hmem).2
      obtain rfl := Option.some.inj h
      rw [hfilter, ← hname]
    · cases h
  · intro h
    rw [h]

theorem mem_of_column? (h : column? columns name = some s) : (name, s) ∈ columns := by
  have hmem : (name, s) ∈ columns.filter fun column => column.1 = name := by
    rw [column?_eq_some.mp h]
    exact List.mem_singleton_self _
  exact List.mem_of_mem_filter hmem

theorem column?_of_mem (h : (column? columns name).isSome = true) (hmem : (name, s) ∈ columns) :
    column? columns name = some s := by
  obtain ⟨s', hs'⟩ := Option.isSome_iff_exists.mp h
  have hfilter : (name, s) ∈ columns.filter fun column => column.1 = name :=
    List.mem_filter.mpr ⟨hmem, by simp⟩
  rw [column?_eq_some.mp hs', List.mem_singleton] at hfilter
  rw [hs', (Prod.mk.inj hfilter).2]

/-- Of a renamed column, there is one that is renamed to its name. -/
theorem column?_rename :
    column? (rename keys columns) name = some s ↔ ∃ before,
      columns.filter (fun column => renamed keys column.1 = name) = [(before, s)] := by
  rw [column?_eq_some, rename, List.filter_map, List.map_eq_singleton_iff]
  constructor
  · rintro ⟨⟨before, s'⟩, hfilter, heq⟩
    obtain ⟨-, rfl⟩ := Prod.mk.inj heq
    exact ⟨before, hfilter⟩
  · rintro ⟨before, hfilter⟩
    have hmem : (before, s) ∈ columns.filter fun column => renamed keys column.1 = name := by
      rw [hfilter]
      exact List.mem_singleton_self _
    have hname : renamed keys before = name := by simpa using (List.mem_filter.mp hmem).2
    exact ⟨(before, s), hfilter, by rw [← hname]⟩

theorem eq_of_renamed (h : (column? (rename keys columns) name).isSome = true)
    {a b : Text × S n} (ha : a ∈ columns) (hb : b ∈ columns) (hrenamed : renamed keys a.1 = name)
    (hrenamed' : renamed keys b.1 = name) : a = b := by
  obtain ⟨s, hs⟩ := Option.isSome_iff_exists.mp h
  obtain ⟨before, hfilter⟩ := column?_rename.mp hs
  have hmem : ∀ c ∈ columns, renamed keys c.1 = name → c = (before, s) := by
    intro c hc hname
    have hin : c ∈ columns.filter fun column => renamed keys column.1 = name :=
      List.mem_filter.mpr ⟨hc, by simpa using hname⟩
    rw [hfilter] at hin
    exact List.mem_singleton.mp hin
  rw [hmem a ha hrenamed, hmem b hb hrenamed']

end Columns

/-! ## Both ways -/

section Both
variable {S : ℕ → Type} {m n : ℕ} {source : Columns S m} {target : Columns S n}
  {keys : List KeyPair}

/-- Each key is one column of its side, before and after the other side's names are put on it. -/
structure BothWays (source : Columns S m) (target : Columns S n) (keys : List KeyPair) : Prop where
  sourceFound : ∀ key ∈ keys, (column? source key.source).isSome = true
  targetFound : ∀ key ∈ keys, (column? target key.target).isSome = true
  renamedTarget : ∀ key ∈ keys, (column? (rename keys target) key.source).isSome = true
  renamedSource : ∀ key ∈ keys,
    (column? (rename (keys.map KeyPair.swap) source) key.target).isSome = true

theorem BothWays.swap (h : BothWays source target keys) :
    BothWays target source (keys.map KeyPair.swap) := by
  have hkey : ∀ {p : KeyPair → Prop}, (∀ key ∈ keys, p key.swap) →
      ∀ key ∈ keys.map KeyPair.swap, p key := by
    intro p hp key hkey
    obtain ⟨key, hmem, rfl⟩ := List.mem_map.mp hkey
    exact hp key hmem
  refine ⟨hkey h.targetFound, hkey h.sourceFound, hkey h.renamedSource, hkey ?_⟩
  rw [map_swap_swap]
  exact h.renamedTarget

theorem mem_of_mapped {key : KeyPair} (h : key ∈ mappedKeys keys) :
    key ∈ keys ∧ key.target ≠ key.source := by
  obtain ⟨hmem, hne⟩ := List.mem_filter.mp h
  exact ⟨hmem, by simpa using hne⟩

/-- No two names of the target are renamed to one. -/
theorem BothWays.injective (h : BothWays source target keys) : ∀ x ∈ mappedKeys keys,
    ∀ y ∈ mappedKeys keys, Winners.Wins KeyPair.target (mappedKeys keys) x →
      Winners.Wins KeyPair.target (mappedKeys keys) y → x.source = y.source → x = y := by
  intro x hx y hy hwinsx hwinsy hsource
  obtain ⟨s, hs⟩ := Option.isSome_iff_exists.mp (h.targetFound x (mem_of_mapped hx).1)
  obtain ⟨t, ht⟩ := Option.isSome_iff_exists.mp (h.targetFound y (mem_of_mapped hy).1)
  have hrenamedx := renamed_of_wins hx hwinsx
  have hrenamedy := (renamed_of_wins hy hwinsy).trans hsource.symm
  have hsame := eq_of_renamed (h.renamedTarget x (mem_of_mapped hx).1) (mem_of_column? hs)
    (mem_of_column? ht) hrenamedx hrenamedy
  have htarget : x.target = y.target := (Prod.mk.inj hsame).1
  cases x
  cases y
  exact congrArg₂ KeyPair.mk hsource htarget

theorem wins_swap {key : KeyPair} :
    Winners.Wins KeyPair.target (mappedKeys (keys.map KeyPair.swap)) key.swap ↔
      Winners.Wins KeyPair.source (mappedKeys keys) key := by
  rw [mappedKeys_swap]
  exact Winners.wins_map swap_injective

theorem swap_mem_mapped {key : KeyPair} (h : key ∈ mappedKeys keys) :
    key.swap ∈ mappedKeys (keys.map KeyPair.swap) := by
  rw [mappedKeys_swap]
  exact List.mem_map_of_mem h

theorem BothWays.wins (h : BothWays source target keys) {key : KeyPair}
    (hkey : key ∈ mappedKeys keys) (hwins : Winners.Wins KeyPair.target (mappedKeys keys) key) :
    Winners.Wins KeyPair.source (mappedKeys keys) key := by
  apply Winners.wins_of_injective h.injective _ hkey hwins
  intro x hx y hy hwinsx hwinsy htarget
  exact swap_injective (h.swap.injective x.swap (swap_mem_mapped hx) y.swap (swap_mem_mapped hy)
    (wins_swap.mpr hwinsx) (wins_swap.mpr hwinsy) htarget)

/-- What a target is renamed to last, is renamed last to that target the other way round. -/
theorem BothWays.wins_iff (h : BothWays source target keys) {key : KeyPair}
    (hkey : key ∈ mappedKeys keys) : Winners.Wins KeyPair.target (mappedKeys keys) key ↔
      Winners.Wins KeyPair.source (mappedKeys keys) key := by
  refine ⟨h.wins hkey, fun hwins => ?_⟩
  have hback := h.swap.wins (swap_mem_mapped hkey) (wins_swap.mpr hwins)
  rw [mappedKeys_swap] at hback
  exact (Winners.wins_map swap_injective).mp hback

/-- A column that a key was put on is the column of the key's target. -/
theorem BothWays.renamed_target (h : BothWays source target keys) {key : KeyPair}
    (hkey : key ∈ mappedKeys keys)
    (hwins : Winners.Wins KeyPair.target (mappedKeys keys) key) :
    column? (rename keys target) key.source = column? target key.target := by
  obtain ⟨s, hs⟩ := Option.isSome_iff_exists.mp (h.renamedTarget key (mem_of_mapped hkey).1)
  obtain ⟨t, ht⟩ := Option.isSome_iff_exists.mp (h.targetFound key (mem_of_mapped hkey).1)
  obtain ⟨before, hfilter⟩ := column?_rename.mp hs
  have hmem : (key.target, t) ∈ target.filter fun column =>
      renamed keys column.1 = key.source :=
    List.mem_filter.mpr ⟨mem_of_column? ht, by simpa using renamed_of_wins hkey hwins⟩
  rw [hfilter, List.mem_singleton] at hmem
  rw [hs, ht, (Prod.mk.inj hmem).2]

/-- A name that no target is renamed from stays what it was. -/
theorem column?_kept {name : Text} (hrenamed : (column? (rename keys target) name).isSome = true)
    (htarget : (column? target name).isSome = true)
    (hkept : ∀ key ∈ mappedKeys keys, key.target ≠ name) :
    column? (rename keys target) name = column? target name := by
  obtain ⟨s, hs⟩ := Option.isSome_iff_exists.mp hrenamed
  obtain ⟨t, ht⟩ := Option.isSome_iff_exists.mp htarget
  obtain ⟨before, hfilter⟩ := column?_rename.mp hs
  have hname : renamed keys name = name := by
    obtain ⟨key, hkey, -, hkeyname, -⟩ | ⟨hsame, -⟩ := renamed_cases keys name
    · exact absurd hkeyname (hkept key hkey)
    · exact hsame
  have hmem : (name, t) ∈ target.filter fun column => renamed keys column.1 = name :=
    List.mem_filter.mpr ⟨mem_of_column? ht, by simpa using hname⟩
  rw [hfilter, List.mem_singleton] at hmem
  rw [hs, ht, (Prod.mk.inj hmem).2]

/-- Each key column of an alignment is one of the exchanged alignment. -/
theorem BothWays.key_columns (h : BothWays source target keys) {key : KeyPair} (hkey : key ∈ keys) :
    ∃ other ∈ keys,
      column? source key.source = column? (rename (keys.map KeyPair.swap) source) other.target ∧
        column? (rename keys target) key.source = column? target other.target := by
  obtain ⟨s, hs⟩ := Option.isSome_iff_exists.mp (h.renamedTarget key hkey)
  obtain ⟨before, hfilter⟩ := column?_rename.mp hs
  have hbefore : (before, s) ∈ target.filter fun column => renamed keys column.1 = key.source := by
    rw [hfilter]
    exact List.mem_singleton_self _
  have hname : renamed keys before = key.source := by simpa using (List.mem_filter.mp hbefore).2
  obtain ⟨other, hother, hwins, -, hsource⟩ | ⟨hsame, hkept⟩ := renamed_cases keys before
  · -- The column was renamed: the same pair of names is the last one the other way round.
    rw [hname] at hsource
    refine ⟨other, (mem_of_mapped hother).1, ?_, ?_⟩
    · rw [← hsource]
      have hback := wins_swap.mpr ((h.wins_iff hother).mp hwins)
      exact (h.swap.renamed_target (swap_mem_mapped hother) hback).symm
    · rw [← hsource]
      exact h.renamed_target hother hwins
  · -- It was not, so the key is under its own name, and the other way round it is not either.
    rw [hname] at hsame
    subst hsame
    have hown : ∀ other ∈ mappedKeys keys, other.source ≠ key.source := by
      intro other hother hsource
      have hexists : ∃ winner ∈ mappedKeys keys,
          Winners.Wins KeyPair.source (mappedKeys keys) winner ∧ winner.source = other.source :=
        Winners.exists_wins hother
      obtain ⟨winner, hwinner, hwins, hwinnerSource⟩ := hexists
      have hrenamed := renamed_of_wins hwinner ((h.wins_iff hwinner).mpr hwins)
      obtain ⟨t, ht⟩ := Option.isSome_iff_exists.mp (h.targetFound winner (mem_of_mapped hwinner).1)
      have hsameColumn := eq_of_renamed (h.renamedTarget key hkey) (mem_of_column? ht)
        (List.mem_of_mem_filter hbefore) (hrenamed.trans (hwinnerSource.trans hsource)) hname
      exact hkept winner hwinner (Prod.mk.inj hsameColumn).1
    have htarget : key.target = key.source := by
      by_contra hne
      exact hown key (List.mem_filter.mpr ⟨hkey, by simpa using hne⟩) rfl
    refine ⟨key, hkey, ?_, ?_⟩
    · rw [htarget]
      refine (column?_kept ?_ (h.sourceFound key hkey) ?_).symm
      · have hfound := h.renamedSource key hkey
        rwa [htarget] at hfound
      · intro other hother
        rw [mappedKeys_swap] at hother
        obtain ⟨other, hmem, rfl⟩ := List.mem_map.mp hother
        exact hown other hmem
    · rw [htarget]
      apply column?_kept (h.renamedTarget key hkey) _ hkept
      have hfound := h.targetFound key hkey
      rwa [htarget] at hfound

/-- A column that is no key of the source is none of the target, and is not renamed. -/
theorem value_column {name : Text} (hkey : name ∉ keyNames keys)
    (hname : name ∈ names (rename keys target)) :
    name ∈ names target ∧ name ∉ keys.map KeyPair.target ∧
      column? (rename keys target) name = column? target name := by
  have hback : ∀ before, renamed keys before = name →
      before = name ∧ ∀ key ∈ mappedKeys keys, key.target ≠ name := by
    intro before hrenamed
    obtain ⟨key, hmem, -, -, hsource⟩ | ⟨hsame, hkept⟩ := renamed_cases keys before
    · exact absurd (List.mem_map.mpr ⟨key, (mem_of_mapped hmem).1, hsource.trans hrenamed⟩) hkey
    · obtain rfl := hsame.symm.trans hrenamed
      exact ⟨rfl, hkept⟩
  obtain ⟨column, hcolumn, hfst⟩ := List.mem_map.mp hname
  obtain ⟨⟨before, s⟩, hmem, rfl⟩ := List.mem_map.mp hcolumn
  obtain ⟨rfl, hkept⟩ := hback before hfst
  refine ⟨List.mem_map_of_mem hmem, ?_, ?_⟩
  · intro htarget
    obtain ⟨key, hkeymem, heq⟩ := List.mem_map.mp htarget
    have hown : key.target = key.source := by
      by_contra hne
      exact hkept key (List.mem_filter.mpr ⟨hkeymem, by simpa using hne⟩) heq
    exact hkey (List.mem_map.mpr ⟨key, hkeymem, hown.symm.trans heq⟩)
  · have hsame : renamed keys before = before := hfst
    unfold column? rename
    rw [List.filter_map]
    have hfilter : target.filter ((fun column => decide (column.1 = before)) ∘
        fun column => (renamed keys column.1, column.2)) =
          target.filter fun column => column.1 = before := by
      apply List.filter_congr
      intro column _
      by_cases hcolumn : column.1 = before
      · simp [hcolumn, hsame]
      · have hne : renamed keys column.1 ≠ before := fun heq => hcolumn (hback _ heq).1
        simp [hcolumn, hne]
    rw [hfilter]
    have hown : ∀ column ∈ target.filter fun column => column.1 = before,
        (renamed keys column.1, column.2) = column := by
      intro column hcolumn
      have hfst : column.1 = before := by simpa using (List.mem_filter.mp hcolumn).2
      rw [hfst, hsame, ← hfst]
    rw [List.map_congr_left hown, List.map_id']

end Both

end DataQ.Comparison
