import DataQ.Comparison.KeyNames

/-! # The sides exchanged

An alignment of the exchanged sides pairs the same rows over the same columns, each the other way
round. -/

namespace DataQ.Comparison
set_option autoImplicit false

section Plans
variable {S : ℕ → Type} {m n : ℕ} {source : Columns S m} {target : Columns S n}
  {keys : List KeyPair} {columns : Option (List Text)} {plan : ColumnPlan}

/-- What a plan of the columns is. -/
structure Planned (source : Columns S m) (target : Columns S n) (keys : List KeyPair)
    (columns : Option (List Text)) (plan : ColumnPlan) : Prop where
  sourceKeys : ∀ key ∈ keys, key.source ∈ names source
  targetKeys : ∀ key ∈ keys, key.target ∈ names target
  fresh : ∀ name ∈ (renameMap keys).map Prod.snd, name ∉ names target
  named : columns.getD [] ≠ [] → (∀ name ∈ columns.getD [], name ∈ names source) ∧
    (∀ name ∈ columns.getD [], name ∈ names (rename keys target)) ∧
    plan.compared = (columns.getD []).filter fun name => name ∉ keyNames keys
  shared : columns.getD [] = [] → plan.compared =
    (((names source).filter fun name => name ∉ keyNames keys).filter fun name =>
      name ∈ (names (rename keys target)).filter fun name => name ∉ keyNames keys)

theorem requireColumns_eq_ok {wanted : List Text} {side : Side} {u : Unit}
    (h : requireColumns source wanted side = .ok u) : ∀ name ∈ wanted, name ∈ names source := by
  unfold requireColumns at h
  dsimp only at h
  split at h
  · next hmissing =>
    intro name hname
    simpa using List.filter_eq_nil_iff.mp hmissing name hname
  · cases h

theorem rejectCollisions_eq_ok {u : Unit} (h : rejectCollisions keys target = .ok u) :
    ∀ name ∈ (renameMap keys).map Prod.snd, name ∉ names target := by
  unfold rejectCollisions at h
  dsimp only at h
  split at h
  · next hcollisions =>
    intro name hname
    simpa using List.filter_eq_nil_iff.mp hcollisions name hname
  · cases h

theorem planned_of_ok (h : planColumns source target keys columns = .ok plan) :
    Planned source target keys columns plan := by
  obtain ⟨_, hsource, h⟩ := Fallible.bind_eq_ok.mp h
  obtain ⟨_, htarget, h⟩ := Fallible.bind_eq_ok.mp h
  obtain ⟨_, hcollisions, h⟩ := Fallible.bind_eq_ok.mp h
  obtain ⟨compared, hcompared, h⟩ := Fallible.bind_eq_ok.mp h
  obtain ⟨_, -, h⟩ := Fallible.bind_eq_ok.mp h
  obtain ⟨_, -, h⟩ := Fallible.bind_eq_ok.mp h
  obtain rfl := Fallible.pure_eq_ok.mp h
  have hkeys := requireColumns_eq_ok hsource
  have hkeys' := requireColumns_eq_ok htarget
  refine ⟨?_, ?_, rejectCollisions_eq_ok hcollisions, ?_, ?_⟩
  · intro key hkey
    exact hkeys key.source (List.mem_map_of_mem hkey)
  · intro key hkey
    exact hkeys' key.target (List.mem_map_of_mem hkey)
  · intro hwanted
    unfold comparedColumns at hcompared
    rw [if_pos hwanted] at hcompared
    obtain ⟨_, hinSource, hcompared⟩ := Fallible.bind_eq_ok.mp hcompared
    obtain ⟨_, hinTarget, hcompared⟩ := Fallible.bind_eq_ok.mp hcompared
    exact ⟨requireColumns_eq_ok hinSource, requireColumns_eq_ok hinTarget,
      (Fallible.pure_eq_ok.mp hcompared).symm⟩
  · intro hnone
    unfold comparedColumns at hcompared
    rw [if_neg (not_not_intro hnone)] at hcompared
    exact (Fallible.pure_eq_ok.mp hcompared).symm

end Plans

/-! ## Alignments of both -/

section Alignments
variable {S : ℕ → Type} {pd : Pandas S} {m n : ℕ} {source source' : Columns S m}
  {target target' : Columns S n} {keys : List KeyPair} {columns : Option (List Text)}
  {plan plan' : ColumnPlan} {aligned : Aligned m n} {aligned' : Aligned n m}

theorem pairedColumn_swap {name name' : Text}
    (hsource : column? source name = column? source' name')
    (htarget : column? target name = column? target' name') :
    (pairedColumn pd target' source' name').2 = (pairedColumn pd source target name).2.swap := by
  unfold pairedColumn
  rw [hsource, htarget]
  cases column? source' name' with
  | none => cases column? target' name' <;> rfl
  | some s =>
    cases column? target' name' with
    | none => rfl
    | some t => exact normalizePair_swap s t

theorem keyAt_eq_iff {keyCols valueCols : List Text}
    (h : Aligns pd source target keyCols valueCols aligned) {i : Fin m} {j : Fin n} :
    keyAt (sourceKeys aligned.keys) i = keyAt (targetKeys aligned.keys) j ↔
      ∀ name ∈ keyCols, (pairedColumn pd source target name).2.sourceStr i =
        (pairedColumn pd source target name).2.targetStr j := by
  unfold keyAt sourceKeys targetKeys
  rw [h.keys]
  simp only [List.map_map]
  exact List.map_inj_left

/-- Two rows of one key have one key the other way round. -/
theorem BothWays.same_key (h : BothWays source target keys) {i : Fin m} {j : Fin n}
    (hsame : ∀ name ∈ keyNames keys,
      (pairedColumn pd source (rename keys target) name).2.sourceStr i =
        (pairedColumn pd source (rename keys target) name).2.targetStr j) :
    ∀ name ∈ keyNames (keys.map KeyPair.swap),
      (pairedColumn pd target (rename (keys.map KeyPair.swap) source) name).2.sourceStr j =
        (pairedColumn pd target (rename (keys.map KeyPair.swap) source) name).2.targetStr i := by
  intro name hname
  obtain ⟨key, hkey, rfl⟩ := List.mem_map.mp hname
  obtain ⟨other, hother, hsource, htarget⟩ := h.swap.key_columns hkey
  rw [map_swap_swap] at hsource
  obtain ⟨other, hmem, rfl⟩ := List.mem_map.mp hother
  have hpair := @pairedColumn_swap S pd m n _ _ _ _ _ _ htarget.symm hsource.symm
  rw [hpair]
  exact (hsame other.source (List.mem_map_of_mem hmem)).symm

theorem mem_compared (h : Planned source target keys columns plan) {name : Text}
    (hname : name ∈ plan.compared) : name ∉ keyNames keys ∧ name ∈ names source ∧
      name ∈ names (rename keys target) := by
  by_cases hwanted : columns.getD [] = []
  · rw [h.shared hwanted, List.mem_filter, List.mem_filter] at hname
    have htarget : name ∈ (names (rename keys target)).filter fun name => name ∉ keyNames keys := by
      simpa using hname.2
    exact ⟨by simpa using hname.1.2, hname.1.1, List.mem_of_mem_filter htarget⟩
  · obtain ⟨hsource, htarget, hcompared⟩ := h.named hwanted
    rw [hcompared, List.mem_filter] at hname
    exact ⟨by simpa using hname.2, hsource name hname.1, htarget name hname.1⟩

theorem mem_names_rename {name : Text} (hname : name ∈ names target)
    (hkept : name ∉ keys.map KeyPair.target) : name ∈ names (rename keys target) := by
  obtain ⟨⟨before, t⟩, hmem, rfl⟩ := List.mem_map.mp hname
  obtain ⟨key, hkey, -, hkeyname, -⟩ | ⟨hsame, -⟩ := renamed_cases keys before
  · exact absurd (List.mem_map.mpr ⟨key, (mem_of_mapped hkey).1, hkeyname⟩) hkept
  · have hrenamed : (renamed keys before, t) ∈ rename keys target := List.mem_map_of_mem hmem
    rw [hsame] at hrenamed
    exact List.mem_map_of_mem hrenamed

theorem keyNames_swap : keyNames (keys.map KeyPair.swap) = keys.map KeyPair.target := by
  rw [keyNames, List.map_map]
  rfl

theorem targets_swap : (keys.map KeyPair.swap).map KeyPair.target = keyNames keys := by
  rw [keyNames, List.map_map]
  rfl

/-- A column that both sides share is shared the other way round. -/
theorem shared_swap (h : Planned source target keys columns plan)
    (h' : Planned target source (keys.map KeyPair.swap) columns plan')
    (hnone : columns.getD [] = []) {name : Text} (hname : name ∈ plan.compared) :
    name ∈ plan'.compared := by
  obtain ⟨hkey, hsource, hrenamed⟩ := mem_compared h hname
  obtain ⟨htarget, hkey', -⟩ := value_column hkey hrenamed
  have hback : name ∈ names (rename (keys.map KeyPair.swap) source) := by
    apply mem_names_rename hsource
    rw [targets_swap]
    exact hkey
  rw [h'.shared hnone, keyNames_swap]
  have hboth : ∀ {columns : List Text}, name ∈ columns →
      name ∈ columns.filter fun name => name ∉ keys.map KeyPair.target :=
    fun hcolumns => List.mem_filter.mpr ⟨hcolumns, decide_eq_true hkey'⟩
  exact List.mem_filter.mpr ⟨hboth htarget, decide_eq_true (hboth hback)⟩

theorem count_names {name : Text} (h : (column? source name).isSome = true) :
    (names source).count name = 1 := by
  obtain ⟨s, hs⟩ := Option.isSome_iff_exists.mp h
  have hfilter := congrArg List.length (column?_eq_some.mp hs)
  rw [names, List.count_eq_countP, List.countP_map, List.countP_eq_length_filter]
  simpa [Function.comp_def, beq_eq_decide] using hfilter

theorem nodup_shared (h : Planned source target keys columns plan)
    (hfound : ∀ name ∈ plan.compared, (column? source name).isSome = true)
    (hnone : columns.getD [] = []) : plan.compared.Nodup := by
  apply List.nodup_iff_count_le_one.mpr
  intro name
  by_cases hname : name ∈ plan.compared
  · rw [← count_names (hfound name hname), h.shared hnone]
    exact (List.filter_sublist.trans List.filter_sublist).count_le name
  · rw [List.count_eq_zero_of_not_mem hname]
    exact Nat.zero_le 1

/-- A column that is asked for is a key of both sides or of none. -/
theorem BothWays.wanted_key (h : BothWays source target keys)
    (hplan : Planned source target keys columns plan) {name : Text} (htarget : name ∈ names target)
    (hname : name ∈ keyNames keys) : name ∈ keys.map KeyPair.target := by
  by_contra hother
  obtain ⟨key, hkey, rfl⟩ := List.mem_map.mp hname
  have hmapped : key ∈ mappedKeys keys := by
    apply List.mem_filter.mpr
    refine ⟨hkey, ?_⟩
    have hne : key.target ≠ key.source := fun heq =>
      hother (heq ▸ List.mem_map_of_mem hkey)
    simpa using hne
  have hexists : ∃ winner ∈ mappedKeys keys,
      Winners.Wins KeyPair.source (mappedKeys keys) winner ∧ winner.source = key.source :=
    Winners.exists_wins hmapped
  obtain ⟨winner, hwinner, hwins, hsource⟩ := hexists
  have hlookup : (renameMap keys).lookup winner.target = some key.source :=
    renameMap_eq_some.mpr ⟨winner, hwinner, (h.wins_iff hwinner).mpr hwins, rfl, hsource⟩
  have hvalue : key.source ∈ (renameMap keys).map Prod.snd :=
    List.mem_map.mpr ⟨_, mem_of_lookup hlookup, rfl⟩
  exact hplan.fresh _ hvalue htarget

theorem BothWays.compared (h : BothWays source target keys)
    (hplan : Planned source target keys columns plan)
    (hplan' : Planned target source (keys.map KeyPair.swap) columns plan')
    (hfound : ∀ name ∈ plan.compared, (column? source name).isSome = true)
    (hfound' : ∀ name ∈ plan'.compared, (column? target name).isSome = true) :
    plan'.compared.Perm plan.compared := by
  by_cases hnone : columns.getD [] = []
  · apply (List.perm_ext_iff_of_nodup (nodup_shared hplan' hfound' hnone)
      (nodup_shared hplan hfound hnone)).mpr
    intro name
    constructor
    · have hback := hplan
      rw [← map_swap_swap keys] at hback
      exact shared_swap hplan' hback hnone
    · exact shared_swap hplan hplan' hnone
  · obtain ⟨hsource, -, hcompared⟩ := hplan.named hnone
    obtain ⟨htarget, -, hcompared'⟩ := hplan'.named hnone
    rw [hcompared, hcompared']
    apply List.Perm.of_eq
    apply List.filter_congr
    intro name hname
    have hiff : name ∈ keyNames (keys.map KeyPair.swap) ↔ name ∈ keyNames keys := by
      constructor
      · intro hkey
        have hback := h.swap.wanted_key hplan' (hsource name hname) hkey
        rwa [targets_swap] at hback
      · intro hkey
        rw [keyNames_swap]
        exact h.wanted_key hplan (htarget name hname) hkey
    simp [hiff]

def swapColumn (column : Paired m n) : Paired n m := (column.1, column.2.swap)

/-- One alignment is the other one with its sides exchanged. -/
structure Exchanged (aligned : Aligned m n) (aligned' : Aligned n m) : Prop where
  both : aligned'.both.Perm (aligned.both.map Prod.swap)
  onlySrc : aligned'.onlySrc.Perm aligned.onlyTgt
  onlyTgt : aligned'.onlyTgt.Perm aligned.onlySrc
  compared : aligned'.compared.Perm (aligned.compared.map swapColumn)

theorem exchanged_of_aligns (hplan : Planned source target keys columns plan)
    (hplan' : Planned target source (keys.map KeyPair.swap) columns plan')
    (haligns : Aligns pd source (rename keys target) (keyNames keys) plan.compared aligned)
    (haligns' : Aligns pd target (rename (keys.map KeyPair.swap) source)
      (keyNames (keys.map KeyPair.swap)) plan'.compared aligned') : Exchanged aligned aligned' := by
  have hfound : ∀ key ∈ keys, (column? source key.source).isSome = true ∧
      (column? (rename keys target) key.source).isSome = true := fun key hkey =>
    haligns.found key.source (List.mem_append_left _ (List.mem_map_of_mem hkey))
  have hfound' : ∀ key ∈ keys, (column? target key.target).isSome = true ∧
      (column? (rename (keys.map KeyPair.swap) source) key.target).isSome = true := by
    intro key hkey
    apply haligns'.found key.target (List.mem_append_left _ _)
    rw [keyNames_swap]
    exact List.mem_map_of_mem hkey
  have hways : BothWays source target keys :=
    ⟨fun key hkey => (hfound key hkey).1, fun key hkey => (hfound' key hkey).1,
      fun key hkey => (hfound key hkey).2, fun key hkey => (hfound' key hkey).2⟩
  have hkeys : ∀ i j, keyAt (sourceKeys aligned'.keys) j = keyAt (targetKeys aligned'.keys) i ↔
      keyAt (sourceKeys aligned.keys) i = keyAt (targetKeys aligned.keys) j := by
    intro i j
    rw [keyAt_eq_iff haligns, keyAt_eq_iff haligns']
    constructor
    · intro hsame
      have hback := hways.swap.same_key hsame
      rwa [map_swap_swap] at hback
    · exact hways.same_key
  have hnames := hways.compared hplan hplan'
    (fun name hname => (haligns.found name (List.mem_append_right _ hname)).1)
    (fun name hname => (haligns'.found name (List.mem_append_right _ hname)).1)
  refine ⟨?_, ?_, ?_, ?_⟩
  · rw [haligns.both, haligns'.both]
    exact OuterMerge.pairs_exchange hkeys
  · rw [haligns.onlyTgt, haligns'.onlySrc]
    exact OuterMerge.leftOnly_exchange hkeys
  · rw [haligns.onlySrc, haligns'.onlyTgt]
    exact OuterMerge.rightOnly_exchange hkeys
  · rw [haligns.compared, haligns'.compared, List.map_map]
    have hcolumns : ∀ name ∈ plan.compared,
        pairedColumn pd target (rename (keys.map KeyPair.swap) source) name =
          swapColumn (pairedColumn pd source (rename keys target) name) := by
      intro name hname
      obtain ⟨hkey, -, hrenamed⟩ := mem_compared hplan hname
      obtain ⟨hkey', -, hrenamed'⟩ := mem_compared hplan' (hnames.mem_iff.mpr hname)
      have htarget := (value_column hkey hrenamed).2.2
      have hsource := (value_column hkey' hrenamed').2.2
      refine Prod.ext ?_ (pairedColumn_swap hsource.symm htarget)
      show _ = (pairedColumn pd source (rename keys target) name).1
      rw [pairedColumn_fst, pairedColumn_fst]
    have hmap : plan.compared.map (swapColumn ∘ pairedColumn pd source (rename keys target)) =
        plan.compared.map (pairedColumn pd target (rename (keys.map KeyPair.swap) source)) :=
      (List.map_congr_left hcolumns).symm
    rw [hmap]
    exact hnames.map _

end Alignments

end DataQ.Comparison
