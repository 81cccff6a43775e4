import DataQ.Connections.FailedSaves
import DataQ.Connections.Views

/-! # What a successful save has settled

The guards a save got past, the credentials it wrote and the config it ended with. The credential
model of `Credentials` is what these saves do. -/

namespace DataQ.Connections.Saves
open DataQ.Fallible
set_option autoImplicit false

variable {v : Validators} {services : Services} {answers : Answers}

/-! ## The checks -/

theorem slot_settled {connType slot : Text} {stored incoming : Fields} {hasStoredSecret : Bool}
    {secret catalogSecret : Option Text}
    (h : rejectUncredentialedRedirect v connType stored incoming hasStoredSecret secret
      catalogSecret = .ok ()) (hmoved : ¬ SameDestination v connType slot stored incoming) :
    uncredentialedSlot v connType stored incoming hasStoredSecret secret catalogSecret
      (slot, slotFields connType slot) = .ok none := by
  unfold rejectUncredentialedRedirect at h
  cases hadapter : getConnectionAdapter connType with
  | none => simp [hadapter] at h
  | some adapter =>
    simp only [hadapter] at h
    cases hslots : adapter.destinationFields.mapM (uncredentialedSlot v connType stored incoming
        hasStoredSecret secret catalogSecret) with
    | error e => simp [hslots] at h
    | ok slots =>
      have hmissing : slots.filterMap id = [] := by
        simp only [hslots] at h
        split at h
        · assumption
        · cases h
      cases hlookup : adapter.destinationFields.lookup slot with
      | none =>
        refine absurd (fun f hf => ?_) hmoved
        simp [slotFields, hadapter, hlookup] at hf
      | some fields =>
        have hfields : slotFields connType slot = fields := by simp [slotFields, hadapter, hlookup]
        obtain ⟨result, hresult, hslot⟩ := mapM_eq_ok_mem hslots (mem_of_lookup hlookup)
        have hnone : result = none := by
          have := List.filterMap_eq_nil_iff.mp hmissing result hresult
          simpa using this
        rw [hfields, hslot, hnone]

/-- A primary credential stays where it is, is supplied again, or is taken for unused. -/
theorem secret_settled {connType : Text} {stored incoming : Fields} {hasStoredSecret : Bool}
    {secret catalogSecret : Option Text}
    (h : rejectUncredentialedRedirect v connType stored incoming hasStoredSecret secret
      catalogSecret = .ok ()) :
    SameDestination v connType secretField stored incoming ∨ hasStoredSecret = false ∨
      secret.isSome ∨ authenticatesWithoutSecret v connType incoming = .ok true := by
  by_contra hnot
  rw [not_or, not_or, not_or] at hnot
  obtain ⟨hmoved, hstored, hsupplied, hused⟩ := hnot
  have hslot := slot_settled h hmoved
  unfold uncredentialedSlot at hslot
  dsimp only at hslot
  rw [if_neg (mt sameDestination_iff.mp hmoved), if_pos rfl, if_neg (by simp_all)] at hslot
  cases hauth : authenticatesWithoutSecret v connType incoming with
  | error e => simp [hauth] at hslot
  | ok unused =>
    cases unused with
    | false => simp [hauth] at hslot
    | true => exact hused hauth

theorem catalog_settled {connType : Text} {stored incoming : Fields} {hasStoredSecret : Bool}
    {secret catalogSecret : Option Text}
    (h : rejectUncredentialedRedirect v connType stored incoming hasStoredSecret secret
      catalogSecret = .ok ()) :
    SameDestination v connType catalog stored incoming ∨
      (configValue stored catalogSecretName).truthy = false ∨ catalogSecret.isSome := by
  by_contra hnot
  rw [not_or, not_or] at hnot
  obtain ⟨hmoved, hstored, hsupplied⟩ := hnot
  have hslot := slot_settled h hmoved
  have hname : catalog ++ "_secret_name".toList = catalogSecretName := by decide
  unfold uncredentialedSlot at hslot
  dsimp only at hslot
  rw [if_neg (mt sameDestination_iff.mp hmoved), if_neg (by decide), if_pos rfl, hname,
    if_pos (by simp_all)] at hslot
  cases hslot

theorem foreign_settled {config stored : Fields} (h : rejectForeignSecretNames config stored = .ok ())
    {key t : Text} (hkey : isSecretName key = true) (hconfig : config.lookup key = some (.str t)) :
    stored.lookup key = some (.str t) := by
  unfold rejectForeignSecretNames at h
  split at h
  · next hnone =>
    have hentry := List.find?_eq_none.mp hnone _ (mem_of_lookup hconfig)
    simpa [hkey, isText] using hentry
  · cases h

/-- A name the row did not have before is not there unless the request wrote it. -/
theorem carried_settled {config stored : Fields}
    (h : rejectForeignSecretNames config stored = .ok ()) {key t : Text}
    (hkey : isSecretName key = true)
    (hcarried : (carryOverSecretNameKeys stored config).lookup key = some (.str t)) :
    stored.lookup key = some (.str t) := by
  rw [carryOverSecretNameKeys, List.lookup_append] at hcarried
  cases hconfig : config.lookup key with
  | some value =>
    rw [hconfig, Option.some_or] at hcarried
    exact foreign_settled h hkey (hconfig.trans hcarried)
  | none =>
    rw [hconfig, Option.none_or] at hcarried
    have hkeys : (stored.filter fun entry =>
        isSecretName entry.1 && (config.lookup entry.1).isNone).lookup key = stored.lookup key :=
      lookup_filter_key (p := fun k => isSecretName k && (config.lookup k).isNone)
        (by simp [hkey, hconfig]) stored
    rw [← hkeys, hcarried]

theorem extra_iceberg {connType : Text} {config : Fields}
    (h : validateExtraSecretSupported v connType config = .ok ()) :
    connType = "iceberg".toList := by
  unfold validateExtraSecretSupported at h
  dsimp only at h
  cases hadapter : getConnectionAdapter connType with
  | none => simp [hadapter] at h
  | some adapter =>
    have hknown : (adapter.modelFields.flatMap adapter.names).contains catalogSecretName := by
      by_contra hunknown
      have hinvalid : adapter.validateConfig v connType
          (setField catalogSecretName (.str probe) config) = none := by
        unfold Adapter.validateConfig
        dsimp only
        rw [if_neg]
        intro hvalid
        simp only [Bool.and_eq_true, List.all_eq_true] at hvalid
        exact hunknown (hvalid.1.1.1 (catalogSecretName, .str probe)
          (mem_of_lookup (lookup_setField_self _ _ config)))
      simp [hadapter, hinvalid] at h
    have htable : (adapters.all fun entry =>
        !(entry.2.modelFields.flatMap entry.2.names).contains catalogSecretName ||
          entry.1 = "iceberg".toList) = true := by
      decide
    have hentry := List.all_eq_true.mp htable _ (adapter_mem hadapter)
    dsimp only at hentry
    rw [hknown] at hentry
    exact of_decide_eq_true hentry

theorem vetConfig_settled {row : Row} {update : Update} {effective : Fields}
    (h : vetConfig v row update = .ok effective) :
    update.config = none ∧ effective = row.config ∨
      ∃ config, update.config = some config ∧
        effective = carryOverSecretNameKeys row.config config ∧
        rejectForeignSecretNames config row.config = .ok () ∧
        rejectUncredentialedRedirect v row.connType row.config effective row.secretRef.isSome
          update.secret update.catalogSecret = .ok () := by
  unfold vetConfig at h
  cases hconfig : update.config with
  | none =>
    rw [hconfig] at h
    cases h
    exact .inl ⟨rfl, rfl⟩
  | some config =>
    rw [hconfig] at h
    obtain ⟨_, _, h⟩ := bind_eq_ok.mp h
    obtain ⟨_, hforeign, h⟩ := bind_eq_ok.mp h
    obtain ⟨_, hguard, h⟩ := bind_eq_ok.mp h
    obtain ⟨_, _, h⟩ := bind_eq_ok.mp h
    cases h
    exact .inr ⟨config, rfl, rfl, hforeign, hguard⟩

theorem vetExtraSecret_iceberg {connType : Text} {config : Fields} {catalogSecret : Option Text}
    (h : vetExtraSecret v connType config catalogSecret = .ok ()) (hsome : catalogSecret.isSome) :
    connType = "iceberg".toList := by
  rw [vetExtraSecret, if_pos hsome] at h
  exact extra_iceberg h

theorem empty_settled {secret catalogSecret : Option Text}
    (h : rejectEmptyCredentials secret catalogSecret = .ok ()) :
    credentialsAccepted secret catalogSecret = true := by
  unfold rejectEmptyCredentials at h
  split at h
  · cases h
  · next hsecret =>
    split at h
    · cases h
    · next hcatalog => simp [credentialsAccepted, hsecret, hcatalog]

theorem vetUpdate_settled {world : World} {update : Update} {vetted : Vetted}
    (h : vetUpdate services answers world update = .ok vetted) :
    vetConfig services.validators world.row update = .ok vetted.effectiveConfig ∧
      (update.catalogSecret.isSome → world.row.connType = "iceberg".toList) ∧
      credentialsAccepted update.secret update.catalogSecret = true := by
  unfold vetUpdate at h
  dsimp only at h
  obtain ⟨_, hempty, h⟩ := bind_eq_ok.mp h
  obtain ⟨_, _, h⟩ := bind_eq_ok.mp h
  obtain ⟨effective, heffective, h⟩ := bind_eq_ok.mp h
  obtain ⟨_, hextra, h⟩ := bind_eq_ok.mp h
  obtain ⟨_, _, h⟩ := bind_eq_ok.mp h
  obtain ⟨_, _, h⟩ := bind_eq_ok.mp h
  cases h
  exact ⟨heffective, vetExtraSecret_iceberg hextra, empty_settled hempty⟩

theorem vetCreation_settled {new : Creation} (h : vetCreation v answers new = .ok ()) :
    rejectForeignSecretNames new.config [] = .ok () ∧
      (new.catalogSecret.isSome → new.connType = "iceberg".toList) := by
  unfold vetCreation at h
  obtain ⟨_, _, h⟩ := bind_eq_ok.mp h
  obtain ⟨_, _, h⟩ := bind_eq_ok.mp h
  obtain ⟨_, _, h⟩ := bind_eq_ok.mp h
  obtain ⟨_, hforeign, h⟩ := bind_eq_ok.mp h
  obtain ⟨_, hextra, _⟩ := bind_eq_ok.mp h
  exact ⟨hforeign, vetExtraSecret_iceberg hextra⟩

/-! ## The credentials and the config -/

theorem lastWritten_mem {writes : List (Text × Text)} {ref value : Text}
    (h : lastWritten writes ref = some value) : (ref, value) ∈ writes := by
  induction writes with
  | nil => cases h
  | cons write writes ih =>
    obtain ⟨name, written⟩ := write
    rw [lastWritten] at h
    cases hrest : lastWritten writes ref with
    | some _ =>
      rw [hrest] at h
      exact List.mem_cons_of_mem _ (ih (hrest.trans h))
    | none =>
      rw [hrest, Option.none_or] at h
      split at h
      · next hname =>
        cases h
        rw [hname]
        exact List.mem_cons_self
      · cases h

theorem lastWritten_isSome {writes : List (Text × Text)} {ref value : Text}
    (h : (ref, value) ∈ writes) : (lastWritten writes ref).isSome := by
  induction writes with
  | nil => cases h
  | cons write writes ih =>
    rw [lastWritten, Option.isSome_or]
    rcases List.mem_cons.mp h with rfl | hmem
    · simp
    · simp [ih hmem]

/-- What a slot presents after some writes was written just now, or was there before. -/
theorem presented_cases {ref : Option Text} {store : SecretStore} {writes : List (Text × Text)}
    {value : Text} (h : ref.bind (writeAll store writes) = some value) :
    value ∈ writes.map Prod.snd ∨
      ∃ name, ref = some name ∧ lastWritten writes name = none ∧ store name = some value := by
  obtain ⟨name, hname, hvalue⟩ := Option.bind_eq_some_iff.mp h
  rw [writeAll_apply] at hvalue
  cases hlast : lastWritten writes name with
  | some written =>
    rw [hlast, Option.some_or] at hvalue
    cases hvalue
    exact .inl (List.mem_map_of_mem (lastWritten_mem hlast))
  | none =>
    rw [hlast, Option.none_or] at hvalue
    exact .inr ⟨name, hname, hlast, hvalue⟩

theorem updateConnection_saved {world : World} {update : Update}
    (h : (updateConnection services answers world update).1 = none) :
    ∃ vetted, vetUpdate services answers world update = .ok vetted ∧
      taken answers update.catalogSecret update.secret = true ∧
      (updateConnection services answers world update).2.row =
        savedRow services answers world update vetted ∧
      (updateConnection services answers world update).2.store = writeAll world.store
        (landedSecrets services answers update.catalogSecret update.secret
          (world.row.edited update vetted)) := by
  cases hvet : vetUpdate services answers world update with
  | error e =>
    rw [updateConnection_refused hvet] at h
    cases h
  | ok vetted =>
    have houtcome := updateConnection_outcome hvet
    have hcommits : UpdateCommits answers world update := by
      by_contra hnot
      have hraises := houtcome.raises.mpr fun hboth => hnot hboth.1
      rw [h] at hraises
      cases hraises
    exact ⟨vetted, rfl, hcommits.1, houtcome.committed hcommits, houtcome.store_eq⟩

theorem landed_values {catalogSecret secret : Option Text} {row : Row} {write : Text × Text}
    (h : write ∈ landedSecrets services answers catalogSecret secret row) :
    write.2 ∈ catalogSecret.toList ++ secret.toList := by
  have hsecret : write ∈ landedSecret services answers secret row → write.2 ∈ secret.toList := by
    intro hmem
    unfold landedSecret at hmem
    cases secret with
    | none => cases hmem
    | some value =>
      dsimp only at hmem
      split at hmem
      · rw [List.mem_singleton.mp hmem]
        exact List.mem_singleton_self value
      · cases hmem
  unfold landedSecrets at h
  cases catalogSecret with
  | none => exact List.mem_append_right _ (hsecret h)
  | some value =>
    dsimp only at h
    split at h
    · rcases List.mem_cons.mp h with rfl | hmem
      · exact List.mem_append_left _ (List.mem_singleton_self value)
      · exact List.mem_append_right _ (hsecret hmem)
    · cases h

theorem landed_primary (services : Services) {catalogSecret : Option Text} {secret : Text}
    (row : Row)
    (h : taken answers catalogSecret (some secret) = true) :
    (row.primaryRef services.nfkd, secret) ∈
      landedSecrets services answers catalogSecret (some secret) row := by
  have hwritten : answers.secretWritten = true := by simp_all [taken]
  have hlanded : landedSecret services answers (some secret) row =
      [(row.primaryRef services.nfkd, secret)] := by
    rw [landedSecret, if_pos hwritten]
  unfold landedSecrets
  cases catalogSecret with
  | none =>
    rw [hlanded]
    exact List.mem_singleton_self _
  | some value =>
    have hcatalog : answers.catalogWritten = true := by simp_all [taken]
    simp only [hcatalog, if_true, hlanded]
    exact List.mem_cons_of_mem _ (List.mem_singleton_self _)

theorem landed_catalog (services : Services) {catalogSecret : Text} {secret : Option Text}
    (row : Row)
    (h : taken answers (some catalogSecret) secret = true) :
    (row.catalogRef services.nfkd, catalogSecret) ∈
      landedSecrets services answers (some catalogSecret) secret row := by
  have hcatalog : answers.catalogWritten = true := by simp_all [taken]
  unfold landedSecrets
  simp only [hcatalog, if_true]
  exact List.mem_cons_self

/-- The values of a save are the ones it supplies. -/
theorem written_supplied {catalogSecret secret : Option Text} {row : Row} {value : Text}
    (h : value ∈ (landedSecrets services answers catalogSecret secret row).map Prod.snd) :
    value ∈ catalogSecret.toList ++ secret.toList := by
  obtain ⟨write, hwrite, hvalue⟩ := List.mem_map.mp h
  rw [← hvalue]
  exact landed_values hwrite

/-- The config a save ends with. -/
def savedConfig (services : Services) (row : Row) (catalogSecret : Option Text) : Fields :=
  if catalogSecret.isSome then
    setField catalogSecretName (.str (row.catalogRef services.nfkd)) row.config
  else row.config

theorem core_withSecrets (services : Services) (answers : Answers)
    (catalogSecret secret : Option Text) (row : Row) :
    let saved := row.withSecrets services answers catalogSecret secret
    saved.config = savedConfig services row catalogSecret ∧ saved.connType = row.connType ∧
      saved.secretRef =
        if secret.isSome then some (row.primaryRef services.nfkd) else row.secretRef := by
  unfold Row.withSecrets savedConfig
  cases catalogSecret <;> cases secret <;> exact ⟨rfl, rfl, rfl⟩

/-- The name of the catalog credential decides on no destination. -/
theorem savedConfig_same (v : Validators) (services : Services) (row : Row)
    (catalogSecret : Option Text) (slot : Text)
    (hslot : slot = secretField ∨ slot = catalog)
    (hiceberg : catalogSecret.isSome → row.connType = "iceberg".toList) :
    SameDestination v row.connType slot row.config (savedConfig services row catalogSecret) := by
  unfold savedConfig
  split
  · next hsome =>
    rw [hiceberg hsome]
    intro f hf
    have hne : f ≠ catalogSecretName := by
      rintro rfl
      revert hf
      rcases hslot with rfl | rfl <;> decide
    rw [configValue, configValue, iceberg_withConfigDefaults_setField v _ row.config hne]
  · exact .refl v row.connType slot row.config

theorem savedRow_fields (services : Services) (answers : Answers) (world : World)
    (update : Update) (vetted : Vetted) :
    let edited := world.row.edited update vetted
    let saved := savedRow services answers world update vetted
    saved.config = savedConfig services edited update.catalogSecret ∧
      saved.connType = world.row.connType ∧
      saved.secretRef =
        if update.secret.isSome then some (edited.primaryRef services.nfkd)
        else world.row.secretRef := by
  have hsettled := core_settled answers ((world.row.edited update vetted).withSecrets services
    answers update.catalogSecret update.secret) update vetted
  have hedited := core_edited world.row update vetted
  obtain ⟨hconfig, htype, href⟩ := core_withSecrets services answers update.catalogSecret
    update.secret (world.row.edited update vetted)
  refine ⟨(congrArg Prod.snd hsettled).trans hconfig, ?_, ?_⟩
  · exact (congrArg (·.1.connType) hsettled).trans (htype.trans (congrArg (·.1.connType) hedited))
  · refine (congrArg (·.1.secretRef) hsettled).trans (href.trans ?_)
    rw [show (world.row.edited update vetted).secretRef = world.row.secretRef from
      congrArg (·.1.secretRef) hedited]

/-- What a successful update has done, as far as credentials are concerned. -/
structure UpdateSaved (services : Services) (answers : Answers) (world after : World)
    (update : Update) (vetted : Vetted) : Prop where
  settled : vetConfig services.validators world.row update = .ok vetted.effectiveConfig
  taken : taken answers update.catalogSecret update.secret = true
  store : after.store = writeAll world.store (landedSecrets services answers update.catalogSecret
    update.secret (world.row.edited update vetted))
  connType : after.row.connType = world.row.connType
  config : after.row.config =
    savedConfig services (world.row.edited update vetted) update.catalogSecret
  editedConfig : (world.row.edited update vetted).config = vetted.effectiveConfig
  secretRef : after.row.secretRef =
    if update.secret.isSome then
      some ((world.row.edited update vetted).primaryRef services.nfkd)
    else world.row.secretRef
  same : ∀ slot, slot = secretField ∨ slot = catalog →
    SameDestination services.validators world.row.connType slot vetted.effectiveConfig
      after.row.config

theorem updateSaved {world : World} {update : Update}
    (h : (updateConnection services answers world update).1 = none) :
    ∃ vetted, UpdateSaved services answers world
      (updateConnection services answers world update).2 update vetted := by
  obtain ⟨vetted, hvet, htaken, hrow, hstore⟩ := updateConnection_saved h
  obtain ⟨hvetted, hiceberg, _⟩ := vetUpdate_settled hvet
  obtain ⟨hconfig, htype, href⟩ := savedRow_fields services answers world update vetted
  have hedited := core_edited world.row update vetted
  have heditedConfig : (world.row.edited update vetted).config = vetted.effectiveConfig :=
    congrArg Prod.snd hedited
  have heditedType : (world.row.edited update vetted).connType = world.row.connType :=
    congrArg (·.1.connType) hedited
  rw [← hrow] at hconfig htype href
  refine ⟨vetted, hvetted, htaken, hstore, htype, hconfig, heditedConfig, href, ?_⟩
  intro slot hslot
  have hsame := savedConfig_same services.validators services
    (world.row.edited update vetted) update.catalogSecret slot hslot
    (fun hsome => heditedType.trans (hiceberg hsome))
  rwa [heditedType, heditedConfig, ← hconfig] at hsame

theorem configText_eq {config : Fields} {key t : Text} :
    configText config key = some t ↔ config.lookup key = some (.str t) := by
  unfold configText
  split
  · next value hvalue => simp [hvalue]
  · next hnone => exact ⟨fun h => (nomatch h), fun h => absurd h (hnone t)⟩

def catalogRef? (config : Fields) : Option Text :=
  (configText config catalogSecretName).filter (· ≠ [])

/-- The writes of a create: the primary credential first, the catalog one last. -/
def createdWrites (services : Services) (answers : Answers) (new : Creation) (first : Row) :
    List (Text × Text) :=
  landedSecret services answers new.secret new.row ++
    landedSecrets services answers new.catalogSecret none first

/-- What a successful create has done; `first` is the row between the two credentials. -/
structure CreateSaved (services : Services) (answers : Answers) (store store' : SecretStore)
    (new : Creation) (first row : Row) : Prop where
  foreign : rejectForeignSecretNames new.config [] = .ok ()
  tookSecret : taken answers none new.secret = true
  tookCatalog : taken answers new.catalogSecret none = true
  store : store' = writeAll store (createdWrites services answers new first)
  firstConfig : first.config = new.config
  config : row.config = savedConfig services first new.catalogSecret
  secretRef : row.secretRef =
    if new.secret.isSome then some (new.row.primaryRef services.nfkd) else none

theorem createConnection_saved {others : List (Text × Text)} {store store' : SecretStore}
    {new : Creation} {row : Row}
    (h : createConnection services answers others store new = (none, some row, store')) :
    ∃ first, CreateSaved services answers store store' new first row := by
  unfold createConnection at h
  split at h
  · cases h
  · next hvet =>
    split at h
    · cases h
    · split at h
      · cases h
      · next first store₁ hsecret =>
        obtain ⟨hfirst, hstore₁, htook⟩ := writeSecret_some hsecret
        split at h
        · cases h
        · next last store₂ hcatalog =>
          obtain ⟨hlast, hstore₂, htaken⟩ := writeCatalogSecret_some none hcatalog
          split at h
          · cases h
          · cases h
            obtain ⟨hfirstConfig, _, hfirstRef⟩ := core_withSecrets services answers none
              new.secret new.row
            obtain ⟨hlastConfig, _, hlastRef⟩ := core_withSecrets services answers
              new.catalogSecret none first
            have hcore := core_applyTestOutcome answers last (!new.skipTest) false
            rw [← hfirst] at hfirstConfig hfirstRef
            rw [← hlast] at hlastConfig hlastRef
            refine ⟨first, (vetCreation_settled hvet).1, htook, ?_, ?_, hfirstConfig, ?_, ?_⟩
            · rw [← htaken]
              simp [taken]
            · rw [createdWrites, writeAll_append, ← hstore₁]
              exact hstore₂
            · exact (congrArg Prod.snd hcore).trans hlastConfig
            · exact (congrArg (·.1.secretRef) hcore).trans (hlastRef.trans hfirstRef)

theorem CreateSaved.supplied {store store' : SecretStore} {new : Creation} {first row : Row}
    {value : Text} (_ : CreateSaved services answers store store' new first row)
    (h : value ∈ (createdWrites services answers new first).map Prod.snd) :
    value ∈ new.secret.toList ++ new.catalogSecret.toList := by
  rw [createdWrites, List.map_append, List.mem_append] at h
  rcases h with hsecret | hcatalog
  · have hvalue : value ∈ (none : Option Text).toList ++ new.secret.toList :=
      written_supplied hsecret
    exact List.mem_append_left _ (by simpa using hvalue)
  · have hvalue := written_supplied hcatalog
    exact List.mem_append_right _ (by simpa using hvalue)

theorem CreateSaved.secret_written {store store' : SecretStore} {new : Creation}
    {first row : Row} {value : Text}
    (hsaved : CreateSaved services answers store store' new first row)
    (h : row.secretRef.bind store' = some value) :
    value ∈ new.secret.toList ++ new.catalogSecret.toList := by
  rw [hsaved.store] at h
  rcases presented_cases h with hwritten | ⟨name, hname, hlast, _⟩
  · exact hsaved.supplied hwritten
  · have htook := hsaved.tookSecret
    rw [hsaved.secretRef] at hname
    cases hsecret : new.secret with
    | none => simp [hsecret] at hname
    | some secret =>
      have hmem : (new.row.primaryRef services.nfkd, secret) ∈
          createdWrites services answers new first := by
        rw [hsecret] at htook
        have := landed_primary services new.row htook
        rw [createdWrites, hsecret]
        exact List.mem_append_left _ this
      rw [hsecret, if_pos Option.isSome_some, Option.some.injEq] at hname
      rw [hname] at hmem
      have hisSome := lastWritten_isSome hmem
      rw [hlast] at hisSome
      cases hisSome

theorem CreateSaved.catalog_written {store store' : SecretStore} {new : Creation}
    {first row : Row} {value : Text}
    (hsaved : CreateSaved services answers store store' new first row)
    (h : (catalogRef? row.config).bind store' = some value) :
    value ∈ new.secret.toList ++ new.catalogSecret.toList := by
  rw [hsaved.store] at h
  rcases presented_cases h with hwritten | ⟨name, hname, hlast, _⟩
  · exact hsaved.supplied hwritten
  · obtain ⟨htext, _⟩ := Option.filter_eq_some_iff.mp hname
    have hlookup := configText_eq.mp htext
    have htook := hsaved.tookCatalog
    rw [hsaved.config] at hlookup
    cases hsecret : new.catalogSecret with
    | none =>
      rw [hsecret, savedConfig, if_neg (by simp), hsaved.firstConfig] at hlookup
      have hstored := foreign_settled hsaved.foreign (by decide) hlookup
      rw [List.lookup_nil] at hstored
      cases hstored
    | some secret =>
      rw [hsecret, savedConfig, if_pos Option.isSome_some, lookup_setField_self] at hlookup
      have hset : first.catalogRef services.nfkd = name := by simpa using hlookup
      have hmem : (first.catalogRef services.nfkd, secret) ∈
          createdWrites services answers new first := by
        rw [hsecret] at htook
        have := landed_catalog services first htook
        rw [createdWrites, hsecret]
        exact List.mem_append_right _ this
      rw [hset] at hmem
      have hisSome := lastWritten_isSome hmem
      rw [hlast] at hisSome
      cases hisSome

/-! ## The credentials of a save are those of the credential model -/

theorem configName_stored (config : Fields) :
    (configName config).stored = configText config catalogSecretName := by
  unfold configName configText
  cases config.lookup catalogSecretName with
  | none => rfl
  | some value => cases value <;> rfl

theorem configName_text {config : Fields} {t : Text} :
    configName config = .text t ↔ config.lookup catalogSecretName = some (.str t) := by
  unfold configName
  cases config.lookup catalogSecretName with
  | none => simp
  | some value => cases value <;> simp

theorem configName_carried (config stored : Fields) :
    configName (carryOverSecretNameKeys stored config) =
      carryOver (configName stored) (configName config) := by
  have hcarried : (carryOverSecretNameKeys stored config).lookup catalogSecretName =
      (config.lookup catalogSecretName).or (stored.lookup catalogSecretName) := by
    rw [carryOverSecretNameKeys, List.lookup_append]
    cases hconfig : config.lookup catalogSecretName with
    | some value => rw [Option.some_or, Option.some_or]
    | none =>
      rw [Option.none_or, Option.none_or]
      exact lookup_filter_key (p := fun k => isSecretName k && (config.lookup k).isNone)
        (by rw [hconfig]; decide) stored
  unfold configName carryOver
  rw [hcarried]
  cases config.lookup catalogSecretName with
  | none => rfl
  | some value => cases value <;> rfl

theorem secretNames_accepted {config stored : Fields}
    (h : rejectForeignSecretNames config stored = .ok ()) :
    secretNameAccepted (configName config) (some (configName stored)) = true := by
  cases hname : configName config with
  | absent => rfl
  | null => rfl
  | text t =>
    have hstored := foreign_settled h (by decide) (configName_text.mp hname)
    rw [secretNameAccepted, configName_text.mpr hstored]
    exact decide_eq_true rfl

theorem edited_connection {row : Row} {update : Update} {vetted : Vetted}
    (h : vetConfig v row update = .ok vetted.effectiveConfig) :
    (row.edited update vetted).connection =
        row.connection.updated update.name (update.config.map configName) ∧
      (update.config.map configName).all
        (secretNameAccepted · (some row.connection.catalogSecretName)) = true := by
  have hedited := congrArg Prod.fst (core_edited row update vetted)
  rcases vetConfig_settled h with ⟨hnone, heffective⟩ | ⟨config, hsome, heffective, hforeign, _⟩
  · rw [hnone, Option.map_none]
    refine ⟨hedited.trans ?_, rfl⟩
    rw [heffective]
    rfl
  · rw [hsome, Option.map_some]
    refine ⟨hedited.trans ?_, secretNames_accepted hforeign⟩
    rw [heffective, configName_carried]
    rfl

/-- What the credential model writes for an accepted update. -/
def writeCredentials (nfkd : Text → Text) (conn : Connection) (secret catalogSecret : Option Text)
    (store : SecretStore) : Connection × SecretStore :=
  let (conn, store) := match catalogSecret with
    | none => (conn, store)
    | some s => writeExtraSecret nfkd conn s store
  match secret with
  | none => (conn, store)
  | some s =>
    let ref := orMint conn.secretRef (conn.mint nfkd [])
    ({ conn with secretRef := some ref }, store.set ref s)

theorem updateConnection_accepted {nfkd : Text → Text} {conn : Connection} {name : Option Text}
    {payload : Option ConfigName} {secret catalogSecret : Option Text} {store : SecretStore}
    (haccepted : credentialsAccepted secret catalogSecret = true)
    (hnames : payload.all (secretNameAccepted · (some conn.catalogSecretName)) = true) :
    Connections.updateConnection nfkd conn name payload secret catalogSecret store =
      some (writeCredentials nfkd (conn.updated name payload) secret catalogSecret store) := by
  rw [Connections.updateConnection, haccepted, hnames, Bool.and_self, if_pos rfl]
  rfl

theorem writeCredentials_connection {catalogSecret secret : Option Text} (row : Row)
    (store : SecretStore) (htaken : taken answers catalogSecret secret = true) :
    writeCredentials services.nfkd row.connection secret catalogSecret store =
      ((row.withSecrets services answers catalogSecret secret).connection,
        writeAll store (landedSecrets services answers catalogSecret secret row)) := by
  have hprimary : ∀ value, secret = some value →
      landedSecret services answers secret row = [(row.primaryRef services.nfkd, value)] := by
    rintro value rfl
    have hwritten : answers.secretWritten = true := by simp_all [taken]
    rw [landedSecret, if_pos hwritten]
  cases catalogSecret with
  | none =>
    cases secret with
    | none => rfl
    | some value =>
      rw [landedSecrets, hprimary value rfl]
      rfl
  | some catalogValue =>
    have hcatalog : answers.catalogWritten = true := by simp_all [taken]
    have hextra : writeExtraSecret services.nfkd row.connection catalogValue store =
        ((row.withCatalogRef services.nfkd).connection,
          store.set (row.catalogRef services.nfkd) catalogValue) := by
      have href : orMint row.connection.catalogSecretName.stored
          (row.connection.mint services.nfkd catalog) = row.catalogRef services.nfkd := by
        rw [show row.connection.catalogSecretName = configName row.config from rfl,
          configName_stored]
        rfl
      have hname : configName (row.withCatalogRef services.nfkd).config =
          .text (row.catalogRef services.nfkd) :=
        configName_text.mpr (lookup_setField_self _ _ _)
      have hconn : (row.withCatalogRef services.nfkd).connection =
          { row.connection with catalogSecretName := .text (row.catalogRef services.nfkd) } :=
        congrArg (fun name => { row.connection with catalogSecretName := name }) hname
      rw [writeExtraSecret, href, hconn]
    rw [landedSecrets, if_pos hcatalog, writeCredentials, hextra]
    cases secret with
    | none => rfl
    | some value =>
      rw [hprimary value rfl]
      rfl

/-- A successful update writes the credentials the credential model says it does. -/
theorem updateConnection_refines {world : World} {update : Update}
    (h : (updateConnection services answers world update).1 = none) :
    Connections.updateConnection services.nfkd world.row.connection update.name
        (update.config.map configName) update.secret update.catalogSecret world.store =
      some ((updateConnection services answers world update).2.row.connection,
        (updateConnection services answers world update).2.store) := by
  obtain ⟨vetted, hvet, htaken, hrow, hstore⟩ := updateConnection_saved h
  obtain ⟨hvetted, _, haccepted⟩ := vetUpdate_settled hvet
  obtain ⟨hedited, hnames⟩ := edited_connection hvetted
  have hcore : (savedRow services answers world update vetted).connection =
      ((world.row.edited update vetted).withSecrets services answers update.catalogSecret
        update.secret).connection :=
    congrArg Prod.fst (core_settled answers _ update vetted)
  rw [updateConnection_accepted haccepted hnames, ← hedited,
    writeCredentials_connection _ _ htaken, hrow, hstore, hcore]

end DataQ.Connections.Saves
