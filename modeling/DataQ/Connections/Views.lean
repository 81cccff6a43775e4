import DataQ.Connections.Saves

/-! # Configs as the redirect guard compares them

A config with its defaults filled in. Which of its values are read where a credential is sent, and
why the name the catalog credential is stored under is none of them. -/

namespace DataQ
set_option autoImplicit false

namespace Json

theorem comparable_eq_str {j : Json} {t : Text} : j.comparable = .str t ↔ j = .str t := by
  cases j <;> simp [comparable]

end Json

namespace Connections

/-! ## The fields of a model -/

theorem lookup_filterMap_of_notMem {fields : List ModelField} {value : ModelField → Option Json}
    {key : Text} (h : key ∉ fields.map ModelField.key) :
    (fields.filterMap fun f => (value f).map fun v => (f.key, v)).lookup key = none := by
  induction fields with
  | nil => rfl
  | cons field fields ih =>
    rw [List.map_cons, List.mem_cons, not_or] at h
    rw [List.filterMap_cons]
    cases value field with
    | none => exact ih h.2
    | some v =>
      rw [Option.map_some]
      simp only
      rw [List.lookup_cons, beq_eq_false_iff_ne.mpr h.1]
      exact ih h.2

theorem lookup_filterMap_field {fields : List ModelField} {value : ModelField → Option Json}
    (hkeys : (fields.map ModelField.key).Nodup) {field : ModelField} (h : field ∈ fields) :
    (fields.filterMap fun f => (value f).map fun v => (f.key, v)).lookup field.key =
      value field := by
  induction fields with
  | nil => cases h
  | cons head fields ih =>
    rw [List.map_cons, List.nodup_cons] at hkeys
    rw [List.filterMap_cons]
    rcases List.mem_cons.mp h with rfl | hmem
    · cases hvalue : value field with
      | none => exact lookup_filterMap_of_notMem hkeys.1
      | some v => simp
    · have hne : field.key ≠ head.key := fun he => hkeys.1 (he ▸ List.mem_map_of_mem hmem)
      cases value head with
      | none => exact ih hkeys.2 hmem
      | some v =>
        rw [Option.map_some]
        simp only
        rw [List.lookup_cons, beq_eq_false_iff_ne.mpr hne]
        exact ih hkeys.2 hmem

theorem lookup_model {adapter : Adapter} (hkeys : (adapter.modelFields.map ModelField.key).Nodup)
    {field : ModelField} (h : field ∈ adapter.modelFields) (hostname : Text → Text)
    (raw : Fields) : (adapter.model hostname raw).lookup field.key =
      field.value adapter.byName (adapter.payload hostname raw) :=
  lookup_filterMap_field hkeys h

theorem value_isSome {field : ModelField} (h : field.default.isSome) (byName : Bool)
    (raw : Fields) : (field.value byName raw).isSome := by
  unfold ModelField.value
  split
  · exact h
  · split
    · exact h
    · rfl

/-! ## Writing the name of the catalog credential -/

theorem value_setField {field : ModelField} {key : Text} (h : field.key ≠ key) (value : Json)
    (raw : Fields) : field.value false (setField key value raw) = field.value false raw := by
  have hlookup : field.supplied false (setField key value raw) = field.supplied false raw := by
    simp [ModelField.supplied, lookup_setField_ne h]
  rw [ModelField.value, ModelField.value, hlookup]

theorem filter_named {key : Text} (value : Option Json) :
    (value.map fun v => (key, v)).filter (fun entry => entry.1 ≠ key) = none := by
  cases value <;> simp [Option.filter]

/-- Apart from that name, the Iceberg model does not change. -/
theorem iceberg_model_setField (hostname : Text → Text) (value : Json) (raw : Fields) :
    (iceberg.model hostname (setField catalogSecretName value raw)).filter
        (·.1 ≠ catalogSecretName) =
      (iceberg.model hostname raw).filter (·.1 ≠ catalogSecretName) := by
  rw [Adapter.model, Adapter.model, List.filter_filterMap, List.filter_filterMap]
  refine List.filterMap_congr fun field _ => ?_
  by_cases hkey : field.key = catalogSecretName
  · rw [hkey, filter_named, filter_named]
  · have hvalue : field.value iceberg.byName
        (iceberg.payload hostname (setField catalogSecretName value raw)) =
          field.value iceberg.byName (iceberg.payload hostname raw) :=
      value_setField hkey value raw
    rw [hvalue]

theorem iceberg_catalogSecretName_isSome (hostname : Text → Text) (raw : Fields) :
    ((iceberg.model hostname raw).lookup catalogSecretName).isSome := by
  have hmem : optional "catalog_secret_name" ∈ iceberg.modelFields := by simp [iceberg]
  have hkeys : (iceberg.modelFields.map ModelField.key).Nodup := by decide
  have hlookup := lookup_model hkeys hmem hostname raw
  rw [show catalogSecretName = (optional "catalog_secret_name").key from rfl, hlookup]
  exact value_isSome rfl _ _

theorem iceberg_validateConfig_setField (v : Validators) (connType : Text) (value : Json)
    (raw : Fields) :
    (iceberg.validateConfig v connType (setField catalogSecretName value raw)).map
        (List.filter (·.1 ≠ catalogSecretName)) =
      (iceberg.validateConfig v connType raw).map (List.filter (·.1 ≠ catalogSecretName)) := by
  have hmodel := iceberg_model_setField v.hostname value raw
  have hlookup : ∀ key ≠ catalogSecretName,
      (iceberg.model v.hostname (setField catalogSecretName value raw)).lookup key =
        (iceberg.model v.hostname raw).lookup key := by
    intro key hkey
    rw [← lookup_filter_ne hkey, hmodel, lookup_filter_ne hkey]
  have hmem : (iceberg.modelFields.flatMap iceberg.names).contains catalogSecretName = true := by
    decide
  have hknown := all_keys_setField (p := (iceberg.modelFields.flatMap iceberg.names).contains) hmem
    value raw
  have hneeded : (iceberg.modelFields.all fun field =>
      ((iceberg.model v.hostname (setField catalogSecretName value raw)).lookup
        field.key).isSome) =
      iceberg.modelFields.all fun field =>
        ((iceberg.model v.hostname raw).lookup field.key).isSome := by
    congr 1
    funext field
    by_cases hkey : field.key = catalogSecretName
    · rw [hkey, iceberg_catalogSecretName_isSome, iceberg_catalogSecretName_isSome]
    · rw [hlookup field.key hkey]
  have hauth : iceberg.authTypeKnown
      (iceberg.model v.hostname (setField catalogSecretName value raw)) =
        iceberg.authTypeKnown (iceberg.model v.hostname raw) := by
    rw [Adapter.authTypeKnown, Adapter.authTypeKnown, hlookup authTypeKey (by decide)]
  simp only [Adapter.validateConfig]
  rw [hknown, hauth, hmodel, hneeded]
  split
  · exact congrArg some hmodel
  · rfl

/-- The defaults a view fills in. -/
def filledIn (config model : Fields) : Fields :=
  model.filter fun entry => (config.lookup entry.1).isNone && entry.2 ≠ .null

theorem lookup_filledIn_congr {config config' model model' : Fields} {name key : Text}
    (hkey : key ≠ name) (hconfig : ∀ key ≠ name, config.lookup key = config'.lookup key)
    (hmodel : model.filter (·.1 ≠ name) = model'.filter (·.1 ≠ name)) :
    (filledIn config model).lookup key = (filledIn config' model').lookup key := by
  have hcommute : ∀ config model : Fields, (filledIn config model).filter (·.1 ≠ name) =
      (model.filter (·.1 ≠ name)).filter fun entry =>
        (config.lookup entry.1).isNone && entry.2 ≠ .null := by
    intro config model
    rw [filledIn, List.filter_filter, List.filter_filter]
    congr 1
    funext entry
    exact Bool.and_comm _ _
  rw [← lookup_filter_ne hkey, ← lookup_filter_ne hkey (filledIn config' model'), hcommute,
    hcommute, hmodel]
  congr 1
  refine List.filter_congr fun entry hentry => ?_
  have hne : entry.1 ≠ name := by simpa using (List.mem_filter.mp hentry).2
  rw [hconfig entry.1 hne]

/-- No value of the view but that name depends on it. -/
theorem iceberg_withConfigDefaults_setField (v : Validators) (value : Json) (config : Fields)
    {key : Text} (hkey : key ≠ catalogSecretName) :
    (Saves.withConfigDefaults v "iceberg".toList (setField catalogSecretName value config)).lookup
        key =
      (Saves.withConfigDefaults v "iceberg".toList config).lookup key := by
  have hadapter : getConnectionAdapter "iceberg".toList = some iceberg := rfl
  have hvalid := iceberg_validateConfig_setField v "iceberg".toList value config
  have hconfig : ∀ key ≠ catalogSecretName,
      (setField catalogSecretName value config).lookup key = config.lookup key :=
    fun key hkey => lookup_setField_ne hkey value config
  unfold Saves.withConfigDefaults
  rw [hadapter, Option.bind_some, Option.bind_some]
  cases hnew : iceberg.validateConfig v "iceberg".toList
      (setField catalogSecretName value config) with
  | none =>
    cases hold : iceberg.validateConfig v "iceberg".toList config with
    | none => exact hconfig key hkey
    | some model =>
      rw [hnew, hold] at hvalid
      cases hvalid
  | some model =>
    cases hold : iceberg.validateConfig v "iceberg".toList config with
    | none =>
      rw [hnew, hold] at hvalid
      cases hvalid
    | some model' =>
      rw [hnew, hold, Option.map_some, Option.map_some, Option.some.injEq] at hvalid
      show (_ ++ filledIn _ model).lookup key = (_ ++ filledIn _ model').lookup key
      rw [List.lookup_append, List.lookup_append, hconfig key hkey,
        lookup_filledIn_congr hkey hconfig hvalid]

theorem lookup_withConfigDefaults (v : Validators) (connType : Text) {config : Fields} {key : Text}
    {value : Json} (h : config.lookup key = some value) :
    (Saves.withConfigDefaults v connType config).lookup key = some value := by
  unfold Saves.withConfigDefaults
  split
  · exact h
  · rw [List.lookup_append, h, Option.some_or]

/-! ## Where a credential is sent -/

/-- The destination fields of a slot; none for a slot the type does not have. -/
def slotFields (connType slot : Text) : List Text :=
  ((getConnectionAdapter connType).bind (·.destinationFields.lookup slot)).getD []

/-- `urlparse(url).scheme`. -/
def urlScheme (url : Text) : Text := lower (url.takeWhile (· ≠ ':'))

def scheme (view : Fields) (key : String) : Text := urlScheme (rawText view key)

/-- The adapter of the type puts the stored secret into what it sends: not without authentication,
not to a local path, and an Iceberg catalog only as the property that is named for it. -/
def secretSent (connType : Text) (view : Fields) : Bool :=
  if connType = "gcs".toList then authTypeIsNot "anonymous" view
  else if connType = "trino".toList then authTypeIsNot "none" view
  else if connType = "dbt".toList then scheme view "artifacts_uri" ≠ "file".toList
  else if connType = "iceberg".toList then rawText view "secret_property" ≠ []
  else true

/-- Two configs with the same destination for a slot, defaults filled in. -/
def SameDestination (v : Validators) (connType slot : Text) (config config' : Fields) : Prop :=
  ∀ f ∈ slotFields connType slot,
    (Saves.configValue (Saves.withConfigDefaults v connType config) f).comparable =
      (Saves.configValue (Saves.withConfigDefaults v connType config') f).comparable

theorem sameDestination_iff {v : Validators} {connType slot : Text} {config config' : Fields} :
    Saves.movedFields (Saves.withConfigDefaults v connType config)
        (Saves.withConfigDefaults v connType config') (slotFields connType slot) = [] ↔
      SameDestination v connType slot config config' := by
  simp [Saves.movedFields, SameDestination, List.filter_eq_nil_iff]

theorem SameDestination.refl (v : Validators) (connType slot : Text) (config : Fields) :
    SameDestination v connType slot config config := fun _ _ => rfl

theorem SameDestination.trans {v : Validators} {connType slot : Text} {a b c : Fields}
    (hab : SameDestination v connType slot a b) (hbc : SameDestination v connType slot b c) :
    SameDestination v connType slot a c := fun f hf => (hab f hf).trans (hbc f hf)

theorem configValue_eq_str {config : Fields} {key t : Text} :
    Saves.configValue config key = .str t ↔ config.lookup key = some (.str t) := by
  unfold Saves.configValue
  cases config.lookup key <;> simp

theorem text_congr {view view' : Fields} {key : Text}
    (h : (Saves.configValue view key).comparable = (Saves.configValue view' key).comparable)
    (t : Text) : view.lookup key = some (.str t) ↔ view'.lookup key = some (.str t) := by
  rw [← configValue_eq_str, ← configValue_eq_str, ← Json.comparable_eq_str, h,
    Json.comparable_eq_str]

theorem rawText_congr {view view' : Fields} {key : String}
    (h : (Saves.configValue view key.toList).comparable =
      (Saves.configValue view' key.toList).comparable) : rawText view key = rawText view' key := by
  have hiff := text_congr h
  unfold rawText
  split
  · next t ht => rw [(hiff t).mp ht]
  · next hnone =>
    split
    · next t ht => exact absurd ((hiff t).mpr ht) (hnone t)
    · rfl

theorem authTypeIsNot_congr {view view' : Fields} (t : String)
    (h : (Saves.configValue view authTypeKey).comparable =
      (Saves.configValue view' authTypeKey).comparable) :
    authTypeIsNot t view = authTypeIsNot t view' := by
  unfold authTypeIsNot
  exact decide_eq_decide.mpr (not_congr (text_congr h t.toList))

/-- Whether the secret is sent is read off its destination fields. -/
theorem secretSent_congr {v : Validators} {connType : Text} {config config' : Fields}
    (h : SameDestination v connType Saves.secretField config config') :
    secretSent connType (Saves.withConfigDefaults v connType config) =
      secretSent connType (Saves.withConfigDefaults v connType config') := by
  unfold secretSent
  split
  · next htype =>
    subst htype
    exact authTypeIsNot_congr _ (h authTypeKey (by decide))
  · split
    · next htype =>
      subst htype
      exact authTypeIsNot_congr _ (h authTypeKey (by decide))
    · split
      · next htype =>
        subst htype
        rw [scheme, scheme, rawText_congr (h "artifacts_uri".toList (by decide))]
      · split
        · next htype =>
          subst htype
          rw [rawText_congr (h "secret_property".toList (by decide))]
        · rfl

/-! ## What the guard takes for unused -/

theorem validateConfig_eq_some {adapter : Adapter} {v : Validators} {connType : Text}
    {raw model : Fields} (h : adapter.validateConfig v connType raw = some model) :
    model = adapter.model v.hostname raw := by
  unfold Adapter.validateConfig at h
  simp only at h
  split at h
  · exact (Option.some.inj h).symm
  · cases h

/-- A value that is not the default was supplied. -/
theorem lookup_of_value {field : ModelField} {byName : Bool} {raw : Fields} {value : Json}
    (hname : field.name = field.key) (h : field.value byName raw = some value)
    (hdefault : field.default ≠ some value) : raw.lookup field.key = some value := by
  have hsupplied : field.supplied byName raw = raw.lookup field.key := by
    unfold ModelField.supplied
    rw [hname]
    cases raw.lookup field.key <;> cases byName <;> rfl
  unfold ModelField.value at h
  rw [hsupplied] at h
  split at h
  · exact absurd h hdefault
  · next supplied hlookup =>
    split at h
    · exact absurd h hdefault
    · rw [hlookup, h]

theorem authType_supplied (field : ModelField) {adapter : Adapter} {v : Validators}
    {connType : Text} {raw model : Fields} {t : String} (hhost : adapter.derivedHost = none)
    (hkeys : (adapter.modelFields.map ModelField.key).Nodup)
    (hfield : field ∈ adapter.modelFields) (hkey : field.key = authTypeKey)
    (hname : field.name = field.key) (hdefault : field.default ≠ some (textValue t))
    (hmodel : adapter.validateConfig v connType raw = some model)
    (hrequires : authTypeIsNot t model = false) :
    authTypeIsNot t (Saves.withConfigDefaults v connType raw) = false := by
  have hauth : model.lookup authTypeKey = some (textValue t) := by
    simpa [authTypeIsNot] using hrequires
  have hpayload : adapter.payload v.hostname raw = raw := by
    rw [Adapter.payload, hhost]
  rw [validateConfig_eq_some hmodel, ← hkey, lookup_model hkeys hfield, hpayload] at hauth
  have hraw := lookup_of_value hname hauth hdefault
  rw [hkey] at hraw
  simp [authTypeIsNot, lookup_withConfigDefaults v connType hraw]

theorem adapter_mem {connType : Text} {adapter : Adapter}
    (h : getConnectionAdapter connType = some adapter) : (connType, adapter) ∈ adapters :=
  mem_of_lookup h

theorem optional_types {connType : Text} {adapter : Adapter}
    (h : getConnectionAdapter connType = some adapter) (hoptional : adapter.secretOptional = true)
    (hrequires : adapter.requiresSecret.isSome) :
    connType ∈ keys ["gcs", "trino", "dbt"] := by
  have htable : (adapters.all fun entry => !(entry.2.secretOptional &&
      entry.2.requiresSecret.isSome) || (keys ["gcs", "trino", "dbt"]).contains entry.1) = true := by
    decide
  have hentry := List.all_eq_true.mp htable _ (adapter_mem h)
  simpa [hoptional, hrequires] using hentry

/-- Where the guard takes a config for one that needs no secret, none is sent, but for dbt. -/
theorem unused_not_sent {v : Validators} {connType : Text} {config : Fields}
    (h : Saves.authenticatesWithoutSecret v connType config = .ok true)
    (hdbt : connType ≠ "dbt".toList) :
    secretSent connType (Saves.withConfigDefaults v connType config) = false := by
  unfold Saves.authenticatesWithoutSecret at h
  cases hadapter : getConnectionAdapter connType with
  | none => simp [hadapter] at h
  | some adapter =>
    rw [hadapter] at h
    cases hoptional : adapter.secretOptional with
    | false => simp [hoptional] at h
    | true =>
      cases hmodel : adapter.validateConfig v connType config with
      | none => simp [hoptional, hmodel] at h
      | some model =>
        simp only [hoptional, hmodel, Bool.not_true, Bool.false_eq_true, if_false,
          Except.ok.injEq] at h
        have hrequires : adapter.requiresSecret.isSome := by
          cases hcase : adapter.requiresSecret with
          | none => simp [hcase] at h
          | some _ => rfl
        have htype := optional_types hadapter hoptional hrequires
        simp only [keys, List.map_cons, List.map_nil, List.mem_cons, List.not_mem_nil,
          or_false] at htype
        rcases htype with rfl | rfl | rfl
        · cases hadapter
          have hauth : authTypeIsNot "anonymous" model = false := by simpa [gcs] using h
          exact authType_supplied (defaulted "auth_type" (textValue "service_account_key"))
            rfl (by decide) (by simp [gcs]) rfl rfl (by decide) hmodel hauth
        · cases hadapter
          have hauth : authTypeIsNot "none" model = false := by simpa [trino] using h
          exact authType_supplied (defaulted "auth_type" (textValue "password")).blankable
            rfl (by decide) (by simp [trino]) rfl rfl (by decide) hmodel hauth
        · exact absurd rfl hdbt

end Connections
end DataQ
