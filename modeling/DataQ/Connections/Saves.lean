import DataQ.Connections.Adapters
import DataQ.Connections.Credentials
import DataQ.Foundations.Fallible

/-! # Saving a connection

`create_connection`, `update_connection` and `reauth_connection`: what each refuses, and what it
writes where. The row is written by the commit; a credential goes to the secret store before it. -/

namespace DataQ.Connections.Saves
set_option autoImplicit false

/-- The stored row, apart from the bookkeeping of the pollers and the times the database keeps. -/
structure Row where
  id : Text
  name : Text
  connType : Text
  env : Text
  config : Fields
  secretRef : Option Text
  tags : List Text
  inventorySyncLastAttemptedAt : Option ℕ
  inventorySyncLastError : Option Text
  inventorySyncFailingSince : Option ℕ
  engineCapabilities : Option Fields
  credentialExpiresAt : Option ℕ
  credentialExpiryCheckedAt : Option ℕ
  lastAuthSuccessAt : Option ℕ
  lastAuthError : Option Text
  consecutiveAuthFailures : ℕ
  deriving DecidableEq

/-- The errors of a save, with the fields their detail names. -/
inductive SaveError
  | notFound
  | emptyCredential (field : Text)
  | configInvalid
  | envInvalid
  | foreignSecretReference (field : Text)
  | credentialRedirect (fields required : List Text)
  | credentialRequired
  | extraCredentialRefused (field : Text)
  | secretStoreUnavailable
  | testFailed
  | tagNameInvalid
  | secretWrite
  | conflict
  | database
  | afterCommit
  deriving DecidableEq

/-- What the service takes from elsewhere: the validators, Unicode, tags and expiry dates. -/
structure Services where
  validators : Validators
  nfkd : Text → Text
  normalizeTagName : Text → Option Text
  credentialExpiry : Text → Fields → Text → Option ℕ

/-- Services that take every text as it is. -/
def plainServices : Services where
  validators := ⟨id, fun _ _ => true⟩
  nfkd := id
  normalizeTagName := some
  credentialExpiry := fun _ _ _ => none

/-- How the systems outside answer one call: whether the store can be read, the datasource
accepts the credentials, each secret write is taken, the commit goes through apart from the unique
constraint, and what follows the commit does. -/
structure Answers where
  storeRead : Bool := true
  connects : Bool := true
  capabilities : Fields := []
  catalogWritten : Bool := true
  secretWritten : Bool := true
  committed : Bool := true
  settled : Bool := true
  now : ℕ := 0

structure World where
  row : Row
  /-- The `(name, env)` of the other rows, which the unique constraint compares with. -/
  others : List (Text × Text)
  store : SecretStore

/-! ## What a save refuses -/

def secretField : Text := "secret".toList

def catalogSecretField : Text := "catalog_secret".toList

/-- `if …: raise …`. -/
def refuseIf (refused : Bool) (error : SaveError) : Except SaveError Unit :=
  if refused then .error error else .ok ()

def rejectEmptyCredentials (secret catalogSecret : Option Text) : Except SaveError Unit :=
  if secret = some [] then .error (.emptyCredential secretField)
  else if catalogSecret = some [] then .error (.emptyCredential catalogSecretField)
  else .ok ()

def validatedConfig (v : Validators) (connType : Text) (config : Fields) : Except SaveError Unit :=
  match (getConnectionAdapter connType).bind (·.validateConfig v connType config) with
  | none => .error .configInvalid
  | some _ => .ok ()

def isText : Json → Bool
  | .str _ => true
  | _ => false

/-- The keys of `stored` are none for a row that is not there yet. -/
def rejectForeignSecretNames (config stored : Fields) : Except SaveError Unit :=
  match config.find? fun entry =>
      isSecretName entry.1 && isText entry.2 && stored.lookup entry.1 ≠ some entry.2 with
  | none => .ok ()
  | some entry => .error (.foreignSecretReference entry.1)

def withConfigDefaults (v : Validators) (connType : Text) (config : Fields) : Fields :=
  match (getConnectionAdapter connType).bind (·.validateConfig v connType config) with
  | none => config
  | some model =>
    config ++ model.filter fun entry => (config.lookup entry.1).isNone && entry.2 ≠ .null

def authenticatesWithoutSecret (v : Validators) (connType : Text) (config : Fields) :
    Except SaveError Bool :=
  match getConnectionAdapter connType with
  | none => .ok false
  | some adapter =>
    if !adapter.secretOptional then .ok false
    else match adapter.validateConfig v connType config with
      | none => .error .configInvalid
      | some model => .ok (adapter.requiresSecret.any fun requires => !requires model)

/-- `config.get(key)`. -/
def configValue (config : Fields) (key : Text) : Json := (config.lookup key).getD .null

def movedFields (storedView incomingView : Fields) (fields : List Text) : List Text :=
  fields.filter fun f =>
    (configValue storedView f).comparable ≠ (configValue incomingView f).comparable

/-- One turn of the loop over the slots: the credential that is missing and the fields it is
missing for. -/
def uncredentialedSlot (v : Validators) (connType : Text) (stored incoming : Fields)
    (hasStoredSecret : Bool) (secret catalogSecret : Option Text) (slot : Text × List Text) :
    Except SaveError (Option (Text × List Text)) :=
  let moved := movedFields (withConfigDefaults v connType stored)
    (withConfigDefaults v connType incoming) slot.2
  if moved = [] then .ok none
  else if slot.1 = secretField then
    if !hasStoredSecret || secret.isSome then .ok none
    else match authenticatesWithoutSecret v connType incoming with
      | .error e => .error e
      | .ok unused => .ok (if unused then none else some (secretField, moved))
  else
    let supplied := if slot.1 = catalog then catalogSecret else none
    if (configValue stored (slot.1 ++ "_secret_name".toList)).truthy && supplied.isNone then
      .ok (some (slot.1 ++ "_secret".toList, moved))
    else .ok none

/-- `sorted` of a set. -/
def sortedSet (fields : List Text) : List Text :=
  List.insertionSort (· ≤ ·) (firstOccurrences fields)

def rejectUncredentialedRedirect (v : Validators) (connType : Text) (stored incoming : Fields)
    (hasStoredSecret : Bool) (secret catalogSecret : Option Text) : Except SaveError Unit :=
  match getConnectionAdapter connType with
  | none => .error .configInvalid
  | some adapter =>
    match adapter.destinationFields.mapM
        (uncredentialedSlot v connType stored incoming hasStoredSecret secret catalogSecret) with
    | .error e => .error e
    | .ok slots =>
      let missing := slots.filterMap id
      if missing = [] then .ok ()
      else .error (.credentialRedirect (sortedSet (missing.flatMap Prod.snd))
        (missing.map Prod.fst))

def behaviourOnlyConfigKeys : List Text := ["inventory_sync".toList, "auto_coverage".toList]

def connectivityView (v : Validators) (connType : Text) (config : Fields) : Fields :=
  (withConfigDefaults v connType config).filter fun entry =>
    !behaviourOnlyConfigKeys.contains entry.1

def rejectMissingRequiredSecret (v : Validators) (connType : Text) (config : Fields)
    (hasSecret : Bool) : Except SaveError Unit :=
  if hasSecret then .ok ()
  else match getConnectionAdapter connType with
    | none => .error .configInvalid
    | some adapter =>
      if !adapter.secretOptional then .ok ()
      else match adapter.validateConfig v connType config with
        | none => .error .configInvalid
        | some model =>
          if adapter.requiresSecret.any fun requires => requires model then
            .error .credentialRequired
          else .ok ()

def probe : Text := "probe".toList

def validateExtraSecretSupported (v : Validators) (connType : Text) (config : Fields) :
    Except SaveError Unit :=
  let probed := setField catalogSecretName (.str probe) config
  match (getConnectionAdapter connType).bind (·.validateConfig v connType probed) with
  | none => .error (.extraCredentialRefused catalog)
  | some _ => .ok ()

/-- The check of a second credential, where a request has one. -/
def vetExtraSecret (v : Validators) (connType : Text) (config : Fields)
    (catalogSecret : Option Text) : Except SaveError Unit :=
  if catalogSecret.isSome then validateExtraSecretSupported v connType config else .ok ()

def carryOverSecretNameKeys (stored config : Fields) : Fields :=
  config ++ stored.filter fun entry => isSecretName entry.1 && (config.lookup entry.1).isNone

/-- `_test_before_save`. -/
def testBeforeSave (answers : Answers) (connType : Text) (secret : Option Text) :
    Except SaveError Unit :=
  match getConnectionAdapter connType with
  | none => .error .configInvalid
  | some adapter =>
    if (secret.isNone && !adapter.secretOptional) || !answers.connects then .error .testFailed
    else .ok ()

/-- The names `_extra_secrets` resolves. -/
def extraSecretNames (config : Fields) : List Text :=
  config.filterMap fun entry =>
    match entry.2 with
    | .str name => if isSecretName entry.1 && name ≠ [] then some name else none
    | _ => none

def storedSecretForTest (answers : Answers) (row : Row) (store : SecretStore) :
    Except SaveError (Option Text) :=
  match row.secretRef with
  | none => .ok none
  | some ref =>
    if !answers.storeRead then .error .secretStoreUnavailable
    else match store ref with
      | none => .error .testFailed
      | some value => .ok (some value)

/-- `_extra_secrets` only fails where the store cannot be read: a name it does not hold is
skipped. -/
def readExtraSecrets (answers : Answers) (config : Fields) : Except SaveError Unit :=
  if extraSecretNames config ≠ [] && !answers.storeRead then .error .secretStoreUnavailable
  else .ok ()

def maxTagsPerEntity : ℕ := 50

def normalizeTagNames (services : Services) (names : List Text) : Except SaveError (List Text) :=
  match names.mapM services.normalizeTagName with
  | none => .error .tagNameInvalid
  | some names =>
    let out := firstOccurrences names
    if out.length > maxTagsPerEntity then .error .tagNameInvalid else .ok out

def vetTags (services : Services) (tags : Option (List Text)) :
    Except SaveError (Option (List Text)) :=
  match tags with
  | none => .ok none
  | some names => (normalizeTagNames services names).map some

/-! ## What a save writes -/

def configText (config : Fields) (key : Text) : Option Text :=
  match config.lookup key with
  | some (.str t) => some t
  | _ => none

def Row.mint (row : Row) (nfkd : Text → Text) (kind : Text) : Text :=
  connectionSecretRef nfkd row.id row.env row.name row.connType kind

/-- The entry `_write_extra_secret` writes. -/
def Row.catalogRef (row : Row) (nfkd : Text → Text) : Text :=
  orMint (configText row.config catalogSecretName) (row.mint nfkd catalog)

/-- The entry of the primary credential. -/
def Row.primaryRef (row : Row) (nfkd : Text → Text) : Text :=
  orMint row.secretRef (row.mint nfkd [])

def Row.withCatalogRef (row : Row) (nfkd : Text → Text) : Row :=
  { row with config := setField catalogSecretName (.str (row.catalogRef nfkd)) row.config }

/-- The reference and `_refresh_credential_expiry`. -/
def Row.withSecretRef (services : Services) (answers : Answers) (row : Row) (secret : Text) :
    Row :=
  { row with
    secretRef := some (row.primaryRef services.nfkd)
    credentialExpiresAt := services.credentialExpiry row.connType row.config secret
    credentialExpiryCheckedAt := some answers.now }

def orchestrationProviders : List Text := ["adf".toList, "airflow".toList, "dbt".toList]

/-- What a test found about the engine. -/
def Row.probed (answers : Answers) (tested : Bool) (row : Row) : Row :=
  if tested && answers.capabilities ≠ [] then
    { row with engineCapabilities := some answers.capabilities }
  else row

def Row.observed (row : Row) (successAt : Option ℕ) : Row :=
  { row with lastAuthSuccessAt := successAt, lastAuthError := none, consecutiveAuthFailures := 0 }

def Row.applyTestOutcome (answers : Answers) (row : Row) (tested credentialChanged : Bool) : Row :=
  let row := row.probed answers tested
  if orchestrationProviders.contains row.connType || row.secretRef.isNone then row
  else if tested then row.observed (some answers.now)
  else if credentialChanged then row.observed none
  else row

/-- Every entry of the secret store the row names. -/
def Row.references (row : Row) : List Text := row.secretRef.toList ++ extraSecretNames row.config

structure Update where
  connectionId : Text
  name : Option Text := none
  config : Option Fields := none
  secret : Option Text := none
  catalogSecret : Option Text := none
  skipTest : Bool := false
  tags : Option (List Text) := none

/-- What an update has settled before it writes anything. -/
structure Vetted where
  effectiveConfig : Fields
  configChanged : Bool
  tested : Bool
  tags : Option (List Text)

def vetConfig (v : Validators) (row : Row) (update : Update) : Except SaveError Fields :=
  match update.config with
  | none => .ok row.config
  | some config => do
    validatedConfig v row.connType config
    rejectForeignSecretNames config row.config
    let effective := carryOverSecretNameKeys row.config config
    rejectUncredentialedRedirect v row.connType row.config effective row.secretRef.isSome
      update.secret update.catalogSecret
    rejectMissingRequiredSecret v row.connType effective
      (row.secretRef.isSome || update.secret.isSome)
    return effective

/-- The secret an update is tested with. -/
def secretForTest (answers : Answers) (row : Row) (store : SecretStore) (secret : Option Text) :
    Except SaveError (Option Text) :=
  match secret with
  | some secret => .ok (some secret)
  | none => storedSecretForTest answers row store

def testUpdate (answers : Answers) (row : Row) (store : SecretStore) (update : Update)
    (effective : Fields) : Except SaveError Unit := do
  readExtraSecrets answers effective
  let secret ← secretForTest answers row store update.secret
  testBeforeSave answers row.connType secret

def configChanges (v : Validators) (row : Row) (update : Update) (effective : Fields) : Bool :=
  update.config.isSome &&
    (Json.obj (connectivityView v row.connType row.config)).comparable ≠
      (Json.obj (connectivityView v row.connType effective)).comparable

/-- Whether an update is tested before it is saved. -/
def isTested (v : Validators) (row : Row) (update : Update) (effective : Fields) : Bool :=
  (configChanges v row update effective || update.secret.isSome || update.catalogSecret.isSome) &&
    !update.skipTest

/-- `update_connection` up to its first write. -/
def vetUpdate (services : Services) (answers : Answers) (world : World) (update : Update) :
    Except SaveError Vetted := do
  let v := services.validators
  let row := world.row
  rejectEmptyCredentials update.secret update.catalogSecret
  refuseIf (update.connectionId ≠ row.id) .notFound
  let effective ← vetConfig v row update
  vetExtraSecret v row.connType effective update.catalogSecret
  let tested := isTested v row update effective
  (if tested then testUpdate answers row world.store update effective else .ok ())
  let tags ← vetTags services update.tags
  return ⟨effective, configChanges v row update effective, tested, tags⟩

def inventorySyncKey : Text := "inventory_sync".toList

def Row.withoutSyncState (row : Row) : Row :=
  { row with
    inventorySyncLastAttemptedAt := none
    inventorySyncLastError := none
    inventorySyncFailingSince := none }

/-- An update turns the inventory sync off. -/
def syncEnds (row : Row) (update : Update) (vetted : Vetted) : Bool :=
  update.config.isSome && configValue row.config inventorySyncKey ≠ .bool false &&
    configValue vetted.effectiveConfig inventorySyncKey = .bool false

/-- The name, the config and the tags of an update. -/
def Row.edited (row : Row) (update : Update) (vetted : Vetted) : Row :=
  let edited := { row with
    config := vetted.effectiveConfig
    name := update.name.getD row.name
    tags := vetted.tags.getD row.tags }
  if syncEnds row update vetted then edited.withoutSyncState else edited

def writeCatalogSecret (services : Services) (answers : Answers) (catalogSecret : Option Text)
    (row : Row) (store : SecretStore) : Option (Row × SecretStore) :=
  match catalogSecret with
  | none => some (row, store)
  | some value =>
    if answers.catalogWritten then
      some (row.withCatalogRef services.nfkd, store.set (row.catalogRef services.nfkd) value)
    else none

def writeSecret (services : Services) (answers : Answers) (secret : Option Text) (row : Row)
    (store : SecretStore) : Option (Row × SecretStore) :=
  match secret with
  | none => some (row, store)
  | some value =>
    if answers.secretWritten then
      some (row.withSecretRef services answers value,
        store.set (row.primaryRef services.nfkd) value)
    else none

/-- What was probed describes the target the row had before. -/
def Row.retargeted (row : Row) : Row := { row with engineCapabilities := some [] }

/-- What an update carries from its test onto the row. -/
def Row.settled (answers : Answers) (row : Row) (update : Update) (vetted : Vetted) : Row :=
  let untestedTargetChange := vetted.configChanged && !vetted.tested
  (if untestedTargetChange then row.retargeted else row).applyTestOutcome answers vetted.tested
    (update.secret.isSome || update.catalogSecret.isSome || untestedTargetChange)

/-- The commit and what follows it: `session.refresh` and `_reresolve_suite_assets`. -/
def commitUpdate (answers : Answers) (world : World) (row : Row) (store : SecretStore) :
    Option SaveError × World :=
  if (row.name, row.env) ∈ world.others then (some .conflict, { world with store := store })
  else if !answers.committed then (some .database, { world with store := store })
  else
    (if answers.settled then none else some .afterCommit,
      { world with row := row, store := store })

/-- The error, if there is one, and the row and the secret store afterwards. -/
def updateConnection (services : Services) (answers : Answers) (world : World) (update : Update) :
    Option SaveError × World :=
  match vetUpdate services answers world update with
  | .error e => (some e, world)
  | .ok vetted =>
    match writeCatalogSecret services answers update.catalogSecret
        (world.row.edited update vetted) world.store with
    | none => (some .secretWrite, world)
    | some (row, store) =>
      match writeSecret services answers update.secret row store with
      -- The rollback gives the row back, not what the catalog secret's entry held.
      | none => (some .secretWrite, { world with store := store })
      | some (row, store) => commitUpdate answers world (row.settled answers update vetted) store

def testReauth (answers : Answers) (row : Row) (secret : Text) : Except SaveError Unit := do
  readExtraSecrets answers row.config
  testBeforeSave answers row.connType (some secret)

def vetReauth (answers : Answers) (world : World) (connectionId secret : Text) (skipTest : Bool) :
    Except SaveError Unit := do
  rejectEmptyCredentials (some secret) none
  refuseIf (connectionId ≠ world.row.id) .notFound
  (if skipTest then .ok () else testReauth answers world.row secret)

def reauthConnection (services : Services) (answers : Answers) (world : World)
    (connectionId secret : Text) (skipTest : Bool) : Option SaveError × World :=
  match vetReauth answers world connectionId secret skipTest with
  | .error e => (some e, world)
  | .ok () =>
    match writeSecret services answers (some secret) world.row world.store with
    | none => (some .secretWrite, world)
    | some (row, store) =>
      if !answers.committed then (some .database, { world with store := store })
      else (none,
        { world with row := row.applyTestOutcome answers (!skipTest) true, store := store })

structure Creation where
  id : Text
  name : Text
  connType : Text
  env : Text
  config : Fields
  secret : Option Text := none
  catalogSecret : Option Text := none
  skipTest : Bool := false

def envs : List Text := ["dev".toList, "qa".toList, "uat".toList, "prod".toList]

def vetCreation (v : Validators) (answers : Answers) (new : Creation) : Except SaveError Unit := do
  rejectEmptyCredentials new.secret new.catalogSecret
  validatedConfig v new.connType new.config
  refuseIf (!envs.contains new.env) .envInvalid
  rejectForeignSecretNames new.config []
  vetExtraSecret v new.connType new.config new.catalogSecret
  rejectMissingRequiredSecret v new.connType new.config new.secret.isSome
  (if new.skipTest then .ok () else testBeforeSave answers new.connType new.secret)

def Creation.row (new : Creation) : Row where
  id := new.id
  name := new.name
  connType := new.connType
  env := new.env
  config := new.config
  secretRef := none
  tags := []
  inventorySyncLastAttemptedAt := none
  inventorySyncLastError := none
  inventorySyncFailingSince := none
  engineCapabilities := none
  credentialExpiresAt := none
  credentialExpiryCheckedAt := none
  lastAuthSuccessAt := none
  lastAuthError := none
  consecutiveAuthFailures := 0

/-- The flush that assigns the id meets the unique constraint before any credential is written. -/
def createConnection (services : Services) (answers : Answers) (others : List (Text × Text))
    (store : SecretStore) (new : Creation) : Option SaveError × Option Row × SecretStore :=
  match vetCreation services.validators answers new with
  | .error e => (some e, none, store)
  | .ok () =>
    if (new.name, new.env) ∈ others then (some .conflict, none, store)
    else match writeSecret services answers new.secret new.row store with
      | none => (some .secretWrite, none, store)
      | some (row, store) =>
        match writeCatalogSecret services answers new.catalogSecret row store with
        | none => (some .secretWrite, none, store)
        | some (row, store) =>
          if !answers.committed then (some .database, none, store)
          else (none, some (row.applyTestOutcome answers (!new.skipTest) false), store)

/-! ## What of a row identifies the connection -/

def configName (config : Fields) : ConfigName :=
  match config.lookup catalogSecretName with
  | none => .absent
  | some (.str t) => .text t
  | some _ => .null

/-- A row without the reports on its health. -/
def Row.connection (row : Row) : Connection :=
  ⟨row.id, row.name, row.connType, row.env, row.secretRef, configName row.config⟩

def Row.core (row : Row) : Connection × Fields := (row.connection, row.config)

theorem core_probed (answers : Answers) (tested : Bool) (row : Row) :
    (row.probed answers tested).core = row.core := by
  unfold Row.probed
  split <;> rfl

theorem core_applyTestOutcome (answers : Answers) (row : Row) (tested credentialChanged : Bool) :
    (row.applyTestOutcome answers tested credentialChanged).core = row.core := by
  rw [← core_probed answers tested row]
  unfold Row.applyTestOutcome
  simp only
  split
  · rfl
  · split
    · rfl
    · split <;> rfl

theorem core_settled (answers : Answers) (row : Row) (update : Update) (vetted : Vetted) :
    (row.settled answers update vetted).core = row.core := by
  unfold Row.settled
  rw [core_applyTestOutcome]
  split <;> rfl

theorem core_edited (row : Row) (update : Update) (vetted : Vetted) :
    (row.edited update vetted).core =
      ({ row.connection with
          name := update.name.getD row.name
          catalogSecretName := configName vetted.effectiveConfig }, vetted.effectiveConfig) := by
  unfold Row.edited
  simp only
  split <;> rfl

end DataQ.Connections.Saves
