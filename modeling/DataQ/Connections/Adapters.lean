import DataQ.Foundations.Json
import Mathlib.Data.Char
import Mathlib.Data.List.Lex

/-! # Connection adapters

`datasources/registry.py` and what the connection service reads of the adapters: the fields of each
config model with their defaults, where each credential is sent, and whether a config needs one.
Every model forbids a field it does not name. -/

namespace DataQ
set_option autoImplicit false

namespace Json

/-- A number as `==` sees it: `443.0` is `443`. -/
def wholeNumber (n : Numeral) : Numeral :=
  if ".0".toList.isSuffixOf n.text then
    let text := n.text.take (n.text.length - 2)
    if h : printsNumber text = true then ⟨text, h⟩ else n
  else n

mutual

/-- Two values are `==` in Python when these are one: `True` is `1`, and a dict has no order. -/
def comparable : Json → Json
  | .bool value => .num (.ofNat value.toNat)
  | .num n => .num (wholeNumber n)
  | .arr items => .arr (comparableItems items)
  | .obj fields => .obj (List.insertionSort (fun a b => a.1 ≤ b.1) (comparableFields fields))
  | j => j

def comparableItems : List Json → List Json
  | [] => []
  | item :: items => comparable item :: comparableItems items

def comparableFields : Fields → Fields
  | [] => []
  | (key, value) :: fields => (key, comparable value) :: comparableFields fields

end

/-- `None`, or a string of white space. -/
def blank : Json → Bool
  | .null => true
  | .str s => s.all pySpace
  | _ => false

end Json

namespace Connections

/-- A field of a config model. `key` is what a config spells it by: the alias where it has one. -/
structure ModelField where
  name : Text
  key : Text
  default : Option Json
  blankIsDefault : Bool

def needed (name : String) : ModelField := ⟨name.toList, name.toList, none, false⟩

def optional (name : String) : ModelField := ⟨name.toList, name.toList, some .null, false⟩

def defaulted (name : String) (default : Json) : ModelField :=
  ⟨name.toList, name.toList, some default, false⟩

def ModelField.aliased (field : ModelField) (key : String) : ModelField :=
  { field with key := key.toList }

def ModelField.blankable (field : ModelField) : ModelField := { field with blankIsDefault := true }

structure Adapter where
  modelFields : List ModelField
  /-- `populate_by_name`. -/
  byName : Bool := false
  /-- The literals of `auth_type`, for a model that has one. -/
  authTypes : List Text := []
  /-- The `host` a `mode="before"` validator writes into the payload. -/
  derivedHost : Option ((hostname : Text → Text) → Fields → Text) := none
  /-- In the order of `sorted`. -/
  destinationFields : List (Text × List Text)
  secretOptional : Bool := false
  requiresSecret : Option (Fields → Bool) := none

/-- What a config gives a field: by its key, or by its name where the model reads names. -/
def ModelField.supplied (byName : Bool) (field : ModelField) (raw : Fields) : Option Json :=
  (raw.lookup field.key).or (if byName then raw.lookup field.name else none)

def ModelField.value (byName : Bool) (field : ModelField) (raw : Fields) : Option Json :=
  match field.supplied byName raw with
  | none => field.default
  | some value => if field.blankIsDefault && value.blank then field.default else some value

def isSecretName (key : Text) : Bool := "_secret_name".toList.isSuffixOf key

def catalogSecretName : Text := "catalog_secret_name".toList

def hostKey : Text := "host".toList

def authTypeKey : Text := "auth_type".toList

/-- The payload the fields are read from. -/
def Adapter.payload (adapter : Adapter) (hostname : Text → Text) (raw : Fields) : Fields :=
  match adapter.derivedHost with
  | none => raw
  | some host => setField hostKey (.str (host hostname raw)) raw

def Adapter.names (adapter : Adapter) (field : ModelField) : List Text :=
  if adapter.byName then [field.key, field.name] else [field.key]

/-- What the code takes from the URL library and from the remaining validators of the models: the
forms of hosts, URLs, identifiers and certificates, and which fields go together. No validator
reads the name the catalog credential is stored under. -/
structure Validators where
  hostname : Text → Text
  rules : Text → Fields → Bool

/-- The fields of the validated model under their keys. -/
def Adapter.model (adapter : Adapter) (hostname : Text → Text) (raw : Fields) : Fields :=
  adapter.modelFields.filterMap fun field =>
    (field.value adapter.byName (adapter.payload hostname raw)).map fun v => (field.key, v)

def Adapter.authTypeKnown (adapter : Adapter) (model : Fields) : Bool :=
  match model.lookup authTypeKey with
  | none => true
  | some (.str t) => adapter.authTypes.contains t
  | some _ => false

def Adapter.validateConfig (adapter : Adapter) (validators : Validators) (connType : Text)
    (raw : Fields) : Option Fields :=
  let model := adapter.model validators.hostname raw
  let known := adapter.modelFields.flatMap adapter.names
  if raw.all (known.contains ·.1) &&
      adapter.modelFields.all (fun field => (model.lookup field.key).isSome) &&
      adapter.authTypeKnown model &&
      validators.rules connType (model.filter (·.1 ≠ catalogSecretName)) then some model
  else none

/-! ## The registry -/

def textValue (s : String) : Json := .str s.toList

def keys (names : List String) : List Text := names.map String.toList

/-- A slot `secret` with these destination fields. -/
def secretSlot (names : List String) : List (Text × List Text) := [("secret".toList, keys names)]

def authTypeIsNot (t : String) (model : Fields) : Bool :=
  model.lookup authTypeKey ≠ some (textValue t)

def inventoryFields : List ModelField :=
  [defaulted "inventory_sync" (.bool true), defaulted "auto_coverage" (.bool false)]

def snowflake : Adapter where
  modelFields := [needed "account", needed "user", needed "database",
    (needed "schema_").aliased "schema", needed "warehouse", optional "role"] ++
    inventoryFields ++ [defaulted "auth_type" (textValue "password")]
  byName := true
  authTypes := keys ["password", "key_pair"]
  destinationFields := secretSlot ["account"]

def adlsGen2 : Adapter where
  modelFields := [needed "account_url", needed "container", defaulted "auth_type" (textValue "sas"),
    optional "tenant_id", optional "client_id"]
  authTypes := keys ["sas", "service_principal"]
  destinationFields := secretSlot ["account_url", "auth_type", "tenant_id", "client_id"]

def s3 : Adapter where
  modelFields := [needed "bucket", needed "region", defaulted "auth_type" (textValue "access_key"),
    optional "access_key_id", optional "endpoint_url",
    defaulted "addressing_style" (textValue "auto")]
  authTypes := keys ["access_key"]
  destinationFields := secretSlot ["endpoint_url"]

def gcs : Adapter where
  modelFields := [needed "bucket", defaulted "auth_type" (textValue "service_account_key"),
    optional "project_id", optional "endpoint_url"]
  authTypes := keys ["service_account_key", "anonymous"]
  destinationFields := secretSlot ["endpoint_url", "auth_type"]
  secretOptional := true
  requiresSecret := some (authTypeIsNot "anonymous")

def unityCatalog : Adapter where
  modelFields := [needed "workspace_url", needed "warehouse_id"] ++ inventoryFields ++
    [optional "dqx_checkpoint_volume"]
  destinationFields := secretSlot ["workspace_url"]

/-- The only type with two credentials; its config has no `requires_secret`. -/
def iceberg : Adapter where
  modelFields := [defaulted "catalog_name" (textValue "default"), needed "catalog_type",
    optional "catalog_uri", optional "warehouse", defaulted "properties" (.obj []),
    optional "secret_property", optional "catalog_secret_name"]
  destinationFields := [("catalog".toList, keys ["catalog_uri"]),
    ("secret".toList, keys ["catalog_uri", "warehouse", "properties", "secret_property"])]
  secretOptional := true

def adf : Adapter where
  modelFields := [needed "subscription_id", needed "resource_group", needed "factory_name",
    needed "tenant_id", needed "client_id"]
  destinationFields := []

def airflow : Adapter where
  modelFields := [needed "base_url", defaulted "auth_type" (textValue "token"), optional "username"]
  authTypes := keys ["token", "basic"]
  destinationFields := secretSlot ["base_url"]

/-- Only a service principal requires its secret: `key` reads with the one it has, if it has one. -/
def dbt : Adapter where
  modelFields := [needed "project_name", needed "artifacts_uri", needed "jobs", optional "region",
    optional "access_key_id", optional "endpoint_url",
    defaulted "addressing_style" (textValue "auto"),
    (defaulted "auth_type" (textValue "key")).blankable, (optional "tenant_id").blankable,
    (optional "client_id").blankable, (optional "account_url").blankable,
    optional "lineage_namespace"]
  authTypes := keys ["key", "service_principal"]
  destinationFields := secretSlot
    ["artifacts_uri", "endpoint_url", "account_url", "auth_type", "tenant_id", "client_id"]
  secretOptional := true
  requiresSecret := some fun model =>
    model.lookup authTypeKey = some (textValue "service_principal")

/-- `GenericSqlConfig`, with the fields an engine states anew. -/
def genericSqlFields (database user : ModelField) (sslmode : String) : List ModelField :=
  [needed "host", (optional "port").blankable, database, user,
    ((optional "schema_").aliased "schema").blankable] ++ inventoryFields ++
    [(defaulted "sslmode" (textValue sslmode)).blankable]

def genericSql (own : List ModelField) (database user : ModelField) (sslmode : String)
    (authTypes : List String) (destinationFields : List String) : Adapter where
  modelFields := genericSqlFields database user sslmode ++ own
  byName := true
  authTypes := keys authTypes
  destinationFields := secretSlot destinationFields
  requiresSecret := some fun _ => true

/-- PostgreSQL, MySQL and Redshift. -/
def plainSql : Adapter :=
  genericSql [] (needed "database") (needed "user") "require" [] ["host", "port"]

def trino : Adapter where
  modelFields := genericSqlFields ((needed "database").aliased "catalog") (needed "user")
    "verify-full" ++
    [(defaulted "auth_type" (textValue "password")).blankable, (optional "ca_bundle").blankable]
  byName := true
  authTypes := keys ["password", "jwt", "none"]
  destinationFields := secretSlot ["host", "port", "sslmode", "ca_bundle", "auth_type"]
  secretOptional := true
  requiresSecret := some (authTypeIsNot "none")

def mssql : Adapter :=
  genericSql [(defaulted "auth_type" (textValue "sql")).blankable, (optional "tenant_id").blankable,
      (optional "client_id").blankable, (defaulted "driver" (textValue "python-tds")).blankable,
      (defaulted "odbc_driver" (textValue "ODBC Driver 18 for SQL Server")).blankable,
      (optional "ca_bundle").blankable]
    (needed "database") (optional "user").blankable "verify-full" ["sql", "entra_service_principal"]
    ["host", "port", "auth_type", "tenant_id", "client_id", "ca_bundle", "driver"]

/-- The text under a key, for what is read before the fields are checked. -/
def rawText (raw : Fields) (key : String) : Text :=
  match raw.lookup key.toList with
  | some (.str t) => t
  | _ => []

def athena : Adapter :=
  { genericSql [needed "region", (defaulted "work_group" (textValue "primary")).blankable,
      (optional "s3_staging_dir").blankable]
      (((defaulted "database" (textValue "awsdatacatalog")).aliased "catalog").blankable)
      ((needed "user").aliased "access_key_id") "require" []
      ["host", "region", "work_group", "s3_staging_dir"] with
    derivedHost := some fun _ raw =>
      "athena.".toList ++ pyStrip (rawText raw "region") ++ ".amazonaws.com".toList }

def bigquery : Adapter :=
  { genericSql [defaulted "auth_type" (textValue "service_account_key"),
      (optional "location").blankable, (optional "endpoint_url").blankable,
      (defaulted "maximum_bytes_billed" (.num (.ofNat (10 * 1024 ^ 3)))).blankable]
      ((needed "database").aliased "project_id") (optional "user") "require"
      ["service_account_key"] ["endpoint_url", "auth_type"] with
    derivedHost := some fun hostname raw =>
      let endpoint := pyStrip (rawText raw "endpoint_url")
      if endpoint = [] then "bigquery.googleapis.com".toList else hostname endpoint }

/-- `_ADAPTERS`. -/
def adapters : List (Text × Adapter) :=
  [("snowflake".toList, snowflake), ("adls_gen2".toList, adlsGen2), ("s3".toList, s3),
    ("gcs".toList, gcs), ("unity_catalog".toList, unityCatalog), ("iceberg".toList, iceberg),
    ("adf".toList, adf), ("airflow".toList, airflow), ("dbt".toList, dbt),
    ("postgres".toList, plainSql), ("mysql".toList, plainSql), ("trino".toList, trino),
    ("mssql".toList, mssql), ("athena".toList, athena), ("redshift".toList, plainSql),
    ("bigquery".toList, bigquery)]

def getConnectionAdapter (connType : Text) : Option Adapter := adapters.lookup connType

end Connections
end DataQ
