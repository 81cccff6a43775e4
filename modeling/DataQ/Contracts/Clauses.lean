import DataQ.Contracts.Drafts

/-! # Property constraints

`contracts/translate.py`: the small helpers, the lift of a v3.0.x document into v3.1 vocabulary, and
one function for each row of the mapping that reads a property's own fields. -/

namespace DataQ.Contracts
open Runs (CheckKind FailingTier)
set_option autoImplicit false

/-- What the translation takes from Python and its libraries: `repr`, an implementation read from
JSON or YAML, and the first twelve digits of the SHA-256 of a dumped value. -/
structure Tools where
  py : Python
  repr : Json → Text
  parse : Text → Option Json
  contentKey : Json → Text
  hex : ∀ value, '#' ∉ contentKey value

variable (tools : Tools)

/-! ## Small helpers -/

/-- `custom_properties(node)` for the vendor `dataq`. -/
def customProperties (node : Json) : Fields :=
  let found := (node.items "customProperties".toList).foldl (fun (found : Fields × Fields) item =>
    match item.text? "property".toList with
    | none => found
    | some name =>
      if "dataq.".toList.isPrefixOf name then
        (found.1, setField (name.drop 6) (item.get "value".toList) found.2)
      else if item.get "vendor".toList = .str "dataq".toList then
        (setField name (item.get "value".toList) found.1, found.2)
      else found) ([], [])
  found.2.foldl (fun fields entry => setField entry.1 entry.2 fields) found.1

def decimal : Json → Option Decimal
  | .num n => Decimal.ofText n.text
  | .str s => Decimal.ofText s
  | _ => none

inductive Operator
  | mustBe | mustNotBe | mustBeGreaterThan | mustBeGreaterOrEqualTo | mustBeLessThan
  | mustBeLessOrEqualTo | mustBeBetween | mustNotBeBetween
  deriving DecidableEq, Repr

def Operator.key : Operator → Text
  | .mustBe => "mustBe".toList
  | .mustNotBe => "mustNotBe".toList
  | .mustBeGreaterThan => "mustBeGreaterThan".toList
  | .mustBeGreaterOrEqualTo => "mustBeGreaterOrEqualTo".toList
  | .mustBeLessThan => "mustBeLessThan".toList
  | .mustBeLessOrEqualTo => "mustBeLessOrEqualTo".toList
  | .mustBeBetween => "mustBeBetween".toList
  | .mustNotBeBetween => "mustNotBeBetween".toList

/-- `_SQL_OPERATORS`. -/
def operators : List Operator :=
  [.mustBe, .mustNotBe, .mustBeGreaterThan, .mustBeGreaterOrEqualTo, .mustBeLessThan,
    .mustBeLessOrEqualTo, .mustBeBetween, .mustNotBeBetween]

def operator (rule : Json) : Option (Operator × Json) :=
  operators.findSome? fun op => (rule.get? op.key).map (op, ·)

def truncate (name : Text) : Text := if name.length ≤ 256 then name else name.take 255 ++ ['…']

/-- `str(prop.get("name"))`. -/
def propertyName (prop : Json) : Text := tools.py.str (prop.get "name".toList)

def columnName (prop : Json) : Text :=
  match prop.text? "physicalName".toList with
  | some physical => if pyStrip physical ≠ [] then physical else propertyName tools prop
  | none => propertyName tools prop

def ruleIdentityKeys : List Text :=
  ["type".toList, "metric".toList, "query".toList, "engine".toList, "implementation".toList,
    "arguments".toList]

def ruleIdentity (rule : Json) : Json :=
  .obj (ruleIdentityKeys.filterMap fun key =>
    if rule.get key = .null then none else some (key, rule.get key))

/-- `f"quality:{digest}"`. -/
def ruleBase (rule : Json) : Text :=
  "quality:".toList ++ tools.contentKey (ruleIdentity rule).sorted

/-- The identity of the `n`th rule of one content. -/
def numbered (base : Text) (n : ℕ) : Text :=
  if n = 1 then base else base ++ '#' :: Nat.toDigits 10 n

def ruleIdsFrom : List (Text × ℕ) → List Json → List Text
  | _, [] => []
  | seen, rule :: rules =>
    match rule.text? "id".toList with
    | some (c :: cs) => (c :: cs) :: ruleIdsFrom seen rules
    | _ =>
      let base := ruleBase tools rule
      let n := (seen.lookup base).getD 0 + 1
      numbered base n :: ruleIdsFrom (setField base n seen) rules

def ruleIds (rules : List Json) : List Text := ruleIdsFrom tools [] rules

def ruleLabel (rule : Json) (fallback : Text) : Text :=
  match rule.text? "name".toList with
  | some name => if pyStrip name ≠ [] then name else fallback
  | none => fallback

def severityTiers : List (Text × FailingTier) :=
  [("info".toList, .warn), ("warning".toList, .warn), ("error".toList, .fail),
    ("critical".toList, .critical), ("blocker".toList, .critical)]

def tierOverrides : List (Text × FailingTier) :=
  [("warn".toList, .warn), ("fail".toList, .fail), ("critical".toList, .critical)]

def tier (rule : Json) : FailingTier :=
  let override := (Json.obj (customProperties rule)).text? "severity".toList
  match override.bind fun text => tierOverrides.lookup text with
  | some override => override
  | none =>
    match rule.text? "severity".toList with
    | some severity => (severityTiers.lookup (tools.py.lower severity)).getD .fail
    | none => .fail

def dimensions : List (Text × Option Dimension) :=
  [("accuracy".toList, some .accuracy), ("completeness".toList, some .completeness),
    ("conformity".toList, some .validity), ("consistency".toList, some .consistency),
    ("coverage".toList, none), ("timeliness".toList, some .timeliness),
    ("uniqueness".toList, some .uniqueness)]

/-- `_dimension` of a rule. -/
def ruleDimension (rule : Json) : Option Dimension × Bool :=
  match (rule.text? "dimension".toList).bind fun text => dimensions.lookup text with
  | none => (none, false)
  | some mapped => (mapped, mapped.isNone)

def applyTier (draft : CheckDraft) (tier : FailingTier) (band : Decimal) : CheckDraft :=
  if tier = .fail ∨ isUnbanded draft.expectationType = true then draft
  else { draft with thresholds := draft.thresholds.set tier (some band) }

def overrideThreshold (props : Fields) (key : Text) (tier : FailingTier) (draft : CheckDraft) :
    CheckDraft :=
  match props.lookup key with
  | none => draft
  | some value => { draft with thresholds := draft.thresholds.set tier (decimal value) }

def applyDataqOverrides (draft : CheckDraft) (rule : Json) : CheckDraft :=
  let props := customProperties rule
  let draft := overrideThreshold props "criticalThreshold".toList .critical
    (overrideThreshold props "failThreshold".toList .fail
      (overrideThreshold props "warnThreshold".toList .warn draft))
  let schedule := ((rule.text? "schedule".toList).map pyStrip).filter (· ≠ [])
  { draft with
    enabled := match props.lookup "enabled".toList with
      | some (.bool enabled) => enabled
      | _ => draft.enabled
    adoptCheckId := match props.lookup "checkId".toList with
      | some (.str (c :: cs)) => some (c :: cs)
      | _ => draft.adoptCheckId
    schedule := schedule.orElse fun _ => draft.schedule }

/-- `CheckDraft` with its defaults. -/
def newDraft (name : Text) (kind : CheckKind) (expectationType : Text) (config : Fields)
    (ref : ClauseRef) : CheckDraft where
  name := truncate name
  kind := kind
  expectationType := expectationType
  engine := "gx".toList
  config := config
  thresholds := .empty
  ref := ref
  dimension := none
  unclassified := false
  enabled := true
  baseline := none
  schedule := none
  adoptCheckId := none

def ruleDraft (rule : Json) (ref : ClauseRef) (name : Text) (expectationType : Text)
    (config : Fields) (band : Decimal) (kind : CheckKind) : CheckDraft :=
  let draft := { newDraft name kind expectationType config ref with
    dimension := (ruleDimension rule).1
    unclassified := (ruleDimension rule).2 }
  applyDataqOverrides (applyTier draft (tier tools rule) band) rule

/-! ## v3.0.x normalisation -/

def rulesOf (node : Json) : List Json := (node.items "quality".toList).filter Json.isDict

def legacyRules : List (Text × Text) :=
  [("duplicateCount".toList, "duplicateValues".toList), ("validValues".toList, "invalidValues".toList),
    ("rowCount".toList, "rowCount".toList), ("nullCount".toList, "nullValues".toList),
    ("nullValues".toList, "nullValues".toList), ("missingValues".toList, "missingValues".toList),
    ("invalidValues".toList, "invalidValues".toList),
    ("duplicateValues".toList, "duplicateValues".toList)]

def placeholders : List (Text × Text) :=
  [("${object}".toList, "{object}".toList), ("${property}".toList, "{property}".toList),
    ("${table}".toList, "{object}".toList), ("${column}".toList, "{property}".toList),
    ("{table}".toList, "{object}".toList), ("{column}".toList, "{property}".toList)]

/-- The `arguments` of a `validValues` rule. -/
def legacyArguments (rule : Json) : Fields :=
  let arguments := (rule.get "arguments".toList).entries
  match arguments.lookup "validValues".toList with
  | some _ => arguments
  | none => setField "validValues".toList (rule.get "validValues".toList) arguments

def liftMetric (rule : Json) : Fields :=
  match rule.get? "metric".toList, rule.text? "rule".toList with
  | none, some legacy =>
    match legacyRules.lookup legacy with
    | none => rule.entries
    | some metric =>
      let lifted := setField "metric".toList (.str metric) rule.entries
      if legacy = "validValues".toList then
        setField "arguments".toList (.obj (legacyArguments rule)) lifted
      else lifted
  | _, _ => rule.entries

def normalizeRule (rule : Json) : Json :=
  match rule.text? "query".toList with
  | none => .obj (liftMetric rule)
  | some query =>
    .obj (setField "query".toList
      (.str (placeholders.foldl (fun text pair => replaceAll pair.1 pair.2 text) query))
      (liftMetric rule))

/-- The dict with its list `key`, where it has one, changed item by item. -/
def mapItems (key : Text) (f : Json → Json) (node : Json) : Json :=
  match node.get? key with
  | some (.arr items) =>
    .obj (setField key (.arr (items.map fun item => if item.isDict then f item else item))
      node.entries)
  | _ => node

def normalizeDocument (document : Json) : Json :=
  mapItems "schema".toList (fun object =>
    mapItems "properties".toList (mapItems "quality".toList normalizeRule)
      (mapItems "quality".toList normalizeRule object)) document

/-! ## The table, one function per row -/

def propertyRef (object : Text) (prop : Json) (field : Text) : ClauseRef :=
  ⟨object, some (propertyName tools prop), none, field⟩

def objectRef (object : Text) (field : Text) : ClauseRef := ⟨object, none, none, field⟩

/-- `{object}.{column}{label}`. -/
def columnLabel (object column label : Text) : Text := object ++ '.' :: column ++ label

def isTrue (node : Json) (key : Text) : Bool := node.get key = .bool true

def requiredCheck (object : Text) (prop : Json) : Option CheckDraft :=
  if isTrue prop "required".toList then
    let column := columnName tools prop
    some (newDraft (columnLabel object column " required".toList) .expectation
      "expect_column_values_to_not_be_null".toList [("column".toList, .str column)]
      (propertyRef tools object prop "required".toList))
  else none

def uniqueCheck (object : Text) (prop : Json) (primaryKeyCount : ℕ) : Option CheckDraft :=
  let unique := isTrue prop "unique".toList
  let soleKey := isTrue prop "primaryKey".toList && primaryKeyCount = 1
  if unique || soleKey then
    let column := columnName tools prop
    some (newDraft (columnLabel object column " unique".toList) .expectation
      "expect_column_values_to_be_unique".toList [("column".toList, .str column)]
      (propertyRef tools object prop (if unique then "unique".toList else "primaryKey".toList)))
  else none

/-- The order of `keys.sort`: a key with no position comes last. -/
def keyBefore (p q : Json) : Bool :=
  match decimal (p.get "primaryKeyPosition".toList), decimal (q.get "primaryKeyPosition".toList) with
  | some a, some b => !b.lt a
  | some _, none => true
  | none, some _ => false
  | none, none => true

def joinComma : List Text → Text
  | [] => []
  | [name] => name
  | name :: names => name ++ ", ".toList ++ joinComma names

def compoundPrimaryKeyCheck (object : Text) (props : List Json) : Option CheckDraft :=
  let keys := props.filter (isTrue · "primaryKey".toList)
  if keys.length < 2 then none
  else
    let columns := (keys.insertionSort (keyBefore · ·)).map (columnName tools)
    some (newDraft (object ++ " primary key (".toList ++ joinComma columns ++ [')']) .expectation
      "expect_compound_columns_to_be_unique".toList
      [("column_list".toList, .arr (columns.map Json.str))]
      (objectRef object "primaryKey".toList))

/-- One end of a range: its value, and the flag that makes it strict. -/
def rangeEnd (options : Json) (inclusive exclusive valueKey strictKey : Text) : Fields :=
  let bound := (options.get? exclusive).getD (options.get inclusive)
  if (decimal bound).isNone then []
  else if (options.get? exclusive).isSome then [(valueKey, bound), (strictKey, .bool true)]
  else [(valueKey, bound)]

def rangeCheck (object : Text) (prop : Json) : Option CheckDraft × List Unmapped :=
  let options := prop.get "logicalTypeOptions".toList
  let column := columnName tools prop
  let unmapped := match options.get? "multipleOf".toList with
    | none => []
    | some multiple =>
      [{ object := some object
         property := some (propertyName tools prop)
         ruleId := none
         field := "logicalTypeOptions.multipleOf".toList
         reason := "no DataQ check expresses a divisibility rule".toList
         clause := [("multipleOf".toList, multiple)] }]
  let low := rangeEnd options "minimum".toList "exclusiveMinimum".toList "min_value".toList
    "strict_min".toList
  let high := rangeEnd options "maximum".toList "exclusiveMaximum".toList "max_value".toList
    "strict_max".toList
  if low = [] ∧ high = [] then (none, unmapped)
  else
    (some (newDraft (columnLabel object column " range".toList) .expectation
      "expect_column_values_to_be_between".toList (("column".toList, .str column) :: low ++ high)
      (propertyRef tools object prop "logicalTypeOptions.range".toList)), unmapped)

/-- `isinstance(value, int)`, which `bool` is too. -/
def isInt : Json → Bool
  | .bool _ => true
  | .num n => n.isInt
  | _ => false

def lengthEnd (options : Json) (key valueKey : Text) : Fields :=
  match options.get key with
  | .num n => if n.isInt then [(valueKey, .num n)] else []
  | _ => []

def lengthCheck (object : Text) (prop : Json) : Option CheckDraft :=
  let options := prop.get "logicalTypeOptions".toList
  if !isInt (options.get "minLength".toList) && !isInt (options.get "maxLength".toList) then none
  else
    let column := columnName tools prop
    some (newDraft (columnLabel object column " length".toList) .expectation
      "expect_column_value_lengths_to_be_between".toList
      (("column".toList, .str column) :: lengthEnd options "minLength".toList "min_value".toList ++
        lengthEnd options "maxLength".toList "max_value".toList)
      (propertyRef tools object prop "logicalTypeOptions.length".toList))

def patternCheck (object : Text) (prop : Json) : Option CheckDraft :=
  match (prop.get "logicalTypeOptions".toList).text? "pattern".toList with
  | none | some [] => none
  | some pattern =>
    let column := columnName tools prop
    some (newDraft (columnLabel object column " pattern".toList) .expectation
      "expect_column_values_to_match_regex".toList
      [("column".toList, .str column), ("regex".toList, .str pattern)]
      (propertyRef tools object prop "logicalTypeOptions.pattern".toList))

def enumCheck (object : Text) (prop : Json) : Option CheckDraft :=
  match prop.items "enum".toList with
  | [] => none
  | values =>
    let column := columnName tools prop
    some (newDraft (columnLabel object column " allowed values".toList) .expectation
      "expect_column_values_to_be_in_set".toList
      [("column".toList, .str column), ("value_set".toList,
        .arr (values.map fun value => if value.isDict then value.get "value".toList else value))]
      (propertyRef tools object prop "enum".toList))

def piiClassifications : List Text :=
  ["confidential".toList, "restricted".toList, "pii".toList, "sensitive".toList, "secret".toList]

def classificationPii (prop : Json) : Option Text :=
  match prop.text? "classification".toList with
  | none => none
  | some value =>
    if tools.py.lower (pyStrip value) ∈ piiClassifications then some (columnName tools prop)
    else none

def flatFileTypes : List Text := ["adls_gen2".toList, "s3".toList, "gcs".toList]

def sqlType? (connectionType : Text) : Option Sql.SqlType :=
  Sql.sqlQueryableTypes.find? (·.key = connectionType)

/-- Membership in `_SCHEMA_DRIFT_TYPES`. -/
def schemaDriftType (connectionType : Text) : Bool :=
  (sqlType? connectionType).isSome || connectionType = "iceberg".toList ||
    connectionType ∈ flatFileTypes

def schemaDriftCheck (object : Text) (props : List Json) (connectionType : Text) :
    Option (Except Unmapped CheckDraft) :=
  if props = [] then none
  else if !schemaDriftType connectionType then
    some (.error
      { object := some object
        property := none
        ruleId := none
        field := "properties".toList
        reason := "schema_drift is not supported on ".toList ++ tools.repr (.str connectionType) ++
          " connections".toList
        clause := [("columns".toList, .num (.ofNat props.length))] })
  else
    some (.ok { newDraft (object ++ " schema".toList) .schemaDrift
        (monitorExpectationType .schemaDrift) [] (objectRef object "properties".toList) with
      baseline := some (props.map fun prop =>
        ⟨columnName tools prop, prop.text? "physicalType".toList⟩) })

end DataQ.Contracts
