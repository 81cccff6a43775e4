import DataQ.Contracts.Clauses

/-! # Quality rules

`contracts/translate.py`: `library_rule`, `sql_rule`, `custom_rule`, `text_rule` and their
dispatch. -/

namespace DataQ.Contracts
open Runs (CheckKind FailingTier)
set_option autoImplicit false

variable (tools : Tools)

/-- The drafts of a rule and its unmapped clauses. -/
abbrev Outcome := List CheckDraft × List Unmapped

/-- A quality rule where it stands: its object, its property or none, and its id. -/
structure Placed where
  object : Text
  rule : Json
  ruleId : Text
  prop : Option Json

namespace Placed

def propName (at_ : Placed) : Option Text := at_.prop.map (propertyName tools)

def column (at_ : Placed) : Option Text := at_.prop.map (columnName tools)

/-- `where`. -/
def label (at_ : Placed) : Text :=
  match at_.column tools with
  | none | some [] => at_.object
  | some column => at_.object ++ '.' :: column

def ref (at_ : Placed) : ClauseRef :=
  ⟨at_.object, at_.propName tools, some at_.ruleId, "quality".toList⟩

def name (at_ : Placed) (fallback : Text) : Text :=
  at_.label tools ++ ' ' :: ruleLabel at_.rule fallback

/-- `_unmapped(reason, **clause)`. -/
def unmapped (at_ : Placed) (reason : Text) (clause : Fields) : Outcome :=
  ([], [{ object := some at_.object
          property := at_.propName tools
          ruleId := some at_.ruleId
          field := "quality".toList
          reason := reason
          clause := clause }])

def draft (at_ : Placed) (name expectationType : Text) (config : Fields) (band : Decimal)
    (kind : CheckKind) : CheckDraft :=
  ruleDraft tools at_.rule (at_.ref tools) name expectationType config band kind

end Placed

/-! ## Library rules -/

def anyUnexpectedPercent : Decimal := ⟨false, 1, -9⟩

def anyUnexpectedRow : Decimal := .ofNat 1

def upperBounds : List Operator := [.mustBeLessThan, .mustBeLessOrEqualTo]

/-- `_percent_band`: the band, or the clause and the reason of what cannot be one. -/
def percentBand (rule : Json) : Except (Fields × Text) (Option Decimal) :=
  match operator rule with
  | none => .ok none
  | some (op, value) =>
    let unit := tools.py.lower
      (if (rule.get "unit".toList).truthy then tools.py.str (rule.get "unit".toList)
        else "rows".toList)
    let bound := decimal value
    if (op = .mustBe ∨ op ∈ upperBounds) ∧ bound.any Decimal.isZero then .ok none
    else if op = .mustBeLessThan ∧ unit = "rows".toList ∧ bound.any (·.isInt 1) then .ok none
    else if unit = "percent".toList ∧ op ∈ upperBounds ∧ bound.isSome then .ok bound
    else
      .error ([(op.key, value), ("unit".toList, .str unit)],
        "only a `percent` upper bound (mustBeLessThan / mustBeLessOrEqualTo) can band ".toList ++
          "a row-wise check; a row count or another operator cannot".toList)

def tierOf (draft : CheckDraft) : FailingTier :=
  if draft.thresholds.critical.isSome then .critical
  else if draft.thresholds.warn.isSome then .warn
  else .fail

/-- A percent bound in the slot of the draft's tier. -/
def inTier (band : Decimal) (draft : CheckDraft) : CheckDraft :=
  if isUnbanded draft.expectationType then draft
  else { draft with thresholds := Thresholds.empty.set (tierOf draft) (some band) }

/-- `_band_or_unmapped` of the drafts that `_percent_band` left a band for. -/
def bandOrUnmapped (at_ : Placed) (metric : Json) (drafts : Decimal → List CheckDraft) : Outcome :=
  match percentBand tools at_.rule with
  | .error (clause, reason) => at_.unmapped tools reason (("metric".toList, metric) :: clause)
  | .ok none => (drafts anyUnexpectedPercent, [])
  | .ok (some band) => ((drafts band).map (inTier band), [])

def rowBounds (op : Operator) (value : Json) : Option Fields :=
  let minRows := fun n : ℤ => ("min_rows".toList, Json.num (.ofInt n))
  let maxRows := fun n : ℤ => ("max_rows".toList, Json.num (.ofInt n))
  match op, value with
  | .mustBeBetween, .arr [first, last] =>
    match decimal first, decimal last with
    | some low, some high =>
      if high.floor < low.ceil then none else some [minRows low.ceil, maxRows high.floor]
    | _, _ => none
  | .mustBeBetween, _ => none
  | op, value =>
    (decimal value).bind fun bound =>
      match op with
      | .mustBe => if bound.whole then some [minRows bound.floor, maxRows bound.floor] else none
      | .mustBeGreaterThan => some [minRows (bound.floor + 1)]
      | .mustBeGreaterOrEqualTo => some [minRows bound.ceil]
      | .mustBeLessThan => some [maxRows (bound.ceil - 1)]
      | .mustBeLessOrEqualTo => some [maxRows bound.floor]
      | _ => none

/-- `_row_count_rule`; its unmapped clause names no property. -/
def rowCountRule (at_ : Placed) : Outcome :=
  let unmapped := fun (reason : Text) (clause : Fields) =>
    ({ at_ with prop := none } : Placed).unmapped tools reason
      (("metric".toList, .str "rowCount".toList) :: clause)
  match operator at_.rule with
  | none => unmapped "rowCount needs a comparison operator".toList []
  | some (op, value) =>
    match rowBounds op value with
    | none =>
      unmapped (op.key ++ " is not a row-count range a volume monitor can hold".toList)
        [(op.key, value)]
    | some config =>
      ([at_.draft tools (at_.name tools "row count".toList) (monitorExpectationType .volume) config
        anyUnexpectedPercent .volume], [])

/-- The type and config of a `duplicateValues` rule. -/
def duplicateTarget (column : Option Text) (arguments : Json) : Option (Text × Fields) :=
  match column with
  | some column =>
    some ("expect_column_values_to_be_unique".toList, [("column".toList, .str column)])
  | none =>
    match arguments.items "properties".toList with
    | [] => none
    | [.str only] =>
      some ("expect_column_values_to_be_unique".toList, [("column".toList, .str only)])
    | columns =>
      if columns.all fun c => c matches .str _ then
        some ("expect_compound_columns_to_be_unique".toList,
          [("column_list".toList, .arr columns)])
      else none

/-- The type and config of an `invalidValues` rule. -/
def invalidTarget (column : Text) (arguments : Json) : Option (Text × Fields) :=
  match arguments.items "validValues".toList, arguments.text? "pattern".toList with
  | v :: vs, _ =>
    some ("expect_column_values_to_be_in_set".toList,
      [("column".toList, .str column), ("value_set".toList, .arr (v :: vs))])
  | [], some (c :: cs) =>
    some ("expect_column_values_to_match_regex".toList,
      [("column".toList, .str column), ("regex".toList, .str (c :: cs))])
  | [], _ => none

/-- The drafts of a `missingValues` rule: one for the values that are listed, one for null. -/
def missingDrafts (at_ : Placed) (column : Text) (values : List Json) (band : Decimal) :
    List CheckDraft :=
  let listed := values.filter (· ≠ .null)
  let name := at_.name tools "no missing-value markers".toList
  (if listed = [] then [] else
    [at_.draft tools name "expect_column_values_to_not_be_in_set".toList
      [("column".toList, .str column), ("value_set".toList, .arr listed)] band .expectation]) ++
  (if listed.length < values.length then
    [at_.draft tools (name ++ " (null)".toList) "expect_column_values_to_not_be_null".toList
      [("column".toList, .str column)] band .expectation] else [])

def libraryRule (at_ : Placed) : Outcome :=
  let metric := at_.rule.get "metric".toList
  let arguments := at_.rule.get "arguments".toList
  let unmapped := fun reason : Text => at_.unmapped tools reason [("metric".toList, metric)]
  let single := fun (label expectationType : Text) (config : Fields) =>
    bandOrUnmapped tools at_ metric fun band =>
      [at_.draft tools (at_.name tools label) expectationType config band .expectation]
  if metric = .str "rowCount".toList then rowCountRule tools at_
  else if metric = .str "duplicateValues".toList then
    match duplicateTarget (at_.column tools) arguments with
    | none => unmapped "an object-level duplicateValues rule needs arguments.properties".toList
    | some (expectationType, config) => single "no duplicates".toList expectationType config
  else
    match at_.column tools with
    | none =>
      unmapped ("the ".toList ++ tools.py.str metric ++
        " metric needs a property; it was declared on the object".toList)
    | some column =>
      if metric = .str "nullValues".toList then
        single "nulls".toList "expect_column_values_to_not_be_null".toList
          [("column".toList, .str column)]
      else if metric = .str "missingValues".toList then
        match arguments.items "missingValues".toList with
        | [] =>
          unmapped
            "missingValues needs arguments.missingValues (the values that count)".toList
        | values => bandOrUnmapped tools at_ metric (missingDrafts tools at_ column values)
      else if metric = .str "invalidValues".toList then
        match invalidTarget column arguments with
        | none =>
          unmapped "invalidValues needs arguments.validValues or arguments.pattern".toList
        | some (expectationType, config) => single "valid values".toList expectationType config
      else unmapped "not an ODCS library metric DataQ knows".toList

/-! ## SQL rules -/

def sqlLiteral : Json → Text
  | .bool value => if value then "TRUE".toList else "FALSE".toList
  | .num n => n.text
  | .null => "NULL".toList
  | value => '\'' :: replaceAll ['\''] "''".toList (tools.py.str value) ++ ['\'']

/-- `_SQL_OPERATORS[key].format(…)`. -/
def Operator.comparison (op : Operator) (first last : Text) : Text :=
  match op with
  | .mustBe => "= ".toList ++ first
  | .mustNotBe => "<> ".toList ++ first
  | .mustBeGreaterThan => "> ".toList ++ first
  | .mustBeGreaterOrEqualTo => ">= ".toList ++ first
  | .mustBeLessThan => "< ".toList ++ first
  | .mustBeLessOrEqualTo => "<= ".toList ++ first
  | .mustBeBetween => "BETWEEN ".toList ++ first ++ " AND ".toList ++ last
  | .mustNotBeBetween => "NOT BETWEEN ".toList ++ first ++ " AND ".toList ++ last

def Operator.twoSided (op : Operator) : Bool := op = .mustBeBetween || op = .mustNotBeBetween

/-- The comparison of a rule's scalar, or the reason why there is none. -/
def comparisonOf (op : Operator) (value : Json) : Except Text Text :=
  if op.twoSided then
    match value with
    | .arr [first, last] => .ok (op.comparison (sqlLiteral tools first) (sqlLiteral tools last))
    | _ => .error (op.key ++ " needs a two-element list".toList)
  else .ok (op.comparison (sqlLiteral tools value) [])

def containsText (needle text : Text) : Bool := text.tails.any (needle.isPrefixOf ·)

/-- The query with the names of its object and its column. -/
def substituted (query objectTarget : Text) (column : Option Text) : Except Text Text :=
  let text := replaceAll "{object}".toList objectTarget query
  match column with
  | some column => .ok (replaceAll "{property}".toList column text)
  | none =>
    if containsText "{property}".toList text then
      .error "the query names {property} but the rule is not on a property".toList
    else .ok text

/-- The query of the custom-SQL check, or the reason why there is none. -/
def wrappedQuery (at_ : Placed) (connectionType objectTarget : Text) : Except Text Text := do
  if (sqlType? connectionType).isNone then
    throw ("sql rules need a SQL datasource, not ".toList ++ tools.repr (.str connectionType))
  let query := (at_.rule.text? "query".toList).getD []
  if pyStrip query = [] then throw "sql rule has no query".toList
  let (op, value) ← match operator at_.rule with
    | none => throw "sql rule has no comparison operator for its scalar".toList
    | some found => pure found
  let comparison ← comparisonOf tools op value
  let text ← substituted query objectTarget (at_.column tools)
  let wrapped := "SELECT 1 WHERE NOT COALESCE((".toList ++ (pyStrip text).rdropWhile (· = ';') ++
    ") ".toList ++ comparison ++ ", FALSE)".toList
  match Sql.validateQuery (some wrapped) (sqlType? connectionType) with
  | .error e => throw ("the query was refused by the custom-SQL validator: ".toList ++ e.message)
  | .ok () => pure wrapped

def sqlRule (at_ : Placed) (connectionType objectTarget : Text) : Outcome :=
  match wrappedQuery tools at_ connectionType objectTarget with
  | .error reason => at_.unmapped tools reason [("type".toList, .str "sql".toList)]
  | .ok wrapped =>
    ([at_.draft tools (at_.name tools "sql rule".toList) "unexpected_rows_expectation".toList
      [("unexpected_rows_query".toList, .str wrapped)] anyUnexpectedRow .expectation], [])

/-! ## Custom rules -/

def parseImplementation : Json → Option Json
  | .obj fields => some (.obj fields)
  | .str text => if pyStrip text = [] then none else (tools.parse text).filter Json.isDict
  | _ => none

def gxEngines : List Json :=
  [.str "great-expectations".toList, .str "greatExpectations".toList]

/-- A GX implementation: its type and its keyword arguments. -/
def gxImplementation (implementation : Json) : Option (Text × Fields) :=
  let type := if (implementation.get "expectation_type".toList).truthy
    then implementation.get "expectation_type".toList else implementation.get "type".toList
  match type, (implementation.get? "kwargs".toList).getD (.obj []) with
  | .str type, .obj kwargs => some (type, kwargs)
  | _, _ => none

def gxRule (at_ : Placed) (unmapped : Text → Outcome) (implementation : Option Json) : Outcome :=
  match implementation.bind gxImplementation with
  | none => unmapped "implementation must be a \x7bexpectation_type, kwargs\x7d mapping".toList
  | some (type, kwargs) =>
    if !isAllowed type then unmapped (type ++ " is not a GX expectation DataQ authors".toList)
    else
      let config := match at_.column tools, kwargs.lookup "column".toList with
        | some column, none => setField "column".toList (.str column) kwargs
        | _, _ => kwargs
      ([at_.draft tools (at_.name tools type) type config anyUnexpectedPercent .expectation], [])

/-- A DataQ check document as a draft. -/
def dataqDraft (at_ : Placed) (implementation : Json) (type : Text) (kind : CheckKind)
    (config : Fields) : CheckDraft :=
  let fallback := at_.label tools ++ ' ' :: at_.ruleId
  let name := if (implementation.get "name".toList).truthy
    then tools.py.str (implementation.get "name".toList) else fallback
  let dimension := implementation.get "dimension".toList
  let draft := { newDraft name kind type config (at_.ref tools) with
    thresholds :=
      ⟨decimal (implementation.get "warn_threshold".toList),
        decimal (implementation.get "fail_threshold".toList),
        decimal (implementation.get "critical_threshold".toList)⟩
    dimension := dqDimensions.find? fun d => dimension = .str d.text
    unclassified := implementation.get? "dimension".toList = some .null
    engine := match implementation.get? "engine".toList with
      | none => "gx".toList
      | some engine => tools.py.str engine
    enabled := implementation.get? "enabled".toList ≠ some (.bool false) }
  applyDataqOverrides draft at_.rule

def dataqRule (at_ : Placed) (unmapped : Text → Outcome) (implementation : Option Json) :
    Outcome :=
  match implementation with
  | none =>
    unmapped "a dataq implementation is a DataQ check document (expectation_type …)".toList
  | some implementation =>
    match implementation.text? "expectation_type".toList with
    | none =>
      unmapped "a dataq implementation is a DataQ check document (expectation_type …)".toList
    | some type =>
      let kind := (implementation.get? "kind".toList).getD (.str "expectation".toList)
      match checkKinds.find? (fun k => kind = .str (CheckKind.text k)) with
      | none => unmapped ("unknown check kind ".toList ++ tools.repr kind)
      | some kind =>
        match (implementation.get? "config".toList).getD (.obj []) with
        | .obj config => ([dataqDraft tools at_ implementation type kind config], [])
        | _ => unmapped "config must be a mapping".toList

def customRule (at_ : Placed) : Outcome :=
  let engine := at_.rule.get "engine".toList
  let unmapped := fun reason : Text => at_.unmapped tools reason
    [("type".toList, .str "custom".toList), ("engine".toList, engine)]
  let implementation := parseImplementation tools (at_.rule.get "implementation".toList)
  if engine ∈ gxEngines then gxRule tools at_ unmapped implementation
  else if engine = .str "dataq".toList then dataqRule tools at_ unmapped implementation
  else unmapped ("engine ".toList ++ tools.repr engine ++ " is not executable by DataQ".toList)

/-! ## Dispatch -/

def textRule (at_ : Placed) : Outcome :=
  at_.unmapped tools "a text rule is prose, not an executable check".toList
    [("type".toList, .str "text".toList), ("name".toList, at_.rule.get "name".toList)]

/-- A rule's own schedule, which no check can follow. -/
def ruleSchedule (at_ : Placed) : List Unmapped :=
  match (at_.rule.text? "schedule".toList).map pyStrip with
  | none | some [] => []
  | some schedule =>
    [{ object := some at_.object
       property := at_.propName tools
       ruleId := some at_.ruleId
       field := "schedule".toList
       reason := "DataQ schedules a suite, not a rule; the cron is kept on the clause".toList
       clause := [("schedule".toList, .str schedule),
        ("scheduler".toList, at_.rule.get "scheduler".toList)] }]

def qualityRule (at_ : Placed) (connectionType objectTarget : Text) : Outcome :=
  let type := at_.rule.get "type".toList
  let (drafts, unmapped) :=
    if !type.truthy || type = .str "library".toList then libraryRule tools at_
    else if type = .str "sql".toList then sqlRule tools at_ connectionType objectTarget
    else if type = .str "custom".toList then customRule tools at_
    else textRule tools at_
  (drafts, unmapped ++ ruleSchedule tools at_)

end DataQ.Contracts
