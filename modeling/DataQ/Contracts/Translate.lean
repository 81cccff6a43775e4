import DataQ.Contracts.QualityRules

/-! # Translating a document

`contracts/translate.py`: service levels, the age of an object, and `translate` itself. -/

namespace DataQ.Contracts
open Runs (CheckKind FailingTier)
set_option autoImplicit false

variable (tools : Tools)

/-! ## Freshness -/

/-- The units of `UNIT_HOURS`, by how many hours one is. -/
def unitHours : List (Text × Decimal) :=
  ["s", "sec", "second", "seconds"].map (fun unit : String =>
      (unit.toList, ⟨false, 2777777777777777777777777778, -31⟩)) ++
    ["m", "min", "minute", "minutes"].map (fun unit : String =>
      (unit.toList, ⟨false, 1666666666666666666666666667, -29⟩)) ++
    ["h", "hr", "hour", "hours"].map (fun unit : String => (unit.toList, .ofNat 1)) ++
    ["d", "day", "days"].map (fun unit : String => (unit.toList, .ofNat 24)) ++
    ["w", "wk", "week", "weeks"].map (fun unit : String => (unit.toList, .ofNat 168)) ++
    ["y", "yr", "year", "years"].map (fun unit : String => (unit.toList, .ofNat 8760))

def hours (value unit : Json) : Option Decimal :=
  let factor := if unit = .null then none
    else unitHours.lookup (tools.py.lower (pyStrip (tools.py.str unit)))
  match decimal value, factor with
  | some amount, some factor => if amount.positive then some (amount.mul factor) else none
  | _, _ => none

def freshnessCheck (object : Text) (column : Option Text) (hours : Decimal) (ref : ClauseRef)
    (connectionType label : Text) (tier : FailingTier) : Except Unmapped CheckDraft :=
  match column with
  | none =>
    if connectionType ∉ flatFileTypes then
      .error
        { object := some object
          property := none
          ruleId := ref.ruleId
          field := ref.field
          reason := "a freshness ceiling on ".toList ++ tools.repr (.str connectionType) ++
            " needs an element naming a timestamp column; only flat-file datasources ".toList ++
            "measure arrival time".toList
          clause := [("hours".toList, .str hours.text)] }
    else .ok (aged (object ++ ' ' :: label) [])
  | some column =>
    .ok (aged ((if column = [] then object else object ++ '.' :: column) ++ ' ' :: label)
      [("column".toList, .str column)])
where
  /-- The monitor cannot warn, so a `warn` tier is a `fail` tier here. -/
  aged (name : Text) (config : Fields) : CheckDraft :=
    { newDraft name .freshness (monitorExpectationType .freshness) config ref with
      thresholds := Thresholds.empty.set (if tier = .critical then .critical else .fail)
        (some hours) }

def splitElement : Json → Option Text × Option Text
  | .str element =>
    match pyStrip element with
    | [] => (none, none)
    | element =>
      let head := element.takeWhile (· ≠ '.')
      match element.dropWhile (· ≠ '.') with
      | [] | [_] => (some head, none)
      | _ :: tail => (some head, some tail)
  | _ => (none, none)

/-- The id of a service level. -/
def slaId (sla : Json) (index : ℕ) : Text :=
  (sla.text? "id".toList).getD ("slaProperties[".toList ++ Nat.toDigits 10 index ++ [']'])

/-- `sla_property`: the object that a service level is about with its draft, or why it has none. -/
def slaProperty (sla : Json) (index : ℕ) (defaultElement : Json) (objects : List Text)
    (connectionType : Text) : Except Unmapped (Text × CheckDraft) :=
  let name := if (sla.get "property".toList).truthy
    then tools.py.str (sla.get "property".toList) else []
  let element := (sla.get? "element".toList).getD defaultElement
  let (object, column) := splitElement element
  let unmapped := fun (field reason : Text) (clause : Fields) =>
    ({ object := object
       property := none
       ruleId := some (slaId sla index)
       field := field
       reason := reason
       clause := clause } : Unmapped)
  let stated := [("value".toList, sla.get "value".toList), ("unit".toList, sla.get "unit".toList)]
  if name = "frequency".toList then
    .error (unmapped "slaProperties.frequency".toList
      ("a refresh cadence is not a staleness ceiling — a daily feed checked at 24h ".toList ++
        "flaps on every run; state the ceiling as latency or dataq.maxAgeHours".toList) stated)
  else if name ≠ "latency".toList then
    .error (unmapped ("slaProperties.".toList ++ if name = [] then ['?'] else name)
      "not a data-quality check".toList stated)
  else
    match hours tools (sla.get "value".toList) (sla.get "unit".toList) with
    | none =>
      .error (unmapped "slaProperties.latency".toList
        "latency needs a positive value and a time unit (s/m/h/d/w/y)".toList stated)
    | some hours =>
      let target := object.getD []
      if target ∉ objects then
        .error (unmapped "slaProperties.latency".toList
          "the element names no schema object of this contract".toList
          [("element".toList, element)])
      else
        (freshnessCheck tools target column hours
          ⟨target, none, some (slaId sla index), "slaProperties.latency".toList⟩ connectionType
          "latency".toList (tier tools sla)).map (target, ·)

def maxAgeProperty (object : Text) (props : Fields) (connectionType : Text) :
    Option (Except Unmapped CheckDraft) :=
  (props.lookup "maxAgeHours".toList).map fun value =>
    let ref := objectRef object "customProperties.dataq.maxAgeHours".toList
    match (decimal value).filter Decimal.positive with
    | none =>
      .error
        { object := some object
          property := none
          ruleId := none
          field := ref.field
          reason := "dataq.maxAgeHours must be a positive number of hours".toList
          clause := [("maxAgeHours".toList, value)] }
    | some hours =>
      let column := ((Json.obj props).text? "freshnessColumn".toList).filter (· ≠ [])
      freshnessCheck tools object column hours ref connectionType "max age".toList .fail

/-! ## The whole document -/

/-- The rules of one node, each with its id. -/
def qualityRules (object : Text) (node : Json) (prop : Option Json)
    (connectionType objectTarget : Text) : Outcome :=
  let outcomes := ((rulesOf node).zip (ruleIds tools (rulesOf node))).map fun rule =>
    qualityRule tools ⟨object, rule.1, rule.2, prop⟩ connectionType objectTarget
  (outcomes.flatMap Prod.fst, outcomes.flatMap Prod.snd)

/-- The constraints of one property. -/
def propertyDrafts (object : Text) (prop : Json) (primaryKeyCount : ℕ) : List CheckDraft :=
  [requiredCheck tools object prop, uniqueCheck tools object prop primaryKeyCount,
    lengthCheck tools object prop, patternCheck tools object prop, enumCheck tools object prop,
    (rangeCheck tools object prop).1].filterMap id

def translateProperty (object : Text) (primaryKeyCount : ℕ) (connectionType objectTarget : Text)
    (prop : Json) : Outcome :=
  let rules := qualityRules tools object prop (some prop) connectionType objectTarget
  (propertyDrafts tools object prop primaryKeyCount ++ rules.1,
    (rangeCheck tools object prop).2 ++ rules.2)

/-- `_object_target`. -/
def physicalName (object : Json) (name : Text) : Text :=
  match object.text? "physicalName".toList with
  | some physical => if pyStrip physical ≠ [] then physical else name
  | none => name

def eitherOutcome : Option (Except Unmapped CheckDraft) → Outcome
  | none => ([], [])
  | some (.error unmapped) => ([], [unmapped])
  | some (.ok draft) => ([draft], [])

/-- The dict items of `properties`. -/
def propertiesOf (object : Json) : List Json :=
  (object.items "properties".toList).filter Json.isDict

def namedProperties (object : Json) : List Json :=
  (propertiesOf object).filter fun prop => (prop.text? "name".toList).isSome

/-- One pass of the loop over `schema`. -/
def translateObject (connectionType : Text) (render : Text → Text) (object : Json) (name : Text) :
    TranslatedObject × List Unmapped :=
  let rendered := render (physicalName object name)
  let props := propertiesOf object
  let primaryKeyCount := props.countP (isTrue · "primaryKey".toList)
  let properties := (namedProperties object).map
    (translateProperty tools name primaryKeyCount connectionType rendered)
  let drift := eitherOutcome (schemaDriftCheck tools name props connectionType)
  let rules := qualityRules tools name object none connectionType rendered
  let dataqProps := customProperties object
  let schedule := ((Json.obj dataqProps).text? "schedule".toList).map pyStrip
  let cron := schedule.filter (· ≠ [])
  let zone := (((Json.obj dataqProps).text? "timezone".toList).map pyStrip).filter (· ≠ [])
  let age := eitherOutcome (maxAgeProperty tools name dataqProps connectionType)
  ({ name := name
     physicalName := physicalName object name
     checks := properties.flatMap Prod.fst ++ (compoundPrimaryKeyCheck tools name props).toList ++
      drift.1 ++ rules.1 ++ age.1
     piiColumns := (namedProperties object).filterMap (classificationPii tools)
     scheduleCron := cron
     scheduleTimezone := if cron.isSome then zone.getD "UTC".toList else "UTC".toList },
    properties.flatMap Prod.snd ++ drift.2 ++ rules.2 ++ age.2)

structure TranslatedContract where
  objects : List TranslatedObject
  unmapped : List Unmapped
  warnings : List Text

def addObject (connectionType : Text) (render : Text → Text) (contract : TranslatedContract)
    (object : Json) : TranslatedContract :=
  match object.text? "name".toList with
  | none => contract
  | some name =>
    if name ∈ contract.objects.map TranslatedObject.name then
      { contract with
        warnings := contract.warnings ++ ["schema object ".toList ++ tools.repr (.str name) ++
          " appears more than once; the first one wins".toList] }
    else
      let translated := translateObject tools connectionType render object name
      { contract with
        objects := contract.objects ++ [translated.1]
        unmapped := contract.unmapped ++ translated.2 }

def addSla (connectionType : Text) (defaultElement : Json) (contract : TranslatedContract)
    (entry : Json × ℕ) : TranslatedContract :=
  if !entry.1.isDict then contract
  else
    match slaProperty tools entry.1 entry.2 defaultElement
        (contract.objects.map TranslatedObject.name) connectionType with
    | .error unmapped => { contract with unmapped := contract.unmapped ++ [unmapped] }
    | .ok (object, draft) =>
      { contract with
        objects := contract.objects.map fun o =>
          if o.name = object then { o with checks := o.checks ++ [draft] } else o }

def translate (document : Json) (connectionType : Text) (render : Text → Text) :
    TranslatedContract :=
  let doc := normalizeDocument document
  let objects := (doc.items "schema".toList).filter Json.isDict
  let contract := objects.foldl (addObject tools connectionType render) ⟨[], [], []⟩
  (doc.items "slaProperties".toList).zipIdx.foldl
    (addSla tools connectionType (doc.get "slaDefaultElement".toList)) contract

end DataQ.Contracts
