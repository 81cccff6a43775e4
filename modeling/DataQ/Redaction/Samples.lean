import DataQ.Redaction.Ladder

/-! # Failing samples

`services/run_service.py`: a result's `sample_failures` as the read API may emit it. The failing
rows come twice, as row locators and as a list of the tested column's values. -/

namespace DataQ.Redaction
set_option autoImplicit false

def indexListKey : Text := "unexpected_index_list".toList
def partialListKey : Text := "partial_unexpected_list".toList
def valueSignalSummaryKey : Text := "value_signal_summary".toList
def valueSignalStatusKey : Text := "value_signal_status".toList

def sampleSafeKeys : List Text := ["unexpected_count".toList, "unexpected_percent".toList]

def comparisonSampleKeys : List Text :=
  ["mismatched".toList, "additional_in_source".toList, "additional_in_target".toList]

/-- One list of `_values_by_column`: a column's values over the rows, under one spelling. -/
def columnValues (rows : List Json) (name : Text) : List Json :=
  rows.flatMap fun row =>
    match row with
    | .obj fields => (fields.filter (·.1 = name)).map Prod.snd
    | _ => []

/-- `values_by_column.get(name, [val])`. -/
def valuesOr (rows : List Json) (name : Text) (value : Json) : List Json :=
  let values := columnValues rows name
  if values = [] then [value] else values

/-- `(summary_by_column or {}).get(name)`. -/
def summaryOf (summaries : Option Json) (name : Text) : Option Json :=
  (summaries.filter Json.isDict).bind (·.get? name)

variable (py : Python)

def valueSignalSummaryRowCap : ℕ := 5000

def Counts.toJson (counts : Counts) : Json :=
  .obj [("n".toList, .num (.ofNat counts.n)),
    ("email_count".toList, .num (.ofNat counts.emailCount)),
    ("id_shaped_count".toList, .num (.ofNat counts.idShapedCount)),
    ("encoded_count".toList, .num (.ofNat counts.encodedCount)),
    ("distinct_count".toList, .num (.ofNat counts.distinctCount))]

def rowKeys : Json → List Text
  | .obj fields => fields.map Prod.fst
  | _ => []

/-- `gx_runner._value_signal_summary_by_column`, which writes the summary at capture time. -/
def valueSignalSummaryByColumn (rows : List Json) : Json :=
  let rows := rows.take valueSignalSummaryRowCap
  .obj ((rows.flatMap rowKeys).eraseDups.filterMap fun name =>
    (valueSignalCounts py (columnValues rows name)).map fun counts => (name, counts.toJson))

/-- `tested and name.strip().lower() == tested`. -/
def isTested (testedColumn : Option Text) (name : Text) : Bool :=
  let tested := foldKey py (testedColumn.getD [])
  tested ≠ [] && foldKey py name = tested

/-- What masks one cell of a failing row. -/
def cellReason (testedColumn : Option Text) (policy : Policy) (tags : Tags) (rows : List Json)
    (summaries : Option Json) (name : Text) (value : Json) : Option RedactionReason :=
  let values := valuesOr rows name value
  let summary := summaryOf summaries name
  if isTested py testedColumn name then knownSensitiveReason py name values policy tags summary
  else incidentalMaskReason py name values policy tags summary

def redactRow (testedColumn : Option Text) (policy : Policy) (tags : Tags) (rows : List Json)
    (summaries : Option Json) : Json → Json
  | .obj fields => .obj (fields.map fun field =>
      (field.1,
        if (cellReason py testedColumn policy tags rows summaries field.1 field.2).isSome then
          redactSampleValue field.2
        else field.2))
  | row => redactSampleValue row

def stripSideSuffix (name : Text) : Text :=
  if "_src".toList.isSuffixOf name || "_tgt".toList.isSuffixOf name then
    name.take (name.length - 4)
  else name

/-- What masks a cell of a comparison's rows. -/
def comparisonReason (policy : Policy) (tags : Tags) (rows : List Json) (name : Text)
    (value : Json) : Option RedactionReason :=
  (floorMaskReason py name policy tags).or
    (incidentalMaskReason py (stripSideSuffix name) (valuesOr rows name value) policy tags none)

def redactComparisonRow (policy : Policy) (tags : Tags) (rows : List Json) : Json → Json
  | .obj fields => .obj (fields.map fun field =>
      let name := stripSideSuffix field.1
      let values := valuesOr rows field.1 field.2
      let reason := (floorMaskReason py field.1 policy tags).or
        (incidentalMaskReason py name values policy tags none)
      (field.1, if reason.isSome then redactSampleValue field.2 else field.2))
  | row => redactSampleValue row

def isSafeSummary (key : Text) : Json → Bool
  | .num _ => sampleSafeKeys.contains key
  | _ => false

/-- The list of the tested column's values, capped: shown or masked as a whole. -/
def redactPlainList (testedColumn : Option Text) (policy : Policy) (tags : Tags)
    (summaries : Option Json) (values : List Json) : List Json :=
  let capped := values.take sampleRowCap
  match testedColumn with
  | none => redactItems capped
  | some column =>
    let reason := knownSensitiveReason py column values policy tags (summaryOf summaries column)
    if reason.isSome then redactItems capped else capped

/-- `raw_value and all(isinstance(v, dict) for v in raw_value)`. -/
def holdsRows (values : List Json) : Bool := values ≠ [] && values.all Json.isDict

/-- The rows of a list of the sample, capped and redacted. -/
def redactRows (testedColumn : Option Text) (policy : Policy) (tags : Tags) (summaries : Option Json)
    (rows : List Json) : List Json :=
  (rows.take sampleRowCap).map (redactRow py testedColumn policy tags rows summaries)

/-- `partial_unexpected_list`. -/
def redactPartialList (testedColumn : Option Text) (policy : Policy) (tags : Tags)
    (summaries : Option Json) (values : List Json) : List Json :=
  if holdsRows values then redactRows py testedColumn policy tags summaries values
  else redactPlainList py testedColumn policy tags summaries values

/-- `raw_value[:SAMPLE_ROW_CAP] if isinstance(raw_value, list) else raw_value`. -/
def capRows : Json → Json
  | .arr items => .arr (items.take sampleRowCap)
  | value => value

/-- One round of the loop over `sample.items()`. -/
def redactEntry (testedColumn : Option Text) (policy : Policy) (tags : Tags)
    (summaries : Option Json) (key : Text) (raw : Json) : Option Json :=
  if key = valueSignalSummaryKey || key = valueSignalStatusKey then none
  else if isSafeSummary key (capRows raw) then some (capRows raw)
  else
    match raw with
    | .arr values =>
      if key = indexListKey then
        some (.arr (redactRows py testedColumn policy tags summaries values))
      else if key = partialListKey then
        some (.arr (redactPartialList py testedColumn policy tags summaries values))
      else if comparisonSampleKeys.contains key then
        some (.arr ((values.take sampleRowCap).map (redactComparisonRow py policy tags values)))
      else some (redactSampleValue (capRows raw))
    | _ => some (redactSampleValue raw)

def redactSampleFailures (sample : Option Fields) (testedColumn : Option Text) (policy : Policy)
    (tags : Tags) : Option Fields :=
  match sample with
  | none | some [] => none
  | some sample =>
    let summaries := sample.lookup valueSignalSummaryKey
    some (sample.filterMap fun entry =>
      (redactEntry py testedColumn policy tags summaries entry.1 entry.2).map (entry.1, ·))

end DataQ.Redaction
