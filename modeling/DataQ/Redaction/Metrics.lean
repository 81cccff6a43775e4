import DataQ.Redaction.Ladder

/-! # The metric and the observed value

`services/run_service.py`: a result's `metric_value` and its `observed_value`, each as a read
surface may emit it. -/

namespace DataQ.Redaction
set_option autoImplicit false

/-- A `CheckAsOf`, as far as the redactors read it. -/
structure CheckAsOf where
  expectationType : Option Text
  column : Option Text
  aggregate : Option Text
  deriving DecidableEq, Repr

/-- A `metric_value`: a `Decimal`, or a number already read from JSON. -/
inductive Metric
  | decimal (value : Numeral)
  | number (value : Numeral)
  deriving DecidableEq, Repr

structure RedactedMetric where
  value : Option Metric
  redaction : Option RedactionReason
  deriving DecidableEq, Repr

def cellScalarExpectationTypes : List Text :=
  ["expect_column_max_to_be_between".toList, "expect_column_min_to_be_between".toList]

def aggregateExpectationType : Text := "monitor:aggregate".toList

def aggregateCellValues : List Json := [.str "min".toList, .str "max".toList]

def isCellScalar (expectationType : Option Text) (observed : Option Fields) : Bool :=
  match expectationType with
  | none => false
  | some type =>
    if cellScalarExpectationTypes.contains type then true
    else type = aggregateExpectationType &&
      ((observed.bind (·.lookup "aggregate".toList)).any aggregateCellValues.contains)

/-- `doc.get("aggregate")`, where `null` names nothing. -/
def namedAggregate (doc : Fields) : Option Json :=
  (doc.lookup "aggregate".toList).filter (· ≠ .null)

def metricIsCell (expectationType aggregate : Option Text) (observed expected : Option Fields) :
    Bool :=
  let docs := observed.toList ++ expected.toList
  let known := (aggregate.map Json.str).toList ++ docs.filterMap namedAggregate
  let measures := match expectationType with
    | none => docs.any fun doc =>
        doc.lookup "monitor".toList = some (.str "aggregate".toList) ||
          (doc.lookup "aggregate".toList).isSome
    | some type => type = aggregateExpectationType
  measures && (known = [] || known.any aggregateCellValues.contains)

variable (py : Python)

/-- `float(metric_value) if isinstance(metric_value, Decimal) else metric_value`. -/
def Metric.evidence : Metric → Json
  | .decimal n => .num (py.float n)
  | .number n => .num n

def metricValueRedaction (metric : Option Metric) (asOf : CheckAsOf) (policy : Policy) (tags : Tags)
    (observed expected : Option Fields) : Option RedactionReason :=
  match metric with
  | none => none
  | some metric =>
    if !metricIsCell asOf.expectationType asOf.aggregate observed expected then none
    else
      match asOf.column with
      | none | some [] => some .defaultMask
      | some column => knownSensitiveReason py column [metric.evidence py] policy tags none

def redactMetricValue (metric : Option Metric) (asOf : CheckAsOf) (policy : Policy) (tags : Tags)
    (observed expected : Option Fields) : RedactedMetric :=
  let reason := metricValueRedaction py metric asOf policy tags observed expected
  ⟨if reason.isSome then none else metric, reason⟩

def columnlessScalarShows (value : Json) (policy : Policy) (tags : Tags)
    (expectationType : Option Text) : Bool :=
  match expectationType with
  | none => false
  | some type =>
    if cellScalarExpectationTypes.contains type then false
    else !knownSensitive py [] [value] policy tags none

/-- The dict with a persisted error cleared of its statement. -/
def withoutEcho (observed : Fields) : Fields :=
  match observed.lookup "error".toList with
  | some (.str error) => setField "error".toList (.str (stripStatementEcho error)) observed
  | _ => observed

/-- `str(observed.get("column") or "")`. -/
def unparsedColumn (observed : Fields) : Text :=
  match observed.lookup "column".toList with
  | none => []
  | some value => if value.truthy then py.str value else []

def redactObservedValue (observed : Option Fields) (testedColumn : Option Text) (policy : Policy)
    (tags : Tags) (expectationType : Option Text) : Option Fields :=
  match observed with
  | none => none
  | some [] => some []
  | some observed =>
    let observed := withoutEcho observed
    match observed.lookup "unparsed_value".toList with
    | some value =>
      let column := unparsedColumn py observed
      let shown := column ≠ [] && !knownSensitive py column [value] policy tags none
      some (setField "unparsed_value".toList (if shown then value else redactSampleValue value)
        observed)
    | none =>
      match observed.lookup "observed_value".toList with
      | none => some observed
      | some (.arr values) =>
        let shown := match testedColumn with
          | none => false
          | some column => !knownSensitive py column values policy tags none
        let capped := Json.arr (values.take sampleRowCap)
        some (setField "observed_value".toList (if shown then capped else redactSampleValue capped)
          observed)
      | some value =>
        let shown := match testedColumn with
          | some column => !knownSensitive py column [value] policy tags none
          | none => columnlessScalarShows py value policy tags expectationType
        if shown then some observed
        else some (setField "observed_value".toList (redactSampleValue value) observed)

/-! ## One number under two names -/

/-- A scalar that is a cell is the metric as well, but for GX's own expectations, whose metric is a
percentage. -/
theorem metricIsCell_of_isCellScalar {type : Text} {observed : Option Fields}
    (h : isCellScalar (some type) observed = true)
    (hgx : cellScalarExpectationTypes.contains type = false) (aggregate : Option Text)
    (expected : Option Fields) : metricIsCell (some type) aggregate observed expected = true := by
  simp only [isCellScalar, hgx, Bool.false_eq_true, if_false, Bool.and_eq_true] at h
  obtain ⟨htype, hany⟩ := h
  obtain ⟨name, hname, hcell⟩ := (Option.any_eq_true _ _).mp hany
  obtain ⟨doc, hdoc, hlookup⟩ := Option.bind_eq_some_iff.mp hname
  have hnull : name ≠ .null := by
    rintro rfl
    exact absurd hcell (by decide)
  have hnamed : namedAggregate doc = some name := by
    rw [namedAggregate, hlookup, Option.filter_some, if_pos (by simpa using hnull)]
  simp only [metricIsCell, Bool.and_eq_true, Bool.or_eq_true, List.any_eq_true]
  refine ⟨htype, .inr ⟨name, ?_, hcell⟩⟩
  refine List.mem_append_right _ (List.mem_filterMap.mpr ⟨doc, ?_, hnamed⟩)
  exact List.mem_append_left _ (by rw [hdoc]; exact List.mem_singleton_self doc)

theorem knownSensitive_numeral (column : Text) (n : Numeral) (policy : Policy) (tags : Tags) :
    knownSensitive py column [.num n] policy tags none = !valueSignalDecides py column policy tags := by
  rw [knownSensitive_eq, decide_eq_false (valueSignal_numeral py n), Bool.or_false]

theorem Metric.evidence_numeral (metric : Metric) : ∃ n, metric.evidence py = .num n := by
  cases metric with
  | decimal n => exact ⟨py.float n, rfl⟩
  | number n => exact ⟨n, rfl⟩

theorem lookup_withoutEcho (key : Text) (h : key ≠ "error".toList) (observed : Fields) :
    (withoutEcho observed).lookup key = observed.lookup key := by
  unfold withoutEcho
  split
  · exact lookup_setField_ne h _ observed
  · rfl

/-- The metric of a cell is withheld for want of a column, or by the ladder. -/
theorem withheld_iff {asOf : CheckAsOf} {observed expected : Option Fields}
    (hcell : metricIsCell asOf.expectationType asOf.aggregate observed expected = true)
    (metric : Metric) (policy : Policy) (tags : Tags) :
    (redactMetricValue py (some metric) asOf policy tags observed expected).value = none ↔
      asOf.column.getD [] = [] ∨
        valueSignalDecides py (asOf.column.getD []) policy tags = false := by
  have hreason : (redactMetricValue py (some metric) asOf policy tags observed expected).value =
      none ↔ (metricValueRedaction py (some metric) asOf policy tags observed expected).isSome =
        true := by
    unfold redactMetricValue
    cases metricValueRedaction py (some metric) asOf policy tags observed expected <;> simp
  rw [hreason]
  unfold metricValueRedaction
  rw [hcell]
  obtain ⟨n, hn⟩ := metric.evidence_numeral py
  cases hcolumn : asOf.column with
  | none => simp
  | some column =>
    cases column with
    | nil => simp
    | cons c cs =>
      have hladder := knownSensitive_numeral py (c :: cs) n policy tags
      rw [knownSensitive] at hladder
      simp [hn, hladder]

/-- What the ladder's verdict on the observed cell comes to. -/
def cellMasked (asOf : CheckAsOf) (policy : Policy) (tags : Tags) : Bool :=
  match asOf.column with
  | some column => !valueSignalDecides py column policy tags
  | none => asOf.expectationType = none || !valueSignalDecides py [] policy tags

theorem masked_iff {asOf : CheckAsOf} {observed : Fields} {expected : Option Fields} {cell : Numeral}
    (hcell : metricIsCell asOf.expectationType asOf.aggregate (some observed) expected = true)
    (hobserved : observed.lookup "observed_value".toList = some (.num cell)) (policy : Policy)
    (tags : Tags) :
    (redactObservedValue py (some observed) asOf.column policy tags asOf.expectationType).bind
        (·.lookup "observed_value".toList) = some redacted ↔
      (observed.lookup "unparsed_value".toList).isSome = false ∧
        cellMasked py asOf policy tags = true := by
  have hplain : some (Json.num cell) ≠ some redacted := by simp [redacted]
  have hcells : ∀ type, asOf.expectationType = some type →
      cellScalarExpectationTypes.contains type = false := by
    intro type htype
    have hmeasures : type = aggregateExpectationType := by
      simp only [metricIsCell, htype, Bool.and_eq_true, decide_eq_true_eq] at hcell
      exact hcell.1
    rw [hmeasures]
    decide
  obtain ⟨field, fields, rfl⟩ : ∃ field fields, observed = field :: fields := by
    cases observed with
    | nil => cases hobserved
    | cons field fields => exact ⟨field, fields, rfl⟩
  have hcleared := lookup_withoutEcho "observed_value".toList (by decide) (field :: fields)
  rw [hobserved] at hcleared
  have hunparsed := lookup_withoutEcho "unparsed_value".toList (by decide)
    (field :: fields)
  simp only [redactObservedValue, hunparsed]
  cases hvalue : (field :: fields).lookup "unparsed_value".toList with
  | some value =>
    rw [Option.bind_some, lookup_setField_ne (by decide), hcleared]
    exact iff_of_false hplain (by simp)
  | none =>
    simp only [hcleared]
    have hshown : (match asOf.column with
        | some column => !knownSensitive py column [.num cell] policy tags none
        | none => columnlessScalarShows py (.num cell) policy tags asOf.expectationType) =
        !cellMasked py asOf policy tags := by
      unfold cellMasked
      cases asOf.column with
      | some column => simp only [knownSensitive_numeral]
      | none =>
        cases htype : asOf.expectationType with
        | none => rfl
        | some type =>
          simp only [columnlessScalarShows]
          rw [hcells type htype, if_neg Bool.false_ne_true, knownSensitive_numeral]
          simp
    rw [hshown]
    cases cellMasked py asOf policy tags with
    | false =>
      rw [Bool.not_false, if_pos rfl, Option.bind_some, hcleared]
      exact iff_of_false hplain (by simp)
    | true =>
      rw [Bool.not_true, if_neg Bool.false_ne_true, Option.bind_some, lookup_setField_self]
      exact iff_of_true rfl ⟨rfl, rfl⟩

/-- What the two redactors need of a check and its observed value to agree on a cell. -/
def CellAgrees (asOf : CheckAsOf) (policy : Policy) (tags : Tags) (observed : Fields) : Bool :=
  let column := asOf.column.getD []
  if (observed.lookup "unparsed_value".toList).isSome then
    column ≠ [] && valueSignalDecides py column policy tags
  else
    column ≠ [] || (asOf.column = none && asOf.expectationType = none) ||
      !valueSignalDecides py [] policy tags

/-- The metric of a cell is withheld exactly when the same cell is masked as the observed value, if
and only if nothing else of the result is unparsed and the check names its column or cannot be told
from any other. -/
theorem metric_withheld_iff_observed_masked_iff {asOf : CheckAsOf} {observed : Fields}
    {expected : Option Fields} {cell : Numeral}
    (hcell : metricIsCell asOf.expectationType asOf.aggregate (some observed) expected = true)
    (hobserved : observed.lookup "observed_value".toList = some (.num cell)) (metric : Metric)
    (policy : Policy) (tags : Tags) :
    ((redactMetricValue py (some metric) asOf policy tags (some observed) expected).value = none ↔
        (redactObservedValue py (some observed) asOf.column policy tags asOf.expectationType).bind
          (·.lookup "observed_value".toList) = some redacted) ↔
      CellAgrees py asOf policy tags observed = true := by
  rw [withheld_iff py hcell, masked_iff py hcell hobserved]
  unfold CellAgrees cellMasked
  cases hunparsed : (observed.lookup "unparsed_value".toList).isSome with
  | true => simp
  | false =>
    cases hcolumn : asOf.column with
    | none => simp
    | some column =>
      cases column with
      | nil => simp
      | cons c cs => simp

/-- A minimum over a column the policy lists, read as of its result. -/
def salaryMinimum : CheckAsOf :=
  ⟨some aggregateExpectationType, some "salary".toList, some "min".toList⟩

def cellOf (text : Text) (h : printsNumber text = true) : Fields :=
  [("aggregate".toList, .str "min".toList), ("observed_value".toList, .num ⟨text, h⟩)]

theorem metric_withheld_iff_observed_masked_iff_salary :
    ((redactMetricValue asciiPython (some (.decimal ⟨"41000".toList, by decide⟩)) salaryMinimum
          { piiColumns := ["SALARY".toList] } {} (some (cellOf "41000.0".toList (by decide)))
          none).value = none ↔
        (redactObservedValue asciiPython (some (cellOf "41000.0".toList (by decide)))
          salaryMinimum.column { piiColumns := ["SALARY".toList] } {}
          salaryMinimum.expectationType).bind (·.lookup "observed_value".toList) =
            some redacted) ↔
      CellAgrees asciiPython salaryMinimum { piiColumns := ["SALARY".toList] } {}
        (cellOf "41000.0".toList (by decide)) = true :=
  metric_withheld_iff_observed_masked_iff asciiPython (by decide) rfl _ _ _

/-- Without a column the metric is withheld, and the observed value shows the same cell. -/
theorem columnless_minimum_shows_observed :
    metricIsCell (some aggregateExpectationType) (some "min".toList)
        (some (cellOf "41000.0".toList (by decide))) none = true ∧
      ¬ ((redactMetricValue asciiPython (some (.decimal ⟨"41000".toList, by decide⟩))
            ⟨some aggregateExpectationType, none, some "min".toList⟩ {} {}
            (some (cellOf "41000.0".toList (by decide))) none).value = none ↔
          (redactObservedValue asciiPython (some (cellOf "41000.0".toList (by decide))) none {} {}
            (some aggregateExpectationType)).bind (·.lookup "observed_value".toList) =
              some redacted) := by
  decide

end DataQ.Redaction
