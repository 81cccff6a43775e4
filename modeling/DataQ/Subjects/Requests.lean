import DataQ.Runs.Attribution

/-! # Data-subject requests

`services/data_subject_requests.py`: what the stored results and incidents hold of a subject, who is
a column and a value, and its erasure. Every result and incident has its check. -/

namespace DataQ.Subjects
open DataQ.Attribution
set_option autoImplicit false

structure Result where
  id : ℕ
  checkId : ℕ
  createdAt : ℕ
  sampleFailures : Option Fields
  observedValue : Option Fields
  deriving DecidableEq

structure Incident where
  id : ℕ
  checkId : ℕ
  lastSeenAt : ℕ
  evidence : Option Json
  deriving DecidableEq

structure Store where
  check : ℕ → CheckSource
  versions : ℕ → List CheckVersion
  results : List Result
  incidents : List Incident

def partialListKey : Text := "partial_unexpected_list".toList

/-- `_ROW_LIST_KEYS`. -/
def rowListKeys : List Text :=
  ["unexpected_index_list".toList, partialListKey, "mismatched".toList,
    "additional_in_source".toList, "additional_in_target".toList]

def unparsedKey : Text := "unparsed_value".toList
def observedKey : Text := "observed_value".toList
def columnKey : Text := "column".toList
def failingKey : Text := "failing_result".toList

/-- The tested column of the check as of a time. -/
def Store.testedColumn (store : Store) (checkId at_ : ℕ) : Option Json :=
  (snapshotAt (store.versions checkId) (some (store.check checkId)) at_).column

section
variable (py : Python) (column value : Text)

/-- `isinstance(row, dict) and column in row and str(row.get(column)) == value`. -/
def rowMatches : Json → Bool
  | .obj fields =>
    match fields.lookup column with
    | some cell => py.str cell = value
    | none => false
  | _ => false

/-- `_sample_matches`. -/
def sampleMatches (sample : Fields) : Bool :=
  rowListKeys.any fun key =>
    match sample.lookup key with
    | some (.arr rows) => rows.any (rowMatches py column value)
    | _ => false

/-- One list of `_scrub_sample`, and whether anything was dropped until then. -/
def scrubList (found : Fields × Bool) (key : Text) : Fields × Bool :=
  match found.1.lookup key with
  | some (.arr rows) =>
    let kept := rows.filter fun row => !rowMatches py column value row
    if kept.length ≠ rows.length then (setField key (.arr kept) found.1, true) else found
  | _ => found

/-- `_scrub_sample`. -/
def scrubSample (sample : Fields) : Fields × Bool :=
  rowListKeys.foldl (scrubList py column value) (sample, false)

/-- `_observed_matches`. -/
def observedMatches (testedColumn : Option Json) (observed : Fields) : Bool :=
  match observed.lookup unparsedKey with
  | some cell => observed.lookup columnKey = some (.str column) && py.str cell = value
  | none =>
    match observed.lookup observedKey with
    | some (.arr items) =>
      testedColumn = some (.str column) && items.any fun v => py.str v = value
    | _ => false

/-- `_scrub_observed`. -/
def scrubObserved (testedColumn : Option Json) (observed : Fields) : Fields × Bool :=
  match observed.lookup unparsedKey with
  | some cell =>
    if observed.lookup columnKey = some (.str column) ∧ py.str cell = value then
      (setField unparsedKey .null observed, true)
    else (observed, false)
  | none =>
    match observed.lookup observedKey with
    | some (.arr items) =>
      if testedColumn = some (.str column) then
        let kept := items.filter fun v => py.str v ≠ value
        if kept.length ≠ items.length then (setField observedKey (.arr kept) observed, true)
        else (observed, false)
      else (observed, false)
    | _ => (observed, false)

/-! ## Results -/

structure MatchedResult where
  result : Result
  hitSample : Bool
  hitObserved : Bool
  testedColumn : Option Json
  deriving DecidableEq

def matchResult (store : Store) (result : Result) : Option MatchedResult :=
  let tested := store.testedColumn result.checkId result.createdAt
  let hitSample := result.sampleFailures.any (sampleMatches py column value)
  let hitObserved := result.observedValue.any (observedMatches py column value tested)
  if hitSample || hitObserved then some ⟨result, hitSample, hitObserved, tested⟩ else none

def findMatchingResults (store : Store) : List MatchedResult :=
  store.results.filterMap (matchResult py column value store)

/-- A column, assigned anew where the scrub changed it. -/
def rewritten (scrub : Fields → Fields × Bool) : Option Fields → Option Fields × Bool
  | none => (none, false)
  | some stored =>
    let (scrubbed, changed) := scrub stored
    if changed then (some scrubbed, true) else (some stored, false)

/-- A matched result's row as the erasure leaves it, and whether anything changed. -/
def eraseResult (matched : MatchedResult) : Result × Bool :=
  let sample := rewritten (scrubSample py column value) matched.result.sampleFailures
  let observed := rewritten (scrubObserved py column value matched.testedColumn)
    matched.result.observedValue
  ({ matched.result with sampleFailures := sample.1, observedValue := observed.1 },
    sample.2 || observed.2)

/-! ## Incidents -/

structure MatchedIncident where
  incident : Incident
  observedValue : Fields
  testedColumn : Option Json
  deriving DecidableEq

/-- `_incident_observed`: the evidence, the failing result and the observed value, where each is a
dict. -/
def incidentObserved (incident : Incident) : Option (Fields × Fields × Fields) :=
  match incident.evidence with
  | some (.obj evidence) =>
    match evidence.lookup failingKey with
    | some (.obj failing) =>
      match failing.lookup observedKey with
      | some (.obj observed) => some (evidence, failing, observed)
      | _ => none
    | _ => none
  | _ => none

def matchIncident (store : Store) (incident : Incident) : Option MatchedIncident :=
  let tested := store.testedColumn incident.checkId incident.lastSeenAt
  match incidentObserved incident with
  | some (_, _, observed) =>
    if observedMatches py column value tested observed then some ⟨incident, observed, tested⟩
    else none
  | none => none

def findMatchingIncidents (store : Store) : List MatchedIncident :=
  store.incidents.filterMap (matchIncident py column value store)

def eraseIncident (matched : MatchedIncident) : Incident × Bool :=
  let (scrubbed, changed) := scrubObserved py column value matched.testedColumn
    matched.observedValue
  match changed, incidentObserved matched.incident with
  | true, some (evidence, failing, _) =>
    ({ matched.incident with
        evidence := some (.obj (setField failingKey
          (.obj (setField observedKey (.obj scrubbed) failing)) evidence)) }, true)
  | _, _ => (matched.incident, false)

/-! ## Erasure -/

structure ErasureSummary where
  matchedResultIds : List ℕ
  erasedCount : ℕ
  matchedIncidentIds : List ℕ
  erasedIncidentCount : ℕ
  deriving DecidableEq, Repr

/-- `erase_matching_results`. -/
def eraseMatchingResults (store : Store) : Store × ErasureSummary :=
  let matched := findMatchingResults py column value store
  let erased : Store :=
    { store with
      results := store.results.map fun result =>
        match matchResult py column value store result with
        | some found => (eraseResult py column value found).1
        | none => result }
  let matchedIncidents := findMatchingIncidents py column value erased
  ({ erased with
      incidents := erased.incidents.map fun incident =>
        match matchIncident py column value erased incident with
        | some found => (eraseIncident py column value found).1
        | none => incident },
    { matchedResultIds := matched.map fun found => found.result.id
      erasedCount := matched.countP fun found => (eraseResult py column value found).2
      matchedIncidentIds := matchedIncidents.map fun found => found.incident.id
      erasedIncidentCount :=
        matchedIncidents.countP fun found => (eraseIncident py column value found).2 })

end

end DataQ.Subjects
