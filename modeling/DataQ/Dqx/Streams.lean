import DataQ.Foundations.Json

/-! # DQX stream checks

`databricks_dqx.run_dqx_batch`: every dqx check of a run is evaluated in one job. A check in
`stream` mode reads the versions of its table from the one that its last evaluated result recorded.
-/

namespace DataQ.Dqx
set_option autoImplicit false

structure Spec where
  expectationType : Text
  config : Fields
  deriving DecidableEq

structure Outcome where
  expectationType : Text
  success : Bool
  errored : Bool
  skipped : Bool
  errorMessage : Option Text
  metricValue : Option ℕ
  observedValue : Option Json
  expectedValue : Json
  deriving DecidableEq

/-- The version and the id of a table that a stream resumes from; `none` is its start. -/
abbrev Point := Option (ℕ × Text)

/-- The stream checks that resume from one point, each rule under its name. -/
structure Group where
  point : Point
  checks : Fields
  deriving DecidableEq

structure JobSpec where
  table : Text
  checks : Fields
  streams : List Group
  checkpointRoot : Option Text
  deriving DecidableEq

/-- `build_dqx_rule`, and `safe_failure_reason` of a text that the workspace returned. -/
structure Tools where
  build : Text → Fields → Except Text Json
  classify : Json → Text

/-- The texts of `DQX_TYPES`, each type with its function. -/
def dqxTypes : List (Text × Text) :=
  ["is_not_null", "is_not_empty", "is_not_null_and_not_empty", "is_in_list", "is_in_range",
    "regex_match", "is_not_less_than", "is_not_greater_than"].map fun function =>
      ("dqx:".toList ++ function.toList, function.toList)

def dqxMode (config : Fields) : Except Text Text :=
  match (config.lookup "mode".toList).getD (.str "snapshot".toList) with
  | .str mode =>
    if mode = "snapshot".toList ∨ mode = "stream".toList then .ok mode
    else .error "'mode' must be one of ['snapshot', 'stream']".toList
  | _ => .error "'mode' must be one of ['snapshot', 'stream']".toList

/-- `is_sql_identifier` of a text. -/
def isSqlIdentifier (name : Text) : Bool :=
  let letter := fun c : Char => ('A' ≤ c && c ≤ 'Z') || ('a' ≤ c && c ≤ 'z') || c = '_'
  match name with
  | [] => false
  | c :: cs => letter c && cs.all fun c => letter c || ('0' ≤ c && c ≤ '9') || c = '$'

/-- `checkpoint_root`; `none` where it raises. -/
def checkpointRoot (volume : Text) : Option Text :=
  let parts := volume.splitOn '.'
  if parts.length = 3 ∧ parts.all isSqlIdentifier = true then
    some ("/Volumes/".toList ++ ['/'].intercalate parts)
  else none

/-- `qualified_table`; `none` where it raises. -/
def qualifiedTable (catalog schema table : Text) : Option Text :=
  if [catalog, schema, table].all isSqlIdentifier then
    some (['.'].intercalate ([catalog, schema, table].map fun part => '\x60' :: part ++ ['\x60']))
  else none

/-! ## Resuming -/

/-- The version and the table id of a stream's state, where they are of the right kind. -/
def position? (state : Json) : Point :=
  match (state.get "next_version".toList).nat?, state.text? "table_id".toList with
  | some version, some tableId =>
    if 0 < tableId.length ∧ tableId.length ≤ 64 then some (version, tableId) else none
  | _, _ => none

def resumePoint (previous : Option Json) (tableKey : Text) : Point :=
  match previous with
  | none => none
  | some observed =>
    let state := observed.get "stream".toList
    if state.isDict = true ∧ state.get "table".toList = .str tableKey then position? state else none

def count (j : Json) : Json := if j.nat?.isSome then j else .null

def isInt : Json → Bool
  | .num n => n.isInt
  | _ => false

def streamFields (tableKey tableId : Text) (start version restarted batches commits : Json) : Json :=
  .obj [("table".toList, .str tableKey), ("table_id".toList, .str tableId),
    ("from_version".toList, start), ("next_version".toList, version),
    ("restarted".toList, restarted), ("batches".toList, batches),
    ("change_commits_skipped".toList, commits)]

def streamState (raw : Json) (tableKey : Text) : Option Json :=
  if raw.isDict = true then
    (position? raw).map fun point =>
      let start := raw.get "from_version".toList
      let restarted := raw.get "restarted".toList
      streamFields tableKey point.2 (if isInt start then start else .null)
        (raw.get "next_version".toList)
        (if restarted ∈ [Json.str "table_replaced".toList, Json.str "history_expired".toList] then
          restarted else .null)
        (count (raw.get "batches".toList)) (count (raw.get "change_commits_skipped".toList))
  else none

/-! ## The job's payload -/

def errorOutcome (expectationType message : Text) : Outcome where
  expectationType := expectationType
  success := false
  errored := true
  skipped := false
  errorMessage := some message
  metricValue := none
  observedValue := none
  expectedValue := .obj [("engine".toList, .str "dqx".toList)]

def expected (function : Text) (config : Fields) : Json :=
  .obj (config.foldl (fun fields field => setField field.1 field.2 fields)
    [("engine".toList, .str "dqx".toList), ("function".toList, .str function)])

def evaluated (spec : Spec) (function : Text) (failing : ℕ) (observed : Fields) : Outcome where
  expectationType := spec.expectationType
  success := failing = 0
  errored := false
  skipped := false
  errorMessage := none
  metricValue := some failing
  observedValue := some (.obj observed)
  expectedValue := expected function spec.config

def skippedOutcome (spec : Spec) (function : Text) (observed : Fields) : Outcome where
  expectationType := spec.expectationType
  success := true
  errored := false
  skipped := true
  errorMessage := none
  metricValue := none
  observedValue := some (.obj (observed ++
    [("reason".toList, .str "no rows appended since last run".toList)]))
  expectedValue := expected function spec.config

def ruleName (index : ℕ) : Text := "dataq_".toList ++ Nat.toDigits 10 index

def streamOutcome (spec : Spec) (function : Text) (failing : ℕ) (result : Json)
    (tableKey : Text) : Outcome :=
  match streamState (result.get "stream".toList) tableKey, (result.get "rows".toList).nat? with
  | some state, some rows =>
    let observed := [("failing_rows".toList, result.get "failing".toList),
      ("rows".toList, result.get "rows".toList), ("stream".toList, state)]
    if rows = 0 then skippedOutcome spec function observed
    else evaluated spec function failing observed
  | _, _ => errorOutcome spec.expectationType
      "the dqx job returned a bad stream report".toList

/-- The turn of one spec in `outcomes_from_payload`; `none` where it raises. -/
def outcomeFromPayload (tools : Tools) (spec : Spec) (payload : Json) (result : Json)
    (tableKey : Text) : Option Outcome :=
  if result.isDict = false then
    some (errorOutcome spec.expectationType "the dqx job returned no result".toList)
  else
    match result.get? "error".toList with
    | some error => some (errorOutcome spec.expectationType
        ("dqx rejected the rule: ".toList ++ tools.classify error))
    | none =>
      match (result.get "failing".toList).nat? with
      | none => some (errorOutcome spec.expectationType
          "the dqx job returned a bad count".toList)
      | some failing =>
        match dqxTypes.lookup spec.expectationType, dqxMode spec.config with
        | some function, .ok mode =>
          if mode = "stream".toList then
            some (streamOutcome spec function failing result tableKey)
          else some (evaluated spec function failing
            [("failing_rows".toList, result.get "failing".toList),
              ("rows".toList, payload.get "rows".toList)])
        | _, _ => none

def resultOf (payload : Json) (index : ℕ) : Json :=
  (payload.get "results".toList).get (ruleName index)

/-! ## The batch -/

inductive Planned
  | refused (message : Text)
  | snapshot (rule : Json)
  | stream (point : Point) (rule : Json)
  deriving DecidableEq

def plan (tools : Tools) (tableKey : Text) (checkpointVolume : Option Text)
    (previous : List (Option Json)) (spec : Spec) (index : ℕ) : Planned :=
  match tools.build spec.expectationType spec.config with
  | .error message => .refused message
  | .ok rule =>
    match dqxMode spec.config with
    | .error message => .refused message
    | .ok mode =>
      if mode = "stream".toList then
        if checkpointVolume = none then
          .refused
            "a stream-mode dqx check needs a DQX checkpoint volume on the connection".toList
        else .stream (resumePoint (previous[index]?).join tableKey) rule
      else .snapshot rule

/-- `streams.setdefault(point, {})[name] = rule`. -/
def addStream (point : Point) (name : Text) (rule : Json) : List Group → List Group
  | [] => [⟨point, [(name, rule)]⟩]
  | group :: groups =>
    if group.point = point then ⟨point, setField name rule group.checks⟩ :: groups
    else group :: addStream point name rule groups

def snapshotRules (plans : List (Planned × ℕ)) : Fields :=
  plans.filterMap fun p =>
    match p.1 with
    | .snapshot rule => some (ruleName p.2, rule)
    | _ => none

def streamGroups (plans : List (Planned × ℕ)) : List Group :=
  plans.foldl (fun groups p =>
    match p.1 with
    | .stream point rule => addStream point (ruleName p.2) rule groups
    | _ => groups) []

/-- The spec of the job; `none` where it raises. -/
def jobSpec (catalog schema table : Text) (checkpointVolume : Option Text)
    (plans : List (Planned × ℕ)) : Option JobSpec :=
  match qualifiedTable catalog schema table with
  | none => none
  | some name =>
    let spec : JobSpec := ⟨name, snapshotRules plans, streamGroups plans, none⟩
    match spec.streams, checkpointVolume with
    | [], _ | _, none | _, some [] => some spec
    | _, some volume => (checkpointRoot volume).map fun root => { spec with checkpointRoot := root }

def tableKey (catalog schema table : Text) : Text := ['.'].intercalate [catalog, schema, table]

def failedOutcomes (specs : List Spec) (plans : List (Planned × ℕ)) (reason : Text) :
    List Outcome :=
  (specs.zip plans).map fun p =>
    match p.2.1 with
    | .refused message => errorOutcome p.1.expectationType message
    | _ => errorOutcome p.1.expectationType ("the dqx job failed: ".toList ++ reason)

/-- `run_dqx_batch`. `job` uploads the spec, submits it and waits for its payload, or says why it
could not; `refusal` is the reason for a spec that cannot be written. `none` is where it raises. -/
def runDqxBatch (tools : Tools) (job : JobSpec → Except Text Json) (refusal : Text)
    (specs : List Spec) (catalog schema table : Text) (previous : List (Option Json))
    (checkpointVolume : Option Text) : Option (List Outcome) :=
  let key := tableKey catalog schema table
  let plans := specs.zipIdx.map fun p => (plan tools key checkpointVolume previous p.1 p.2, p.2)
  if snapshotRules plans = [] ∧ streamGroups plans = [] then
    some (failedOutcomes specs plans [])
  else
    match jobSpec catalog schema table checkpointVolume plans with
    | none => some (failedOutcomes specs plans refusal)
    | some spec =>
      match job spec with
      | .error reason => some (failedOutcomes specs plans reason)
      | .ok payload =>
        (specs.zip plans).mapM fun p =>
          (outcomeFromPayload tools p.1 payload (resultOf payload p.2.2) key).map fun outcome =>
            match p.2.1 with
            | .refused message => errorOutcome p.1.expectationType message
            | _ => outcome

/-! ## What a stream records -/

theorem isInt_of_nat? {j : Json} {n : ℕ} (h : j.nat? = some n) : isInt j = true := by
  cases j with
  | num m =>
    simp only [Json.nat?] at h
    split at h
    · next hdigits =>
      obtain ⟨hne, hall⟩ := hdigits
      show m.isInt = true
      unfold Numeral.isInt
      split
      · next digits htext =>
        rw [htext] at hall
        simp at hall
      · simp [hne, hall]
    · cases h
  | _ => cases h

theorem position?_eq_some {state : Json} {version : ℕ} {tableId : Text} :
    position? state = some (version, tableId) ↔
      (state.get "next_version".toList).nat? = some version ∧
      state.text? "table_id".toList = some tableId ∧ 0 < tableId.length ∧ tableId.length ≤ 64 := by
  unfold position?
  split
  · next v id hv hid =>
    rw [hv, hid]
    split
    · next hlength =>
      simp only [Option.some.injEq, Prod.mk.injEq]
      constructor
      · rintro ⟨rfl, rfl⟩
        exact ⟨rfl, rfl, hlength⟩
      · rintro ⟨hv, hid, -⟩
        exact ⟨hv, hid⟩
    · next hlength =>
      simp only [Option.some.injEq, reduceCtorEq, false_iff]
      rintro ⟨-, rfl, hok⟩
      exact hlength hok
  · next hnone =>
    simp only [reduceCtorEq, false_iff]
    rintro ⟨hv, hid, -⟩
    exact hnone _ _ hv hid

theorem streamState_spec {raw state : Json} {key : Text} (h : streamState raw key = some state) :
    ∃ point, position? raw = some point ∧ position? state = some point ∧ state.isDict = true ∧
      state.get "table".toList = .str key ∧
      (state.get "from_version".toList).nat? = (raw.get "from_version".toList).nat? := by
  unfold streamState at h
  split at h
  · obtain ⟨⟨version, tableId⟩, hpoint, rfl⟩ := Option.map_eq_some_iff.mp h
    obtain ⟨hversion, -, hlength⟩ := position?_eq_some.mp hpoint
    refine ⟨_, hpoint, position?_eq_some.mpr ⟨hversion, rfl, hlength⟩, rfl, rfl, ?_⟩
    show (if isInt (raw.get "from_version".toList) = true then
      raw.get "from_version".toList else .null).nat? = _
    split
    · rfl
    · next hint =>
      cases hnat : (raw.get "from_version".toList).nat? with
      | none => rfl
      | some n => exact absurd (isInt_of_nat? hnat) hint
  · cases h

/-! ## What is stored of it -/

theorem get?_sanitize (j : Json) (key : Text) :
    j.sanitize.get? key = (j.get? key).map Json.sanitize := by
  cases j with
  | obj fields =>
    rw [Json.sanitize_obj]
    simp only [Json.get?]
    induction fields with
    | nil => rfl
    | cons field fields ih =>
      obtain ⟨k, v⟩ := field
      rw [Json.sanitizeFields_cons, List.lookup_cons, List.lookup_cons]
      split
      · rfl
      · exact ih
  | num n =>
    rw [Json.sanitize_num]
    split <;> rfl
  | _ => rfl

theorem get_sanitize (j : Json) (key : Text) : j.sanitize.get key = (j.get key).sanitize := by
  unfold Json.get
  rw [get?_sanitize]
  cases j.get? key with
  | none => rfl
  | some v => rfl

theorem nat?_sanitize (j : Json) : j.sanitize.nat? = j.nat? := by
  cases j with
  | num n =>
    rw [Json.sanitize_num]
    split
    · next hmem =>
      have hletters : ∀ text ∈ Json.notFinite, text.all Char.isDigit = false := by decide
      simp [Json.nat?, hletters n.text hmem]
    · rfl
  | _ => rfl

theorem isDict_sanitize (j : Json) : j.sanitize.isDict = j.isDict := by
  cases j with
  | num n =>
    rw [Json.sanitize_num]
    split <;> rfl
  | _ => rfl

theorem text?_sanitize (j : Json) (key : Text) : j.sanitize.text? key = j.text? key := by
  unfold Json.text?
  rw [get?_sanitize]
  cases j.get? key with
  | none => rfl
  | some v =>
    cases v with
    | num n =>
      simp only [Option.map_some, Json.sanitize_num]
      by_cases hmem : n.text ∈ Json.notFinite
      · rw [if_pos hmem]
      · rw [if_neg hmem]
    | _ => rfl

theorem position?_sanitize (j : Json) : position? j.sanitize = position? j := by
  unfold position?
  rw [get_sanitize, nat?_sanitize, text?_sanitize]

theorem resumePoint_sanitize {observed state : Json} {key : Text}
    (hstate : observed.get "stream".toList = state) (hdict : state.isDict = true)
    (htable : state.get "table".toList = .str key) :
    resumePoint (some observed.sanitize) key = position? state := by
  simp only [resumePoint, get_sanitize, hstate, isDict_sanitize, hdict, htable, Json.sanitize,
    position?_sanitize, and_self, if_true]

end DataQ.Dqx
