import DataQ.Dqx.Streams
import DataQ.Foundations.Ranges
import DataQ.Foundations.Transition
import DataQ.Runs.Vocabulary

/-! # Where a stream check resumes

`run_service`: a run stores a result for each of its dqx checks or none at all, and a stream check
resumes from the last result of its own that was evaluated. -/

namespace DataQ.Dqx
open DataQ.Ranges DataQ.Runs DataQ.Transition
set_option autoImplicit false

structure BatchCheck where
  id : ℕ
  spec : Spec
  thresholds : Thresholds

structure Row where
  checkId : ℕ
  status : ResultStatus
  observed : Option Json

def operational : ResultStatus → Bool
  | .skip | .error => true
  | _ => false

/-- What `resolve_status` reads of an outcome. -/
def Outcome.graded (o : Outcome) : CheckOutcome where
  expectationType := String.ofList o.expectationType
  success := o.success
  errored := o.errored
  skipped := o.skipped
  errorMessage := o.errorMessage.map String.ofList
  metricValue := o.metricValue.map fun n => .finite n
  unexpectedPercent := none
  observedCount := none
  severity := none

/-- `_build_result`; `shown` is what is stored of an error's message. -/
def buildRow (shown : Text → Text) (c : BatchCheck) (o : Outcome) : Row where
  checkId := c.id
  status := (resolveStatus o.graded c.thresholds).1
  observed :=
    if o.errored then
      match o.errorMessage.map shown with
      | none | some [] => none
      | some message => some (.obj [("error".toList, .str message)])
    else o.observedValue.map Json.sanitize

/-- The evaluated results of a check, in the order in which they were stored. -/
def evaluatedRows (rows : List Row) (checkId : ℕ) : List Row :=
  rows.filter fun row => row.checkId = checkId ∧ operational row.status = false

/-- `latest_evaluated_observed`, one check. -/
def latestObserved (rows : List Row) (checkId : ℕ) : Option Json :=
  (evaluatedRows rows checkId).getLast?.bind Row.observed

/-- The dqx checks of a run, and what they are evaluated with. -/
structure Batch where
  checks : List BatchCheck
  /-- The connection has the engine. -/
  advertised : Bool
  catalog : Text
  schema : Option Text
  table : Text
  volume : Option Text
  job : JobSpec → Except Text Json
  refusal : Text

/-- One run of the suite. -/
inductive RunEvent
  /-- The results of the batch stay, or the run fails, is cancelled or is discarded. -/
  | batch (b : Batch) (kept : Bool)
  /-- `skip_run`. -/
  | skip (checkIds : List ℕ) (reason : Text)

/-- The outcome of a check that no engine evaluates. -/
def unevaluated (message : Text) (c : BatchCheck) : Outcome where
  expectationType := c.spec.expectationType
  success := false
  errored := true
  skipped := false
  errorMessage := some message
  metricValue := none
  observedValue := none
  expectedValue := .obj []

def notAvailable : Text :=
  ("engine 'dqx' is not available on this connection — the check was authored for a " ++
    "platform-native engine this deployment cannot run (ADR 0036); re-check the connection's " ++
    "engine capabilities or re-point the check to 'gx'").toList

def noSchema : Text :=
  "a dqx check needs the suite target's schema (catalog.schema.table)".toList

variable (tools : Tools) (shown : Text → Text)

/-- `run_native_checks` of a batch whose engine is advertised, else the error of each check; `none`
where it raises. -/
def Batch.outcomes (b : Batch) (rows : List Row) : Option (List Outcome) :=
  if b.advertised then
    match b.schema with
    | none => some (b.checks.map (unevaluated noSchema))
    | some schema =>
      runDqxBatch tools b.job b.refusal (b.checks.map BatchCheck.spec) b.catalog schema b.table
        (b.checks.map fun c => latestObserved rows c.id) b.volume
  else some (b.checks.map (unevaluated notAvailable))

def Batch.rows (b : Batch) (outcomes : List Outcome) : List Row :=
  (b.checks.zip outcomes).map fun p => buildRow shown p.1 p.2

def perform (rows : List Row) : RunEvent → Option (List Row)
  | .batch b kept =>
    match b.outcomes tools rows with
    | none => some rows
    | some outcomes => if kept then some (rows ++ b.rows shown outcomes) else some rows
  | .skip checkIds reason => some (rows ++ checkIds.map fun id =>
      ⟨id, .skip, some (.obj [("reason".toList, .str reason)])⟩)

/-- A run takes the check at most once, as a stream check of the table. -/
def Streams (checkId : ℕ) (key : Text) : RunEvent → Prop
  | .batch b _ =>
    (b.checks.map BatchCheck.id).Nodup ∧
      (∀ c ∈ b.checks, c.id = checkId → dqxMode c.spec.config = .ok "stream".toList) ∧
      ∀ schema ∈ b.schema, tableKey b.catalog schema b.table = key
  | .skip _ _ => True

/-- The version of a point; the table's start is the first version. -/
def startOf (first : ℕ) (point : Point) : ℕ := (point.map Prod.fst).getD first

/-- A stream's report is of the versions from the point that was asked for up to its next
version. -/
def Reports (first : ℕ) (point : Point) (report : Json) : Prop :=
  ∀ next tableId, position? report = some (next, tableId) →
    (report.get "from_version".toList).nat? = point.map Prod.fst ∧ startOf first point ≤ next

/-- Each stream of a submitted job reports the versions that it was asked for. -/
def Honest (first : ℕ) : RunEvent → Prop
  | .batch b _ => ∀ spec payload, b.job spec = .ok payload → ∀ group ∈ spec.streams,
      ∀ i, ruleName i ∈ group.checks.map Prod.fst →
        Reports first group.point ((resultOf payload i).get "stream".toList)
  | .skip _ _ => True

/-- The versions that a stored result is of. -/
def rangeOf (first : ℕ) (row : Row) : Option (ℕ × ℕ) :=
  (row.observed.map fun observed => observed.get "stream".toList).bind fun state =>
    (position? state).map fun point =>
      (((state.get "from_version".toList).nat?).getD first, point.1)

/-- The version that the check's next run resumes from. -/
def resumeVersion (first : ℕ) (key : Text) (rows : List Row) (checkId : ℕ) : ℕ :=
  startOf first (resumePoint (latestObserved rows checkId) key)

/-- The run stores an outcome of the check that is neither an error nor a skip. -/
def Evaluates (rows : List Row) (checkId : ℕ) : RunEvent → Prop
  | .batch b kept => kept = true ∧ ∃ outcomes, b.outcomes tools rows = some outcomes ∧
      ∃ p ∈ b.checks.zip outcomes,
        p.1.id = checkId ∧ p.2.errored = false ∧ p.2.skipped = false
  | .skip _ _ => False

/-! ## The stream of one check in a batch -/

def HasRule (groups : List Group) (point : Point) (name : Text) : Prop :=
  ∃ group ∈ groups, group.point = point ∧ name ∈ group.checks.map Prod.fst

theorem addStream_self (point : Point) (name : Text) (rule : Json) (groups : List Group) :
    HasRule (addStream point name rule groups) point name := by
  induction groups with
  | nil => exact ⟨_, List.mem_singleton.mpr rfl, rfl, by simp⟩
  | cons group groups ih =>
    unfold addStream
    split
    · exact ⟨_, List.mem_cons_self, rfl, mem_keys_setField.mpr (.inl rfl)⟩
    · obtain ⟨g, hg, hpoint, hname⟩ := ih
      exact ⟨g, List.mem_cons_of_mem _ hg, hpoint, hname⟩

theorem HasRule.addStream {groups : List Group} {point : Point} {name : Text}
    (h : HasRule groups point name) (other : Point) (otherName : Text) (rule : Json) :
    HasRule (addStream other otherName rule groups) point name := by
  induction groups with
  | nil =>
    obtain ⟨g, hg, -⟩ := h
    cases hg
  | cons group groups ih =>
    obtain ⟨g, hg, hpoint, hname⟩ := h
    unfold Dqx.addStream
    split
    · next hsame =>
      rcases List.mem_cons.mp hg with rfl | hg
      · exact ⟨_, List.mem_cons_self, hsame.symm.trans hpoint, mem_keys_setField.mpr (.inr hname)⟩
      · exact ⟨g, List.mem_cons_of_mem _ hg, hpoint, hname⟩
    · rcases List.mem_cons.mp hg with rfl | hg
      · exact ⟨g, List.mem_cons_self, hpoint, hname⟩
      · obtain ⟨g', hg', hpoint', hname'⟩ := ih ⟨g, hg, hpoint, hname⟩
        exact ⟨g', List.mem_cons_of_mem _ hg', hpoint', hname'⟩

theorem foldl_reaches {σ α : Type*} {f : σ → α → σ} {P : σ → Prop} {x : α}
    (hkeep : ∀ s y, P s → P (f s y)) (hreach : ∀ s, P (f s x)) {xs : List α} (hx : x ∈ xs)
    (s : σ) : P (xs.foldl f s) := by
  induction xs generalizing s with
  | nil => cases hx
  | cons y xs ih =>
    rw [List.foldl_cons]
    rcases List.mem_cons.mp hx with rfl | hx
    · exact List.foldlRecOn xs f (hreach s) fun t ht z _ => hkeep t z ht
    · exact ih hx (f s y)

theorem streamGroups_hasRule {plans : List (Planned × ℕ)} {point : Point} {rule : Json} {i : ℕ}
    (h : (Planned.stream point rule, i) ∈ plans) :
    HasRule (streamGroups plans) point (ruleName i) := by
  unfold streamGroups
  refine foldl_reaches (P := fun groups => HasRule groups point (ruleName i))
    (fun groups p hgroups => ?_) (fun groups => addStream_self point (ruleName i) rule groups) h []
  split
  · exact hgroups.addStream _ _ _
  · exact hgroups

theorem jobSpec_streams {catalog schema table : Text} {volume : Option Text}
    {plans : List (Planned × ℕ)} {spec : JobSpec}
    (h : jobSpec catalog schema table volume plans = some spec) :
    spec.streams = streamGroups plans := by
  unfold jobSpec at h
  split at h
  · cases h
  · simp only at h
    split at h
    · cases h
      rfl
    · cases h
      rfl
    · cases h
      rfl
    · obtain ⟨root, -, rfl⟩ := Option.map_eq_some_iff.mp h
      rfl

/-- An evaluated outcome of a stream check has the state that its report was kept as. -/
theorem streamOutcome_evaluated {spec : Spec} {function : Text} {failing : ℕ} {result : Json}
    {key : Text} (herr : (streamOutcome spec function failing result key).errored = false)
    (hskip : (streamOutcome spec function failing result key).skipped = false) :
    ∃ observed state, (streamOutcome spec function failing result key).observedValue =
        some observed ∧ observed.get "stream".toList = state ∧
      streamState (result.get "stream".toList) key = some state := by
  unfold streamOutcome at herr hskip ⊢
  split at herr
  · next state rows hstate hrows =>
    simp only [hstate, hrows] at hskip ⊢
    split at hskip
    · cases hskip
    · next hne =>
      rw [if_neg hne]
      exact ⟨_, state, rfl, rfl, rfl⟩
  · cases herr

theorem outcomeFromPayload_evaluated {spec : Spec} {payload result : Json} {key : Text}
    {o : Outcome} (h : outcomeFromPayload tools spec payload result key = some o)
    (hmode : dqxMode spec.config = .ok "stream".toList) (herr : o.errored = false)
    (hskip : o.skipped = false) :
    ∃ observed state, o.observedValue = some observed ∧ observed.get "stream".toList = state ∧
      streamState (result.get "stream".toList) key = some state := by
  unfold outcomeFromPayload at h
  split at h
  · cases h
    cases herr
  · split at h
    · cases h
      cases herr
    · split at h
      · cases h
        cases herr
      · rw [hmode] at h
        split at h
        · next hok =>
          cases hok
          rw [if_pos rfl] at h
          cases h
          exact streamOutcome_evaluated herr hskip
        · cases h

theorem plan_stream {key : Text} {volume : Option Text} {previous : List (Option Json)}
    {spec : Spec} {i : ℕ} (hmode : dqxMode spec.config = .ok "stream".toList) :
    (∃ message, plan tools key volume previous spec i = .refused message) ∨
      ∃ rule, plan tools key volume previous spec i =
        .stream (resumePoint (previous[i]?).join key) rule := by
  unfold plan
  cases tools.build spec.expectationType spec.config with
  | error message => exact .inl ⟨message, rfl⟩
  | ok rule =>
    simp only [hmode]
    rw [if_pos trivial]
    split
    · exact .inl ⟨_, rfl⟩
    · exact .inr ⟨rule, rfl⟩

theorem failedOutcomes_errored {specs : List Spec} {plans : List (Planned × ℕ)} {reason : Text}
    {o : Outcome} (h : o ∈ failedOutcomes specs plans reason) : o.errored = true := by
  obtain ⟨p, -, rfl⟩ := List.mem_map.mp h
  split <;> rfl

theorem mapM_eq_some {α β : Type*} {f : α → Option β} {xs : List α} {ys : List β} :
    xs.mapM f = some ys ↔ xs.map f = ys.map some := by
  induction xs generalizing ys with
  | nil => cases ys <;> simp
  | cons x xs ih =>
    simp only [List.mapM_cons, List.map_cons, Option.bind_eq_bind, Option.pure_def,
      Option.bind_eq_some_iff, Option.some.injEq]
    constructor
    · rintro ⟨y, hy, zs, hzs, rfl⟩
      rw [hy, List.map_cons, ih.mp hzs]
    · intro hmap
      cases ys with
      | nil => cases hmap
      | cons y ys =>
        obtain ⟨hy, htail⟩ := List.cons.inj hmap
        exact ⟨y, hy, ys, ih.mpr htail, rfl⟩

/-- The `i`-th outcome was read of the report of a stream that resumes from the point. -/
def Resumed (job : JobSpec → Except Text Json) (key : Text) (point : Point) (i : ℕ)
    (o : Outcome) : Prop :=
  ∃ spec payload observed state, job spec = .ok payload ∧
    HasRule spec.streams point (ruleName i) ∧ o.observedValue = some observed ∧
    observed.get "stream".toList = state ∧
    streamState ((resultOf payload i).get "stream".toList) key = some state

/-- An evaluated outcome of a stream check is of a job that resumed from the check's point. -/
theorem runDqxBatch_evaluated {job : JobSpec → Except Text Json} {refusal : Text}
    {specs : List Spec} {catalog schema table : Text} {previous : List (Option Json)}
    {volume : Option Text} {outcomes : List Outcome} {i : ℕ} {spec : Spec} {o : Outcome}
    (h : runDqxBatch tools job refusal specs catalog schema table previous volume = some outcomes)
    (hspec : specs[i]? = some spec) (ho : outcomes[i]? = some o)
    (hmode : dqxMode spec.config = .ok "stream".toList) (herr : o.errored = false)
    (hskip : o.skipped = false) :
    Resumed job (tableKey catalog schema table)
      (resumePoint (previous[i]?).join (tableKey catalog schema table)) i o := by
  have hfailed : ∀ plans reason, some (failedOutcomes specs plans reason) ≠ some outcomes := by
    intro plans reason heq
    cases heq
    have herrored := failedOutcomes_errored (List.mem_of_getElem? ho)
    rw [herr] at herrored
    cases herrored
  unfold runDqxBatch at h
  simp only at h
  generalize hkey : tableKey catalog schema table = key at h ⊢
  generalize hplans : (specs.zipIdx.map fun p =>
    (plan tools key volume previous p.1 p.2, p.2)) = plans at h
  have hplan : plans[i]? = some (plan tools key volume previous spec i, i) := by
    rw [← hplans, List.getElem?_map, List.getElem?_zipIdx, hspec]
    simp
  have hzip : (specs.zip plans)[i]? = some (spec, plan tools key volume previous spec i, i) :=
    List.getElem?_zip_eq_some.mpr ⟨hspec, hplan⟩
  split at h
  · exact absurd h (hfailed _ _)
  · split at h
    · exact absurd h (hfailed _ _)
    · next js hjs =>
      split at h
      · exact absurd h (hfailed _ _)
      · next payload hjob =>
        have hith := congrArg (fun l => l[i]?) (mapM_eq_some.mp h)
        simp only [List.getElem?_map, ho, hzip, Option.map_some, Option.some.injEq,
          Option.map_eq_some_iff] at hith
        obtain ⟨outcome, houtcome, hofPlan⟩ := hith
        have hplanned : (∃ message, plan tools key volume previous spec i = .refused message) ∨
            ∃ rule, plan tools key volume previous spec i =
              .stream (resumePoint (previous[i]?).join key) rule := plan_stream tools hmode
        rcases hplanned with ⟨message, hrefused⟩ | ⟨rule, hstream⟩
        · rw [hrefused] at hofPlan
          cases hofPlan
          cases herr
        · rw [hstream] at hofPlan hplan
          cases hofPlan
          obtain ⟨observed, state, hobserved, hstate, hkept⟩ :=
            outcomeFromPayload_evaluated tools houtcome hmode herr hskip
          refine ⟨js, payload, observed, state, hjob, ?_, hobserved, hstate, hkept⟩
          rw [jobSpec_streams hjs]
          exact streamGroups_hasRule (List.mem_of_getElem? hplan)

theorem Batch.outcomes_resumed {b : Batch} {kept : Bool} {rows : List Row} {key : Text}
    {c : BatchCheck} {o : Outcome} {outcomes : List Outcome}
    (hstreams : Streams c.id key (.batch b kept)) (h : b.outcomes tools rows = some outcomes)
    (hin : (c, o) ∈ b.checks.zip outcomes) (herr : o.errored = false) (hskip : o.skipped = false) :
    ∃ i, Resumed b.job key (resumePoint (latestObserved rows c.id) key) i o := by
  obtain ⟨-, hmode, hkey⟩ := hstreams
  have hunevaluated : ∀ message, b.checks.map (unevaluated message) ≠ outcomes := by
    rintro message rfl
    obtain ⟨c', -, rfl⟩ := List.mem_map.mp (List.of_mem_zip hin).2
    cases herr
  obtain ⟨i, hi⟩ := List.mem_iff_getElem?.mp hin
  obtain ⟨hc, ho⟩ := List.getElem?_zip_eq_some.mp hi
  unfold Batch.outcomes at h
  split at h
  · split at h
    · exact absurd (Option.some.inj h) (hunevaluated _)
    · next schema hschema =>
      have hspec : (b.checks.map BatchCheck.spec)[i]? = some c.spec := by
        rw [List.getElem?_map, hc]
        rfl
      have hresumed := runDqxBatch_evaluated tools h hspec ho
        (hmode c (List.mem_of_getElem? hc) rfl) herr hskip
      rw [hkey schema hschema, List.getElem?_map, hc] at hresumed
      exact ⟨i, hresumed⟩
  · exact absurd (Option.some.inj h) (hunevaluated _)

/-! ## The result of one run -/

theorem deriveStatus_operational (success : Bool) (metric : Option ℚ) (t : Thresholds) :
    operational (deriveStatus success metric t) = false := by
  unfold deriveStatus
  simp only
  repeat' split
  all_goals rfl

theorem buildRow_operational {c : BatchCheck} {o : Outcome} :
    operational (buildRow shown c o).status = false ↔ o.errored = false ∧ o.skipped = false := by
  show operational (resolveStatus o.graded c.thresholds).1 = false ↔ _
  unfold resolveStatus
  cases herr : o.errored with
  | true => simp [Outcome.graded, herr, operational]
  | false =>
    cases hskip : o.skipped with
    | true => simp [Outcome.graded, herr, hskip, operational]
    | false => simp [Outcome.graded, herr, hskip, deriveStatus_operational]

/-- The row is of the versions from the point to the version that it is resumed from. -/
def Advances (first : ℕ) (key : Text) (point : Point) (row : Row) : Prop :=
  ∃ next, rangeOf first row = some (startOf first point, next) ∧ startOf first point ≤ next ∧
    startOf first (resumePoint row.observed key) = next

theorem Resumed.advances {b : Batch} {kept : Bool} {first i : ℕ} {key : Text} {point : Point}
    {c : BatchCheck} {o : Outcome} (hhonest : Honest first (.batch b kept))
    (h : Resumed b.job key point i o) (herr : o.errored = false) :
    Advances first key point (buildRow shown c o) := by
  obtain ⟨spec, payload, observed, state, hjob, ⟨group, hgroup, hpoint, hname⟩, hobserved, hget,
    hstate⟩ := h
  obtain ⟨⟨next, tableId⟩, hraw, hposition, hdict, htable, hfrom⟩ := streamState_spec hstate
  obtain ⟨hstart, hle⟩ := hhonest spec payload hjob group hgroup i hname next tableId hraw
  rw [hpoint] at hstart hle
  have hrow : (buildRow shown c o).observed = some observed.sanitize := by
    simp only [buildRow, herr, hobserved]
    rfl
  refine ⟨next, ?_, hle, ?_⟩
  · unfold rangeOf
    rw [hrow, Option.map_some, Option.bind_some, get_sanitize, hget, position?_sanitize, hposition,
      get_sanitize, nat?_sanitize, hfrom, hstart]
    rfl
  · rw [hrow, resumePoint_sanitize hget hdict htable, hposition]
    rfl

theorem filter_eq_nil_or_singleton {α β : Type*} {id : α → β} {p : α → Bool} {k : β} {xs : List α}
    (hnodup : (xs.map id).Nodup) (hk : ∀ x, p x = true → id x = k) :
    xs.filter p = [] ∨ ∃ x ∈ xs, p x = true ∧ xs.filter p = [x] := by
  induction xs with
  | nil => exact .inl rfl
  | cons x xs ih =>
    obtain ⟨hx, htail⟩ := List.nodup_cons.mp hnodup
    cases hp : p x with
    | false =>
      rw [List.filter_cons_of_neg (by simp [hp])]
      rcases ih htail with hnil | ⟨y, hy, hpy, hone⟩
      · exact .inl hnil
      · exact .inr ⟨y, List.mem_cons_of_mem _ hy, hpy, hone⟩
    | true =>
      have hrest : xs.filter p = [] := by
        rw [List.filter_eq_nil_iff]
        intro y hy hpy
        exact hx (List.mem_map.mpr ⟨y, hy, (hk y hpy).trans (hk x hp).symm⟩)
      exact .inr ⟨x, List.mem_cons_self, hp, by rw [List.filter_cons_of_pos hp, hrest]⟩

theorem evaluatedRows_append (rows added : List Row) (checkId : ℕ) :
    evaluatedRows (rows ++ added) checkId =
      evaluatedRows rows checkId ++ evaluatedRows added checkId :=
  List.filter_append ..

theorem zip_fst_sublist {α β : Type*} (xs : List α) (ys : List β) :
    ((xs.zip ys).map Prod.fst).Sublist xs := by
  induction xs generalizing ys with
  | nil => simp
  | cons x xs ih =>
    cases ys with
    | nil => simp
    | cons y ys => exact (ih ys).cons_cons x

theorem evaluatedRows_batch {b : Batch} {outcomes : List Outcome} {checkId : ℕ}
    (hnodup : (b.checks.map BatchCheck.id).Nodup) :
    evaluatedRows (b.rows shown outcomes) checkId = [] ∨
      ∃ p ∈ b.checks.zip outcomes, p.1.id = checkId ∧ p.2.errored = false ∧
        p.2.skipped = false ∧
        evaluatedRows (b.rows shown outcomes) checkId = [buildRow shown p.1 p.2] := by
  have hids : ((b.checks.zip outcomes).map fun p => p.1.id).Nodup := by
    have hmap : ((b.checks.zip outcomes).map fun p => p.1.id) =
        ((b.checks.zip outcomes).map Prod.fst).map BatchCheck.id := by
      rw [List.map_map]
      rfl
    rw [hmap]
    exact hnodup.sublist ((zip_fst_sublist b.checks outcomes).map _)
  unfold evaluatedRows Batch.rows
  rw [List.filter_map]
  rcases filter_eq_nil_or_singleton (k := checkId)
      (p := (fun row : Row => decide (row.checkId = checkId ∧ operational row.status = false)) ∘
        fun p : BatchCheck × Outcome => buildRow shown p.1 p.2) hids
      (fun p hp => (of_decide_eq_true hp).1) with hnil | ⟨p, hin, hp, hone⟩
  · rw [hnil]
    exact .inl rfl
  · obtain ⟨hid, hstatus⟩ := of_decide_eq_true hp
    obtain ⟨herr, hskip⟩ := (buildRow_operational shown).mp hstatus
    rw [hone]
    exact .inr ⟨p, hin, hid, herr, hskip, rfl⟩

theorem evaluatedRows_skipped (checkIds : List ℕ) (observed : Option Json) (checkId : ℕ) :
    evaluatedRows (checkIds.map fun id => ⟨id, .skip, observed⟩) checkId = [] := by
  unfold evaluatedRows
  rw [List.filter_eq_nil_iff]
  intro row hrow
  obtain ⟨id, -, rfl⟩ := List.mem_map.mp hrow
  simp [operational]

/-- A run that does not evaluate the check leaves its evaluated results as they are. -/
theorem perform_unmoved {rows rows' : List Row} {event : RunEvent} {key : Text} {checkId : ℕ}
    (hstreams : Streams checkId key event)
    (hnot : ¬ Evaluates tools rows checkId event)
    (h : perform tools shown rows event = some rows') :
    evaluatedRows rows' checkId = evaluatedRows rows checkId := by
  cases event with
  | skip checkIds reason =>
    cases h
    rw [evaluatedRows_append, evaluatedRows_skipped, List.append_nil]
  | batch b kept =>
    simp only [perform] at h
    split at h
    · cases h
      rfl
    · next outcomes houtcomes =>
      split at h
      · next hkept =>
        cases h
        rw [evaluatedRows_append]
        rcases evaluatedRows_batch shown hstreams.1 with hnil | ⟨p, hin, hid, herr, hskip, -⟩
        · rw [hnil, List.append_nil]
        · exact absurd ⟨hkept, outcomes, houtcomes, p, hin, hid, herr, hskip⟩ hnot
      · cases h
        rfl

/-- A run that evaluates the check stores one result, of the versions from where it resumed. -/
theorem perform_evaluates {first : ℕ} {rows rows' : List Row} {event : RunEvent} {key : Text}
    {checkId : ℕ} (hstreams : Streams checkId key event) (hhonest : Honest first event)
    (heval : Evaluates tools rows checkId event)
    (h : perform tools shown rows event = some rows') :
    ∃ row, evaluatedRows rows' checkId = evaluatedRows rows checkId ++ [row] ∧
      Advances first key (resumePoint (latestObserved rows checkId) key) row := by
  cases event with
  | skip checkIds reason => cases heval
  | batch b kept =>
    obtain ⟨hkept, outcomes, houtcomes, ⟨c, o⟩, hin, rfl, herr, hskip⟩ := heval
    simp only [perform, houtcomes, hkept, if_true, Option.some.injEq] at h
    subst h
    have hmem : buildRow shown c o ∈ evaluatedRows (b.rows shown outcomes) c.id :=
      List.mem_filter.mpr ⟨List.mem_map.mpr ⟨(c, o), hin, rfl⟩,
        decide_eq_true ⟨rfl, (buildRow_operational shown).mpr ⟨herr, hskip⟩⟩⟩
    obtain ⟨i, hresumed⟩ := Batch.outcomes_resumed tools hstreams houtcomes hin herr hskip
    refine ⟨buildRow shown c o, ?_, hresumed.advances shown hhonest herr⟩
    rw [evaluatedRows_append]
    rcases evaluatedRows_batch shown hstreams.1 with hnil | ⟨p, -, -, -, -, hone⟩
    · rw [hnil] at hmem
      cases hmem
    · rw [hone] at hmem ⊢
      rw [List.mem_singleton.mp hmem]

/-! ## Runs of the suite -/

/-- The check's evaluated results are of consecutive versions, up to where it resumes from. -/
def Contiguous (first : ℕ) (key : Text) (checkId : ℕ) (rows : List Row) : Prop :=
  ∃ ranges, (evaluatedRows rows checkId).map (rangeOf first) = ranges.map some ∧
    Consecutive first ranges (resumeVersion first key rows checkId)

theorem perform_contiguous {first : ℕ} {rows rows' : List Row} {event : RunEvent} {key : Text}
    {checkId : ℕ} (hrows : Contiguous first key checkId rows)
    (hstreams : Streams checkId key event) (hhonest : Honest first event)
    (h : perform tools shown rows event = some rows') : Contiguous first key checkId rows' := by
  obtain ⟨ranges, hranges, hconsecutive⟩ := hrows
  by_cases heval : Evaluates tools rows checkId event
  · obtain ⟨row, happended, next, hrange, hle, hresume⟩ :=
      perform_evaluates tools shown hstreams hhonest heval h
    have hlatest : latestObserved rows' checkId = row.observed := by
      unfold latestObserved
      rw [happended, List.getLast?_concat]
      rfl
    refine ⟨ranges ++ [(resumeVersion first key rows checkId, next)], ?_, ?_⟩
    · rw [happended, List.map_append, List.map_append, hranges, List.map_singleton, hrange]
      rfl
    · have hnext : resumeVersion first key rows' checkId = next := by
        unfold resumeVersion
        rw [hlatest, hresume]
      rw [hnext]
      exact hconsecutive.snoc hle
  · have hsame := perform_unmoved tools shown hstreams heval h
    refine ⟨ranges, by rw [hsame, hranges], ?_⟩
    unfold resumeVersion latestObserved at hconsecutive ⊢
    rw [hsame]
    exact hconsecutive

/-- However the runs before ended, the check's evaluated results have every version from the first
to where it resumes from once, and a run that does not evaluate the check resumes it no further. -/
theorem neither_skips_nor_repeats (first checkId : ℕ) (key : Text) {rows rows' : List Row}
    (events : List RunEvent) (hunevaluated : evaluatedRows rows checkId = [])
    (hstreams : ∀ event ∈ events, Streams checkId key event)
    (hhonest : ∀ event ∈ events, Honest first event)
    (hrun : Transition.run (perform tools shown) rows events = some rows') :
    (∃ ranges, (evaluatedRows rows' checkId).map (rangeOf first) = ranges.map some ∧
      Consecutive first ranges (resumeVersion first key rows' checkId) ∧
      (ranges.Pairwise fun a b => a.2 ≤ b.1) ∧
      ∀ version, covers ranges version =
        if first ≤ version ∧ version < resumeVersion first key rows' checkId then 1 else 0) ∧
    ∀ event later, Streams checkId key event → perform tools shown rows' event = some later →
      ¬ Evaluates tools rows' checkId event →
      resumePoint (latestObserved later checkId) key =
        resumePoint (latestObserved rows' checkId) key := by
  have hstart : Contiguous first key checkId rows := by
    refine ⟨[], by rw [hunevaluated]; rfl, ?_⟩
    unfold resumeVersion latestObserved
    rw [hunevaluated]
    rfl
  -- The runs still to come carry what they are promised to do.
  have hahead := run_invariant_ahead (G := fun _ _ => True)
    (I := fun (rows : List Row) (events : List RunEvent) => Contiguous first key checkId rows ∧
      ∀ event ∈ events, Streams checkId key event ∧ Honest first event)
    (fun rows event events later hrows _ hlater =>
      have hevent := hrows.2 event List.mem_cons_self
      ⟨perform_contiguous tools shown hrows.1 hevent.1 hevent.2 hlater,
        fun e he => hrows.2 e (List.mem_cons_of_mem event he)⟩)
    ⟨hstart, fun e he => ⟨hstreams e he, hhonest e he⟩⟩
    (meets_of_forall (fun _ _ => trivial) rows events) hrun
  have hcontiguous := hahead.1
  refine ⟨?_, fun event later hstream hlater hnot => ?_⟩
  · obtain ⟨ranges, hranges, hconsecutive⟩ := hcontiguous
    exact ⟨ranges, hranges, hconsecutive, hconsecutive.pairwise, hconsecutive.covers_eq⟩
  · unfold latestObserved
    rw [perform_unmoved tools shown hstream hnot hlater]

/-! ## A check of the orders -/

def anyRule : Tools where
  build := fun _ _ => .ok (.obj [])
  classify := fun _ => []

def ordersCheck : BatchCheck where
  id := 7
  spec := ⟨"dqx:is_not_null".toList, [("mode".toList, .str "stream".toList)]⟩
  thresholds := ⟨none, none, none⟩

def ordersPayload (start next : Json) : Json :=
  .obj [("rows".toList, .null), ("results".toList, .obj [("dataq_0".toList,
    .obj [("failing".toList, .num ⟨"0".toList, by decide⟩),
      ("rows".toList, .num ⟨"3".toList, by decide⟩),
      ("stream".toList, .obj [("table_id".toList, .str "t1".toList),
        ("from_version".toList, start), ("next_version".toList, next)])])])]

def serves (point : Point) (payload : Json) (spec : JobSpec) : Except Text Json :=
  if spec.streams = [⟨point, [("dataq_0".toList, .obj [])]⟩] then .ok payload
  else .error "INTERNAL_ERROR".toList

def ordersBatch (job : JobSpec → Except Text Json) : Batch where
  checks := [ordersCheck]
  advertised := true
  catalog := "main".toList
  schema := some "sales".toList
  table := "orders".toList
  volume := some "main.ops.dqx".toList
  job := job
  refusal := []

theorem reports_of {first : ℕ} {point : Point} {report : Json}
    (hfrom : (report.get "from_version".toList).nat? = point.map Prod.fst)
    (hnext : (position? report).any (fun next => startOf first point ≤ next.1) = true) :
    Reports first point report := by
  intro next tableId hposition
  rw [hposition] at hnext
  exact ⟨hfrom, of_decide_eq_true hnext⟩

theorem serves_honest {point : Point} {payload : Json} {kept : Bool}
    (h : Reports 0 point ((resultOf payload 0).get "stream".toList)) :
    Honest 0 (.batch (ordersBatch (serves point payload)) kept) := by
  intro spec answer hjob group hgroup i hname
  have hserved : spec.streams = [⟨point, [("dataq_0".toList, .obj [])]⟩] ∧ payload = answer := by
    change serves point payload spec = .ok answer at hjob
    unfold serves at hjob
    split at hjob
    · next hstreams => exact ⟨hstreams, Except.ok.inj hjob⟩
    · cases hjob
  obtain ⟨hstreams, rfl⟩ := hserved
  rw [hstreams] at hgroup
  cases List.mem_singleton.mp hgroup
  have hrule : ruleName i = ruleName 0 :=
    (List.mem_singleton.mp hname).trans (by decide)
  unfold resultOf at h ⊢
  rw [hrule]
  exact h

def five : Json := .num ⟨"5".toList, by decide⟩

def eight : Json := .num ⟨"8".toList, by decide⟩

/-- A run, a failed job, a skipped run, a discarded run and another run. -/
def ordersRuns : List RunEvent :=
  [.batch (ordersBatch (serves none (ordersPayload .null five))) true,
    .batch (ordersBatch fun _ => .error "TimeoutError".toList) true,
    .skip [7] "batch_not_found".toList,
    .batch (ordersBatch (serves (some (5, "t1".toList)) (ordersPayload five eight))) false,
    .batch (ordersBatch (serves (some (5, "t1".toList)) (ordersPayload five eight))) true]

theorem neither_skips_nor_repeats_orders :
    ∃ rows, Transition.run (perform anyRule id) [] ordersRuns = some rows ∧
      rows.map Row.status = [.pass, .error, .skip, .pass] ∧
      (evaluatedRows rows 7).map (rangeOf 0) = [some (0, 5), some (5, 8)] ∧
      ∃ ranges, (evaluatedRows rows 7).map (rangeOf 0) = ranges.map some ∧
        Consecutive 0 ranges (resumeVersion 0 "main.sales.orders".toList rows 7) := by
  refine ⟨_, rfl, by decide, by decide, ?_⟩
  have hevents : ∀ event ∈ ordersRuns,
      Streams 7 "main.sales.orders".toList event ∧ Honest 0 event := by
    intro event hevent
    have hstreams : ∀ job kept,
        Streams 7 "main.sales.orders".toList (.batch (ordersBatch job) kept) := by
      intro job kept
      refine ⟨List.nodup_singleton _, fun c hc _ => ?_, fun schema hschema => ?_⟩
      · cases List.mem_singleton.mp hc
        decide
      · cases hschema
        show tableKey "main".toList "sales".toList "orders".toList = "main.sales.orders".toList
        decide
    have hfive : Reports 0 none ((resultOf (ordersPayload .null five) 0).get "stream".toList) :=
      reports_of (by decide) (by decide)
    have height : Reports 0 (some (5, "t1".toList))
        ((resultOf (ordersPayload five eight) 0).get "stream".toList) :=
      reports_of (by decide) (by decide)
    simp only [ordersRuns, List.mem_cons, List.not_mem_nil, or_false] at hevent
    rcases hevent with rfl | rfl | rfl | rfl | rfl
    · exact ⟨hstreams _ _, serves_honest hfive⟩
    · exact ⟨hstreams _ _, fun spec payload hjob => by cases hjob⟩
    · exact ⟨trivial, trivial⟩
    · exact ⟨hstreams _ _, serves_honest height⟩
    · exact ⟨hstreams _ _, serves_honest height⟩
  have hnone : evaluatedRows [] 7 = [] := rfl
  obtain ⟨ranges, hranges, hconsecutive, -⟩ := (neither_skips_nor_repeats anyRule id 0 7
    "main.sales.orders".toList ordersRuns hnone (fun e he => (hevents e he).1)
    (fun e he => (hevents e he).2) rfl).1
  exact ⟨ranges, hranges, hconsecutive⟩

end DataQ.Dqx
