import DataQ.Foundations.Transition
import DataQ.Foundations.Winners
import DataQ.Runs.Vocabulary
import Mathlib.Algebra.Order.BigOperators.Group.List
import Mathlib.Algebra.Order.Ring.Nat
import Mathlib.Data.Prod.Lex
import Mathlib.Logic.Relation

/-! # Alerts of finished runs

`alerting/dispatch.publish_run_outcome`, and what decides over an alert on the way: the snoozes of
`suppression`, the comparison with the run before of `dedup`, and the policy of `routing`. -/

namespace DataQ.RunAlerts
open DataQ.Runs DataQ.Transition DataQ.Winners
set_option autoImplicit false

/-- `ALERT_ON_POLICIES`. -/
inductive AlertOn
  | fail
  | warn
  | always
  deriving DecidableEq, Repr

structure SuiteNotification where
  enabled : Bool
  alertOn : AlertOn
  deriving DecidableEq, Repr

/-- A failing check, or `_OPERATIONAL_KEY`. -/
inductive Key
  | operational
  | check (id : ℕ)
  deriving DecidableEq, Repr

structure Database where
  runs : List Run
  results : List Result
  config : ℕ → Option SuiteNotification
  alertSnoozedUntil : ℕ → Option ℕ

/-- `SEVERITY_RANK`. -/
def severityRank (status : ResultStatus) : Option ℕ := status.failingTier.map FailingTier.rank

def resultsOf (results : List Result) (run : Run) : List Result :=
  results.filter fun row => row.runId = run.id

def failingRows (results : List Result) (run : Run) : List Result :=
  (resultsOf results run).filter fun row => (severityRank row.status).isSome

/-- `_failing_ranks`. -/
def failingRanks (results : List Result) (run : Run) : List (Key × ℕ) :=
  let rows := if run.status = .succeeded then failingRows results run else []
  let ranks := dictOf (fun row => Key.check row.checkId)
    (fun row => (severityRank row.status).getD 0) rows
  if ranks = [] ∧ run.status = .failed then [(.operational, FailingTier.fail.rank)] else ranks

/-- `run_evaluated_a_check`. -/
def evaluatedACheck (results : List Result) (run : Run) : Bool :=
  match run.recordedChecksTotal with
  | some n => 0 < n
  | none => (resultsOf results run).any fun row => row.status ≠ .skip ∧ row.status ≠ .error

def created (run : Run) : ℕ ×ₗ ℕ := toLex (run.createdAt, run.id)

/-- `_previous_terminal_run`. -/
def previousTerminalRun (db : Database) (run : Run) : Option Run :=
  (db.runs.filter fun other => other.suiteId = run.suiteId ∧
      (other.status = .failed ∨ other.status = .succeeded ∧ evaluatedACheck db.results other) ∧
      created other < created run).argmax created

def isDuplicateAlert (db : Database) (run : Run) : Bool :=
  let current := failingRanks db.results run
  if current = [] then false
  else
    match previousTerminalRun db run with
    | none => false
    | some previousRun =>
      let previous := failingRanks db.results previousRun
      !current.any fun (key, rank) => (previous.lookup key).getD 0 < rank

/-- `all_failures_snoozed`. -/
def allFailuresSnoozed (db : Database) (now : ℕ) (run : Run) : Bool :=
  if run.status = .failed then false
  else
    let failing := (failingRows db.results run).map Result.checkId
    if failing = [] then false
    else failing.all fun check => (db.alertSnoozedUntil check).any (now < ·)

/-- `_should_send`. -/
def shouldSend (policy : AlertOn) (runStatus : RunStatus) (worst : Option FailingTier) : Bool :=
  if policy = .always then true
  else if runStatus = .failed then true
  else
    match worst with
    | none => false
    | some tier => policy ≠ .fail || tier ≠ .warn

/-- Whether the publishers send the report of the run: each of them asks for the policy. -/
def routed (db : Database) (run : Run) : Bool :=
  match db.config run.suiteId with
  | some config =>
    config.enabled && shouldSend config.alertOn run.status
      (worstSeverity ((resultsOf db.results run).map Result.status))
  | none =>
    shouldSend .warn run.status (worstSeverity ((resultsOf db.results run).map Result.status))

inductive Outcome
  | snoozed
  | duplicate
  /-- Building the report raised. -/
  | raised
  | published (sent : Bool)
  deriving DecidableEq, Repr

/-- `publish_run_outcome` of a run that has succeeded or failed. -/
def publishRunOutcome (db : Database) (now : ℕ) (raises : Bool) (run : Run) : Outcome :=
  if allFailuresSnoozed db now run then .snoozed
  else
    let policy := ((db.config run.suiteId).filter SuiteNotification.enabled).map
      SuiteNotification.alertOn
    if policy ≠ some .always ∧ isDuplicateAlert db run then .duplicate
    else if raises then .raised
    else .published (routed db run)

/-! ## Histories -/

/-- What became of a finished run's alert, with what it was decided on: the run that it was compared
with, the configuration and the snoozes. -/
structure Entry where
  runId : ℕ
  now : ℕ
  outcome : Outcome
  previous : Option ℕ
  config : Option SuiteNotification
  alertSnoozedUntil : ℕ → Option ℕ

structure State extends Database where
  log : List Entry

def start : State := ⟨⟨[], [], fun _ => none, fun _ => none⟩, []⟩

/-- Runs of any suite start and end, and are dispatched, in any order; a check may be deleted with
its results, and the configuration and the snoozes may change. A run that has ended stays as it
is. -/
inductive Event
  | enqueue (run : Run)
  | finish (runId : ℕ) (status : RunStatus) (rows : List (ℕ × ResultStatus))
      (recordedChecksTotal : Option ℕ)
  | deleteCheck (id : ℕ)
  | configure (suiteId : ℕ) (config : Option SuiteNotification)
  | snooze (check : ℕ) (until_ : Option ℕ)
  | dispatch (runId : ℕ) (now : ℕ) (raises : Bool)

def Run.publishable (run : Run) : Bool := run.status = .succeeded || run.status = .failed

def step (s : State) : Event → Option State
  | .enqueue run =>
    if run.id ∈ s.runs.map Run.id ∨ run.status.terminal then none
    else some { s with runs := run :: s.runs }
  | .finish runId status rows recordedChecksTotal =>
    if status.terminal ∧ ∃ run ∈ s.runs, run.id = runId ∧ run.status.terminal = false then
      some { s with
        runs := s.runs.map fun run =>
          if run.id = runId then
            { run with status := status, recordedChecksTotal := recordedChecksTotal }
          else run
        results := s.results ++ rows.map fun (check, status) => ⟨runId, check, status⟩ }
    else none
  | .deleteCheck id => some { s with results := s.results.filter (·.checkId ≠ id) }
  | .configure suiteId config => some { s with config := Function.update s.config suiteId config }
  | .snooze check until_ =>
    some { s with alertSnoozedUntil := Function.update s.alertSnoozedUntil check until_ }
  | .dispatch runId now raises =>
    match s.runs.find? fun run => run.id = runId with
    | none => some s
    | some run =>
      if Run.publishable run then
        some { s with
          log := ⟨runId, now, publishRunOutcome s.toDatabase now raises run,
            (previousTerminalRun s.toDatabase run).map Run.id, s.config run.suiteId,
            s.alertSnoozedUntil⟩ :: s.log }
      else some s

/-! ## Ranks -/

/-- How badly a run does on a key: nothing below the lowest failing tier. -/
def rank (results : List Result) (run : Run) (key : Key) : ℕ :=
  ((failingRanks results run).lookup key).getD 0

theorem failingRanks_failed {results : List Result} {run : Run} (h : run.status = .failed) :
    failingRanks results run = [(.operational, FailingTier.fail.rank)] := by
  have hrows : (if run.status = .succeeded then failingRows results run else []) = [] :=
    if_neg (by simp [h])
  unfold failingRanks
  rw [hrows]
  exact if_pos ⟨rfl, h⟩

theorem failingRanks_succeeded {results : List Result} {run : Run} (h : run.status = .succeeded) :
    failingRanks results run = dictOf (fun row => Key.check row.checkId)
      (fun row => (severityRank row.status).getD 0) (failingRows results run) := by
  unfold failingRanks
  rw [if_pos h]
  exact if_neg (by simp [h])

theorem failingRanks_other {results : List Result} {run : Run} (h : Run.publishable run = false) :
    failingRanks results run = [] := by
  simp only [Run.publishable, Bool.or_eq_false_iff, decide_eq_false_iff_not] at h
  unfold failingRanks
  rw [if_neg h.1]
  exact if_neg (by simp [h.2])

theorem publishable_cases (run : Run) :
    run.status = .failed ∨ run.status = .succeeded ∨ Run.publishable run = false := by
  unfold Run.publishable
  cases run.status <;> simp

/-- The rank of a check is that of its last row. -/
theorem rank_succeeded (results : List Result) {run : Run} (h : run.status = .succeeded)
    (key : Key) :
    rank results run key =
      (((failingRows results run).reverse.find? fun row => Key.check row.checkId == key).map
        fun row => (severityRank row.status).getD 0).getD 0 := by
  rw [rank, failingRanks_succeeded h, lookup_dictOf]

theorem failingRows_delete (results : List Result) (run : Run) (id : ℕ) :
    failingRows (results.filter (·.checkId ≠ id)) run =
      (failingRows results run).filter (·.checkId ≠ id) := by
  unfold failingRows resultsOf
  simp only [List.filter_filter]
  congr 1
  funext row
  cases decide (row.runId = run.id) <;> cases (severityRank row.status).isSome <;> simp

theorem rank_delete (results : List Result) (run : Run) (id : ℕ) (key : Key) :
    rank (results.filter (·.checkId ≠ id)) run key =
      if key = .check id then 0 else rank results run key := by
  obtain h | h | h := publishable_cases run
  · rw [rank, rank, failingRanks_failed h, failingRanks_failed h]
    by_cases hkey : key = .check id
    · rw [if_pos hkey, hkey]
      rfl
    · rw [if_neg hkey]
  · rw [rank_succeeded _ h, rank_succeeded _ h, failingRows_delete, ← List.filter_reverse,
      List.find?_filter]
    by_cases hkey : key = .check id
    · have hnone : ((failingRows results run).reverse.find? fun row =>
          decide (decide (row.checkId ≠ id) = true ∧ (Key.check row.checkId == key) = true)) =
          none := by
        rw [List.find?_eq_none]
        simp [hkey]
      rw [if_pos hkey, hnone]
      rfl
    · rw [if_neg hkey]
      congr 3
      funext row
      by_cases hrow : Key.check row.checkId = key
      · have hne : row.checkId ≠ id := by
          rintro rfl
          exact hkey hrow.symm
        simp [hne, hrow]
      · simp [hrow]
  · rw [rank, rank, failingRanks_other h, failingRanks_other h]
    simp

theorem resultsOf_append {results rows : List Result} {run : Run}
    (h : ∀ row ∈ rows, row.runId ≠ run.id) :
    resultsOf (results ++ rows) run = resultsOf results run := by
  have hnone : rows.filter (fun row => row.runId = run.id) = [] := by
    rw [List.filter_eq_nil_iff]
    simpa using h
  rw [resultsOf, List.filter_append, hnone, List.append_nil]
  rfl

theorem rank_append {results rows : List Result} {run : Run} (h : ∀ row ∈ rows, row.runId ≠ run.id)
    (key : Key) : rank (results ++ rows) run key = rank results run key := by
  unfold rank failingRanks failingRows
  rw [resultsOf_append h]

theorem rank_of_mem {results : List Result} {run : Run} {key : Key} {n : ℕ}
    (h : (key, n) ∈ failingRanks results run) : rank results run key = n := by
  have hnodup : ((failingRanks results run).map Prod.fst).Nodup := by
    obtain hstatus | hstatus | hstatus := publishable_cases run
    · rw [failingRanks_failed hstatus]
      exact List.nodup_singleton _
    · rw [failingRanks_succeeded hstatus]
      exact nodup_dictOf _ _ _
    · rw [failingRanks_other hstatus]
      exact List.nodup_nil
  rw [rank, (mem_iff_lookup hnodup).mp h]
  rfl

theorem mem_of_rank {results : List Result} {run : Run} {key : Key} (h : rank results run key ≠ 0) :
    (key, rank results run key) ∈ failingRanks results run := by
  unfold rank at h ⊢
  cases hlookup : (failingRanks results run).lookup key with
  | none => simp [hlookup] at h
  | some n => exact mem_of_lookup hlookup

theorem publishable_of_rank {results : List Result} {run : Run} {key : Key}
    (h : rank results run key ≠ 0) : Run.publishable run = true := by
  by_contra hnot
  rw [rank, failingRanks_other (by simpa using hnot)] at h
  exact h rfl

/-! ## What silences an alert -/

/-- A duplicate is as bad as its run nowhere but where the run before is. -/
theorem of_isDuplicateAlert {db : Database} {run : Run} (h : isDuplicateAlert db run = true) :
    ∃ previous, previousTerminalRun db run = some previous ∧
      ∀ key, rank db.results run key ≤ rank db.results previous key := by
  unfold isDuplicateAlert at h
  dsimp only at h
  split at h
  · exact nomatch h
  cases hprevious : previousTerminalRun db run with
  | none =>
    rw [hprevious] at h
    exact nomatch h
  | some previous =>
    rw [hprevious] at h
    refine ⟨previous, rfl, fun key => ?_⟩
    by_cases hzero : rank db.results run key = 0
    · omega
    have hmem := mem_of_rank hzero
    dsimp only at h
    rw [Bool.not_eq_true', List.any_eq_false] at h
    have hless := h _ hmem
    rw [decide_eq_true_eq] at hless
    exact Nat.not_lt.mp hless

theorem of_previousTerminalRun {db : Database} {run previous : Run}
    (h : previousTerminalRun db run = some previous) :
    previous ∈ db.runs ∧ previous.suiteId = run.suiteId ∧ Run.publishable previous = true ∧
      created previous < created run := by
  have hmem := List.argmax_mem h
  rw [List.mem_filter] at hmem
  obtain ⟨hin, hwhich⟩ := hmem
  simp only [decide_eq_true_eq] at hwhich
  obtain ⟨hsuite, hstatus, hbefore⟩ := hwhich
  refine ⟨hin, hsuite, ?_, hbefore⟩
  unfold Run.publishable
  obtain hfailed | ⟨hsucceeded, -⟩ := hstatus
  · simp [hfailed]
  · simp [hsucceeded]

/-- Where every failing check is snoozed, so is each. -/
theorem of_allFailuresSnoozed {db : Database} {now : ℕ} {run : Run}
    (h : allFailuresSnoozed db now run = true) {key : Key} (hrank : rank db.results run key ≠ 0) :
    ∃ check, key = .check check ∧ (db.alertSnoozedUntil check).any (now < ·) = true := by
  unfold allFailuresSnoozed at h
  split at h
  · exact nomatch h
  · next hfailed =>
    dsimp only at h
    split at h
    · exact nomatch h
    · have hsucceeded : run.status = .succeeded := by
        have hpublishable := publishable_of_rank hrank
        unfold Run.publishable at hpublishable
        simpa [hfailed] using hpublishable
      rw [rank_succeeded _ hsucceeded] at hrank
      cases hfind : (failingRows db.results run).reverse.find?
          fun row => Key.check row.checkId == key with
      | none => simp [hfind] at hrank
      | some row =>
        have hkey : Key.check row.checkId = key := by simpa using List.find?_some hfind
        have hmem := List.mem_reverse.mp (List.mem_of_find?_eq_some hfind)
        have hall := List.all_eq_true.mp h row.checkId (List.mem_map.mpr ⟨row, hmem, rfl⟩)
        exact ⟨row.checkId, hkey.symm, hall⟩

theorem worstSeverity_of_mem {statuses : List ResultStatus} {status : ResultStatus}
    {tier : FailingTier} (hmem : status ∈ statuses) (htier : status.failingTier = some tier) :
    ∃ worst, worstSeverity statuses = some worst ∧ tier.rank ≤ worst.rank := by
  have hin : tier ∈ statuses.filterMap ResultStatus.failingTier :=
    List.mem_filterMap.mpr ⟨status, hmem, htier⟩
  cases hworst : worstSeverity statuses with
  | none =>
    unfold worstSeverity at hworst
    rw [List.argmax_eq_none.mp hworst] at hin
    exact absurd hin List.not_mem_nil
  | some worst => exact ⟨worst, rfl, List.le_of_mem_argmax hin hworst⟩

theorem of_shouldSend {policy : AlertOn} {status : RunStatus} {worst : FailingTier}
    (h : shouldSend policy status (some worst) = false) :
    policy = .fail ∧ status ≠ .failed ∧ worst = .warn := by
  unfold shouldSend at h
  split at h
  · exact nomatch h
  split at h
  · exact nomatch h
  · next hfailed =>
    simp only [Bool.or_eq_false_iff, decide_eq_false_iff_not, not_not] at h
    exact ⟨h.1, hfailed, h.2⟩

/-- An alert that goes nowhere was switched off, or is of warnings that the policy leaves out. -/
theorem of_routed {db : Database} {run : Run} (h : routed db run = false) {key : Key}
    (hrank : rank db.results run key ≠ 0) :
    ∃ config, db.config run.suiteId = some config ∧
      (config.enabled = false ∨
        config.alertOn = .fail ∧ rank db.results run key = FailingTier.warn.rank) := by
  have hsend : ∀ {policy : AlertOn}, shouldSend policy run.status
      (worstSeverity ((resultsOf db.results run).map Result.status)) = false →
      policy = .fail ∧ rank db.results run key = FailingTier.warn.rank := by
    intro policy hsend
    obtain hfailed | hsucceeded | hother := publishable_cases run
    · rw [hfailed] at hsend
      unfold shouldSend at hsend
      rw [if_pos rfl, ite_self] at hsend
      exact nomatch hsend
    · have hvalue := rank_succeeded db.results hsucceeded key
      cases hfind : (failingRows db.results run).reverse.find?
          fun row => Key.check row.checkId == key with
      | none =>
        rw [hfind] at hvalue
        exact absurd hvalue hrank
      | some row =>
        rw [hfind] at hvalue
        have hmem := List.mem_reverse.mp (List.mem_of_find?_eq_some hfind)
        obtain ⟨hrow, hsome⟩ := List.mem_filter.mp hmem
        cases htier : row.status.failingTier with
        | none => simp [severityRank, htier] at hsome
        | some tier =>
          obtain ⟨worst, hworst, hle⟩ :=
            worstSeverity_of_mem (List.mem_map.mpr ⟨row, hrow, rfl⟩) htier
          rw [hworst] at hsend
          obtain ⟨hpolicy, -, rfl⟩ := of_shouldSend hsend
          refine ⟨hpolicy, ?_⟩
          have htiers : ∀ tier : FailingTier, tier.rank ≤ FailingTier.warn.rank →
              tier.rank = FailingTier.warn.rank := by
            intro tier hle
            cases tier <;> first | rfl | exact absurd hle (by decide)
          rw [hvalue]
          simp [severityRank, htier, htiers tier hle]
    · rw [rank, failingRanks_other hother] at hrank
      exact absurd rfl hrank
  unfold routed at h
  split at h
  · next config hconfig =>
    refine ⟨config, hconfig, ?_⟩
    by_cases henabled : config.enabled = true
    · rw [henabled, Bool.true_and] at h
      exact .inr (hsend h)
    · exact .inl (by simpa using henabled)
  · exact nomatch (hsend h).1

/-! ## What a step does -/

/-- The runs that have ended are still there, and their ranks are what they were but for the keys
that are gone. -/
structure Evolves (gone : Key → Bool) (s s' : State) : Prop where
  kept : ∀ run ∈ s.runs, Run.publishable run = true → run ∈ s'.runs
  ranks : ∀ run ∈ s.runs, Run.publishable run = true → ∀ key,
    rank s'.results run key = if gone key then 0 else rank s.results run key

/-- Why the key did not have the run announced, if it was not. -/
def Accounts (s : State) (run : Run) (e : Entry) (key : Key) : Prop :=
  match e.outcome with
  | .snoozed => ∃ check, key = .check check ∧ (e.alertSnoozedUntil check).any (e.now < ·) = true
  | .duplicate => ∃ previous ∈ s.runs, e.previous = some previous.id ∧
      previous.suiteId = run.suiteId ∧ Run.publishable previous = true ∧
      created previous < created run ∧ rank s.results run key ≤ rank s.results previous key
  | .raised => True
  | .published sent => sent = true ∨ ∃ config, e.config = some config ∧
      (config.enabled = false ∨
        config.alertOn = .fail ∧ rank s.results run key = FailingTier.warn.rank)

def Explained (s : State) (e : Entry) : Prop :=
  ∃ run ∈ s.runs, run.id = e.runId ∧ Run.publishable run = true ∧
    ∀ key, rank s.results run key ≠ 0 → Accounts s run e key

theorem Explained.evolve {gone : Key → Bool} {s s' : State} (h : Evolves gone s s') {e : Entry}
    (he : Explained s e) : Explained s' e := by
  obtain ⟨run, hrun, hid, hpublishable, haccounts⟩ := he
  refine ⟨run, h.kept run hrun hpublishable, hid, hpublishable, ?_⟩
  intro key hrank
  have hnow := h.ranks run hrun hpublishable key
  by_cases hgone : gone key = true
  · rw [if_pos hgone] at hnow
    exact absurd hnow hrank
  rw [if_neg hgone] at hnow
  have hwas := haccounts key (by rwa [hnow] at hrank)
  unfold Accounts at hwas ⊢
  cases houtcome : e.outcome with
  | snoozed =>
    rw [houtcome] at hwas
    exact hwas
  | duplicate =>
    rw [houtcome] at hwas
    obtain ⟨previous, hin, hprevious, hsuite, hended, hbefore, hle⟩ := hwas
    refine ⟨previous, h.kept previous hin hended, hprevious, hsuite, hended, hbefore, ?_⟩
    rw [hnow, h.ranks previous hin hended key, if_neg hgone]
    exact hle
  | raised => trivial
  | published sent =>
    rw [houtcome] at hwas
    dsimp only at hwas ⊢
    rwa [hnow]

theorem evolves_same {s s' : State} (hruns : s'.runs = s.runs) (hresults : s'.results = s.results) :
    Evolves (fun _ => false) s s' := by
  refine ⟨fun run hrun _ => by rwa [hruns], fun run _ _ key => ?_⟩
  rw [hresults]
  rfl

/-- The alert of a run that has ended is explained where it is decided on. -/
theorem explained_new {s : State} {run : Run} (hrun : run ∈ s.runs)
    (hpublishable : Run.publishable run = true) (now : ℕ) (raises : Bool) :
    Explained s ⟨run.id, now, publishRunOutcome s.toDatabase now raises run,
      (previousTerminalRun s.toDatabase run).map Run.id, s.config run.suiteId,
      s.alertSnoozedUntil⟩ := by
  refine ⟨run, hrun, rfl, hpublishable, ?_⟩
  intro key hrank
  unfold Accounts publishRunOutcome
  by_cases hsnoozed : allFailuresSnoozed s.toDatabase now run = true
  · simp only [if_pos hsnoozed]
    exact of_allFailuresSnoozed hsnoozed hrank
  simp only [if_neg hsnoozed]
  by_cases hduplicate : ((s.config run.suiteId).filter SuiteNotification.enabled).map
      SuiteNotification.alertOn ≠ some .always ∧ isDuplicateAlert s.toDatabase run = true
  · rw [if_pos hduplicate]
    obtain ⟨previous, hprevious, hle⟩ := of_isDuplicateAlert hduplicate.2
    obtain ⟨hin, hsuite, hended, hbefore⟩ := of_previousTerminalRun hprevious
    exact ⟨previous, hin, by rw [hprevious]; rfl, hsuite, hended, hbefore, hle key⟩
  rw [if_neg hduplicate]
  by_cases hraises : raises = true
  · rw [if_pos hraises]
    trivial
  rw [if_neg hraises]
  by_cases hsent : routed s.toDatabase run = true
  · exact .inl hsent
  · exact .inr (of_routed (by simpa using hsent) hrank)

/-- What a step does to the runs that have ended, and to the log. -/
theorem step_cases {s s' : State} {e : Event} (hids : (s.runs.map Run.id).Nodup)
    (h : step s e = some s') :
    (s'.runs.map Run.id).Nodup ∧ (∃ gone, Evolves gone s s') ∧
      (s'.log = s.log ∨ ∃ entry, s'.log = entry :: s.log ∧ Explained s' entry) := by
  cases e with
  | enqueue run =>
    simp only [step] at h
    split at h
    · exact nomatch h
    · next hfresh =>
      obtain rfl := Option.some.inj h
      rw [not_or] at hfresh
      refine ⟨List.nodup_cons.mpr ⟨hfresh.1, hids⟩, ⟨fun _ => false, ?_, ?_⟩, .inl rfl⟩
      · exact fun other hother _ => List.mem_cons_of_mem run hother
      · exact fun _ _ _ _ => rfl
  | finish runId status rows recorded =>
    simp only [step] at h
    split at h
    · next hcan =>
      obtain rfl := Option.some.inj h
      obtain ⟨-, open_, hopen, hid, hrunning⟩ := hcan
      have hother : ∀ run ∈ s.runs, Run.publishable run = true → run.id ≠ runId := by
        rintro run hrun hpublishable hsame
        obtain rfl := List.inj_on_of_nodup_map hids hrun hopen (hsame.trans hid.symm)
        unfold Run.publishable at hpublishable
        cases hstatus : run.status <;> simp [hstatus, RunStatus.terminal] at hpublishable hrunning
      refine ⟨?_, ⟨fun _ => false, ?_, ?_⟩, .inl rfl⟩
      · rw [List.map_map]
        have hsame : Run.id ∘ (fun run : Run => if run.id = runId then
            { run with status := status, recordedChecksTotal := recorded } else run) = Run.id := by
          funext run
          dsimp only [Function.comp]
          split <;> rfl
        rw [hsame]
        exact hids
      · intro run hrun hpublishable
        exact List.mem_map.mpr ⟨run, hrun, if_neg (hother run hrun hpublishable)⟩
      · intro run hrun hpublishable key
        apply rank_append
        intro row hrow
        obtain ⟨-, -, rfl⟩ := List.mem_map.mp hrow
        exact (hother run hrun hpublishable).symm
    · exact nomatch h
  | deleteCheck id =>
    obtain rfl := Option.some.inj h
    refine ⟨hids, ⟨fun key => key = .check id, fun _ hrun _ => hrun, ?_⟩, .inl rfl⟩
    intro run _ _ key
    have hdelete := rank_delete s.results run id key
    simpa using hdelete
  | configure suiteId config =>
    obtain rfl := Option.some.inj h
    exact ⟨hids, ⟨_, evolves_same rfl rfl⟩, .inl rfl⟩
  | snooze check until_ =>
    obtain rfl := Option.some.inj h
    exact ⟨hids, ⟨_, evolves_same rfl rfl⟩, .inl rfl⟩
  | dispatch runId now raises =>
    simp only [step] at h
    split at h
    · obtain rfl := Option.some.inj h
      exact ⟨hids, ⟨_, evolves_same rfl rfl⟩, .inl rfl⟩
    · next run hfind =>
      split at h
      · next hpublishable =>
        obtain rfl := Option.some.inj h
        have hid : run.id = runId := by simpa using List.find?_some hfind
        refine ⟨hids, ⟨_, evolves_same rfl rfl⟩, .inr ⟨_, rfl, ?_⟩⟩
        have hnew := explained_new (List.mem_of_find?_eq_some hfind) hpublishable now raises
        rw [hid] at hnew
        exact hnew.evolve (evolves_same rfl rfl)
      · obtain rfl := Option.some.inj h
        exact ⟨hids, ⟨_, evolves_same rfl rfl⟩, .inl rfl⟩

/-- Every log entry is explained. -/
def Sound (s : State) : Prop := (s.runs.map Run.id).Nodup ∧ ∀ e ∈ s.log, Explained s e

theorem Sound.step {s s' : State} {e : Event} (hs : Sound s) (h : step s e = some s') :
    Sound s' := by
  obtain ⟨hids, hlog⟩ := hs
  obtain ⟨hids', ⟨gone, hevolves⟩, hsame | ⟨entry, hentry, hnew⟩⟩ := step_cases hids h
  · refine ⟨hids', fun e he => ?_⟩
    rw [hsame] at he
    exact (hlog e he).evolve hevolves
  · refine ⟨hids', fun e he => ?_⟩
    rw [hentry] at he
    obtain rfl | he := List.mem_cons.mp he
    · exact hnew
    · exact (hlog e he).evolve hevolves

theorem sound_of_run {events : List Event} {s : State}
    (h : run RunAlerts.step start events = some s) : Sound s := by
  have hstart : Sound start := ⟨List.nodup_nil, fun e he => absurd he List.not_mem_nil⟩
  exact run_keeps (fun _ _ _ hs hstep => hs.step hstep) hstart h

theorem Sound.accounts {s : State} (h : Sound s) {e : Entry} (he : e ∈ s.log) {run : Run}
    (hrun : run ∈ s.runs) (hid : e.runId = run.id) (key : Key)
    (hrank : rank s.results run key ≠ 0) : Accounts s run e key := by
  obtain ⟨other, hother, hsame, -, haccounts⟩ := h.2 e he
  obtain rfl := List.inj_on_of_nodup_map h.1 hother hrun (hsame.trans hid)
  exact haccounts key hrank

/-! ## What is silenced -/

/-- The alert of the one run was held back as a repeat of the other, which does as badly on the key
as `bar` says. -/
def Repeats (s : State) (key : Key) (bar : ℕ) (run previous : Run) : Prop :=
  previous ∈ s.runs ∧ previous.suiteId = run.suiteId ∧ created previous < created run ∧
    bar ≤ rank s.results previous key ∧
    ∃ e ∈ s.log, e.runId = run.id ∧ e.outcome = .duplicate ∧ e.previous = some previous.id

theorem Sound.repeats_back {s : State} (h : Sound s) {key : Key} {bar : ℕ} (hbar : bar ≠ 0)
    {run : Run} (hrun : run ∈ s.runs) (hrank : bar ≤ rank s.results run key) {e : Entry}
    (he : e ∈ s.log) (hid : e.runId = run.id) (hduplicate : e.outcome = .duplicate) :
    ∃ first, Relation.TransGen (Repeats s key bar) run first ∧
      ((∀ e ∈ s.log, e.runId ≠ first.id) ∨
        ∃ e ∈ s.log, e.runId = first.id ∧ e.outcome ≠ .duplicate ∧ Accounts s first e key) := by
  -- the runs that are repeated were created one before the other
  induction hcreated : created run using WellFoundedLT.induction generalizing run e with
  | ind at_ ih =>
    have haccounts := h.accounts he hrun hid key (by omega)
    unfold Accounts at haccounts
    rw [hduplicate] at haccounts
    obtain ⟨previous, hin, hprevious, hsuite, -, hbefore, hle⟩ := haccounts
    have hrepeats : Repeats s key bar run previous :=
      ⟨hin, hsuite, hbefore, hrank.trans hle, e, he, hid, hduplicate, hprevious⟩
    by_cases hdecided : ∃ e ∈ s.log, e.runId = previous.id
    · by_cases hother : ∃ e ∈ s.log, e.runId = previous.id ∧ e.outcome ≠ .duplicate
      · obtain ⟨e', he', hid', hne⟩ := hother
        have haccounts' := h.accounts he' hin hid' key (by omega)
        exact ⟨previous, .single hrepeats, .inr ⟨e', he', hid', hne, haccounts'⟩⟩
      · obtain ⟨e', he', hid'⟩ := hdecided
        have hduplicate' : e'.outcome = .duplicate := by
          by_contra hne
          exact hother ⟨e', he', hid', hne⟩
        rw [hcreated] at hbefore
        obtain ⟨first, hback, hfirst⟩ :=
          ih (created previous) hbefore hin (hrank.trans hle) he' hid' hduplicate' rfl
        exact ⟨first, .head hrepeats hback, hfirst⟩
    · refine ⟨previous, .single hrepeats, .inl fun e' he' hid' => hdecided ⟨e', he', hid'⟩⟩

def queued (id : ℕ) : Run := ⟨id, 0, .queued, none, id, none, none, none, none, none, none, none⟩

/-- A check fails in two runs, one after the other. -/
def failsTwice : List Event :=
  [.enqueue (queued 0), .finish 0 .succeeded [(1, .fail)] (some 1), .dispatch 0 5 false,
    .enqueue (queued 1), .finish 1 .succeeded [(1, .fail)] (some 1), .dispatch 1 6 false]

theorem severityRank_bounds {status : ResultStatus} {n : ℕ} (h : severityRank status = some n) :
    n ≠ 0 ∧ n ≤ 3 := by
  obtain ⟨tier, -, rfl⟩ := Option.map_eq_some_iff.mp h
  cases tier <;> decide

theorem mem_failingRanks_bounds {results : List Result} {run : Run} {key : Key} {n : ℕ}
    (h : (key, n) ∈ failingRanks results run) : n ≠ 0 ∧ n ≤ 3 := by
  obtain hstatus | hstatus | hstatus := publishable_cases run
  · rw [failingRanks_failed hstatus, List.mem_singleton] at h
    obtain ⟨-, rfl⟩ := Prod.mk.inj h
    decide
  · rw [failingRanks_succeeded hstatus, mem_iff_lookup (nodup_dictOf _ _ _)] at h
    obtain ⟨row, hrow, -, -, rfl⟩ := lookup_eq_some.mp h
    obtain ⟨n, hn⟩ := Option.isSome_iff_exists.mp (List.mem_filter.mp hrow).2
    rw [hn]
    exact severityRank_bounds hn
  · rw [failingRanks_other hstatus] at h
    exact absurd h List.not_mem_nil

theorem rank_le (results : List Result) (run : Run) (key : Key) : rank results run key ≤ 3 := by
  by_cases hzero : rank results run key = 0
  · omega
  · exact (mem_failingRanks_bounds (mem_of_rank hzero)).2

/-- The ranks of a run on these keys, taken together. -/
def total (results : List Result) (keys : List Key) (run : Run) : ℕ :=
  (keys.map (rank results run)).sum

theorem total_mono {results : List Result} {keys : List Key} {run previous : Run}
    (h : ∀ key, rank results previous key ≤ rank results run key) :
    total results keys previous ≤ total results keys run :=
  List.sum_le_sum fun key _ => h key

theorem total_lt {results : List Result} {keys : List Key} {run previous : Run}
    (h : ∀ key, rank results previous key ≤ rank results run key) {key : Key} (hkey : key ∈ keys)
    (hworse : rank results previous key < rank results run key) :
    total results keys previous < total results keys run :=
  List.sum_lt_sum _ _ (fun key _ => h key) ⟨key, hkey, hworse⟩

theorem total_le (results : List Result) (keys : List Key) (run : Run) :
    total results keys run ≤ 3 * keys.length := by
  unfold total
  induction keys with
  | nil => exact Nat.zero_le _
  | cons key keys ih =>
    have hle := rank_le results run key
    rw [List.map_cons, List.sum_cons, List.length_cons]
    omega

/-- An alert that is no repeat is of a run that is worse somewhere. -/
theorem worse_of_new {db : Database} {run previous : Run}
    (hprevious : previousTerminalRun db run = some previous)
    (hfailing : failingRanks db.results run ≠ []) (hnew : isDuplicateAlert db run = false) :
    ∃ key ∈ (failingRanks db.results run).map Prod.fst,
      rank db.results previous key < rank db.results run key := by
  unfold isDuplicateAlert at hnew
  dsimp only at hnew
  rw [if_neg hfailing, hprevious] at hnew
  dsimp only at hnew
  rw [Bool.not_eq_false', List.any_eq_true] at hnew
  obtain ⟨⟨key, n⟩, hmem, hless⟩ := hnew
  rw [decide_eq_true_eq] at hless
  refine ⟨key, List.mem_map.mpr ⟨_, hmem, rfl⟩, ?_⟩
  rw [rank_of_mem hmem]
  exact hless

/-- The one run comes right before the other, and no check gets better. -/
def Worsens (db : Database) (run previous : Run) : Prop :=
  previousTerminalRun db run = some previous ∧
    ∀ key, rank db.results previous key ≤ rank db.results run key

/-- The failing runs whose alert is no repeat. -/
def newAlerts (db : Database) (runs : List Run) : List Run :=
  runs.filter fun run => failingRanks db.results run ≠ [] ∧ isDuplicateAlert db run = false

theorem length_newAlerts_le {db : Database} {keys : List Key} {latest : Run} {older : List Run}
    (hkeys : ∀ key ∈ (failingRanks db.results latest).map Prod.fst, key ∈ keys)
    (h : (latest :: older).IsChain (Worsens db)) :
    (newAlerts db (latest :: older)).length ≤ 1 + total db.results keys latest := by
  induction older generalizing latest with
  | nil =>
    have hle : (newAlerts db [latest]).length ≤ [latest].length := List.length_filter_le _ _
    rw [List.length_singleton] at hle
    omega
  | cons previous older ih =>
    obtain ⟨⟨hprevious, hworse⟩, hrest⟩ := List.isChain_cons_cons.mp h
    have hless : ∀ key ∈ (failingRanks db.results previous).map Prod.fst, key ∈ keys := by
      intro key hkey
      obtain ⟨⟨key, n⟩, hmem, rfl⟩ := List.mem_map.mp hkey
      have hpositive := (mem_failingRanks_bounds hmem).1
      have hrank := rank_of_mem hmem
      have hlater := hworse key
      exact hkeys _ (List.mem_map.mpr ⟨_, mem_of_rank (by omega), rfl⟩)
    have hcount := ih hless hrest
    unfold newAlerts at hcount ⊢
    by_cases hnew : failingRanks db.results latest ≠ [] ∧ isDuplicateAlert db latest = false
    · obtain ⟨key, hkey, hlt⟩ := worse_of_new hprevious hnew.1 hnew.2
      have hgrows := total_lt hworse (hkeys key hkey) hlt
      rw [List.filter_cons_of_pos (by simpa using hnew), List.length_cons]
      omega
    · have hstays : total db.results keys previous ≤ total db.results keys latest :=
        total_mono hworse
      rw [List.filter_cons_of_neg (by simpa using hnew)]
      omega

/-- In a stretch of runs in which no check gets better, an alert is announced again at most three
times for each check that fails in the end. -/
theorem newAlerts_of_worsening {db : Database} {latest : Run} {older : List Run}
    (h : (latest :: older).IsChain (Worsens db)) :
    (newAlerts db (latest :: older)).length ≤
      1 + 3 * (failingRanks db.results latest).length := by
  have hle := length_newAlerts_le (fun key hkey => hkey) h
  have htotal := total_le db.results ((failingRanks db.results latest).map Prod.fst) latest
  rw [List.length_map] at htotal
  omega

def ended (id : ℕ) : Run := { queued id with status := .succeeded, recordedChecksTotal := some 1 }

/-- A check warns in a run and fails in the next. -/
def worsening : Database :=
  ⟨[ended 1, ended 0], [⟨0, 1, .warn⟩, ⟨1, 1, .fail⟩], fun _ => none, fun _ => none⟩

theorem newAlerts_of_worsening_twice :
    (newAlerts worsening [ended 1, ended 0]).length ≤
      1 + 3 * (failingRanks worsening.results (ended 1)).length := by
  have hworse : ∀ key, rank worsening.results (ended 0) key ≤
      rank worsening.results (ended 1) key := by
    intro key
    by_cases hkey : key = .check 1
    · rw [hkey]
      decide
    · have hrows : (failingRows worsening.results (ended 0)).reverse = [⟨0, 1, .warn⟩] := by
        decide
      have hzero : rank worsening.results (ended 0) key = 0 := by
        rw [rank_succeeded _ rfl, hrows]
        simp [Ne.symm hkey]
      omega
  exact newAlerts_of_worsening
    (List.isChain_cons_cons.mpr ⟨⟨rfl, hworse⟩, List.IsChain.singleton _⟩)

end DataQ.RunAlerts
