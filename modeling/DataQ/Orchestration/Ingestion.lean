import DataQ.Gate.Pipeline

/-! # Ingestion of pipeline runs

`orchestration_service`: an update of a pipeline run that a webhook or a poll brings is recorded in
`pipeline_runs`, and a succeeded one starts a run of each suite that an enabled binding names. -/

namespace DataQ.Orchestration
open DataQ.Runs DataQ.Gate
set_option autoImplicit false

inductive PipelineStatus
  | queued | running | succeeded | failed | cancelled
  deriving DecidableEq, Repr

def PipelineStatus.terminal : PipelineStatus → Bool
  | .succeeded | .failed | .cancelled => true
  | .queued | .running => false

structure RunUpdate where
  providerRunId : String
  pipelineOrDagId : String
  resourceName : String
  status : PipelineStatus
  startedAt : Option ℕ
  finishedAt : Option ℕ
  failureReason : Option String
  deriving DecidableEq, Repr

/-- An orchestrator's connection; `resourceName` is what its config has under
`resource_config_key`. -/
structure Connection where
  id : ℕ
  provider : Provider
  resourceName : String
  env : String
  deriving DecidableEq, Repr

structure PipelineRun where
  provider : Provider
  connectionId : ℕ
  providerRunId : String
  pipelineOrDagId : String
  env : String
  status : PipelineStatus
  startedAt : Option ℕ
  finishedAt : Option ℕ
  failureReason : Option String
  lastUpdatedAt : ℕ
  deriving DecidableEq, Repr

structure Database where
  pipelineRuns : List PipelineRun
  runs : List Run
  deriving DecidableEq, Repr

def RunUpdate.ref (u : RunUpdate) (c : Connection) : PipelineRef :=
  ⟨c.provider, u.pipelineOrDagId, u.providerRunId⟩

def resolveConnection (connections : List Connection) (provider : Provider)
    (resourceName : String) : Option Connection :=
  connections.find? fun c => c.provider = provider ∧ c.resourceName = resourceName

/-! ## The record -/

/-- `uq_pipeline_runs_provider_run`. -/
def PipelineRun.keyed (row : PipelineRun) (provider : Provider) (providerRunId : String) : Bool :=
  row.provider = provider && row.providerRunId = providerRunId

def recordOf (rows : List PipelineRun) (provider : Provider) (providerRunId : String) :
    Option PipelineRun :=
  rows.find? (·.keyed provider providerRunId)

/-- The lengths of the columns that hold a provider's text. -/
def RunUpdate.fits (u : RunUpdate) : Bool :=
  u.providerRunId.length ≤ 256 && u.pipelineOrDagId.length ≤ 256 &&
    (u.failureReason.getD "").length ≤ 2048

def newRecord (now : ℕ) (c : Connection) (u : RunUpdate) : PipelineRun where
  provider := c.provider
  connectionId := c.id
  providerRunId := u.providerRunId
  pipelineOrDagId := u.pipelineOrDagId
  env := c.env
  status := u.status
  startedAt := u.startedAt
  finishedAt := u.finishedAt
  failureReason := u.failureReason
  lastUpdatedAt := now

/-- What a conflict updates of the record that is there. -/
def PipelineRun.updated (row : PipelineRun) (now : ℕ) (u : RunUpdate) : PipelineRun :=
  { row with
    status := u.status
    startedAt := u.startedAt
    finishedAt := u.finishedAt
    failureReason := u.failureReason
    lastUpdatedAt := now }

/-- `_upsert_pipeline_run`; `none` where the statement raises. -/
def upsertPipelineRun (now : ℕ) (c : Connection) (u : RunUpdate) (rows : List PipelineRun) :
    Option (List PipelineRun) :=
  if u.fits = false then none
  else
    match recordOf rows c.provider u.providerRunId with
    | none => some (rows ++ [newRecord now c u])
    | some _ => some (rows.map fun row =>
        if row.keyed c.provider u.providerRunId then row.updated now u else row)

/-- Whether a poll leaves an update out: its run is recorded as over, and not too long ago. -/
def skips (since : ℕ) (rows : List PipelineRun) (c : Connection) (u : RunUpdate) : Bool :=
  match recordOf rows c.provider u.providerRunId with
  | none => false
  | some existing => existing.status.terminal && since ≤ existing.lastUpdatedAt

/-! ## The runs that it starts -/

/-- The bindings that the query of `_trigger_suites` selects. -/
def bindingsOf (bindings : List TriggerBinding) (c : Connection) (u : RunUpdate) :
    List TriggerBinding :=
  bindings.filter fun b => b.provider = c.provider.name ∧ b.pipelineOrDagId = u.pipelineOrDagId ∧
    b.env = c.env ∧ b.enabled

def suitesOf (bindings : List TriggerBinding) (c : Connection) (u : RunUpdate) : List ℕ :=
  (bindingsOf bindings c u).map TriggerBinding.suiteId

/-- `_trigger_suites`; `none` where an insert raises. -/
def triggerSuites (refuses : Run → Bool) (now : ℕ) (bindings : List TriggerBinding)
    (c : Connection) (u : RunUpdate) (runs : List Run) : Option (List Run) :=
  (startRuns now (triggerMarker (u.ref c)) (suitesOf bindings c u) runs).map
    (dispatch refuses runs.length)

/-! ## An update -/

/-- Upsert and trigger. An error carries what had been committed when it was raised. -/
def ingestUpdate (refuses : Run → Bool) (now : ℕ) (bindings : List TriggerBinding)
    (c : Connection) (u : RunUpdate) (db : Database) : Except Database Database :=
  match upsertPipelineRun now c u db.pipelineRuns with
  | none => .error db
  | some rows =>
    if u.status = .succeeded then
      match triggerSuites refuses now bindings c u db.runs with
      | none => .error ⟨rows, db.runs⟩
      | some runs => .ok ⟨rows, runs⟩
    else .ok ⟨rows, db.runs⟩

/-- `ingest_event`; `enrich` is `_maybe_enrich`. -/
def ingestEvent (refuses : Run → Bool) (now : ℕ) (connections : List Connection)
    (enrich : Connection → RunUpdate → RunUpdate) (bindings : List TriggerBinding)
    (provider : Provider) (u : RunUpdate) (db : Database) : Except Database Database :=
  match resolveConnection connections provider u.resourceName with
  | none => .ok db
  | some c => ingestUpdate refuses now bindings c (enrich c u) db

/-- `ingest_polled_runs`, each update with the time at which its turn comes. -/
def ingestPolledRuns (refuses : Run → Bool) (since : ℕ) (bindings : List TriggerBinding)
    (c : Connection) : List (ℕ × RunUpdate) → Database → Except Database Database
  | [], db => .ok db
  | (now, u) :: updates, db =>
    if skips since db.pipelineRuns c u then ingestPolledRuns refuses since bindings c updates db
    else (ingestUpdate refuses now bindings c u db).bind
      (ingestPolledRuns refuses since bindings c updates)

theorem ingestPolledRuns_append {refuses : Run → Bool} {since : ℕ} {bindings : List TriggerBinding}
    {c : Connection} {updates more : List (ℕ × RunUpdate)} {db : Database} :
    ingestPolledRuns refuses since bindings c (updates ++ more) db =
      (ingestPolledRuns refuses since bindings c updates db).bind
        (ingestPolledRuns refuses since bindings c more) := by
  induction updates generalizing db with
  | nil => rfl
  | cons update updates ih =>
    obtain ⟨now, u⟩ := update
    rw [List.cons_append, ingestPolledRuns, ingestPolledRuns]
    by_cases hskip : skips since db.pipelineRuns c u = true
    · rw [if_pos hskip, if_pos hskip]
      exact ih
    · rw [if_neg hskip, if_neg hskip]
      cases ingestUpdate refuses now bindings c u db with
      | error db' => rfl
      | ok db' => exact ih

/-! ## What an update leaves -/

def triggers (runs : List Run) : List (ℕ × Option String) :=
  runs.map fun r => (r.suiteId, r.triggeredBy)

theorem runFor_isSome_iff {runs : List Run} {suiteId : ℕ} {marker : String} :
    (runFor runs suiteId marker).isSome ↔ (suiteId, some marker) ∈ triggers runs := by
  simp [runFor, triggers, List.find?_isSome]

theorem triggers_append {runs new : List Run} :
    triggers (runs ++ new) = triggers runs ++ triggers new :=
  List.map_append

theorem dispatch_triggers {refuses : Run → Bool} {runs new : List Run} :
    triggers (dispatch refuses runs.length (runs ++ new)) = triggers (runs ++ new) := by
  rw [dispatch_append, triggers_append, triggers_append]
  congr 1
  unfold triggers
  rw [List.map_map]
  apply List.map_congr_left
  intro r _
  simp only [Function.comp]
  split <;> rfl

/-- The runs that are started for a marker are of different suites that had none, and then every
suite has one. -/
structure Started (marker : String) (suiteIds : List ℕ) (runs new : List Run) : Prop where
  marked : triggers new = new.map fun r => (r.suiteId, some marker)
  nodup : (new.map Run.suiteId).Nodup
  asked : ∀ r ∈ new, r.suiteId ∈ suiteIds
  free : ∀ r ∈ new, (r.suiteId, some marker) ∉ triggers runs
  complete : ∀ s ∈ suiteIds, (s, some marker) ∈ triggers (runs ++ new)

theorem insertTriggeredRun_queued {now : ℕ} {runs : List Run} {suiteId : ℕ} {marker : String}
    {run : Run} (h : insertTriggeredRun now runs suiteId marker = .queued run) :
    runFor runs suiteId marker = none ∧ run.suiteId = suiteId ∧ run.triggeredBy = some marker := by
  unfold insertTriggeredRun at h
  split at h
  · cases h
  · split at h
    · cases h
    · next hfree =>
      cases h
      exact ⟨hfree, rfl, rfl⟩

theorem startRuns_started {now : ℕ} {marker : String} {suiteIds : List ℕ} {runs after : List Run}
    (h : startRuns now marker suiteIds runs = some after) :
    ∃ new, after = runs ++ new ∧ Started marker suiteIds runs new := by
  induction suiteIds generalizing runs with
  | nil =>
    cases h
    exact ⟨[], by simp, rfl, by simp, by simp, by simp, by simp⟩
  | cons s suiteIds ih =>
    rw [startRuns] at h
    split at h
    · cases h
    · next hdup =>
      have hthere := runFor_isSome_iff.mp (insertTriggeredRun_duplicate_iff.mp hdup).2
      obtain ⟨new, hafter, hnew⟩ := ih h
      refine ⟨new, hafter, hnew.marked, hnew.nodup, fun r hr => ?_, hnew.free, fun s' hs' => ?_⟩
      · exact List.mem_cons_of_mem _ (hnew.asked r hr)
      · rcases List.mem_cons.mp hs' with rfl | hs'
        · rw [triggers_append]
          exact List.mem_append_left _ hthere
        · exact hnew.complete s' hs'
    · next run hqueued =>
      obtain ⟨hfree, hsuite, hmarker⟩ := insertTriggeredRun_queued hqueued
      obtain ⟨new, hafter, hnew⟩ := ih h
      have hrun : triggers [run] = [(s, some marker)] := by simp [triggers, hsuite, hmarker]
      have hnone : (s, some marker) ∉ triggers runs := by
        rw [← runFor_isSome_iff, hfree]
        simp
      have hlater : ∀ r ∈ new, (r.suiteId, some marker) ∉ triggers runs ∧ r.suiteId ≠ s := by
        intro r hr
        have hr := hnew.free r hr
        rw [triggers_append, hrun, List.mem_append, List.mem_singleton] at hr
        exact ⟨fun hin => hr (.inl hin), fun heq => hr (.inr (by rw [heq]))⟩
      refine ⟨run :: new, by simp [hafter], ?_, ?_, ?_, ?_, ?_⟩
      · have hmarked := hnew.marked
        simp only [triggers] at hmarked ⊢
        rw [List.map_cons, List.map_cons, hmarked, hmarker]
      · rw [List.map_cons, List.nodup_cons]
        refine ⟨fun hin => ?_, hnew.nodup⟩
        obtain ⟨r, hr, heq⟩ := List.mem_map.mp hin
        exact (hlater r hr).2 (heq.trans hsuite)
      · intro r hr
        rcases List.mem_cons.mp hr with rfl | hr
        · rw [hsuite]
          exact List.mem_cons_self
        · exact List.mem_cons_of_mem _ (hnew.asked r hr)
      · intro r hr
        rcases List.mem_cons.mp hr with rfl | hr
        · rw [hsuite]
          exact hnone
        · exact (hlater r hr).1
      · intro s' hs'
        have hsplit : runs ++ run :: new = runs ++ [run] ++ new := by simp
        rw [hsplit]
        rcases List.mem_cons.mp hs' with rfl | hs'
        · rw [triggers_append, triggers_append, hrun]
          simp
        · exact hnew.complete s' hs'

theorem startRuns_isSome {now : ℕ} {marker : String} {suiteIds : List ℕ} {runs : List Run}
    (h : marker.length ≤ 256 ∨ suiteIds = []) :
    (startRuns now marker suiteIds runs).isSome := by
  induction suiteIds generalizing runs with
  | nil => rfl
  | cons s suiteIds ih =>
    have hfits : ¬ 256 < marker.length := by
      rcases h with h | h
      · omega
      · cases h
    rw [startRuns]
    split
    · next hlong =>
      unfold insertTriggeredRun at hlong
      rw [if_neg hfits] at hlong
      split at hlong <;> cases hlong
    · exact ih (.inl (by omega))
    · exact ih (.inl (by omega))

theorem triggerSuites_started {refuses : Run → Bool} {now : ℕ} {bindings : List TriggerBinding}
    {c : Connection} {u : RunUpdate} {runs after : List Run}
    (h : triggerSuites refuses now bindings c u runs = some after) :
    ∃ new, after = dispatch refuses runs.length (runs ++ new) ∧
      triggers after = triggers (runs ++ new) ∧
      Started (triggerMarker (u.ref c)) (suitesOf bindings c u) runs new := by
  obtain ⟨started, hstarted, rfl⟩ := Option.map_eq_some_iff.mp h
  obtain ⟨new, rfl, hnew⟩ := startRuns_started hstarted
  exact ⟨new, rfl, dispatch_triggers, hnew⟩

theorem triggerSuites_isSome {refuses : Run → Bool} {now : ℕ}
    {bindings : List TriggerBinding} {c : Connection} {u : RunUpdate}
    {runs : List Run}
    (h : (triggerMarker (u.ref c)).length ≤ 256 ∨ suitesOf bindings c u = []) :
    (triggerSuites refuses now bindings c u runs).isSome := by
  unfold triggerSuites
  rw [Option.isSome_map]
  exact startRuns_isSome h

end DataQ.Orchestration
