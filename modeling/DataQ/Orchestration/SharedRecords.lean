import DataQ.Foundations.Transition
import DataQ.Orchestration.Ingestion

/-! # Which pipeline runs share a record

A record of `pipeline_runs` is found by the provider and its run id, so the runs of two pipelines
or connections that a provider names alike are one record. -/

namespace DataQ.Orchestration
open DataQ.Runs DataQ.Gate DataQ.Transition
set_option autoImplicit false

structure Source where
  connection : Connection
  pipelineOrDagId : String
  providerRunId : String
  deriving DecidableEq, Repr

def RunUpdate.source (u : RunUpdate) (c : Connection) : Source :=
  ⟨c, u.pipelineOrDagId, u.providerRunId⟩

def Source.ref (x : Source) : PipelineRef :=
  ⟨x.connection.provider, x.pipelineOrDagId, x.providerRunId⟩

@[simp] theorem ref_source (u : RunUpdate) (c : Connection) : (u.source c).ref = u.ref c := rfl

/-- The tables, the updates that were delivered (the last one first), and the suites that a run was
started of, each with what it was started for. -/
structure History where
  db : Database
  delivered : List (Connection × RunUpdate)
  started : List (ℕ × Source)
  deriving DecidableEq

inductive Delivery
  | webhook (refuses : Run → Bool) (now : ℕ) (connections : List Connection)
      (enrich : Connection → RunUpdate → RunUpdate) (provider : Provider) (u : RunUpdate)
  | poll (refuses : Run → Bool) (now since : ℕ) (c : Connection) (u : RunUpdate)

/-- The connection and the update that are ingested; a webhook's may belong to no connection. -/
def Delivery.update : Delivery → Option (Connection × RunUpdate)
  | .webhook _ _ connections enrich provider u =>
    (resolveConnection connections provider u.resourceName).map fun c => (c, enrich c u)
  | .poll _ _ _ c u => some (c, u)

variable (bindings : List TriggerBinding)

def Delivery.ingest (db : Database) : Delivery → Except Database Database
  | .webhook refuses now connections enrich provider u =>
    ingestEvent refuses now connections enrich bindings provider u db
  | .poll refuses now since c u => ingestPolledRuns refuses since bindings c [(now, u)] db

def committed : Except Database Database → Database
  | .ok db | .error db => db

def addedSuites (before after : List Run) : List ℕ := (after.drop before.length).map Run.suiteId

def deliver (h : History) (d : Delivery) : Option History :=
  let after := committed (d.ingest bindings h.db)
  match d.update with
  | none => some { h with db := after }
  | some (c, u) => some
      { db := after
        delivered := (c, u) :: h.delivered
        started := ((addedSuites h.db.runs after.runs).map fun s => (s, u.source c)) ++ h.started }

/-- The row has everything of the update that a new record takes from it. -/
structure Records (row : PipelineRun) (d : Connection × RunUpdate) : Prop where
  provider : row.provider = d.1.provider
  connection : row.connectionId = d.1.id
  providerRun : row.providerRunId = d.2.providerRunId
  pipeline : row.pipelineOrDagId = d.2.pipelineOrDagId
  env : row.env = d.1.env
  status : row.status = d.2.status

def History.latest (h : History) (x : Source) : Option (Connection × RunUpdate) :=
  h.delivered.find? fun d => d.2.source d.1 = x

/-- Every pipeline run of which an update was delivered has a row with its connection, pipeline and
env and the status of its last update, and each that succeeded has had its suites started. -/
structure OwnRecords (h : History) : Prop where
  recorded : ∀ d, h.latest (d.2.source d.1) = some d → ∃ row ∈ h.db.pipelineRuns, Records row d
  triggered : ∀ d ∈ h.delivered, d.2.status = .succeeded → ∀ s ∈ suitesOf bindings d.1 d.2,
    (s, d.2.source d.1) ∈ h.started

/-- A poll that leaves the update out finds its status in the record. -/
def Delivery.upToDate (rows : List PipelineRun) : Delivery → Bool
  | .webhook _ _ _ _ _ _ => true
  | .poll _ _ since c u =>
    !skips since rows c u || (recordOf rows c.provider u.providerRunId).all (·.status = u.status)

/-- The update fits its columns. No update of another connection or pipeline came with its run id.
Where it starts runs, its marker fits, and no bound suite has a run for another pipeline run of the
same marker. -/
structure Separate (h : History) (c : Connection) (u : RunUpdate) : Prop where
  fits : u.fits = true
  runId : ∀ d ∈ h.delivered, d.1.provider = c.provider → d.2.providerRunId = u.providerRunId →
    d.2.source d.1 = u.source c
  marker : u.status = .succeeded → suitesOf bindings c u ≠ [] →
    (triggerMarker (u.ref c)).length ≤ 256 ∧
    ∀ x ∈ h.started, x.1 ∈ suitesOf bindings c u →
      triggerMarker x.2.ref = triggerMarker (u.ref c) → x.2 = u.source c

def Distinct (h : History) (d : Delivery) : Prop :=
  ∀ e ∈ d.update, Separate bindings h e.1 e.2 ∧ d.upToDate h.db.pipelineRuns = true

def beginning (runs : List Run) : History := ⟨⟨[], runs⟩, [], []⟩

/-! ## One delivery -/

variable {bindings}

theorem Records.updated {row : PipelineRun} {d : Connection × RunUpdate} {now : ℕ} {c : Connection}
    {u : RunUpdate} (h : Records row d) (hsame : d.2.source d.1 = u.source c) :
    Records (row.updated now u) (c, u) := by
  simp only [RunUpdate.source, Source.mk.injEq] at hsame
  obtain ⟨hconn, hpipeline, hrun⟩ := hsame
  exact ⟨by rw [← hconn]; exact h.provider, by rw [← hconn]; exact h.connection,
    h.providerRun.trans hrun, h.pipeline.trans hpipeline, by rw [← hconn]; exact h.env, rfl⟩

theorem keyed_iff {row : PipelineRun} {provider : Provider} {runId : String} :
    row.keyed provider runId = true ↔ row.provider = provider ∧ row.providerRunId = runId := by
  simp [PipelineRun.keyed]

/-- What holds of every history of separate deliveries. -/
structure Kept (bindings : List TriggerBinding) (h : History) : Prop where
  own : OwnRecords bindings h
  rows : ∀ row ∈ h.db.pipelineRuns, ∃ d ∈ h.delivered, Records row d
  runs : ∀ (s : ℕ) (p : PipelineRef), (s, some (triggerMarker p)) ∈ triggers h.db.runs →
    ∃ x, (s, x) ∈ h.started ∧ triggerMarker x.ref = triggerMarker p

/-- The rows after an upsert of an update that no other pipeline run shares its run id with. -/
theorem upsert_spec (now : ℕ) {c : Connection} {u : RunUpdate} {h : History} (hkept : Kept bindings h)
    (hsep : Separate bindings h c u) :
    ∃ rows, upsertPipelineRun now c u h.db.pipelineRuns = some rows ∧
      (∃ row ∈ rows, Records row (c, u)) ∧
      (∀ row ∈ rows, Records row (c, u) ∨ ∃ d ∈ h.delivered, Records row d) ∧
      ∀ row ∈ h.db.pipelineRuns, row ∈ rows ∨
        (row.provider = c.provider ∧ row.providerRunId = u.providerRunId) := by
  have hsame : ∀ row ∈ h.db.pipelineRuns, row.keyed c.provider u.providerRunId = true →
      Records (row.updated now u) (c, u) := by
    intro row hrow hkey
    obtain ⟨hprovider, hrun⟩ := keyed_iff.mp hkey
    obtain ⟨d, hd, hrec⟩ := hkept.rows row hrow
    exact hrec.updated (hsep.runId d hd (hrec.provider.symm.trans hprovider)
      (hrec.providerRun.symm.trans hrun))
  unfold upsertPipelineRun
  rw [if_neg (by rw [hsep.fits]; simp)]
  cases hrecord : recordOf h.db.pipelineRuns c.provider u.providerRunId with
  | none =>
    refine ⟨_, rfl, ⟨newRecord now c u, by simp, ⟨rfl, rfl, rfl, rfl, rfl, rfl⟩⟩, ?_, ?_⟩
    · intro row hrow
      rcases List.mem_append.mp hrow with hrow | hrow
      · exact .inr (hkept.rows row hrow)
      · rw [List.mem_singleton.mp hrow]
        exact .inl ⟨rfl, rfl, rfl, rfl, rfl, rfl⟩
    · intro row hrow
      exact .inl (List.mem_append_left _ hrow)
  | some existing =>
    have hexisting : existing ∈ h.db.pipelineRuns := List.mem_of_find?_eq_some hrecord
    have hkey : existing.keyed c.provider u.providerRunId = true := by
      simpa using List.find?_some hrecord
    refine ⟨_, rfl, ⟨existing.updated now u, ?_, hsame existing hexisting hkey⟩, ?_, ?_⟩
    · refine List.mem_map.mpr ⟨existing, hexisting, ?_⟩
      rw [if_pos hkey]
    · intro row hrow
      obtain ⟨old, hold, rfl⟩ := List.mem_map.mp hrow
      split
      · next hk => exact .inl (hsame old hold hk)
      · exact .inr (hkept.rows old hold)
    · intro row hrow
      by_cases hk : row.keyed c.provider u.providerRunId = true
      · exact .inr (keyed_iff.mp hk)
      · refine .inl (List.mem_map.mpr ⟨row, hrow, ?_⟩)
        rw [if_neg hk]

theorem addedSuites_dispatch {refuses : Run → Bool} {runs new : List Run} :
    addedSuites runs (dispatch refuses runs.length (runs ++ new)) = new.map Run.suiteId := by
  rw [addedSuites, dispatch_append, List.drop_left, List.map_map]
  apply List.map_congr_left
  intro r _
  simp only [Function.comp]
  split <;> rfl

theorem Kept.delivered {h : History} (hkept : Kept bindings h) {c : Connection} {u : RunUpdate}
    (hsep : Separate bindings h c u) {rows : List PipelineRun} {runs : List Run}
    {started : List (ℕ × Source)} (hrow : ∃ row ∈ rows, Records row (c, u))
    (hrows : ∀ row ∈ rows, Records row (c, u) ∨ ∃ d ∈ h.delivered, Records row d)
    (hold : ∀ row ∈ h.db.pipelineRuns, row ∈ rows ∨
      (row.provider = c.provider ∧ row.providerRunId = u.providerRunId))
    (htriggered : u.status = .succeeded → ∀ s ∈ suitesOf bindings c u, (s, u.source c) ∈ started)
    (hruns : ∀ (s : ℕ) (p : PipelineRef), (s, some (triggerMarker p)) ∈ triggers runs →
      ∃ x, (s, x) ∈ started ∧ triggerMarker x.ref = triggerMarker p)
    (hmore : ∀ x ∈ h.started, x ∈ started) :
    Kept bindings ⟨⟨rows, runs⟩, (c, u) :: h.delivered, started⟩ := by
  refine ⟨⟨?_, ?_⟩, ?_, hruns⟩
  · intro d hlatest
    simp only [History.latest, List.find?_cons] at hlatest
    by_cases hsame : u.source c = d.2.source d.1
    · simp only [hsame, decide_true] at hlatest
      cases hlatest
      exact hrow
    · simp only [hsame, decide_false] at hlatest
      obtain ⟨row, hrow, hrec⟩ := hkept.own.recorded d hlatest
      rcases hold row hrow with hin | ⟨hprovider, hrun⟩
      · exact ⟨row, hin, hrec⟩
      · have hd : d ∈ h.delivered := List.mem_of_find?_eq_some hlatest
        exact absurd (hsep.runId d hd (hrec.provider.symm.trans hprovider)
          (hrec.providerRun.symm.trans hrun)).symm hsame
  · intro d hd hs s hsuite
    rcases List.mem_cons.mp hd with rfl | hd
    · exact htriggered hs s hsuite
    · exact hmore _ (hkept.own.triggered d hd hs s hsuite)
  · intro row hin
    rcases hrows row hin with hrec | ⟨d, hd, hrec⟩
    · exact ⟨_, List.mem_cons_self, hrec⟩
    · exact ⟨d, List.mem_cons_of_mem _ hd, hrec⟩

/-- Starting the suites of an update, where no other pipeline run of its marker had them started. -/
theorem triggerSuites_spec (refuses : Run → Bool) (now : ℕ) {h : History} (hkept : Kept bindings h)
    {c : Connection} {u : RunUpdate} (hsep : Separate bindings h c u) (hs : u.status = .succeeded) :
    ∃ runs, triggerSuites refuses now bindings c u h.db.runs = some runs ∧
      (∀ s ∈ suitesOf bindings c u, (s, u.source c) ∈
        ((addedSuites h.db.runs runs).map fun s => (s, u.source c)) ++ h.started) ∧
      ∀ (s : ℕ) (p : PipelineRef), (s, some (triggerMarker p)) ∈ triggers runs →
        ∃ x, (s, x) ∈ ((addedSuites h.db.runs runs).map fun s => (s, u.source c)) ++ h.started ∧
          triggerMarker x.ref = triggerMarker p := by
  have hsome : (triggerSuites refuses now bindings c u h.db.runs).isSome := by
    apply triggerSuites_isSome
    by_cases hnil : suitesOf bindings c u = []
    · exact .inr hnil
    · exact .inl (hsep.marker hs hnil).1
  obtain ⟨runs, hruns⟩ := Option.isSome_iff_exists.mp hsome
  obtain ⟨new, hafter, htriggers, hnew⟩ := triggerSuites_started hruns
  have hadded : addedSuites h.db.runs runs = new.map Run.suiteId := by
    rw [hafter, addedSuites_dispatch]
  have hsplit : ∀ (s : ℕ) (m : String), (s, some m) ∈ triggers runs →
      (s, some m) ∈ triggers h.db.runs ∨
        (s ∈ new.map Run.suiteId ∧ m = triggerMarker (u.ref c)) := by
    intro s m hin
    rw [htriggers, triggers_append, hnew.marked] at hin
    rcases List.mem_append.mp hin with hin | hin
    · exact .inl hin
    · obtain ⟨r, hr, heq⟩ := List.mem_map.mp hin
      cases heq
      exact .inr ⟨List.mem_map_of_mem hr, rfl⟩
  refine ⟨runs, hruns, fun s hsuite => ?_, fun s p hin => ?_⟩
  · have hin := hnew.complete s hsuite
    rw [← htriggers] at hin
    rcases hsplit s _ hin with hbefore | ⟨hstarted, -⟩
    · -- the suite has a run of this marker already: it was started for this pipeline run
      obtain ⟨x, hx, hmarker⟩ := hkept.runs s _ hbefore
      have hne : suitesOf bindings c u ≠ [] := List.ne_nil_of_mem hsuite
      obtain rfl := (hsep.marker hs hne).2 (s, x) hx hsuite hmarker
      exact List.mem_append_right _ hx
    · rw [hadded]
      exact List.mem_append_left _ (List.mem_map_of_mem hstarted)
  · rcases hsplit s _ hin with hbefore | ⟨hstarted, hmarker⟩
    · obtain ⟨x, hx, hxm⟩ := hkept.runs s p hbefore
      exact ⟨x, List.mem_append_right _ hx, hxm⟩
    · refine ⟨u.source c, ?_, hmarker.symm⟩
      rw [hadded]
      exact List.mem_append_left _ (List.mem_map_of_mem hstarted)

/-- An update that is ingested keeps every history apart. -/
theorem ingestUpdate_kept (refuses : Run → Bool) (now : ℕ) {h : History} (hkept : Kept bindings h)
    {c : Connection} {u : RunUpdate} (hsep : Separate bindings h c u) :
    ∃ after, ingestUpdate refuses now bindings c u h.db = .ok after ∧
      Kept bindings ⟨after, (c, u) :: h.delivered,
        ((addedSuites h.db.runs after.runs).map fun s => (s, u.source c)) ++ h.started⟩ := by
  obtain ⟨rows, hupsert, hrow, hrows, hold⟩ := upsert_spec now hkept hsep
  unfold ingestUpdate
  rw [hupsert]
  by_cases hs : u.status = .succeeded
  · obtain ⟨runs, hruns, hstarted, hmarked⟩ :=
      triggerSuites_spec refuses now hkept hsep hs
    simp only [hs, if_true, hruns]
    exact ⟨_, rfl, hkept.delivered hsep hrow hrows hold (fun _ => hstarted) hmarked
      fun x hx => List.mem_append_right _ hx⟩
  · simp only [hs, if_false]
    have hnone : addedSuites h.db.runs h.db.runs = [] := by
      rw [addedSuites, List.drop_length, List.map_nil]
    refine ⟨_, rfl, ?_⟩
    rw [hnone]
    exact hkept.delivered hsep hrow hrows hold (fun hs' => absurd hs' hs) hkept.runs fun x hx => hx

/-- A poll leaves out only what is recorded and started. -/
theorem skipped_kept {since : ℕ} {h : History} (hkept : Kept bindings h) {c : Connection}
    {u : RunUpdate} (hsep : Separate bindings h c u)
    (hskip : skips since h.db.pipelineRuns c u = true)
    (hstatus : (recordOf h.db.pipelineRuns c.provider u.providerRunId).all
      (·.status = u.status) = true) :
    Kept bindings ⟨h.db, (c, u) :: h.delivered, h.started⟩ := by
  unfold skips at hskip
  cases hrecord : recordOf h.db.pipelineRuns c.provider u.providerRunId with
  | none =>
    rw [hrecord] at hskip
    cases hskip
  | some existing =>
    rw [hrecord] at hstatus
    have hexisting : existing ∈ h.db.pipelineRuns := List.mem_of_find?_eq_some hrecord
    have hkey : existing.keyed c.provider u.providerRunId = true := by
      simpa using List.find?_some hrecord
    obtain ⟨hprovider, hrun⟩ := keyed_iff.mp hkey
    obtain ⟨d, hd, hrec⟩ := hkept.rows existing hexisting
    have hsource : d.2.source d.1 = u.source c :=
      hsep.runId d hd (hrec.provider.symm.trans hprovider) (hrec.providerRun.symm.trans hrun)
    have hsame : existing.status = u.status := by simpa using hstatus
    obtain ⟨hconn, hpipeline, hrunId⟩ : d.1 = c ∧ d.2.pipelineOrDagId = u.pipelineOrDagId ∧
        d.2.providerRunId = u.providerRunId := by simpa [RunUpdate.source] using hsource
    have hown : Records existing (c, u) := by
      subst hconn
      exact ⟨hrec.provider, hrec.connection, hrec.providerRun.trans hrunId,
        hrec.pipeline.trans hpipeline, hrec.env, hsame⟩
    refine hkept.delivered hsep ⟨existing, hexisting, hown⟩
      (fun row hrow => .inr (hkept.rows row hrow)) (fun row hrow => .inl hrow) (fun hs s hsuite => ?_)
      hkept.runs fun x hx => hx
    rw [← hsource]
    have hsuites : suitesOf bindings d.1 d.2 = suitesOf bindings c u := by
      simp only [suitesOf, bindingsOf, hconn, hpipeline]
    refine hkept.own.triggered d hd ?_ s (by rw [hsuites]; exact hsuite)
    exact hrec.status.symm.trans (hsame.trans hs)

theorem deliver_kept {h after : History} {d : Delivery} (hkept : Kept bindings h)
    (hdistinct : Distinct bindings h d) (hstep : deliver bindings h d = some after) :
    Kept bindings after := by
  cases d with
  | webhook refuses now connections enrich provider u =>
    cases hresolve : resolveConnection connections provider u.resourceName with
    | none =>
      simp only [deliver, Delivery.update, Delivery.ingest, ingestEvent, hresolve, Option.map_none,
        committed, Option.some.injEq] at hstep
      rw [← hstep]
      exact hkept
    | some c =>
      have hupdate : (Delivery.webhook refuses now connections enrich provider u).update =
          some (c, enrich c u) := by
        simp [Delivery.update, hresolve]
      obtain ⟨hsep, -⟩ := hdistinct _ (Option.mem_def.mpr hupdate)
      obtain ⟨db, hok, hdb⟩ := ingestUpdate_kept refuses now hkept hsep
      simp only [deliver, hupdate, Delivery.ingest, ingestEvent, hresolve, hok, committed,
        Option.some.injEq] at hstep
      rw [← hstep]
      exact hdb
  | poll refuses now since c u =>
    obtain ⟨hsep, htodate⟩ := hdistinct (c, u) rfl
    by_cases hskip : skips since h.db.pipelineRuns c u = true
    · have hstatus : (recordOf h.db.pipelineRuns c.provider u.providerRunId).all
          (·.status = u.status) = true := by
        simpa [Delivery.upToDate, hskip] using htodate
      have hnone : addedSuites h.db.runs h.db.runs = [] := by
        rw [addedSuites, List.drop_length, List.map_nil]
      simp only [deliver, Delivery.update, Delivery.ingest, ingestPolledRuns, hskip, if_true,
        committed, hnone, List.map_nil, List.nil_append, Option.some.injEq] at hstep
      rw [← hstep]
      exact skipped_kept hkept hsep hskip hstatus
    · obtain ⟨db, hok, hdb⟩ := ingestUpdate_kept refuses now hkept hsep
      simp only [deliver, Delivery.update, Delivery.ingest, ingestPolledRuns, hskip, hok,
        Except.bind, committed, Option.some.injEq] at hstep
      rw [← hstep]
      exact hdb

theorem beginning_kept {runs : List Run}
    (hunmarked : ∀ r ∈ runs, ∀ p : PipelineRef, r.triggeredBy ≠ some (triggerMarker p)) :
    Kept bindings (beginning runs) := by
  refine ⟨⟨fun d hd => ?_, by simp [beginning]⟩, by simp [beginning], fun s p hin => ?_⟩
  · cases hd
  · obtain ⟨r, hr, heq⟩ := List.mem_map.mp hin
    exact absurd (Prod.mk.inj heq).2 (hunmarked r hr p)

/-- In every order of deliveries on the two channels where no two pipeline runs share a run id of a
provider or a marker, each has its own record and its suites started. -/
theorem own_records (bindings : List TriggerBinding) (runs : List Run) (deliveries : List Delivery)
    {h : History}
    (hunmarked : ∀ r ∈ runs, ∀ p : PipelineRef, r.triggeredBy ≠ some (triggerMarker p))
    (hmeets : Meets (deliver bindings) (Distinct bindings) (beginning runs) deliveries)
    (hrun : Transition.run (deliver bindings) (beginning runs) deliveries = some h) :
    OwnRecords bindings h := by
  have hkept : Kept bindings h :=
    run_invariant (fun s e t hs he hst => deliver_kept hs he hst) (beginning_kept hunmarked) hmeets
      hrun
  exact hkept.own

instance decidableSeparate (h : History) (c : Connection) (u : RunUpdate) :
    Decidable (Separate bindings h c u) :=
  decidable_of_iff
    (u.fits = true ∧
      (∀ d ∈ h.delivered, d.1.provider = c.provider → d.2.providerRunId = u.providerRunId →
        d.2.source d.1 = u.source c) ∧
      (u.status = .succeeded → suitesOf bindings c u ≠ [] →
        (triggerMarker (u.ref c)).length ≤ 256 ∧
        ∀ x ∈ h.started, x.1 ∈ suitesOf bindings c u →
          triggerMarker x.2.ref = triggerMarker (u.ref c) → x.2 = u.source c))
    ⟨fun hs => ⟨hs.1, hs.2.1, hs.2.2⟩, fun hs => ⟨hs.fits, hs.runId, hs.marker⟩⟩

instance decidableDistinct (h : History) (d : Delivery) : Decidable (Distinct bindings h d) :=
  match hd : d.update with
  | none => .isTrue fun e he => by simp [hd] at he
  | some e =>
    decidable_of_iff (Separate bindings h e.1 e.2 ∧ d.upToDate h.db.pipelineRuns = true)
      (by unfold Distinct; rw [hd]; simp)

/-- Two DAGs of one Airflow, each with a suite bound to it. -/
def airflow : Connection := ⟨1, .airflow, "https://airflow", "prod"⟩

def dagBindings : List TriggerBinding :=
  [⟨"airflow", "orders", "prod", 7, true⟩, ⟨"airflow", "billing", "prod", 8, true⟩]

def dagRun (dagId runId : String) : RunUpdate :=
  ⟨runId, dagId, "https://airflow", .succeeded, none, none, none⟩

def callback (now : ℕ) (u : RunUpdate) : Delivery :=
  .webhook (fun _ => false) now [airflow] (fun _ u => u) .airflow u

def polled (now since : ℕ) (u : RunUpdate) : Delivery :=
  .poll (fun _ => false) now since airflow u

/-- Runs that were started by hand at different times, and a poll that sees the first again. -/
def byHand : List Delivery :=
  [callback 5 (dagRun "orders" "manual__1"), polled 7 3 (dagRun "orders" "manual__1"),
    polled 7 3 (dagRun "billing" "manual__2")]

theorem own_records_byHand :
    ∃ h, Transition.run (deliver dagBindings) (beginning []) byHand = some h ∧
      OwnRecords dagBindings h :=
  ⟨_, rfl, own_records dagBindings [] byHand (by simp) (by decide) rfl⟩

/-- Two DAGs on one schedule have one run id: the poll leaves the second one's run out. -/
def scheduled : List Delivery :=
  [callback 5 (dagRun "orders" "scheduled__2024-01-01T00:00:00+00:00"),
    polled 7 3 (dagRun "billing" "scheduled__2024-01-01T00:00:00+00:00")]

theorem scheduled_runs_share_record :
    ∃ h, Transition.run (deliver dagBindings) (beginning []) scheduled = some h ∧
      h.db.pipelineRuns =
        [newRecord 5 airflow (dagRun "orders" "scheduled__2024-01-01T00:00:00+00:00")] ∧
      h.db.runs.map Run.suiteId = [7] ∧ ¬ OwnRecords dagBindings h := by
  refine ⟨_, rfl, by decide, by decide, fun hown => ?_⟩
  have hlost := hown.triggered
    (airflow, dagRun "billing" "scheduled__2024-01-01T00:00:00+00:00") (by decide) rfl 8
    (by decide)
  exact absurd hlost (by decide)

end DataQ.Orchestration
