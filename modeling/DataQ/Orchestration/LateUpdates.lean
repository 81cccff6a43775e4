import DataQ.Orchestration.SharedRecords

/-! # Late updates

`_upsert_pipeline_run` writes what a webhook brings over whatever the record says, and what a poll
brings unless it finds the run recorded as over within its window. -/

namespace DataQ.Orchestration
open DataQ.Runs DataQ.Gate DataQ.Transition
set_option autoImplicit false

/-- What an update says of its pipeline run, and what a record says that is made of it. -/
structure Said where
  status : PipelineStatus
  startedAt : Option ℕ
  finishedAt : Option ℕ
  failureReason : Option String
  deriving DecidableEq, Repr

def RunUpdate.said (u : RunUpdate) : Said :=
  ⟨u.status, u.startedAt, u.finishedAt, u.failureReason⟩

def PipelineRun.said (row : PipelineRun) : Said :=
  ⟨row.status, row.startedAt, row.finishedAt, row.failureReason⟩

/-- The columns that an upsert leaves as they were inserted. -/
def PipelineRun.origin (row : PipelineRun) : Provider × ℕ × String × String × String :=
  (row.provider, row.connectionId, row.providerRunId, row.pipelineOrDagId, row.env)

def Source.origin (x : Source) : Provider × ℕ × String × String × String :=
  (x.connection.provider, x.connection.id, x.providerRunId, x.pipelineOrDagId, x.connection.env)

def History.record (h : History) (x : Source) : Option PipelineRun :=
  recordOf h.db.pipelineRuns x.connection.provider x.providerRunId

/-- The update is written to the record of the pipeline run. -/
def addressed (x : Source) (e : Connection × RunUpdate) : Bool :=
  e.1.provider = x.connection.provider && e.2.providerRunId = x.providerRunId

/-- A poll that finds the run recorded as over leaves its update out. -/
def Delivery.leftOut (rows : List PipelineRun) : Delivery → Bool
  | .webhook _ _ _ _ _ _ => false
  | .poll _ _ since c u => skips since rows c u

variable {bindings : List TriggerBinding}

/-! ## What a delivery leaves of a record -/

theorem recordOf_upsert_self {now : ℕ} {c : Connection} {u : RunUpdate}
    {rows after : List PipelineRun} (h : upsertPipelineRun now c u rows = some after) :
    ∃ row, recordOf after c.provider u.providerRunId = some row ∧ row.said = u.said ∧
      (row.origin = (u.source c).origin ∨
        ∃ old ∈ recordOf rows c.provider u.providerRunId, row.origin = old.origin) := by
  unfold upsertPipelineRun at h
  split at h
  · cases h
  · split at h
    · next hnone =>
      cases h
      refine ⟨newRecord now c u, ?_, rfl, .inl rfl⟩
      unfold recordOf at hnone ⊢
      rw [List.find?_append, hnone, Option.none_or, List.find?_singleton, if_pos]
      exact keyed_iff.mpr ⟨rfl, rfl⟩
    · next existing hsome =>
      cases h
      refine ⟨existing.updated now u, ?_, rfl, .inr ⟨existing, hsome, rfl⟩⟩
      unfold recordOf at hsome ⊢
      have hkey := List.find?_some hsome
      have hsame : ∀ row : PipelineRun, (if row.keyed c.provider u.providerRunId = true then
          row.updated now u else row).keyed c.provider u.providerRunId =
          row.keyed c.provider u.providerRunId := by
        intro row
        split
        · rfl
        · rfl
      rw [List.find?_map]
      have hcomp : ((fun row : PipelineRun => row.keyed c.provider u.providerRunId) ∘
          fun row => if row.keyed c.provider u.providerRunId = true then row.updated now u
            else row) = fun row => row.keyed c.provider u.providerRunId := by
        funext row
        exact hsame row
      rw [hcomp, hsome, Option.map_some, if_pos hkey]

/-- An update of the rows of one key moves no record of another key. -/
theorem recordOf_map_updated {now : ℕ} {u : RunUpdate} {provider provider' : Provider}
    {runId runId' : String} (rows : List PipelineRun)
    (hother : ∀ row : PipelineRun, row.keyed provider runId = true →
      row.keyed provider' runId' = false) :
    recordOf (rows.map fun row => if row.keyed provider runId then row.updated now u else row)
      provider' runId' = recordOf rows provider' runId' := by
  unfold recordOf
  induction rows with
  | nil => rfl
  | cons row rows ih =>
    rw [List.map_cons, List.find?_cons, List.find?_cons, ih]
    by_cases hrow : row.keyed provider runId = true
    · have hupdated : (row.updated now u).keyed provider' runId' = row.keyed provider' runId' := rfl
      rw [if_pos hrow, hupdated, hother row hrow]
    · rw [if_neg hrow]

theorem recordOf_upsert_ne {now : ℕ} {c : Connection} {u : RunUpdate}
    {rows after : List PipelineRun} {x : Source}
    (h : upsertPipelineRun now c u rows = some after) (hne : addressed x (c, u) = false) :
    recordOf after x.connection.provider x.providerRunId =
      recordOf rows x.connection.provider x.providerRunId := by
  have hother : ∀ row : PipelineRun, row.keyed c.provider u.providerRunId = true →
      row.keyed x.connection.provider x.providerRunId = false := by
    intro row hrow
    obtain ⟨hprovider, hrun⟩ := keyed_iff.mp hrow
    by_contra hkeyed
    obtain ⟨hprovider', hrun'⟩ := keyed_iff.mp (Bool.not_eq_false _ ▸ hkeyed)
    simp [addressed, ← hprovider, ← hrun, hprovider', hrun'] at hne
  unfold upsertPipelineRun at h
  split at h
  · cases h
  · split at h
    · cases h
      have hnew := hother (newRecord now c u) (keyed_iff.mpr ⟨rfl, rfl⟩)
      unfold recordOf
      rw [List.find?_append, List.find?_singleton, if_neg (by rw [hnew]; simp), Option.or_none]
    · cases h
      exact recordOf_map_updated rows hother

theorem committed_ingestUpdate (refuses : Run → Bool) (now : ℕ) (bindings : List TriggerBinding)
    (c : Connection) (u : RunUpdate) (db : Database) :
    (committed (ingestUpdate refuses now bindings c u db)).pipelineRuns =
      (upsertPipelineRun now c u db.pipelineRuns).getD db.pipelineRuns := by
  unfold ingestUpdate
  split
  · next hnone =>
    rw [hnone]
    rfl
  · next rows hrows =>
    rw [hrows]
    split
    · split <;> rfl
    · rfl

/-- A delivery writes its update to the record that it is addressed to, unless it is left out or
does not fit, and to no other record. -/
theorem deliver_record {h after : History} {d : Delivery} (x : Source)
    (hstep : deliver bindings h d = some after) :
    (after.record x = h.record x ∧ ∀ e ∈ d.update, addressed x e = true →
      d.leftOut h.db.pipelineRuns = true ∨ e.2.fits = false) ∨
    ∃ e ∈ d.update, addressed x e = true ∧ d.leftOut h.db.pipelineRuns = false ∧
      e.2.fits = true ∧ ∃ row, after.record x = some row ∧ row.said = e.2.said ∧
        (row.origin = (e.2.source e.1).origin ∨ ∃ old ∈ h.record x, row.origin = old.origin) := by
  have hwrite : ∀ (refuses : Run → Bool) (now : ℕ) (c : Connection) (u : RunUpdate),
      d.update = some (c, u) → d.leftOut h.db.pipelineRuns = false →
      after.db = committed (ingestUpdate refuses now bindings c u h.db) →
      (after.record x = h.record x ∧ ∀ e ∈ d.update, addressed x e = true →
        d.leftOut h.db.pipelineRuns = true ∨ e.2.fits = false) ∨
      ∃ e ∈ d.update, addressed x e = true ∧ d.leftOut h.db.pipelineRuns = false ∧
        e.2.fits = true ∧ ∃ row, after.record x = some row ∧ row.said = e.2.said ∧
          (row.origin = (e.2.source e.1).origin ∨ ∃ old ∈ h.record x, row.origin = old.origin) := by
    intro refuses now c u hupdate hin hafter
    have hrows : after.db.pipelineRuns =
        (upsertPipelineRun now c u h.db.pipelineRuns).getD h.db.pipelineRuns := by
      rw [hafter, committed_ingestUpdate]
    unfold History.record
    rw [hrows]
    cases hupsert : upsertPipelineRun now c u h.db.pipelineRuns with
    | none =>
      have hfits : u.fits = false := by
        unfold upsertPipelineRun at hupsert
        split at hupsert
        · assumption
        · split at hupsert <;> cases hupsert
      refine .inl ⟨rfl, fun e he _ => ?_⟩
      rw [hupdate, Option.mem_def, Option.some.injEq] at he
      subst he
      exact .inr hfits
    | some rows =>
      have hfits : u.fits = true := by
        by_contra hno
        unfold upsertPipelineRun at hupsert
        rw [if_pos (by simpa using hno)] at hupsert
        cases hupsert
      cases haddressed : addressed x (c, u) with
      | false =>
        refine .inl ⟨recordOf_upsert_ne hupsert haddressed, fun e he htrue => ?_⟩
        rw [hupdate, Option.mem_def, Option.some.injEq] at he
        subst he
        rw [haddressed] at htrue
        cases htrue
      | true =>
        obtain ⟨row, hrow, hsaid, horigin⟩ := recordOf_upsert_self hupsert
        simp only [addressed, Bool.and_eq_true, decide_eq_true_eq] at haddressed
        obtain ⟨hprovider, hrun⟩ := haddressed
        rw [hprovider, hrun] at hrow horigin
        exact .inr ⟨(c, u), hupdate, by simp [addressed, hprovider, hrun], hin, hfits, row, hrow,
          hsaid, horigin⟩
  cases d with
  | webhook refuses now connections enrich provider u =>
    cases hresolve : resolveConnection connections provider u.resourceName with
    | none =>
      simp only [deliver, Delivery.update, Delivery.ingest, ingestEvent, hresolve, Option.map_none,
        committed, Option.some.injEq] at hstep
      subst hstep
      refine .inl ⟨rfl, fun e he => ?_⟩
      simp [Delivery.update, hresolve] at he
    | some c =>
      have hupdate : (Delivery.webhook refuses now connections enrich provider u).update =
          some (c, enrich c u) := by
        simp [Delivery.update, hresolve]
      simp only [deliver, hupdate, Delivery.ingest, ingestEvent, hresolve, Option.some.injEq]
        at hstep
      exact hwrite refuses now c (enrich c u) hupdate rfl (by rw [← hstep])
  | poll refuses now since c u =>
    by_cases hskip : skips since h.db.pipelineRuns c u = true
    · simp only [deliver, Delivery.update, Delivery.ingest, ingestPolledRuns, hskip, if_true,
        committed, Option.some.injEq] at hstep
      subst hstep
      exact .inl ⟨rfl, fun e _ _ => .inl hskip⟩
    · have hnot : skips since h.db.pipelineRuns c u = false := by simpa using hskip
      simp only [deliver, Delivery.update, Delivery.ingest, ingestPolledRuns, hnot,
        Bool.false_eq_true, if_false, Option.some.injEq] at hstep
      refine hwrite refuses now c u rfl hnot ?_
      rw [← hstep]
      cases ingestUpdate refuses now bindings c u h.db <;> rfl

/-! ## Deliveries of one pipeline run -/

/-- A record apart from the time at which it was written. -/
def PipelineRun.untimed (row : PipelineRun) : PipelineRun := { row with lastUpdatedAt := 0 }

/-- The record of a pipeline run of which somebody says this. -/
def Source.recordOf (x : Source) (said : Said) : PipelineRun where
  provider := x.connection.provider
  connectionId := x.connection.id
  providerRunId := x.providerRunId
  pipelineOrDagId := x.pipelineOrDagId
  env := x.connection.env
  status := said.status
  startedAt := said.startedAt
  finishedAt := said.finishedAt
  failureReason := said.failureReason
  lastUpdatedAt := 0

theorem untimed_eq {row : PipelineRun} {x : Source} {said : Said} (horigin : row.origin = x.origin)
    (hsaid : row.said = said) : row.untimed = x.recordOf said := by
  subst hsaid
  simp only [PipelineRun.origin, Source.origin, Prod.mk.injEq] at horigin
  obtain ⟨hprovider, hconnection, hrun, hpipeline, henv⟩ := horigin
  simp only [PipelineRun.untimed, Source.recordOf, PipelineRun.said, hprovider, hconnection, hrun,
    hpipeline, henv]

def updatesOf (x : Source) (ds : List Delivery) : List RunUpdate :=
  ds.filterMap fun d => (d.update.filter (addressed x)).map Prod.snd

/-- The updates of the pipeline run that are delivered are these, in some order, each on some
channel; what else is delivered is of other records. -/
structure Delivers (x : Source) (updates : List RunUpdate) (ds : List Delivery) : Prop where
  perm : (updatesOf x ds).Perm updates
  own : ∀ d ∈ ds, ∀ e ∈ d.update, addressed x e = true → e.2.source e.1 = x

/-- A delivery leaves a record that is over one that is over. -/
def KeepsTerminal (bindings : List TriggerBinding) (x : Source) (h : History) (d : Delivery) :
    Prop :=
  ∀ after, deliver bindings h d = some after → ∀ row ∈ h.record x, row.status.terminal = true →
    ∃ row' ∈ after.record x, row'.status.terminal = true

/-- However the updates are delivered, no record that is over is taken back, and the record is the
same in the end. -/
def Confluent (bindings : List TriggerBinding) (x : Source) (start : History)
    (updates : List RunUpdate) : Prop :=
  (∀ ds, Delivers x updates ds →
    Meets (deliver bindings) (KeepsTerminal bindings x) start ds) ∧
  ∃ final, ∀ ds h, Delivers x updates ds → Transition.run (deliver bindings) start ds = some h →
    (h.record x).map PipelineRun.untimed = final

/-- An update that is over says what the pipeline run ended in; one that is not finds a record that
is not over either, or is left out by its poll. -/
def Timely (x : Source) (last : Said) (h : History) (d : Delivery) : Prop :=
  ∀ e ∈ d.update, addressed x e = true → e.2.fits = true →
    (e.2.status.terminal = true → e.2.said = last) ∧
    (e.2.status.terminal = false →
      (∀ row ∈ h.record x, row.status.terminal = false) ∨ d.leftOut h.db.pipelineRuns = true)

instance (x : Source) (last : Said) (h : History) (d : Delivery) : Decidable (Timely x last h d) :=
  inferInstanceAs (Decidable (∀ e ∈ d.update, _))

/-- The delivery ends the pipeline run. -/
def Ends (x : Source) (d : Delivery) : Prop :=
  ∃ e ∈ d.update, addressed x e = true ∧ e.2.fits = true ∧ e.2.status.terminal = true

/-- What holds of a record while updates are timely, with the deliveries to come. -/
structure OnCourse (x : Source) (last : Said) (h : History) (ds : List Delivery) : Prop where
  origin : ∀ row ∈ h.record x, row.origin = x.origin
  said : ∀ row ∈ h.record x, row.status.terminal = true → row.said = last
  ends : (∃ row ∈ h.record x, row.status.terminal = true) ∨ ∃ d ∈ ds, Ends x d
  own : ∀ d ∈ ds, ∀ e ∈ d.update, addressed x e = true → e.2.source e.1 = x

theorem terminal_of_leftOut {x : Source} {h : History} {d : Delivery} {e : Connection × RunUpdate}
    (he : e ∈ d.update) (haddressed : addressed x e = true)
    (hleft : d.leftOut h.db.pipelineRuns = true) :
    ∃ row ∈ h.record x, row.status.terminal = true := by
  cases d with
  | webhook => cases hleft
  | poll refuses now since c u =>
    cases he
    simp only [addressed, Bool.and_eq_true, decide_eq_true_eq] at haddressed
    obtain ⟨hprovider, hrun⟩ := haddressed
    simp only [Delivery.leftOut, skips, hprovider, hrun] at hleft
    split at hleft
    · cases hleft
    · next existing hexisting =>
      simp only [Bool.and_eq_true] at hleft
      exact ⟨existing, hexisting, hleft.1⟩

theorem deliver_onCourse {x : Source} {last : Said} {h after : History} {d : Delivery}
    {ds : List Delivery} (hcourse : OnCourse x last h (d :: ds)) (htimely : Timely x last h d)
    (hstep : deliver bindings h d = some after) :
    OnCourse x last after ds ∧ KeepsTerminal bindings x h d := by
  have hown : ∀ d' ∈ ds, ∀ e ∈ d'.update, addressed x e = true → e.2.source e.1 = x :=
    fun d' hd' => hcourse.own d' (List.mem_cons_of_mem d hd')
  have hkeeps : (∀ row ∈ h.record x, row.status.terminal = true →
      ∃ row' ∈ after.record x, row'.status.terminal = true) → KeepsTerminal bindings x h d := by
    intro hall other hother
    obtain rfl : after = other := Option.some.inj (hstep.symm.trans hother)
    exact hall
  rcases deliver_record x hstep with ⟨hsame, hnot⟩ |
    ⟨e, he, haddressed, hin, hfits, row, hrow, hsaid, horigin⟩
  · refine ⟨⟨by rw [hsame]; exact hcourse.origin, by rw [hsame]; exact hcourse.said, ?_, hown⟩,
      hkeeps (by rw [hsame]; exact fun row hrow hover => ⟨row, hrow, hover⟩)⟩
    rw [hsame]
    rcases hcourse.ends with hover | ⟨d', hd', hends⟩
    · exact .inl hover
    · rcases List.mem_cons.mp hd' with rfl | hd'
      · obtain ⟨e, he, haddressed, hfits, -⟩ := hends
        rcases hnot e he haddressed with hleft | hunfit
        · exact .inl (terminal_of_leftOut he haddressed hleft)
        · rw [hfits] at hunfit
          cases hunfit
      · exact .inr ⟨d', hd', hends⟩
  · have hsource := hcourse.own d List.mem_cons_self e he haddressed
    obtain ⟨hlast, hlate⟩ := htimely e he haddressed hfits
    have hstatus : row.status = e.2.status := congrArg Said.status hsaid
    have hown' : row.origin = x.origin := by
      rcases horigin with horigin | ⟨old, hold, horigin⟩
      · rw [horigin, hsource]
      · rw [horigin, hcourse.origin old hold]
    have hone : ∀ row' ∈ after.record x, row' = row := by
      intro row' hrow'
      exact Option.some.inj (hrow'.symm.trans hrow)
    cases hover : e.2.status.terminal with
    | true =>
      refine ⟨⟨fun row' hrow' => ?_, fun row' hrow' _ => ?_, .inl ⟨row, hrow, ?_⟩, hown⟩,
        hkeeps fun _ _ _ => ⟨row, hrow, ?_⟩⟩
      · rw [hone row' hrow', hown']
      · rw [hone row' hrow', hsaid, hlast hover]
      · rw [hstatus, hover]
      · rw [hstatus, hover]
    | false =>
      have hopen : ∀ old ∈ h.record x, old.status.terminal = false := by
        rcases hlate hover with hopen | hleft
        · exact hopen
        · rw [hin] at hleft
          cases hleft
      refine ⟨⟨fun row' hrow' => ?_, fun row' hrow' hover' => ?_, ?_, hown⟩,
        hkeeps fun old hold hover' => ?_⟩
      · rw [hone row' hrow', hown']
      · rw [hone row' hrow', hstatus, hover] at hover'
        cases hover'
      · rcases hcourse.ends with ⟨old, hold, hover'⟩ | ⟨d', hd', hends⟩
        · rw [hopen old hold] at hover'
          cases hover'
        · rcases List.mem_cons.mp hd' with rfl | hd'
          · obtain ⟨e', he', -, -, hover'⟩ := hends
            obtain rfl : e' = e := Option.some.inj (he'.symm.trans he)
            rw [hover] at hover'
            cases hover'
          · exact .inr ⟨d', hd', hends⟩
      · rw [hopen old hold] at hover'
        cases hover'

theorem OnCourse.run {x : Source} {last : Said} {h : History} {ds : List Delivery}
    (hcourse : OnCourse x last h ds) (hmeets : Meets (deliver bindings) (Timely x last) h ds) :
    Meets (deliver bindings) (KeepsTerminal bindings x) h ds ∧
      ∀ after, Transition.run (deliver bindings) h ds = some after → OnCourse x last after [] := by
  induction ds generalizing h with
  | nil =>
    refine ⟨trivial, fun after hrun => ?_⟩
    obtain rfl : h = after := by simpa using hrun
    exact hcourse
  | cons d ds ih =>
    obtain ⟨htimely, hrest⟩ := hmeets
    have hstep : ∀ next, deliver bindings h d = some next →
        OnCourse x last next ds ∧ KeepsTerminal bindings x h d :=
      fun next hnext => deliver_onCourse hcourse htimely hnext
    refine ⟨⟨fun next hnext => (hstep next hnext).2 next hnext, fun next hnext => ?_⟩,
      fun after hrun => ?_⟩
    · exact (ih (hstep next hnext).1 (hrest next hnext)).1
    · obtain ⟨next, hnext, hrun⟩ := run_cons_eq_some.mp hrun
      exact (ih (hstep next hnext).1 (hrest next hnext)).2 after hrun

theorem OnCourse.final {x : Source} {last : Said} {h : History} (hcourse : OnCourse x last h []) :
    (h.record x).map PipelineRun.untimed = some (x.recordOf last) := by
  rcases hcourse.ends with ⟨row, hrow, hover⟩ | ⟨d, hd, -⟩
  · rw [hrow, Option.map_some,
      untimed_eq (hcourse.origin row hrow) (hcourse.said row hrow hover)]
  · cases hd

theorem mem_updatesOf {x : Source} {ds : List Delivery} {u : RunUpdate} :
    u ∈ updatesOf x ds ↔ ∃ d ∈ ds, ∃ e ∈ d.update, addressed x e = true ∧ e.2 = u := by
  simp only [updatesOf, List.mem_filterMap, Option.map_eq_some_iff, Option.filter_eq_some_iff,
    Option.mem_def, and_assoc]

/-! ## Every order -/

/-- A webhook whose enrichment answers with the update. -/
def webhookOf (x : Source) (u : RunUpdate) : Delivery :=
  .webhook (fun _ => false) 0 [x.connection] (fun _ _ => u) x.connection.provider
    { u with resourceName := x.connection.resourceName }

theorem webhookOf_update (x : Source) (u : RunUpdate) :
    (webhookOf x u).update = some (x.connection, u) := by
  simp [webhookOf, Delivery.update, resolveConnection]

theorem addressed_of_source {x : Source} {c : Connection} {u : RunUpdate} (h : u.source c = x) :
    addressed x (c, u) = true := by
  subst h
  simp [addressed, RunUpdate.source]

theorem delivers_webhooks {x : Source} {updates : List RunUpdate}
    (hown : ∀ u ∈ updates, u.source x.connection = x) :
    Delivers x updates (updates.map (webhookOf x)) := by
  refine ⟨?_, fun d hd e he _ => ?_⟩
  · have hsame : updatesOf x (updates.map (webhookOf x)) = updates := by
      unfold updatesOf
      rw [List.filterMap_map]
      have hsome : ∀ u ∈ updates, ((fun d : Delivery =>
          (d.update.filter (addressed x)).map Prod.snd) ∘ webhookOf x) u = some u := by
        intro u hu
        rw [Function.comp_apply, webhookOf_update, Option.filter_some,
          if_pos (addressed_of_source (hown u hu)), Option.map_some]
      rw [List.filterMap_congr hsome, List.filterMap_some]
    rw [hsame]
  · obtain ⟨u, hu, rfl⟩ := List.mem_map.mp hd
    rw [webhookOf_update, Option.mem_def, Option.some.injEq] at he
    rw [← he]
    exact hown u hu

/-- Whichever update a webhook brings last is what the record says in the end. -/
theorem exists_order_last (bindings : List TriggerBinding) (start : History) {x : Source}
    {updates : List RunUpdate} (hown : ∀ u ∈ updates, u.source x.connection = x)
    {u : RunUpdate} (hu : u ∈ updates) (hfits : u.fits = true) :
    ∃ ds h row, Delivers x updates ds ∧ Transition.run (deliver bindings) start ds = some h ∧
      h.record x = some row ∧ row.said = u.said := by
  obtain ⟨before, after, rfl⟩ := List.append_of_mem hu
  have hperm : (before ++ after ++ [u]).Perm (before ++ u :: after) := by
    rw [List.append_assoc]
    exact (List.perm_append_singleton u after).append_left before
  have hdelivers := delivers_webhooks fun v hv => hown v (hperm.mem_iff.mp hv)
  have htotal : ∀ (s : History) (d : Delivery), ∃ t, deliver bindings s d = some t := by
    intro s d
    unfold deliver
    cases d.update with
    | none => exact ⟨_, rfl⟩
    | some e => exact ⟨_, rfl⟩
  obtain ⟨middle, hmiddle⟩ :=
    run_total htotal start ((before ++ after).map (webhookOf x))
  obtain ⟨h, hlast⟩ := htotal middle (webhookOf x u)
  refine ⟨(before ++ after ++ [u]).map (webhookOf x), h, ?_⟩
  have hrun : Transition.run (deliver bindings) start
      ((before ++ after ++ [u]).map (webhookOf x)) = some h := by
    rw [List.map_append, run_append_eq_some]
    exact ⟨middle, hmiddle, run_cons_eq_some.mpr ⟨h, hlast, rfl⟩⟩
  have hupdate := webhookOf_update x u
  rcases deliver_record x hlast with ⟨-, hnot⟩ | ⟨e, he, -, -, -, row, hrow, hsaid, -⟩
  · rcases hnot (x.connection, u) hupdate (addressed_of_source (hown u hu)) with hleft | hunfit
    · cases hleft
    · rw [hfits] at hunfit
      cases hunfit
  · rw [hupdate, Option.mem_def, Option.some.injEq] at he
    subst he
    exact ⟨row, ⟨hdelivers.perm.trans hperm, hdelivers.own⟩, hrun, hrow, hsaid⟩

/-- Deliveries of a pipeline run that are timely never take its record back, and leave it as the
pipeline run ended. In every order of delivery they do so exactly where all of its updates say the
same. -/
theorem confluent_iff (bindings : List TriggerBinding) (x : Source) (start : History)
    (hnew : start.record x = none) :
    (∀ (last : Said) (ds : List Delivery),
      (∀ d ∈ ds, ∀ e ∈ d.update, addressed x e = true → e.2.source e.1 = x) →
      (∃ d ∈ ds, Ends x d) → Meets (deliver bindings) (Timely x last) start ds →
      Meets (deliver bindings) (KeepsTerminal bindings x) start ds ∧
        ∀ h, Transition.run (deliver bindings) start ds = some h →
          (h.record x).map PipelineRun.untimed = some (x.recordOf last)) ∧
    ∀ updates : List RunUpdate, (∀ u ∈ updates, u.source x.connection = x) →
      (∃ u ∈ updates, u.fits = true ∧ u.status.terminal = true) →
      (Confluent bindings x start updates ↔
        ∀ u ∈ updates, ∀ v ∈ updates, u.fits = true → v.fits = true → u.said = v.said) := by
  have htimely : ∀ (last : Said) (ds : List Delivery),
      (∀ d ∈ ds, ∀ e ∈ d.update, addressed x e = true → e.2.source e.1 = x) →
      (∃ d ∈ ds, Ends x d) → Meets (deliver bindings) (Timely x last) start ds →
      Meets (deliver bindings) (KeepsTerminal bindings x) start ds ∧
        ∀ h, Transition.run (deliver bindings) start ds = some h →
          (h.record x).map PipelineRun.untimed = some (x.recordOf last) := by
    intro last ds hown hends hmeets
    have hcourse : OnCourse x last start ds :=
      ⟨by simp [hnew], by simp [hnew], .inr hends, hown⟩
    obtain ⟨hkeeps, hrun⟩ := hcourse.run hmeets
    exact ⟨hkeeps, fun h hh => (hrun h hh).final⟩
  refine ⟨htimely, fun updates hown hterminal => ⟨?_, fun hsame => ?_⟩⟩
  · rintro ⟨-, final, hfinal⟩ u hu v hv hufits hvfits
    obtain ⟨ds, h, row, hdelivers, hrun, hrow, hsaid⟩ :=
      exists_order_last bindings start hown hu hufits
    obtain ⟨ds', h', row', hdelivers', hrun', hrow', hsaid'⟩ :=
      exists_order_last bindings start hown hv hvfits
    have hone := hfinal ds h hdelivers hrun
    have hother := hfinal ds' h' hdelivers' hrun'
    rw [hrow, Option.map_some] at hone
    rw [hrow', Option.map_some, ← hone, Option.some.injEq] at hother
    rw [← hsaid, ← hsaid']
    exact (congrArg PipelineRun.said hother).symm
  · obtain ⟨u, hu, hfits, hover⟩ := hterminal
    have hmeets : ∀ ds, Delivers x updates ds →
        Meets (deliver bindings) (Timely x u.said) start ds := by
      intro ds hdelivers
      refine meets_of_forall_mem (fun d hd h e he haddressed hefits => ?_) start
      have hin : e.2 ∈ updates :=
        hdelivers.perm.mem_iff.mp (mem_updatesOf.mpr ⟨d, hd, e, he, haddressed, rfl⟩)
      have hsaid := hsame e.2 hin u hu hefits hfits
      refine ⟨fun _ => hsaid, fun hopen => ?_⟩
      have hstatus : e.2.status = u.status := congrArg Said.status hsaid
      rw [hstatus, hover] at hopen
      cases hopen
    have hends : ∀ ds, Delivers x updates ds → ∃ d ∈ ds, Ends x d := by
      intro ds hdelivers
      obtain ⟨d, hd, e, he, haddressed, rfl⟩ :=
        mem_updatesOf.mp (hdelivers.perm.mem_iff.mpr hu)
      exact ⟨d, hd, e, he, haddressed, hfits, hover⟩
    refine ⟨fun ds hdelivers => ?_, some (x.recordOf u.said), fun ds h hdelivers => ?_⟩
    · exact (htimely u.said ds hdelivers.own (hends ds hdelivers)
        (hmeets ds hdelivers)).1
    · exact (htimely u.said ds hdelivers.own (hends ds hdelivers)
        (hmeets ds hdelivers)).2 h

/-! ## A DAG run of Airflow -/

def manualRun : Source := ⟨airflow, "orders", "manual__1"⟩

def inProgress : RunUpdate := { dagRun "orders" "manual__1" with status := .running }

/-- The run starts and ends; a poll that still saw it running comes after that. -/
def inTime : List Delivery :=
  [callback 5 inProgress, callback 7 (dagRun "orders" "manual__1"), polled 9 3 inProgress]

theorem confluent_iff_manualRun :
    ∃ h, Transition.run (deliver []) (beginning []) inTime = some h ∧
      (h.record manualRun).map PipelineRun.untimed =
        some (manualRun.recordOf (dagRun "orders" "manual__1").said) := by
  have hends : ∃ d ∈ inTime, Ends manualRun d :=
    ⟨callback 7 (dagRun "orders" "manual__1"), by simp [inTime],
      (airflow, dagRun "orders" "manual__1"), by decide, by decide,
      by decide, rfl⟩
  exact ⟨_, rfl, ((confluent_iff [] manualRun (beginning []) rfl).1
    (dagRun "orders" "manual__1").said inTime (by decide) hends (by decide)).2 _ rfl⟩

/-- A callback from when the run was in progress comes after the one that it succeeded. -/
theorem late_callback_takes_back :
    ∃ h, Transition.run (deliver []) (beginning [])
        [callback 5 (dagRun "orders" "manual__1"), callback 6 inProgress] = some h ∧
      (h.record manualRun).map PipelineRun.status = some .running ∧
      ¬ Confluent [] manualRun (beginning []) [dagRun "orders" "manual__1", inProgress] := by
  refine ⟨_, rfl, by decide, fun hconfluent => ?_⟩
  have hdelivers : Delivers manualRun [dagRun "orders" "manual__1", inProgress]
      [callback 5 (dagRun "orders" "manual__1"), callback 6 inProgress] :=
    ⟨by decide, by decide⟩
  obtain ⟨-, hlate⟩ := hconfluent.1 _ hdelivers
  obtain ⟨row, hrow, hover⟩ := (hlate _ rfl).1 _ rfl _ rfl rfl
  cases hrow
  cases hover

end DataQ.Orchestration
