import DataQ.Runs.Vocabulary

/-! # Run markers

`orchestration_service.trigger_marker`, `insert_triggered_run`: a suite run carries in
`runs.triggered_by` the pipeline run that it was started for, and a suite has at most one run for a
marker. -/

namespace DataQ.Orchestration
open DataQ.Runs (Run)
set_option autoImplicit false

inductive Provider
  | adf | airflow | dbt
  deriving DecidableEq, Repr

def Provider.name : Provider → String
  | .adf => "adf"
  | .airflow => "airflow"
  | .dbt => "dbt"

structure PipelineRef where
  provider : Provider
  pipelineOrDagId : String
  providerRunId : String
  deriving DecidableEq, Repr

def triggerMarker (p : PipelineRef) : String :=
  p.provider.name ++ ":" ++ p.pipelineOrDagId ++ ":" ++ p.providerRunId

/-- The run of a suite for a marker: `uq_runs_suite_triggered_by` lets there be one. -/
def runFor (runs : List Run) (suiteId : ℕ) (marker : String) : Option Run :=
  runs.find? fun r => r.suiteId = suiteId ∧ r.triggeredBy = some marker

def freshId (runs : List Run) : ℕ := (runs.map Run.id).foldl max 0 + 1

def queuedRun (id suiteId : ℕ) (marker : String) (now : ℕ) : Run where
  id := id
  suiteId := suiteId
  status := .queued
  triggeredBy := some marker
  createdAt := now
  startedAt := none
  finishedAt := none
  failureReason := none
  recordedResultsTotal := none
  recordedChecksTotal := none
  recordedChecksPassed := none
  recordedWorstSeverity := none

/-- What the insert of a triggered run ends in: the column `triggered_by` holds 256 characters. -/
inductive Inserted
  | tooLong
  | duplicate
  | queued (run : Run)
  deriving DecidableEq, Repr

def insertTriggeredRun (now : ℕ) (runs : List Run) (suiteId : ℕ) (marker : String) : Inserted :=
  if 256 < marker.length then .tooLong
  else
    match runFor runs suiteId marker with
    | some _ => .duplicate
    | none => .queued (queuedRun (freshId runs) suiteId marker now)

def inserted (now : ℕ) (runs : List Run) (suiteId : ℕ) (marker : String) : List Run :=
  match insertTriggeredRun now runs suiteId marker with
  | .queued run => runs ++ [run]
  | .tooLong | .duplicate => runs

theorem insertTriggeredRun_duplicate_iff {now : ℕ} {runs : List Run} {suiteId : ℕ}
    {marker : String} :
    insertTriggeredRun now runs suiteId marker = .duplicate ↔
      marker.length ≤ 256 ∧ (runFor runs suiteId marker).isSome := by
  unfold insertTriggeredRun
  by_cases h : 256 < marker.length
  · rw [if_pos h]
    simp only [reduceCtorEq, false_iff, not_and]
    omega
  · rw [if_neg h]
    cases runFor runs suiteId marker with
    | none => simp
    | some run => simpa using h

/-! ## Which pipeline runs share a marker -/

/-- The second pipeline's id is the first one's with a colon and a text more, and that text begins
the first run's id before a colon and the second run's id. -/
def Shifted (p q : PipelineRef) : Prop :=
  ∃ t : String, q.pipelineOrDagId = p.pipelineOrDagId ++ ":" ++ t ∧
    p.providerRunId = t ++ ":" ++ q.providerRunId

theorem colon_append {a b c d : List Char} :
    a ++ ':' :: b = c ++ ':' :: d ↔
      (a = c ∧ b = d) ∨ (∃ t, c = a ++ ':' :: t ∧ b = t ++ ':' :: d) ∨
        ∃ t, a = c ++ ':' :: t ∧ d = t ++ ':' :: b := by
  constructor
  · intro h
    rcases List.append_eq_append_iff.mp h with ⟨e, hc, hb⟩ | ⟨e, ha, hd⟩
    · cases e with
      | nil => exact .inl ⟨by simpa using hc.symm, by simpa using hb⟩
      | cons x t =>
        obtain ⟨rfl, hrest⟩ := List.cons.inj hb
        exact .inr (.inl ⟨t, hc, hrest⟩)
    · cases e with
      | nil => exact .inl ⟨by simpa using ha, by simpa using hd.symm⟩
      | cons x t =>
        obtain ⟨rfl, hrest⟩ := List.cons.inj hd
        exact .inr (.inr ⟨t, ha, hrest⟩)
  · rintro (⟨rfl, rfl⟩ | ⟨t, rfl, rfl⟩ | ⟨t, rfl, rfl⟩) <;> simp

theorem provider_of_marker {p q : Provider} {s t : List Char}
    (h : p.name.toList ++ ':' :: s = q.name.toList ++ ':' :: t) : p = q ∧ s = t := by
  cases p <;> cases q <;> simp [Provider.name] at h ⊢ <;> exact h

theorem triggerMarker_eq_iff {p q : PipelineRef} :
    triggerMarker p = triggerMarker q ↔
      p = q ∨ (p.provider = q.provider ∧ (Shifted p q ∨ Shifted q p)) := by
  have hlist : ∀ r : PipelineRef, (triggerMarker r).toList =
      r.provider.name.toList ++ ':' ::
        (r.pipelineOrDagId.toList ++ ':' :: r.providerRunId.toList) := by
    intro r
    simp [triggerMarker]
  have hshift : ∀ a b : PipelineRef, Shifted a b ↔
      ∃ t, b.pipelineOrDagId.toList = a.pipelineOrDagId.toList ++ ':' :: t ∧
        a.providerRunId.toList = t ++ ':' :: b.providerRunId.toList := by
    intro a b
    constructor
    · rintro ⟨t, hb, ha⟩
      exact ⟨t.toList, by rw [hb]; simp, by rw [ha]; simp⟩
    · rintro ⟨t, hb, ha⟩
      refine ⟨String.ofList t, ?_, ?_⟩
      · rw [← String.toList_inj, hb]
        simp
      · rw [← String.toList_inj, ha]
        simp
  have hsame : p = q ↔ p.provider = q.provider ∧
      p.pipelineOrDagId.toList = q.pipelineOrDagId.toList ∧
      p.providerRunId.toList = q.providerRunId.toList := by
    rw [String.toList_inj, String.toList_inj]
    cases p
    cases q
    simp
  rw [← String.toList_inj, hlist, hlist, hshift, hshift, hsame]
  constructor
  · intro h
    obtain ⟨hprovider, hrest⟩ := provider_of_marker h
    rcases colon_append.mp hrest with hids | hpq | hqp
    · exact .inl ⟨hprovider, hids⟩
    · exact .inr ⟨hprovider, .inl hpq⟩
    · exact .inr ⟨hprovider, .inr hqp⟩
  · rintro (⟨hprovider, hids⟩ | ⟨hprovider, hpq | hqp⟩)
    · rw [hprovider, colon_append.mpr (.inl hids)]
    · rw [hprovider, colon_append.mpr (.inr (.inl hpq))]
    · rw [hprovider, colon_append.mpr (.inr (.inr hqp))]

/-- An insert for another marker leaves a marker as free as it was. -/
theorem runFor_inserted_ne {now : ℕ} {runs : List Run} {suiteId other : ℕ} {marker inserting : String}
    (h : inserting ≠ marker) :
    runFor (inserted now runs other inserting) suiteId marker = runFor runs suiteId marker := by
  unfold inserted insertTriggeredRun
  split
  · next run hqueued =>
    split at hqueued
    · cases hqueued
    · split at hqueued
      · cases hqueued
      · cases hqueued
        simp [runFor, queuedRun, h]
  · rfl
  · rfl

/-- Two different pipeline runs have different markers, and no trigger of the second is dropped as a
duplicate of the first one's, exactly when neither is shifted from the other. -/
theorem marker_separates_iff {p q : PipelineRef} (hne : p ≠ q) :
    (triggerMarker p ≠ triggerMarker q ∧
        ∀ (now : ℕ) (runs : List Run) (suiteId : ℕ), runFor runs suiteId (triggerMarker q) = none →
          insertTriggeredRun now (inserted now runs suiteId (triggerMarker p)) suiteId
            (triggerMarker q) ≠ .duplicate) ↔
      ¬ (p.provider = q.provider ∧ (Shifted p q ∨ Shifted q p)) := by
  constructor
  · rintro ⟨hmarker, -⟩ hshift
    exact hmarker (triggerMarker_eq_iff.mpr (.inr hshift))
  · intro hshift
    have hmarker : triggerMarker p ≠ triggerMarker q := by
      intro heq
      rcases triggerMarker_eq_iff.mp heq with hsame | hpq
      · exact hne hsame
      · exact hshift hpq
    refine ⟨hmarker, fun now runs suiteId hfree hdup => ?_⟩
    have htaken := (insertTriggeredRun_duplicate_iff.mp hdup).2
    rw [runFor_inserted_ne hmarker, hfree] at htaken
    cases htaken

/-- Two dbt jobs, one of them with a colon in its name. -/
def nightlyEtl : PipelineRef := ⟨.dbt, "nightly:etl", "run-1"⟩

def nightly : PipelineRef := ⟨.dbt, "nightly", "etl:run-1"⟩

theorem marker_separates_iff_hourly :
    (triggerMarker nightly ≠ triggerMarker ⟨.dbt, "hourly", "etl:run-1"⟩ ∧
        ∀ (now : ℕ) (runs : List Run) (suiteId : ℕ),
          runFor runs suiteId (triggerMarker ⟨.dbt, "hourly", "etl:run-1"⟩) = none →
          insertTriggeredRun now (inserted now runs suiteId (triggerMarker nightly)) suiteId
            (triggerMarker ⟨.dbt, "hourly", "etl:run-1"⟩) ≠ .duplicate) ↔
      ¬ (nightly.provider = .dbt ∧ (Shifted nightly ⟨.dbt, "hourly", "etl:run-1"⟩ ∨
        Shifted ⟨.dbt, "hourly", "etl:run-1"⟩ nightly)) :=
  marker_separates_iff (by decide)

/-- The trigger of one job's run is dropped as a duplicate of another job's. -/
theorem nightly_dropped_as_duplicate :
    nightlyEtl ≠ nightly ∧ triggerMarker nightlyEtl = triggerMarker nightly ∧
      runFor [] 7 (triggerMarker nightly) = none ∧
      insertTriggeredRun 0 (inserted 0 [] 7 (triggerMarker nightlyEtl)) 7
        (triggerMarker nightly) = .duplicate := by
  decide

end DataQ.Orchestration
