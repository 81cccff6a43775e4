import DataQ.Orchestration.SuiteBindings
import DataQ.Runs.Vocabulary
import Mathlib.Data.List.Nodup

/-! # Chains of suite runs

`suite_trigger_service`: a run that passed queues a run of each suite bound to its own, marked with
the run it follows, and no chain of such runs goes on past `SUITE_TRIGGER_MAX_DEPTH`. -/

namespace DataQ.Orchestration.Suites
open DataQ.Runs (RunStatus FailingTier)
set_option autoImplicit false

/-- `text.partition(":")` without the colon. -/
def partitionColon (text : Text) : Text × Text :=
  (text.takeWhile (· ≠ ':'), (text.dropWhile (· ≠ ':')).drop 1)

def suiteMarker (suiteId runId : Uuid) : Text :=
  "suite".toList ++ ':' :: (suiteId.str ++ ':' :: runId.str)

/-- `parse_suite_marker` of a marker that is there. -/
def parseMarker (marker : Text) : Option (Uuid × Uuid) :=
  let parts := partitionColon marker
  let ids := partitionColon parts.2
  if parts.1 = TriggerProvider.suite.name then
    (Uuid.parse ids.1).bind fun suite => (Uuid.parse ids.2).map fun run => (suite, run)
  else none

def parseSuiteMarker (marker : Option Text) : Option (Uuid × Uuid) := marker.bind parseMarker

/-- A `runs` row: `worst` is the worst severity of `check_outcome_counts`. -/
structure SuiteRun where
  id : Uuid
  suiteId : Uuid
  triggeredBy : Option Text
  status : RunStatus
  worst : Option FailingTier
  deriving DecidableEq

def upstreamRunId (marker : Option Text) : Option Uuid := (parseSuiteMarker marker).map Prod.snd

def markerFor (run : SuiteRun) : Text := suiteMarker run.suiteId run.id

def suiteTriggerMaxDepth : ℕ := 5

def getRun (runs : List SuiteRun) (id : Uuid) : Option SuiteRun := runs.find? fun r => r.id = id

/-- The loop of `chain_depth`, which goes on while `depth <= SUITE_TRIGGER_MAX_DEPTH`. -/
def chainLoop (runs : List SuiteRun) :
    (left : ℕ) → (depth : ℕ) → (current : Option SuiteRun) → (seen : List Uuid) → ℕ
  | 0, depth, _, _ => depth
  | _ + 1, depth, none, _ => depth
  | left + 1, depth, some current, seen =>
    match upstreamRunId current.triggeredBy with
    | none => depth
    | some parentId =>
      if parentId ∈ seen then depth
      else chainLoop runs left (depth + 1) (getRun runs parentId) (parentId :: seen)

def chainDepth (runs : List SuiteRun) (run : SuiteRun) : ℕ :=
  chainLoop runs (suiteTriggerMaxDepth + 1) 0 (some run) []

def passed (run : SuiteRun) : Bool :=
  run.status = .succeeded && run.worst ≠ some .fail && run.worst ≠ some .critical

/-- The bindings that a run of the suite fires. -/
def firingRows (bindings : List TriggerBinding) (suiteId : Uuid) : List TriggerBinding :=
  bindings.filter fun r => r.provider = .suite ∧ r.pipelineOrDagId = suiteId.str ∧ r.enabled

/-- `fire_for_run` up to its inserts, with the bindings it has read: the suites it will queue a run
of. -/
def suitesToFire (runs : List SuiteRun) (rows : List TriggerBinding) (run : SuiteRun) : List Uuid :=
  if passed run then
    if suiteTriggerMaxDepth ≤ chainDepth runs run then [] else rows.map TriggerBinding.suiteId
  else []

/-- `insert_triggered_run`: `uq_runs_suite_triggered_by` lets a suite have one run for a marker. -/
def insertTriggered (marker : Text) (runs : List SuiteRun) (queued : Uuid × Uuid) : List SuiteRun :=
  if runs.any fun r => r.suiteId = queued.1 ∧ r.triggeredBy = some marker then runs
  else runs ++ [⟨queued.2, queued.1, some marker, .queued, none⟩]

/-! ## Markers -/

theorem partitionColon_append {before after : Text} (h : ':' ∉ before) :
    partitionColon (before ++ ':' :: after) = (before, after) := by
  have hall : ∀ c ∈ before, (decide (c ≠ ':')) = true := fun c hc =>
    decide_eq_true fun heq => h (heq ▸ hc)
  have htake : (before ++ ':' :: after).takeWhile (· ≠ ':') = before := by
    rw [List.takeWhile_append_of_pos hall]
    simp
  have hdrop : (before ++ ':' :: after).dropWhile (· ≠ ':') = ':' :: after := by
    rw [List.dropWhile_append_of_pos hall]
    simp
  rw [partitionColon, htake, hdrop, List.drop_one, List.tail_cons]

theorem parseSuiteMarker_suiteMarker (suiteId runId : Uuid) :
    parseSuiteMarker (some (suiteMarker suiteId runId)) = some (suiteId, runId) := by
  have hsuite : ':' ∉ "suite".toList := by decide
  have hid : ':' ∉ suiteId.str := Uuid.not_mem_str (by decide)
  have hparts : partitionColon (suiteMarker suiteId runId) =
      (TriggerProvider.suite.name, suiteId.str ++ ':' :: runId.str) := partitionColon_append hsuite
  show parseMarker (suiteMarker suiteId runId) = _
  simp only [parseMarker, hparts, if_true]
  rw [partitionColon_append hid]
  simp only [Uuid.parse_str, Option.bind_some, Option.map_some]

@[simp] theorem upstreamRunId_markerFor (run : SuiteRun) :
    upstreamRunId (some (markerFor run)) = some run.id := by
  rw [upstreamRunId, markerFor, parseSuiteMarker_suiteMarker, Option.map_some]

/-! ## How deep a run stands in its chain -/

/-- The run of that id has been reached over `n` suite triggers. -/
inductive Hops (runs : List SuiteRun) : Uuid → ℕ → Prop
  | first {run : SuiteRun} : run ∈ runs → upstreamRunId run.triggeredBy = none → Hops runs run.id 0
  | next {run : SuiteRun} {parentId : Uuid} {n : ℕ} : run ∈ runs →
      upstreamRunId run.triggeredBy = some parentId → Hops runs parentId n →
      Hops runs run.id (n + 1)

/-- `b` was queued when `a` had passed. -/
def Follows (runs : List SuiteRun) (a b : SuiteRun) : Prop :=
  a ∈ runs ∧ b ∈ runs ∧ b.triggeredBy = some (markerFor a)

def DistinctIds (runs : List SuiteRun) : Prop := (runs.map SuiteRun.id).Nodup

section Depth
variable {runs : List SuiteRun} {run : SuiteRun} {n : ℕ}

theorem DistinctIds.eq (h : DistinctIds runs) {a b : SuiteRun} (ha : a ∈ runs) (hb : b ∈ runs)
    (hid : a.id = b.id) : a = b :=
  List.inj_on_of_nodup_map h ha hb hid

theorem DistinctIds.getRun (h : DistinctIds runs) (hrun : run ∈ runs) :
    getRun runs run.id = some run := by
  obtain ⟨found, hfound⟩ : ∃ r, Suites.getRun runs run.id = some r := by
    refine Option.isSome_iff_exists.mp (List.find?_isSome.mpr ⟨run, hrun, ?_⟩)
    exact decide_eq_true rfl
  have hmem := List.mem_of_find?_eq_some hfound
  have hid : found.id = run.id := by simpa using List.find?_some hfound
  rw [hfound, h.eq hmem hrun hid]

theorem Hops.cases_run (h : DistinctIds runs) (hrun : run ∈ runs) (hops : Hops runs run.id n) :
    (n = 0 ∧ upstreamRunId run.triggeredBy = none) ∨
      ∃ parentId m, n = m + 1 ∧ upstreamRunId run.triggeredBy = some parentId ∧
        Hops runs parentId m := by
  generalize hid : run.id = id at hops
  cases hops with
  | @first r hr hnone =>
    have heq : r = run := h.eq hr hrun hid.symm
    exact .inl ⟨rfl, heq ▸ hnone⟩
  | @next r parentId m hr hparent hops =>
    have heq : r = run := h.eq hr hrun hid.symm
    exact .inr ⟨parentId, m, rfl, heq ▸ hparent, hops⟩

theorem Hops.mem {id : Uuid} (hops : Hops runs id n) : ∃ r ∈ runs, r.id = id := by
  cases hops with
  | first hr _ => exact ⟨_, hr, rfl⟩
  | next hr _ _ => exact ⟨_, hr, rfl⟩

theorem Hops.unique (h : DistinctIds runs) {id : Uuid} {m : ℕ} (hm : Hops runs id m)
    (hn : Hops runs id n) : m = n := by
  induction hm generalizing n with
  | first hr hnone =>
    obtain ⟨hzero, _⟩ | ⟨parentId, k, _, hparent, _⟩ := hn.cases_run h hr
    · exact hzero.symm
    · rw [hnone] at hparent
      cases hparent
  | next hr hparent _ ih =>
    obtain ⟨_, hnone⟩ | ⟨parentId', k, hk, hparent', hops⟩ := hn.cases_run h hr
    · rw [hparent] at hnone
      cases hnone
    · have heq := Option.some.inj (hparent.symm.trans hparent')
      subst heq
      have hmk := ih hops
      omega

/-- The loop counts the triggers: the runs it has seen stand deeper, so it never meets one again. -/
theorem chainLoop_eq (h : DistinctIds runs) {left : ℕ} (depth : ℕ) {seen : List Uuid}
    (hrun : run ∈ runs) (hops : Hops runs run.id n) (hleft : n < left)
    (hseen : ∀ id ∈ seen, ∃ m, Hops runs id m ∧ n ≤ m) :
    chainLoop runs left depth (some run) seen = depth + n := by
  induction left generalizing run depth n seen with
  | zero => omega
  | succ left ih =>
    rw [chainLoop]
    obtain ⟨hzero, hnone⟩ | ⟨parentId, m, hm, hparent, hops'⟩ := hops.cases_run h hrun
    · rw [hnone]
      show depth = depth + n
      omega
    · have hfresh : parentId ∉ seen := by
        intro hmem
        obtain ⟨k, hk, hle⟩ := hseen parentId hmem
        have hkm := hk.unique h hops'
        omega
      obtain ⟨parent, hmem, hid⟩ := hops'.mem
      subst hid
      rw [hparent]
      simp only [hfresh, if_false, h.getRun hmem]
      have hrec := ih (depth + 1) hmem hops' (by omega) (show ∀ id ∈ parent.id :: seen, _ by
        intro id hid
        obtain heq | hid := List.mem_cons.mp hid
        · exact ⟨m, heq ▸ hops', le_refl m⟩
        · obtain ⟨k, hk, hle⟩ := hseen id hid
          exact ⟨k, hk, by omega⟩)
      rw [hrec]
      omega

theorem chainDepth_eq (h : DistinctIds runs) (hrun : run ∈ runs) (hops : Hops runs run.id n)
    (hn : n ≤ suiteTriggerMaxDepth) : chainDepth runs run = n := by
  have hloop := chainLoop_eq h 0 hrun hops (Nat.lt_succ_of_le hn)
    (show ∀ id ∈ [], _ by simp)
  rw [chainDepth, hloop, Nat.zero_add]

/-- Along runs that each follow the one before, the depth grows by one at each. -/
theorem Hops.of_chain {first last : SuiteRun} {chain : List SuiteRun}
    (hchain : (first :: chain).IsChain (Follows runs))
    (hlast : (first :: chain).getLast? = some last) (hops : Hops runs first.id n) :
    Hops runs last.id (n + chain.length) := by
  induction chain generalizing first n with
  | nil =>
    have heq : first = last := by simpa using hlast
    exact heq ▸ hops
  | cons next chain ih =>
    obtain ⟨⟨_, hnext, htrigger⟩, hrest⟩ := List.isChain_cons_cons.mp hchain
    have hparent : upstreamRunId next.triggeredBy = some first.id := by
      rw [htrigger, upstreamRunId_markerFor]
    have hlast' : (next :: chain).getLast? = some last := by
      rwa [List.getLast?_cons_cons] at hlast
    have hrec := ih hrest hlast' (.next hnext hparent hops)
    have hlen : n + 1 + chain.length = n + (next :: chain).length := by
      rw [List.length_cons]
      omega
    rwa [hlen] at hrec

/-- Every run stands at most as deep as the cap. -/
def Shallow (runs : List SuiteRun) : Prop :=
  ∀ run ∈ runs, ∃ n, Hops runs run.id n ∧ n ≤ suiteTriggerMaxDepth

theorem Shallow.length_le (h : Shallow runs) (hids : DistinctIds runs) {chain : List SuiteRun}
    (hchain : chain.IsChain (Follows runs)) (hmem : ∀ run ∈ chain, run ∈ runs) :
    chain.length ≤ suiteTriggerMaxDepth + 1 := by
  cases chain with
  | nil => simp
  | cons first chain =>
    obtain ⟨last, hlast⟩ : ∃ last, (first :: chain).getLast? = some last :=
      ⟨_, List.getLast?_eq_some_getLast (List.cons_ne_nil first chain)⟩
    obtain ⟨n, hops, _⟩ := h first (hmem first List.mem_cons_self)
    obtain ⟨m, hlastHops, hm⟩ := h last (hmem last (List.mem_of_getLast? hlast))
    have hdeep := (Hops.of_chain hchain hlast hops).unique hids hlastHops
    rw [List.length_cons]
    omega

end Depth

/-! ## What the inserts of a firing leave -/

section Inserts
variable {runs more : List SuiteRun} {n : ℕ} {id : Uuid}

/-- A later `runs` table has all rows of before, under their ids and triggers. -/
def Keeps (runs more : List SuiteRun) : Prop :=
  ∀ r ∈ runs, ∃ r' ∈ more, r'.id = r.id ∧ r'.triggeredBy = r.triggeredBy

theorem Keeps.of_subset (h : runs ⊆ more) : Keeps runs more := fun r hr => ⟨r, h hr, rfl, rfl⟩

theorem Keeps.trans {last : List SuiteRun} (h : Keeps runs more) (h' : Keeps more last) :
    Keeps runs last := by
  intro r hr
  obtain ⟨r', hr', hid, htrigger⟩ := h r hr
  obtain ⟨r'', hr'', hid', htrigger'⟩ := h' r' hr'
  exact ⟨r'', hr'', hid'.trans hid, htrigger'.trans htrigger⟩

theorem Keeps.hops (h : Keeps runs more) (hops : Hops runs id n) : Hops more id n := by
  induction hops with
  | first hr hnone =>
    obtain ⟨r', hr', hid, htrigger⟩ := h _ hr
    rw [← hid]
    exact .first hr' (htrigger ▸ hnone)
  | next hr hparent _ ih =>
    obtain ⟨r', hr', hid, htrigger⟩ := h _ hr
    rw [← hid]
    exact .next hr' (htrigger ▸ hparent) ih

theorem Shallow.append (h : Shallow runs) {run : SuiteRun}
    (hrun : ∃ n, Hops (runs ++ [run]) run.id n ∧ n ≤ suiteTriggerMaxDepth) :
    Shallow (runs ++ [run]) := by
  intro r hr
  obtain hr | hr := List.mem_append.mp hr
  · obtain ⟨n, hops, hn⟩ := h r hr
    exact ⟨n, (Keeps.of_subset (List.subset_append_left runs [run])).hops hops, hn⟩
  · have heq : r = run := by simpa using hr
    exact heq ▸ hrun

theorem DistinctIds.append (h : DistinctIds runs) {run : SuiteRun}
    (hfresh : run.id ∉ runs.map SuiteRun.id) : DistinctIds (runs ++ [run]) := by
  rw [DistinctIds, List.map_append, List.map_singleton]
  refine List.nodup_append.mpr ⟨h, List.nodup_singleton _, ?_⟩
  intro a ha b hb heq
  have hb' : b = run.id := by simpa using hb
  exact hfresh (hb' ▸ heq ▸ ha)

/-- The marker names a run that may still be followed. -/
def Followable (runs : List SuiteRun) (marker : Text) : Prop :=
  ∃ parentId n, upstreamRunId (some marker) = some parentId ∧ Hops runs parentId n ∧
    n < suiteTriggerMaxDepth

theorem Followable.mono {marker : Text} (h : Followable runs marker) (hkeeps : Keeps runs more) :
    Followable more marker := by
  obtain ⟨parentId, n, hparent, hops, hn⟩ := h
  exact ⟨parentId, n, hparent, hkeeps.hops hops, hn⟩

theorem followable_of_suitesToFire (hids : DistinctIds runs) (hshallow : Shallow runs)
    {run : SuiteRun} (hrun : run ∈ runs) {rows : List TriggerBinding}
    (hfire : suitesToFire runs rows run ≠ []) : Followable runs (markerFor run) := by
  obtain ⟨n, hops, hn⟩ := hshallow run hrun
  have hdepth : ¬ suiteTriggerMaxDepth ≤ chainDepth runs run := by
    intro hdeep
    simp [suitesToFire, hdeep] at hfire
  rw [chainDepth_eq hids hrun hops hn] at hdepth
  exact ⟨run.id, n, upstreamRunId_markerFor run, hops, by omega⟩

section Queueing
variable {marker : Text} {queued : Uuid × Uuid}

theorem insertTriggered_keeps : Keeps runs (insertTriggered marker runs queued) := by
  rw [insertTriggered]
  split
  · exact Keeps.of_subset (List.Subset.refl runs)
  · exact Keeps.of_subset (List.subset_append_left runs _)

theorem insertTriggered_distinct (h : DistinctIds runs) (hfresh : queued.2 ∉ runs.map SuiteRun.id) :
    DistinctIds (insertTriggered marker runs queued) := by
  rw [insertTriggered]
  split
  · exact h
  · exact h.append hfresh

theorem insertTriggered_shallow (h : Shallow runs) (hmarker : Followable runs marker) :
    Shallow (insertTriggered marker runs queued) := by
  rw [insertTriggered]
  split
  · exact h
  · obtain ⟨parentId, n, hparent, hops, hn⟩ := hmarker
    refine h.append ⟨n + 1, ?_, hn⟩
    refine .next (List.mem_append_right _ List.mem_cons_self) hparent ?_
    exact (Keeps.of_subset (List.subset_append_left runs _)).hops hops

theorem insertTriggered_fresh {other : Uuid} (hother : other ∉ runs.map SuiteRun.id)
    (hne : other ≠ queued.2) : other ∉ (insertTriggered marker runs queued).map SuiteRun.id := by
  rw [insertTriggered]
  split
  · exact hother
  · simp only [List.map_append, List.map_singleton, List.mem_append, List.mem_singleton, not_or]
    exact ⟨hother, hne⟩

/-- The inserts of one firing. -/
def queueRuns (marker : Text) (runs : List SuiteRun) (queued : List (Uuid × Uuid)) :
    List SuiteRun :=
  queued.foldl (insertTriggered marker) runs

theorem queueRuns_spec {queued : List (Uuid × Uuid)} (hids : DistinctIds runs)
    (hshallow : Shallow runs) (hmarker : Followable runs marker)
    (hnodup : (queued.map Prod.snd).Nodup)
    (hfresh : ∀ id ∈ queued.map Prod.snd, id ∉ runs.map SuiteRun.id) :
    Keeps runs (queueRuns marker runs queued) ∧ DistinctIds (queueRuns marker runs queued) ∧
      Shallow (queueRuns marker runs queued) := by
  induction queued generalizing runs with
  | nil => exact ⟨Keeps.of_subset (List.Subset.refl runs), hids, hshallow⟩
  | cons q queued ih =>
    obtain ⟨hq, hrest⟩ := List.nodup_cons.mp hnodup
    have hnew : q.2 ∉ runs.map SuiteRun.id := hfresh q.2 (by simp)
    have hkeeps : Keeps runs (insertTriggered marker runs q) := insertTriggered_keeps
    have hothers : ∀ id ∈ queued.map Prod.snd,
        id ∉ (insertTriggered marker runs q).map SuiteRun.id := by
      intro id hid
      refine insertTriggered_fresh (hfresh id (List.mem_cons_of_mem _ hid)) ?_
      intro heq
      exact hq (heq ▸ hid)
    obtain ⟨hmore, hdistinct, hshallow'⟩ := ih (insertTriggered_distinct hids hnew)
      (insertTriggered_shallow hshallow hmarker) (hmarker.mono hkeeps) hrest hothers
    exact ⟨hkeeps.trans hmore, hdistinct, hshallow'⟩

end Queueing

end Inserts

end DataQ.Orchestration.Suites
