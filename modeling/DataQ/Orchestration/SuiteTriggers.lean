import DataQ.Foundations.Transition
import DataQ.Orchestration.SuiteChains

/-! # Suite bindings and the runs they trigger, under any interleaving

`create_binding`, `update_binding`, `delete_binding` and `fire_for_run` as the statements their
transactions issue. Each statement sees what is committed when it runs, and a write is taken
together with its commit. One advisory lock serialises the creation of suite bindings, from before
the search for a loop to the commit of the new row. -/

namespace DataQ.Orchestration.Suites
open DataQ.Search DataQ.Interleaving
open DataQ.Runs (RunStatus FailingTier)
set_option autoImplicit false

structure TriggerStore where
  bindings : List TriggerBinding
  /-- Somebody holds `SUITE_BINDING_LOCK_KEY`. -/
  locked : Bool
  runs : List SuiteRun

/-- The columns of a new binding that its validation has settled. -/
structure Draft where
  provider : TriggerProvider
  pipelineOrDagId : Text
  suiteId : Uuid
  enabled : Bool
  deriving DecidableEq

inductive Answer
  | refused (reason : Refusal)
  | failed
  | created (binding : TriggerBinding)
  | updated
  | deleted
  | fired
  deriving DecidableEq

/-- Where a session stands between two statements. -/
inductive Caller
  | idle (answer : Option Answer)
  | waits (draft : Draft) (upstream : Uuid)
  | searches (draft : Draft) (upstream : Uuid) (walk : Walk Uuid)
  | checked (draft : Draft) (env : Option Text)
  | loaded (id : Uuid)
  | firing (marker : Text) (suites : List Uuid)

inductive TriggerAct
  | submit (request : CreateRequest) (onSuite onUpstream : Option Permission)
  | acquire
  | select (rows : List TriggerBinding)
  | insert (id : Uuid) (upstreamEnv : Text)
  | load (id : Uuid) (onSuite : Option Permission)
  | toggle (enabled : Bool)
  | remove
  | record (run : SuiteRun)
  | report (id : Uuid) (status : RunStatus) (worst : Option FailingTier)
  | fire (id : Uuid) (rows : List TriggerBinding)
  | queue (ids : List Uuid)
  | fail

def Caller.holdsLock : Caller → Bool
  | .searches _ _ _ => true
  | .checked draft _ => draft.provider = .suite
  | _ => false

/-- The end of a transaction, committed or rolled back. -/
def TriggerStore.finish (s : TriggerStore) (caller : Caller) (answer : Answer) :
    TriggerStore × Caller :=
  ({ s with locked := s.locked && !caller.holdsLock }, .idle (some answer))

def submit (s : TriggerStore) (request : CreateRequest) (onSuite onUpstream : Option Permission) :
    TriggerStore × Caller :=
  match checkRequest request onSuite onUpstream with
  | .error reason => (s, .idle (some (.refused reason)))
  | .ok (.suite upstream) =>
    (s, .waits ⟨.suite, upstream.str, request.suiteId, request.enabled⟩ upstream)
  | .ok (.pipeline provider env) =>
    (s, .checked ⟨provider, request.pipelineOrDagId, request.suiteId, request.enabled⟩ (some env))

/-- One round of `suite_chain_path` inside `_resolve_suite_binding`. -/
def searchOn (s : TriggerStore) (draft : Draft) (upstream : Uuid) (walk : Walk Uuid)
    (rows : List TriggerBinding) : TriggerStore × Caller :=
  let caller := Caller.searches draft upstream walk
  match level draft.suiteId upstream walk (chainEdges rows) with
  | .found none => s.finish caller .failed
  | .found (some path) => s.finish caller (.refused (.loop (path ++ [draft.suiteId])))
  | .more next =>
    if next.frontier = [] then (s, .checked draft none) else (s, .searches draft upstream next)

def Draft.binding (draft : Draft) (id : Uuid) (env : Text) : TriggerBinding :=
  ⟨id, draft.provider, draft.pipelineOrDagId, env, draft.suiteId, draft.enabled⟩

/-- The insert of `create_binding` and its commit: the primary key and
`uq_trigger_bindings_lookup` may refuse it. -/
def insertBinding (s : TriggerStore) (draft : Draft) (env : Option Text) (id : Uuid)
    (upstreamEnv : Text) : TriggerStore × Caller :=
  let caller := Caller.checked draft env
  let binding := draft.binding id (env.getD upstreamEnv)
  if s.bindings.any fun b => b.id = id ∨ b.key = binding.key then
    s.finish caller (.refused .alreadyExists)
  else
    TriggerStore.finish { s with bindings := s.bindings ++ [binding] } caller (.created binding)

/-- `_get_owned` with `minimum="edit"`. -/
def loadBinding (s : TriggerStore) (id : Uuid) (onSuite : Option Permission) :
    TriggerStore × Caller :=
  if s.bindings.any fun b => b.id = id then
    match requirePermission onSuite .edit with
    | .error reason => (s, .idle (some (.refused reason)))
    | .ok () => (s, .loaded id)
  else (s, .idle (some (.refused .bindingNotFound)))

/-- An `UPDATE` or `DELETE` that finds its row gone fails. -/
def writeBinding (s : TriggerStore) (id : Uuid) (bindings : List TriggerBinding)
    (answer : Answer) : TriggerStore × Caller :=
  if s.bindings.any fun b => b.id = id then ({ s with bindings := bindings }, .idle (some answer))
  else (s, .idle (some .failed))

def toggled (bindings : List TriggerBinding) (id : Uuid) (enabled : Bool) : List TriggerBinding :=
  bindings.map fun b => if b.id = id then { b with enabled := enabled } else b

def reported (runs : List SuiteRun) (id : Uuid) (status : RunStatus)
    (worst : Option FailingTier) : List SuiteRun :=
  runs.map fun r => if r.id = id then { r with status := status, worst := worst } else r

/-- One statement of a session. `record` is a run that no suite's run triggered, `report` what its
worker writes of it. -/
def triggerAct : TriggerAct → TriggerStore → Caller → Option (TriggerStore × Caller)
  | .submit request onSuite onUpstream, s, .idle _ => some (submit s request onSuite onUpstream)
  | .acquire, s, .waits draft upstream =>
    if s.locked then none
    else some ({ s with locked := true }, .searches draft upstream (Walk.start draft.suiteId))
  | .select rows, s, .searches draft upstream walk =>
    if rows.Perm (chainRows s.bindings walk.frontier) then
      some (searchOn s draft upstream walk rows)
    else none
  | .insert id upstreamEnv, s, .checked draft env => some (insertBinding s draft env id upstreamEnv)
  | .load id onSuite, s, .idle _ => some (loadBinding s id onSuite)
  | .toggle enabled, s, .loaded id =>
    some (writeBinding s id (toggled s.bindings id enabled) .updated)
  | .remove, s, .loaded id =>
    some (writeBinding s id (s.bindings.filter fun b => b.id ≠ id) .deleted)
  | .record run, s, .idle answer =>
    if run.id ∉ s.runs.map SuiteRun.id ∧ upstreamRunId run.triggeredBy = none then
      some ({ s with runs := s.runs ++ [run] }, .idle answer)
    else none
  | .report id status worst, s, .idle answer =>
    some ({ s with runs := reported s.runs id status worst }, .idle answer)
  | .fire id rows, s, .idle _ =>
    match getRun s.runs id with
    | none => some (s, .idle (some .fired))
    | some run =>
      if rows.Perm (firingRows s.bindings run.suiteId) then
        if suitesToFire s.runs rows run = [] then some (s, .idle (some .fired))
        else some (s, .firing (markerFor run) (suitesToFire s.runs rows run))
      else none
  | .queue ids, s, .firing marker suites =>
    if ids.length = suites.length ∧ ids.Nodup ∧ ∀ id ∈ ids, id ∉ s.runs.map SuiteRun.id then
      some ({ s with runs := queueRuns marker s.runs (suites.zip ids) }, .idle (some .fired))
    else none
  | .fail, s, caller => some (s.finish caller .failed)
  | _, _, _ => none

abbrev TriggerConfig (ι : Type*) := Config ι TriggerStore Caller

def TriggerConfig.initial (ι : Type*) : TriggerConfig ι := ⟨⟨[], false, []⟩, fun _ => .idle none⟩

def triggerStep {ι : Type*} [DecidableEq ι] : TriggerConfig ι → ι × TriggerAct →
    Option (TriggerConfig ι) :=
  step triggerAct

/-! ## The edges that a statement leaves -/

section Edges
variable {bindings more : List TriggerBinding} {a b : Uuid}

theorem Triggers.mono (h : bindings ⊆ more) (hab : Triggers bindings a b) : Triggers more a b := by
  obtain ⟨r, hr, hrest⟩ := hab
  exact ⟨r, h hr, hrest⟩

theorem Triggers.of_append {r : TriggerBinding} (h : Triggers (bindings ++ [r]) a b) :
    Triggers bindings a b ∨
      r.provider = .suite ∧ Uuid.parse r.pipelineOrDagId = some a ∧ r.suiteId = b := by
  obtain ⟨r', hr, hrest⟩ := h
  obtain hr | hr := List.mem_append.mp hr
  · exact .inl ⟨r', hr, hrest⟩
  · have heq : r' = r := by simpa using hr
    exact .inr (heq ▸ hrest)

theorem toggled_source {id : Uuid} {enabled : Bool} {r : TriggerBinding}
    (h : r ∈ toggled bindings id enabled) : ∃ r' ∈ bindings,
      r'.provider = r.provider ∧ r'.pipelineOrDagId = r.pipelineOrDagId ∧
        r'.suiteId = r.suiteId := by
  obtain ⟨r', hr', heq⟩ := List.mem_map.mp h
  subst heq
  refine ⟨r', hr', ?_⟩
  split <;> simp

theorem Triggers.of_toggled {id : Uuid} {enabled : Bool}
    (h : Triggers (toggled bindings id enabled) a b) : Triggers bindings a b := by
  obtain ⟨r, hr, hprovider, hparse, hsuite⟩ := h
  obtain ⟨r', hr', hp, ht, hs⟩ := toggled_source hr
  exact ⟨r', hr', hp.trans hprovider, ht ▸ hparse, hs.trans hsuite⟩

theorem Canonical.toggled (h : Canonical bindings) (id : Uuid) (enabled : Bool) :
    Canonical (toggled bindings id enabled) := by
  intro r hr hprovider
  obtain ⟨r', hr', hp, ht, _⟩ := toggled_source hr
  obtain ⟨u, hu⟩ := h r' hr' (hp.trans hprovider)
  exact ⟨u, ht.symm.trans hu⟩

theorem Canonical.subset (h : Canonical more) (hsub : bindings ⊆ more) : Canonical bindings :=
  fun r hr hprovider => h r (hsub hr) hprovider

end Edges

/-! ## What one statement keeps -/

/-- What the tables are in every committed state. -/
structure TriggerStore.Sound (s : TriggerStore) : Prop where
  canonical : Canonical s.bindings
  acyclic : Acyclic (Triggers s.bindings)
  distinct : DistinctIds s.runs
  shallow : Shallow s.runs

/-- What a session knows of the tables where it stands. The search and what comes after it rest on
bindings that only go away while the lock is held. -/
def Stands (s : TriggerStore) : Caller → Prop
  | .waits draft upstream =>
    draft.pipelineOrDagId = upstream.str ∧ draft.provider = .suite ∧ upstream ≠ draft.suiteId
  | .searches draft upstream walk =>
    draft.pipelineOrDagId = upstream.str ∧ draft.provider = .suite ∧ upstream ∉ walk.seen ∧
      walk.Over (fun _ _ => True) draft.suiteId ∧ walk.Closed (Triggers s.bindings)
  | .checked draft _ => draft.provider = .suite → ∃ upstream : Uuid,
      draft.pipelineOrDagId = upstream.str ∧
        ¬ Relation.ReflTransGen (Triggers s.bindings) draft.suiteId upstream
  | .firing marker _ => Followable s.runs marker
  | .idle _ | .loaded _ => True

/-- No edge that was not there. -/
def NoNewEdge (s t : TriggerStore) : Prop :=
  ∀ a b, Triggers t.bindings a b → Triggers s.bindings a b

theorem Stands.mono {s t : TriggerStore} {caller : Caller} (h : Stands s caller)
    (hedges : caller.holdsLock = true → NoNewEdge s t) (hruns : Keeps s.runs t.runs) :
    Stands t caller := by
  cases caller with
  | idle | loaded => trivial
  | waits draft upstream => exact h
  | searches draft upstream walk =>
    obtain ⟨htext, hprovider, hunseen, hover, hclosed⟩ := h
    exact ⟨htext, hprovider, hunseen, hover, hclosed.mono (hedges rfl)⟩
  | checked draft env =>
    intro hprovider
    obtain ⟨upstream, htext, hback⟩ := h hprovider
    refine ⟨upstream, htext, fun hreach => hback ?_⟩
    exact Relation.ReflTransGen.mono (hedges (decide_eq_true hprovider)) _ _ hreach
  | firing marker suites => exact Followable.mono h hruns

/-- What a statement does, as the other sessions see it and for the one that issues it. -/
structure Kept (s : TriggerStore) (caller : Caller) (t : TriggerStore) (next : Caller) : Prop where
  sound : t.Sound
  stands : Stands t next
  runs : Keeps s.runs t.runs
  edges : NoNewEdge s t ∨ caller.holdsLock = true
  taken : next.holdsLock = true → t.locked = true ∧ (caller.holdsLock = true ∨ s.locked = false)
  held : caller.holdsLock = false → s.locked = true → t.locked = true

section Statements
variable {s t : TriggerStore} {caller next : Caller}

theorem Kept.of_same (hs : s.Sound) (hstands : Stands s next)
    (hlock : next.holdsLock = true → s.locked = true ∧ caller.holdsLock = true) :
    Kept s caller s next :=
  ⟨hs, hstands, Keeps.of_subset (List.Subset.refl s.runs), .inl fun _ _ h => h,
    fun h => ⟨(hlock h).1, .inl (hlock h).2⟩, fun _ h => h⟩

/-- A transaction that ends, having left the runs alone. -/
theorem Kept.of_finish (bindings : List TriggerBinding) {answer : Answer}
    (hsound : ({ s with bindings := bindings } : TriggerStore).Sound)
    (hedges : NoNewEdge s { s with bindings := bindings } ∨ caller.holdsLock = true)
    (hfinish : TriggerStore.finish { s with bindings := bindings } caller answer = (t, next)) :
    Kept s caller t next := by
  obtain ⟨ht, hnext⟩ := Prod.mk.inj hfinish
  subst ht
  subst hnext
  refine ⟨⟨hsound.canonical, hsound.acyclic, hsound.distinct, hsound.shallow⟩, trivial,
    Keeps.of_subset (List.Subset.refl s.runs), hedges, nofun, fun hfree hlocked => ?_⟩
  show (s.locked && !caller.holdsLock) = true
  rw [hfree, hlocked]
  rfl

theorem finish_kept {answer : Answer} (hs : s.Sound) (h : s.finish caller answer = (t, next)) :
    Kept s caller t next :=
  Kept.of_finish s.bindings hs (.inl fun _ _ hab => hab) h

theorem submit_kept {request : CreateRequest} {onSuite onUpstream : Option Permission}
    {answer : Option Answer} (hs : s.Sound) (h : submit s request onSuite onUpstream = (t, next)) :
    Kept s (.idle answer) t next := by
  unfold submit at h
  split at h
  · obtain ⟨rfl, rfl⟩ := Prod.mk.inj h
    exact Kept.of_same hs trivial nofun
  · next upstream hchecked =>
    obtain ⟨rfl, rfl⟩ := Prod.mk.inj h
    exact Kept.of_same hs ⟨rfl, rfl, checkRequest_fits hchecked⟩ nofun
  · next provider env hchecked =>
    obtain ⟨rfl, rfl⟩ := Prod.mk.inj h
    have hother : provider ≠ .suite := checkRequest_fits hchecked
    refine Kept.of_same hs (fun hsuite => absurd hsuite hother) fun hlock => ?_
    exact absurd (of_decide_eq_true hlock) hother

theorem acquire_kept {draft : Draft} {upstream : Uuid} (hs : s.Sound)
    (hstands : Stands s (.waits draft upstream)) (hfree : s.locked = false) :
    Kept s (.waits draft upstream) { s with locked := true }
      (.searches draft upstream (Walk.start draft.suiteId)) := by
  obtain ⟨htext, hprovider, hne⟩ := hstands
  refine ⟨⟨hs.canonical, hs.acyclic, hs.distinct, hs.shallow⟩, ?_,
    Keeps.of_subset (List.Subset.refl s.runs), .inl fun _ _ hab => hab, fun _ => ⟨rfl, .inr hfree⟩,
    fun _ _ => rfl⟩
  refine ⟨htext, hprovider, ?_, Walk.Over.start, Walk.Closed.start⟩
  simpa [Walk.start] using hne

theorem searchOn_kept {draft : Draft} {upstream : Uuid} {walk : Walk Uuid}
    {rows : List TriggerBinding} (hs : s.Sound)
    (hstands : Stands s (.searches draft upstream walk)) (hlocked : s.locked = true)
    (hrows : rows.Perm (chainRows s.bindings walk.frontier))
    (h : searchOn s draft upstream walk rows = (t, next)) :
    Kept s (.searches draft upstream walk) t next := by
  obtain ⟨htext, hprovider, hunseen, hover, hclosed⟩ := hstands
  have hnow : DuringSearch s.bindings s.bindings s.bindings :=
    ⟨hs.canonical, fun _ _ hab => hab, fun _ _ hab => hab⟩
  have hanswers := hnow.answers hrows
  have hlevel : Answers (fun _ _ => True) (Triggers s.bindings) walk (chainEdges rows) :=
    ⟨fun e he => ⟨(hanswers.sound e he).1, trivial⟩, hanswers.complete⟩
  unfold searchOn at h
  cases hcase : level draft.suiteId upstream walk (chainEdges rows) with
  | found path =>
    rw [hcase] at h
    cases path with
    | none => exact finish_kept hs h
    | some path => exact finish_kept hs h
  | more walk' =>
    rw [hcase] at h
    obtain ⟨hover', hclosed', hunseen', _⟩ := level_more hover hclosed hlevel hcase
    simp only at h
    split at h
    · next hdone =>
      obtain ⟨rfl, rfl⟩ := Prod.mk.inj h
      refine Kept.of_same hs (fun _ => ⟨upstream, htext, ?_⟩) fun _ => ⟨hlocked, rfl⟩
      exact hover'.unreachable hclosed' hdone (hunseen' hunseen)
    · obtain ⟨rfl, rfl⟩ := Prod.mk.inj h
      exact Kept.of_same hs ⟨htext, hprovider, hunseen' hunseen, hover', hclosed'⟩
        fun _ => ⟨hlocked, rfl⟩

/-- The one step that adds an edge: it closes no cycle, and nobody else is searching. -/
theorem insertBinding_kept {draft : Draft} {env : Option Text} {id : Uuid} {upstreamEnv : Text}
    (hs : s.Sound) (hstands : Stands s (.checked draft env))
    (h : insertBinding s draft env id upstreamEnv = (t, next)) :
    Kept s (.checked draft env) t next := by
  unfold insertBinding at h
  simp only at h
  split at h
  · exact finish_kept hs h
  · set binding := draft.binding id (env.getD upstreamEnv) with hbinding
    by_cases hprovider : draft.provider = .suite
    · obtain ⟨upstream, htext, hback⟩ := hstands hprovider
      refine Kept.of_finish (s.bindings ++ [binding])
        ⟨?_, ?_, hs.distinct, hs.shallow⟩ (.inr (decide_eq_true hprovider)) h
      · intro r hr hsuite
        obtain hr | hr := List.mem_append.mp hr
        · exact hs.canonical r hr hsuite
        · have heq : r = binding := by simpa using hr
          exact ⟨upstream, heq ▸ htext⟩
      · refine hs.acyclic.add hback fun a b hab => ?_
        obtain hold | ⟨_, hparse, hsuite⟩ := Triggers.of_append hab
        · exact .inl hold
        · have hstr : Uuid.parse upstream.str = some a := htext ▸ hparse
          rw [Uuid.parse_str] at hstr
          exact .inr ⟨(Option.some.inj hstr).symm, hsuite.symm⟩
    · have hedges : NoNewEdge s { s with bindings := s.bindings ++ [binding] } := by
        intro a b hab
        obtain hold | ⟨hsuite, _⟩ := Triggers.of_append hab
        · exact hold
        · exact absurd hsuite hprovider
      refine Kept.of_finish (s.bindings ++ [binding])
        ⟨?_, hs.acyclic.mono hedges, hs.distinct, hs.shallow⟩ (.inl hedges) h
      intro r hr hsuite
      obtain hr | hr := List.mem_append.mp hr
      · exact hs.canonical r hr hsuite
      · have heq : r = binding := by simpa using hr
        rw [heq] at hsuite
        exact absurd hsuite hprovider

theorem loadBinding_kept {id : Uuid} {onSuite : Option Permission} {answer : Option Answer}
    (hs : s.Sound) (h : loadBinding s id onSuite = (t, next)) : Kept s (.idle answer) t next := by
  unfold loadBinding at h
  split at h
  · split at h
    · obtain ⟨rfl, rfl⟩ := Prod.mk.inj h
      exact Kept.of_same hs trivial nofun
    · obtain ⟨rfl, rfl⟩ := Prod.mk.inj h
      exact Kept.of_same hs trivial nofun
  · obtain ⟨rfl, rfl⟩ := Prod.mk.inj h
    exact Kept.of_same hs trivial nofun

theorem writeBinding_kept {id : Uuid} {bindings : List TriggerBinding} {answer : Answer}
    (hs : s.Sound) (hcanonical : Canonical bindings)
    (hedges : ∀ a b, Triggers bindings a b → Triggers s.bindings a b)
    (h : writeBinding s id bindings answer = (t, next)) : Kept s (.loaded id) t next := by
  unfold writeBinding at h
  split at h
  · obtain ⟨rfl, rfl⟩ := Prod.mk.inj h
    exact ⟨⟨hcanonical, hs.acyclic.mono hedges, hs.distinct, hs.shallow⟩, trivial,
      Keeps.of_subset (List.Subset.refl s.runs), .inl hedges, nofun, fun _ hlocked => hlocked⟩
  · obtain ⟨rfl, rfl⟩ := Prod.mk.inj h
    exact Kept.of_same hs trivial nofun

/-- A statement that writes the `runs` table alone. -/
theorem Kept.of_runs {runs : List SuiteRun} {answer : Option Answer} (hs : s.Sound)
    (hkeeps : Keeps s.runs runs) (hdistinct : DistinctIds runs) (hshallow : Shallow runs) :
    Kept s caller { s with runs := runs } (.idle answer) :=
  ⟨⟨hs.canonical, hs.acyclic, hdistinct, hshallow⟩, trivial, hkeeps, .inl fun _ _ hab => hab, nofun,
    fun _ hlocked => hlocked⟩

theorem reported_keeps (runs : List SuiteRun) (id : Uuid) (status : RunStatus)
    (worst : Option FailingTier) :
    Keeps runs (reported runs id status worst) ∧
      (reported runs id status worst).map SuiteRun.id = runs.map SuiteRun.id := by
  constructor
  · intro r hr
    refine ⟨_, List.mem_map.mpr ⟨r, hr, rfl⟩, ?_⟩
    split <;> simp
  · rw [reported, List.map_map]
    refine List.map_congr_left fun r _ => ?_
    show (if r.id = id then { r with status := status, worst := worst } else r).id = r.id
    split <;> rfl

theorem reported_kept {id : Uuid} {status : RunStatus} {worst : Option FailingTier}
    {answer : Option Answer} (hs : s.Sound) :
    Kept s caller { s with runs := reported s.runs id status worst } (.idle answer) := by
  obtain ⟨hkeeps, hids⟩ := reported_keeps s.runs id status worst
  refine Kept.of_runs hs hkeeps (by rw [DistinctIds, hids]; exact hs.distinct) fun r hr => ?_
  have hid : r.id ∈ s.runs.map SuiteRun.id := hids ▸ List.mem_map.mpr ⟨r, hr, rfl⟩
  obtain ⟨old, hold, heq⟩ := List.mem_map.mp hid
  obtain ⟨n, hops, hn⟩ := hs.shallow old hold
  exact ⟨n, heq ▸ hkeeps.hops hops, hn⟩

theorem record_kept {run : SuiteRun} {answer : Option Answer} (hs : s.Sound)
    (hfresh : run.id ∉ s.runs.map SuiteRun.id) (hfirst : upstreamRunId run.triggeredBy = none) :
    Kept s caller { s with runs := s.runs ++ [run] } (.idle answer) := by
  refine Kept.of_runs hs (Keeps.of_subset (List.subset_append_left s.runs _))
    (hs.distinct.append hfresh) (hs.shallow.append ⟨0, ?_, Nat.zero_le _⟩)
  exact .first (List.mem_append_right _ List.mem_cons_self) hfirst

/-- Every statement keeps the tables sound and leaves its session knowing what it goes on with. -/
theorem triggerAct_kept {act : TriggerAct} (hs : s.Sound) (hstands : Stands s caller)
    (hlocked : caller.holdsLock = true → s.locked = true)
    (h : triggerAct act s caller = some (t, next)) : Kept s caller t next := by
  unfold triggerAct at h
  split at h
  · exact submit_kept hs (Option.some.inj h)
  · split at h
    · cases h
    · next hfree =>
      obtain ⟨rfl, rfl⟩ := Prod.mk.inj (Option.some.inj h)
      exact acquire_kept hs hstands (by simpa using hfree)
  · split at h
    · next hrows => exact searchOn_kept hs hstands (hlocked rfl) hrows (Option.some.inj h)
    · cases h
  · exact insertBinding_kept hs hstands (Option.some.inj h)
  · exact loadBinding_kept hs (Option.some.inj h)
  · exact writeBinding_kept hs (hs.canonical.toggled _ _) (fun _ _ => Triggers.of_toggled)
      (Option.some.inj h)
  · exact writeBinding_kept hs (hs.canonical.subset (List.filter_subset_self _))
      (fun _ _ => Triggers.mono (List.filter_subset_self _)) (Option.some.inj h)
  · split at h
    · next hrun =>
      obtain ⟨rfl, rfl⟩ := Prod.mk.inj (Option.some.inj h)
      exact record_kept hs hrun.1 hrun.2
    · cases h
  · obtain ⟨rfl, rfl⟩ := Prod.mk.inj (Option.some.inj h)
    exact reported_kept hs
  · split at h
    · obtain ⟨rfl, rfl⟩ := Prod.mk.inj (Option.some.inj h)
      exact Kept.of_same hs trivial nofun
    · next run hrun =>
      have hmem : run ∈ s.runs := List.mem_of_find?_eq_some hrun
      split at h
      · split at h
        · obtain ⟨rfl, rfl⟩ := Prod.mk.inj (Option.some.inj h)
          exact Kept.of_same hs trivial nofun
        · next hfire =>
          obtain ⟨rfl, rfl⟩ := Prod.mk.inj (Option.some.inj h)
          exact Kept.of_same hs (followable_of_suitesToFire hs.distinct hs.shallow hmem hfire) nofun
      · cases h
  · split at h
    · next hids =>
      obtain ⟨hlen, hnodup, hfresh⟩ := hids
      obtain ⟨rfl, rfl⟩ := Prod.mk.inj (Option.some.inj h)
      have hzip := List.map_snd_zip (le_of_eq hlen)
      obtain ⟨hkeeps, hdistinct, hshallow⟩ := queueRuns_spec hs.distinct hs.shallow hstands
        (by rw [hzip]; exact hnodup) (by rw [hzip]; exact hfresh)
      exact Kept.of_runs hs hkeeps hdistinct hshallow
    · cases h
  · exact finish_kept hs (Option.some.inj h)
  · cases h

end Statements

/-! ## Every interleaving -/

section Runs
variable {ι : Type*}

/-- The invariant of all sessions together: one of them at most holds the lock. -/
structure TriggerConfig.Sound (c : TriggerConfig ι) : Prop where
  store : c.store.Sound
  stands : ∀ i, Stands c.store (c.session i)
  locked : ∀ i, (c.session i).holdsLock = true → c.store.locked = true
  alone : ∀ i j, (c.session i).holdsLock = true → (c.session j).holdsLock = true → i = j

theorem initial_sound : (TriggerConfig.initial ι).Sound := by
  refine ⟨⟨?_, ?_, ?_, ?_⟩, fun _ => trivial, nofun, nofun⟩
  · intro r hr
    cases hr
  · intro a ha
    obtain ⟨b, hab, _⟩ := Relation.TransGen.head'_iff.mp ha
    obtain ⟨r, hr, _⟩ := hab
    cases hr
  · exact List.nodup_nil
  · intro r hr
    cases hr

variable [DecidableEq ι]

theorem triggerStep_sound {c d : TriggerConfig ι} {e : ι × TriggerAct} (hc : c.Sound)
    (h : triggerStep c e = some d) : d.Sound := by
  obtain ⟨⟨t, next⟩, hact, hput⟩ := step_eq_some.mp h
  subst hput
  obtain ⟨i, act⟩ := e
  have hkept := triggerAct_kept hc.store (hc.stands i) (hc.locked i) hact
  -- a session that holds the lock beside the one that steps means that one does not hold it
  have hothers : ∀ j, j ≠ i → (c.session j).holdsLock = true → (c.session i).holdsLock = false := by
    intro j hne hj
    cases hi : (c.session i).holdsLock with
    | false => rfl
    | true => exact absurd (hc.alone j i hj hi) hne
  have hself : ∀ j, j ≠ i → (c.session j).holdsLock = true → next.holdsLock = true → False := by
    intro j hne hj hnext
    obtain hheld | hfree := (hkept.taken hnext).2
    · rw [hothers j hne hj] at hheld
      cases hheld
    · rw [hc.locked j hj] at hfree
      cases hfree
  refine ⟨hkept.sound, fun j => ?_, fun j hj => ?_, fun j k hj hk => ?_⟩
  · by_cases hji : j = i
    · subst hji
      simpa using hkept.stands
    · rw [Config.put_session_ne _ _ hji]
      refine (hc.stands j).mono (fun hj => ?_) hkept.runs
      refine hkept.edges.resolve_right fun hi => ?_
      rw [hothers j hji hj] at hi
      cases hi
  · by_cases hji : j = i
    · subst hji
      rw [Config.put_session_self] at hj
      exact (hkept.taken hj).1
    · rw [Config.put_session_ne _ _ hji] at hj
      exact hkept.held (hothers j hji hj) (hc.locked j hj)
  · by_cases hji : j = i
    · subst hji
      by_cases hkj : k = j
      · exact hkj.symm
      · rw [Config.put_session_self] at hj
        rw [Config.put_session_ne _ _ hkj] at hk
        exact (hself k hkj hk hj).elim
    · rw [Config.put_session_ne _ _ hji] at hj
      by_cases hki : k = i
      · subst hki
        rw [Config.put_session_self] at hk
        exact (hself j hji hj hk).elim
      · rw [Config.put_session_ne _ _ hki] at hk
        exact hc.alone j k hj hk

theorem sound_of_run {events : List (ι × TriggerAct)} {c : TriggerConfig ι}
    (hrun : Transition.run triggerStep (TriggerConfig.initial ι) events = some c) : c.Sound :=
  Transition.run_keeps (fun _ _ _ hs hstep => triggerStep_sound hs hstep) initial_sound hrun

/-- Whatever is created, toggled and deleted in whatever order: the suites never trigger each other
in a loop, the search for a chain ends and finds one exactly if there is one (what is deleted while
it looks it may find or not), a walk along the bindings meets no suite twice, and no chain of
triggered runs has more than `SUITE_TRIGGER_MAX_DEPTH` runs after its first. -/
theorem suite_triggers_stay_acyclic {events : List (ι × TriggerAct)} {c : TriggerConfig ι}
    (hrun : Transition.run triggerStep (TriggerConfig.initial ι) events = some c) :
    Acyclic (Triggers c.store.bindings) ∧ (∀ a, ¬ Triggers c.store.bindings a a) ∧
      (∀ (after : List TriggerBinding) (select : List Uuid → List TriggerBinding),
        (∀ frontier, ∃ now, DuringSearch c.store.bindings after now ∧
          (select frontier).Perm (chainRows now frontier)) →
        ∀ downstream upstream fuel, c.store.bindings.length + 1 < fuel →
          (suiteChainPath select downstream upstream fuel = some .unreachable ∧
              ¬ Relation.TransGen (Triggers after) downstream upstream) ∨
            ∃ path, suiteChainPath select downstream upstream fuel = some (.path path) ∧
              Leads (Triggers c.store.bindings) downstream upstream path ∧
              Relation.TransGen (Triggers c.store.bindings) downstream upstream) ∧
      (∀ suites : List Uuid, suites.IsChain (Triggers c.store.bindings) → suites.Nodup) ∧
      ∀ chain : List SuiteRun, chain.IsChain (Follows c.store.runs) →
        (∀ run ∈ chain, run ∈ c.store.runs) → chain.length ≤ suiteTriggerMaxDepth + 1 := by
  have hsound := (sound_of_run hrun).store
  refine ⟨hsound.acyclic, fun a ha => hsound.acyclic a (.single ha), ?_, ?_, ?_⟩
  · intro after select hselect downstream upstream fuel hfuel
    exact suiteChainPath_exact hsound.acyclic hselect downstream upstream hfuel
  · intro suites hsuites
    exact hsound.acyclic.nodup hsuites
  · intro chain hchain hmem
    exact hsound.shallow.length_le hsound.distinct hchain hmem

end Runs

def firstBinding : TriggerBinding :=
  ⟨1#128, .suite, Uuid.str 10#128, "dev".toList, 11#128, true⟩

/-- Two suites are bound to each other at the same time; the second session to get the lock, which
spells the id its own way, finds what the first one has committed. -/
def bothWays : List (Bool × TriggerAct) :=
  let edit := some Permission.edit
  let spelled := "0000000000000000-000000000000000B".toList
  [(true, .submit ⟨"suite".toList, Uuid.str 10#128, none, 11#128, true⟩ edit edit),
    (false, .submit ⟨"suite".toList, spelled, none, 10#128, true⟩ edit edit),
    (true, .acquire), (true, .select []), (true, .insert 1#128 "dev".toList), (false, .acquire),
    (false, .select [firstBinding])]

theorem suite_triggers_stay_acyclic_both_ways :
    ∃ c, Transition.run triggerStep (TriggerConfig.initial Bool) bothWays = some c ∧
      Triggers c.store.bindings 10#128 11#128 ∧ Acyclic (Triggers c.store.bindings) := by
  have hends : ((Transition.run triggerStep (TriggerConfig.initial Bool) bothWays).any fun c =>
      c.store.bindings = [firstBinding]) = true := by
    decide +kernel
  obtain ⟨c, hrun, hbindings⟩ := (Option.any_eq_true _ _).mp hends
  refine ⟨c, hrun, ?_, (suite_triggers_stay_acyclic hrun).1⟩
  rw [of_decide_eq_true hbindings]
  exact ⟨firstBinding, List.mem_singleton.mpr rfl, rfl, Uuid.parse_str _, rfl⟩

end DataQ.Orchestration.Suites
