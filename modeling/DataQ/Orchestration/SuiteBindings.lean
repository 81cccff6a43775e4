import DataQ.Foundations.Fallible
import DataQ.Foundations.Search
import DataQ.Foundations.Uuids

/-! # Suite bindings

`trigger_binding_service`: the `trigger_bindings` rows, what the validation of a new one refuses,
and `suite_chain_path`, which looks for the bindings that lead from one suite back to another. -/

namespace DataQ.Orchestration.Suites
open DataQ.Search DataQ.Fallible
set_option autoImplicit false

/-- `TRIGGER_PROVIDERS`. -/
inductive TriggerProvider
  | adf | airflow | dbt | suite
  deriving DecidableEq, Repr

def TriggerProvider.name : TriggerProvider → Text
  | .adf => "adf".toList
  | .airflow => "airflow".toList
  | .dbt => "dbt".toList
  | .suite => "suite".toList

def TriggerProvider.read (text : Text) : Option TriggerProvider :=
  [.adf, .airflow, .dbt, .suite].find? fun p => p.name = text

def envs : List Text := ["dev".toList, "qa".toList, "uat".toList, "prod".toList]

structure TriggerBinding where
  id : Uuid
  provider : TriggerProvider
  pipelineOrDagId : Text
  env : Text
  suiteId : Uuid
  enabled : Bool
  deriving DecidableEq

/-- `uq_trigger_bindings_lookup`. -/
def TriggerBinding.key (b : TriggerBinding) : TriggerProvider × Text × Text × Uuid :=
  (b.provider, b.pipelineOrDagId, b.env, b.suiteId)

/-- A suite binding, enabled or not, from `a` to `b`, however it spells the id of `a`. -/
def Triggers (bindings : List TriggerBinding) (a b : Uuid) : Prop :=
  ∃ r ∈ bindings, r.provider = .suite ∧ Uuid.parse r.pipelineOrDagId = some a ∧ r.suiteId = b

/-- Every suite binding spells the id of its upstream suite as `str` does. -/
def Canonical (bindings : List TriggerBinding) : Prop :=
  ∀ r ∈ bindings, r.provider = .suite → ∃ u : Uuid, r.pipelineOrDagId = u.str

/-! ## Permissions and refusals -/

/-- The ranks of `suite_authz`. -/
inductive Permission
  | view | edit | admin | owner
  deriving DecidableEq, Repr

def Permission.rank : Permission → ℕ
  | .view => 1
  | .edit => 2
  | .admin => 3
  | .owner => 4

inductive Refusal
  | invalidProvider
  | invalidEnv
  | suiteNotFound
  | suiteForbidden
  | upstreamNotAnId
  | triggersItself
  | loop (cycle : List Uuid)
  | alreadyExists
  | bindingNotFound
  deriving DecidableEq

/-- `require_permission`, from the caller's effective permission on the suite. -/
def requirePermission (have_ : Option Permission) (minimum : Permission) : Except Refusal Unit :=
  match have_ with
  | none => .error .suiteNotFound
  | some level => if level.rank < minimum.rank then .error .suiteForbidden else .ok ()

structure CreateRequest where
  provider : Text
  pipelineOrDagId : Text
  env : Option Text
  suiteId : Uuid
  enabled : Bool
  deriving DecidableEq

/-- What `create_binding` has made of its request before it waits for the lock. -/
inductive Admitted
  /-- `provider = 'suite'`, with the id of the upstream suite. -/
  | suite (upstream : Uuid)
  | pipeline (provider : TriggerProvider) (env : Text)
  deriving DecidableEq

/-- `_validate_provider_env`. -/
def validateProviderEnv (provider : Text) (env : Option Text) :
    Except Refusal (TriggerProvider × Text) :=
  match TriggerProvider.read provider, env with
  | none, _ => .error .invalidProvider
  | some .suite, env => .ok (.suite, env.getD [])
  | some _, none => .error .invalidEnv
  | some p, some env => if env ∈ envs then .ok (p, env) else .error .invalidEnv

/-- `_resolve_suite_binding` up to `pg_advisory_xact_lock`: the id of the upstream suite. -/
def resolveUpstream (request : CreateRequest) (onUpstream : Option Permission) :
    Except Refusal Uuid :=
  match Uuid.parse request.pipelineOrDagId with
  | none => .error .upstreamNotAnId
  | some upstream =>
    if upstream = request.suiteId then .error .triggersItself
    else do
      requirePermission onUpstream .view
      return upstream

/-- `create_binding` up to the lock: `onSuite` and `onUpstream` are the caller's permissions on the
two suites. -/
def checkRequest (request : CreateRequest) (onSuite onUpstream : Option Permission) :
    Except Refusal Admitted := do
  let checked ← validateProviderEnv request.provider request.env
  requirePermission onSuite .edit
  if checked.1 = .suite then do
    let upstream ← resolveUpstream request onUpstream
    return .suite upstream
  else return .pipeline checked.1 checked.2

/-- A suite binding is between two suites, and any other one is no suite's. -/
def Admitted.Fits (suiteId : Uuid) : Admitted → Prop
  | .suite upstream => upstream ≠ suiteId
  | .pipeline provider _ => provider ≠ .suite

theorem resolveUpstream_ne {request : CreateRequest} {onUpstream : Option Permission}
    {upstream : Uuid} (h : resolveUpstream request onUpstream = .ok upstream) :
    upstream ≠ request.suiteId := by
  unfold resolveUpstream at h
  cases hparse : Uuid.parse request.pipelineOrDagId with
  | none => simp [hparse] at h
  | some u =>
    simp only [hparse] at h
    obtain ⟨_, himpossible⟩ | ⟨hne, hbind⟩ := guard_eq_ok.mp h
    · cases himpossible
    · obtain ⟨_, _, hpure⟩ := bind_eq_ok.mp hbind
      rw [← pure_eq_ok.mp hpure]
      exact hne

theorem checkRequest_fits {request : CreateRequest} {onSuite onUpstream : Option Permission}
    {admitted : Admitted} (h : checkRequest request onSuite onUpstream = .ok admitted) :
    admitted.Fits request.suiteId := by
  obtain ⟨checked, _, h⟩ := bind_eq_ok.mp h
  obtain ⟨_, _, h⟩ := bind_eq_ok.mp h
  obtain ⟨_, h⟩ | ⟨hne, h⟩ := guard_eq_ok.mp h
  · obtain ⟨upstream, hup, h⟩ := bind_eq_ok.mp h
    rw [← pure_eq_ok.mp h]
    exact resolveUpstream_ne hup
  · rw [← pure_eq_ok.mp h]
    exact hne

/-! ## `suite_chain_path` -/

/-- The rows of its `SELECT` for a frontier. -/
def chainRows (bindings : List TriggerBinding) (frontier : List Uuid) : List TriggerBinding :=
  bindings.filter fun r => r.provider = .suite ∧ r.pipelineOrDagId ∈ frontier.map Uuid.str

/-- The rows as edges, each upstream id read back from its text. -/
def chainEdges (rows : List TriggerBinding) : List (Uuid × Uuid) :=
  rows.filterMap fun r => (Uuid.parse r.pipelineOrDagId).map fun parent => (parent, r.suiteId)

/-- `suite_chain_path`, with the database's answer to each `SELECT`. -/
def suiteChainPath (select : List Uuid → List TriggerBinding) (downstream upstream : Uuid)
    (fuel : ℕ) : Option (Verdict Uuid) :=
  search (fun w => chainEdges (select w.frontier)) downstream upstream fuel (Walk.start downstream)

/-- A table while `suite_chain_path` looks: bindings may be toggled and deleted, none is added. -/
structure DuringSearch (before after now : List TriggerBinding) : Prop where
  canonical : Canonical now
  there : ∀ a b, Triggers now a b → Triggers before a b
  left : ∀ a b, Triggers after a b → Triggers now a b

section ChainPath
variable {before after rows : List TriggerBinding} {frontier : List Uuid}

theorem mem_chainRows {bindings : List TriggerBinding} {r : TriggerBinding} :
    r ∈ chainRows bindings frontier ↔
      r ∈ bindings ∧ r.provider = .suite ∧ ∃ u ∈ frontier, u.str = r.pipelineOrDagId := by
  simp [chainRows, List.mem_filter, List.mem_map]

theorem mem_chainEdges {e : Uuid × Uuid} :
    e ∈ chainEdges rows ↔ ∃ r ∈ rows, Uuid.parse r.pipelineOrDagId = some e.1 ∧ r.suiteId = e.2 := by
  constructor
  · intro h
    obtain ⟨r, hr, hmap⟩ := List.mem_filterMap.mp h
    obtain ⟨parent, hparse, heq⟩ := Option.map_eq_some_iff.mp hmap
    subst heq
    exact ⟨r, hr, hparse, rfl⟩
  · rintro ⟨r, hr, hparse, hsuite⟩
    refine List.mem_filterMap.mpr ⟨r, hr, ?_⟩
    rw [hparse, Option.map_some, hsuite]

/-- Every row that the `SELECT` finds spells a suite's id, so reading it back cannot fail. -/
theorem parse_of_mem_chainRows {bindings : List TriggerBinding} {r : TriggerBinding}
    (h : r ∈ chainRows bindings frontier) :
    ∃ u ∈ frontier, Uuid.parse r.pipelineOrDagId = some u := by
  obtain ⟨_, _, u, hu, hstr⟩ := mem_chainRows.mp h
  exact ⟨u, hu, by rw [← hstr, Uuid.parse_str]⟩

/-- The edges of all suite bindings. -/
def suiteEdges (bindings : List TriggerBinding) : List (Uuid × Uuid) :=
  chainEdges (bindings.filter fun r => r.provider = .suite)

theorem mem_suiteEdges {bindings : List TriggerBinding} {a b : Uuid} :
    (a, b) ∈ suiteEdges bindings ↔ Triggers bindings a b := by
  rw [suiteEdges, mem_chainEdges]
  constructor
  · rintro ⟨r, hr, hparse, hsuite⟩
    obtain ⟨hmem, hprovider⟩ := List.mem_filter.mp hr
    exact ⟨r, hmem, of_decide_eq_true hprovider, hparse, hsuite⟩
  · rintro ⟨r, hmem, hprovider, hparse, hsuite⟩
    exact ⟨r, List.mem_filter.mpr ⟨hmem, decide_eq_true hprovider⟩, hparse, hsuite⟩

theorem suiteEdges_length_le (bindings : List TriggerBinding) :
    (suiteEdges bindings).length ≤ bindings.length :=
  (List.length_filterMap_le _ _).trans (List.length_filter_le _ _)

/-- The `SELECT` on a table that may have lost bindings gives edges out of the frontier. -/
theorem DuringSearch.answers {now : List TriggerBinding} (h : DuringSearch before after now)
    {w : Walk Uuid} (hrows : rows.Perm (chainRows now w.frontier)) :
    Answers (Triggers before) (Triggers after) w (chainEdges rows) := by
  constructor
  · intro e he
    obtain ⟨r, hr, hparse, hsuite⟩ := mem_chainEdges.mp he
    have hrow := hrows.mem_iff.mp hr
    obtain ⟨u, hu, hparsed⟩ := parse_of_mem_chainRows hrow
    have hue : u = e.1 := Option.some.inj (hparsed.symm.trans hparse)
    obtain ⟨hmem, hprovider, _⟩ := mem_chainRows.mp hrow
    exact ⟨hue ▸ hu, h.there _ _ ⟨r, hmem, hprovider, hparse, hsuite⟩⟩
  · intro v hv c hedge
    obtain ⟨r, hmem, hprovider, hparse, hsuite⟩ := h.left v c hedge
    obtain ⟨u, hu⟩ := h.canonical r hmem hprovider
    have huv : u = v := by
      rw [hu, Uuid.parse_str] at hparse
      exact Option.some.inj hparse
    have hrow : r ∈ chainRows now w.frontier :=
      mem_chainRows.mpr ⟨hmem, hprovider, v, hv, by rw [hu, huv]⟩
    exact mem_chainEdges.mpr ⟨r, hrows.mem_iff.mpr hrow, hparse, hsuite⟩

/-- `suite_chain_path` ends after at most two `SELECT`s more than there are bindings. A chain that
it returns was there at its start, and where it returns none there is none at its end. -/
theorem suiteChainPath_exact {select : List Uuid → List TriggerBinding}
    (hacyclic : Acyclic (Triggers before))
    (hselect : ∀ frontier, ∃ now, DuringSearch before after now ∧
      (select frontier).Perm (chainRows now frontier))
    (downstream upstream : Uuid) {fuel : ℕ} (hfuel : before.length + 1 < fuel) :
    (suiteChainPath select downstream upstream fuel = some .unreachable ∧
        ¬ Relation.TransGen (Triggers after) downstream upstream) ∨
      ∃ path, suiteChainPath select downstream upstream fuel = some (.path path) ∧
        Leads (Triggers before) downstream upstream path ∧
        Relation.TransGen (Triggers before) downstream upstream := by
  have hedges : (fun a b => (a, b) ∈ suiteEdges before) = Triggers before := by
    funext a b
    exact propext mem_suiteEdges
  have hask : ∀ w : Walk Uuid, Answers (fun a b => (a, b) ∈ suiteEdges before) (Triggers after) w
      (chainEdges (select w.frontier)) := by
    intro w
    obtain ⟨now, hnow, hrows⟩ := hselect w.frontier
    rw [hedges]
    exact hnow.answers hrows
  have hlen := suiteEdges_length_le before
  have hends := search_ends upstream hask (w := Walk.start downstream)
    Walk.Over.start Walk.Closed.start (show _ < fuel + 0 by omega)
  rw [hedges] at hends
  obtain ⟨hnone, hunreachable⟩ | ⟨path, hpath, hleads, hne⟩ := hends
  · refine .inl ⟨hnone, fun hchain => ?_⟩
    by_cases heq : upstream = downstream
    · subst heq
      obtain ⟨now, hnow, _⟩ := hselect []
      exact hacyclic.mono (fun a b hab => hnow.there a b (hnow.left a b hab)) upstream hchain
    · exact hunreachable (by simpa [Walk.start] using heq) hchain.to_reflTransGen
  · refine .inr ⟨path, hpath, hleads, ?_⟩
    exact (Relation.reflTransGen_iff_eq_or_transGen.mp hleads.reaches).resolve_left (Ne.symm hne)

end ChainPath

end DataQ.Orchestration.Suites
