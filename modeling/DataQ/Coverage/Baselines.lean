import DataQ.Foundations.Transition
import DataQ.Dqx.Streams
import Mathlib.Data.List.Infix

/-! # The baselines of an automatic suite

A reconcile pass adds each universal check that `auto_state` has no record of. Every check is
committed by its own `create_check`, the record once at the end of the pass; a pass may raise
between any two statements and is then rolled back to its last commit, and people rename and delete
checks meanwhile. -/

namespace DataQ.Coverage
open DataQ.Transition
open DataQ.Dqx (isSqlIdentifier)
set_option autoImplicit false

inductive Role
  | schema | volume | profile | freshness
  deriving DecidableEq, Repr

/-- A column of a captured schema baseline. -/
structure Column where
  name : Text
  type : Text
  deriving DecidableEq

/-- `str.upper` of ASCII letters. -/
def upper (s : Text) : Text := s.map Char.toUpper

/-- `_FRESHNESS_NAMES`. -/
def freshnessNames : List Text :=
  ["loaded_at", "load_ts", "ingested_at", "updated_at", "modified_at", "last_modified",
    "event_time", "event_ts", "created_at"].map String.toList

/-- `_freshness_column`, of a captured baseline. -/
def freshnessColumn (columns : List Column) : Option Text :=
  let timestamps := (columns.filter fun c =>
    (["TIMESTAMP".toList, "DATETIME".toList].any fun t => decide (t <:+: upper c.type)) &&
      isSqlIdentifier c.name).map Column.name
  -- the dictionary by lower case keeps the last name of each
  (freshnessNames.findSome? fun preferred =>
    timestamps.reverse.find? fun name => lower name = preferred).or timestamps.head?

/-- What the coverage settings have in effect for a suite. -/
structure Effective (Shape Thresholds : Type*) where
  shape : Text → Shape
  sensitivity : Role → Thresholds

structure Check (Shape Thresholds : Type*) where
  id : ℕ
  name : Text
  kind : Text
  targetMetric : Option Text
  column : Option Text
  shape : Option Shape
  inherits : Bool
  thresholds : Option Thresholds

variable {Shape Thresholds : Type*}

/-- `add_baseline`. -/
def baseline (effective : Effective Shape Thresholds) (role : Role) (id : ℕ)
    (name metric : Text) (column : Option Text) : Check Shape Thresholds :=
  { id
    name
    kind := "anomaly".toList
    targetMetric := some metric
    column
    shape := some (effective.shape metric)
    inherits := true
    thresholds := some (effective.sensitivity role) }

/-- The check `_ensure_checks` adds for a role. -/
def newCheck (effective : Effective Shape Thresholds) (id : ℕ) (column : Option Text) :
    Role → Check Shape Thresholds
  | .schema =>
    { id
      name := "Schema is unchanged".toList
      kind := "schema_drift".toList
      targetMetric := none
      column := none
      shape := none
      inherits := false
      thresholds := none }
  | .volume =>
    baseline effective .volume id "Row count is normal".toList "row_count".toList none
  | .profile =>
    baseline effective .profile id "Column profile is normal".toList "column_profile".toList none
  | .freshness =>
    baseline effective .freshness id "Data is fresh".toList "freshness_age_hours".toList column

/-- `auto_state`: the recorded checks by role, and the gap noted instead of a freshness check. -/
structure AutoState where
  checks : Role → Option ℕ
  freshnessGap : Bool

/-- A pass under way: its own copy of the state, the checks it found, and the roles to come. -/
structure Pass where
  state : AutoState
  live : List ℕ
  todo : List Role

/-- The suite's rows, the pass under way, and the checks the loop has created so far. -/
structure AutoSuite (Shape Thresholds : Type*) where
  checks : List (Check Shape Thresholds)
  nextId : ℕ
  baselines : List (ℕ × List Column)
  autoState : AutoState
  pass : Option Pass
  created : List (Role × ℕ)

def AutoSuite.start : AutoSuite Shape Thresholds :=
  ⟨[], 0, [], ⟨fun _ => none, false⟩, none, []⟩

/-- What a pass finds out about the freshness column: nothing yet, a gap, or the column. -/
def AutoSuite.freshness (s : AutoSuite Shape Thresholds) (p : Pass) : Option (Option Text) :=
  ((p.state.checks .schema).filter fun id => p.live.contains id).bind fun id =>
    (s.baselines.lookup id).map freshnessColumn

/-- `roles[role] = str(check.id)`, and no gap where freshness is measured. -/
def AutoState.add (state : AutoState) (role : Role) (id : ℕ) : AutoState :=
  { checks := Function.update state.checks role (some id)
    freshnessGap := state.freshnessGap && role ≠ .freshness }

@[simp] theorem AutoState.add_self (state : AutoState) (role : Role) (id : ℕ) :
    (state.add role id).checks role = some id := by
  simp [AutoState.add]

theorem AutoState.add_ne {state : AutoState} {role role' : Role} {id : ℕ} (h : role' ≠ role) :
    (state.add role id).checks role' = state.checks role' := by
  simp [AutoState.add, h]

/-- The commit of one `create_check`. -/
def AutoSuite.create (s : AutoSuite Shape Thresholds) (effective : Effective Shape Thresholds)
    (p : Pass) (role : Role) (column : Option Text) : AutoSuite Shape Thresholds :=
  { s with
    checks := s.checks ++ [newCheck effective s.nextId column role]
    nextId := s.nextId + 1
    pass := some { p with state := p.state.add role s.nextId }
    created := s.created ++ [(role, s.nextId)] }

/-- The pass turns to a role that has no check yet. -/
def AutoSuite.ensure (s : AutoSuite Shape Thresholds) (effective : Effective Shape Thresholds)
    (p : Pass) (role : Role) : AutoSuite Shape Thresholds :=
  if role = .freshness then
    match s.freshness p with
    | none => { s with pass := some p }
    | some none => { s with pass := some { p with state := { p.state with freshnessGap := true } } }
    | some (some column) => s.create effective p .freshness (some column)
  else s.create effective p role none

/-- `load`, `ensure` and `record` are the statements of a pass, `crash` an exception between two of
them; `capture` is a run that captures the schema. -/
inductive PassEvent (Shape Thresholds : Type*)
  | load
  | ensure (effective : Effective Shape Thresholds)
  | record
  | crash
  | rename (id : ℕ) (name : Text)
  | delete (id : ℕ)
  | capture (id : ℕ) (columns : List Column)

/-- One event of the history of a suite. -/
def ensureStep (s : AutoSuite Shape Thresholds) :
    PassEvent Shape Thresholds → Option (AutoSuite Shape Thresholds)
  | .load =>
    if s.pass.isSome then none
    else
      let p : Pass :=
        { state := s.autoState
          live := s.checks.map Check.id
          todo := [.schema, .volume, .profile, .freshness] }
      some { s with pass := some p }
  | .ensure effective =>
    match s.pass with
    | none => none
    | some p =>
      match p.todo with
      | [] => none
      | role :: todo =>
        if (p.state.checks role).isSome then some { s with pass := some { p with todo } }
        else some (s.ensure effective { p with todo } role)
  | .record =>
    match s.pass with
    | none => none
    | some p =>
      if p.todo.isEmpty then
        some { s with
          autoState := p.state
          pass := none }
      else none
  | .crash => some { s with pass := none }
  | .rename id name =>
    some { s with checks := s.checks.map fun c => if c.id = id then { c with name } else c }
  | .delete id =>
    some { s with
      checks := s.checks.filter (·.id ≠ id)
      baselines := s.baselines.filter (·.1 ≠ id) }
  | .capture id columns =>
    if s.checks.any (·.id = id) then some { s with baselines := (id, columns) :: s.baselines }
    else none

/-- No pass raises while a check it has committed is not on record. -/
def Harmless (s : AutoSuite Shape Thresholds) : PassEvent Shape Thresholds → Prop
  | .crash => ∀ p, s.pass = some p → p.state.checks = s.autoState.checks
  | _ => True

/-- The state the next statement goes by. -/
def AutoSuite.state (s : AutoSuite Shape Thresholds) : AutoState :=
  s.pass.elim s.autoState Pass.state

/-- Each role was created at most once, and is then known. -/
structure OnRecord (s : AutoSuite Shape Thresholds) : Prop where
  once : (s.created.map Prod.fst).Nodup
  known : ∀ r ∈ s.created, (s.state.checks r.1).isSome = true

theorem OnRecord.start : OnRecord (AutoSuite.start : AutoSuite Shape Thresholds) where
  once := List.nodup_nil
  known := fun r h => by cases h

section Steps
variable {s t : AutoSuite Shape Thresholds} {effective : Effective Shape Thresholds} {p : Pass}
  {role : Role}

/-- A statement that creates nothing and forgets no role. -/
theorem OnRecord.of_same (h : OnRecord s) (hcreated : t.created = s.created)
    (hstate : t.state.checks = s.state.checks) : OnRecord t where
  once := hcreated ▸ h.once
  known := fun r hr => by
    rw [hstate]
    exact h.known r (hcreated ▸ hr)

theorem OnRecord.create (h : OnRecord s) (hp : s.state = p.state)
    (hnew : p.state.checks role = none) (column : Option Text) :
    OnRecord (s.create effective p role column) where
  once := by
    have hout : role ∉ s.created.map Prod.fst := by
      intro hin
      obtain ⟨r, hr, heq⟩ := List.mem_map.mp hin
      have hknown := h.known r hr
      rw [heq, hp, hnew] at hknown
      cases hknown
    rw [AutoSuite.create, List.map_append, List.nodup_append]
    refine ⟨h.once, List.nodup_singleton _, ?_⟩
    rintro a ha b hb rfl
    have hrole : a = role := List.mem_singleton.mp hb
    exact hout (hrole ▸ ha)
  known := by
    intro r hr
    have hstate : (s.create effective p role column).state = p.state.add role s.nextId := rfl
    rw [hstate]
    by_cases hrole : r.1 = role
    · rw [hrole, AutoState.add_self]
      rfl
    · rw [AutoState.add_ne hrole, ← hp]
      rcases List.mem_append.mp hr with hold | hnew
      · exact h.known r hold
      · exact absurd (congrArg Prod.fst (List.mem_singleton.mp hnew)) hrole

theorem OnRecord.ensure (h : OnRecord s) (hp : s.state = p.state)
    (hnew : p.state.checks role = none) : OnRecord (s.ensure effective p role) := by
  have hgoes : ∀ state : AutoState, state.checks = p.state.checks →
      OnRecord { s with pass := some { p with state } } := fun state hstate =>
    h.of_same rfl (hstate.trans (congrArg AutoState.checks hp.symm))
  unfold AutoSuite.ensure
  split
  · next hrole =>
    subst hrole
    split
    · exact hgoes p.state rfl
    · exact hgoes _ rfl
    · exact h.create hp hnew _
  · exact h.create hp hnew _

theorem OnRecord.step {e : PassEvent Shape Thresholds} (h : OnRecord s) (hok : Harmless s e)
    (hstep : ensureStep s e = some t) : OnRecord t := by
  cases e with
  | load =>
    simp only [ensureStep] at hstep
    split at hstep
    · cases hstep
    · next hnone =>
      cases hstep
      refine h.of_same rfl ?_
      rw [AutoSuite.state, AutoSuite.state, Option.not_isSome_iff_eq_none.mp hnone]
      rfl
  | ensure effective =>
    simp only [ensureStep] at hstep
    split at hstep
    · cases hstep
    · next p hpass =>
      have hp : s.state = p.state := by
        rw [AutoSuite.state, hpass]
        rfl
      split at hstep
      · cases hstep
      · next role todo htodo =>
        split at hstep
        · cases hstep
          exact h.of_same rfl (congrArg AutoState.checks hp.symm)
        · next hunknown =>
          cases hstep
          exact OnRecord.ensure (p := { p with todo }) h hp
            (Option.not_isSome_iff_eq_none.mp hunknown)
  | record =>
    simp only [ensureStep] at hstep
    split at hstep
    · cases hstep
    · next p hpass =>
      split at hstep
      · cases hstep
        refine h.of_same rfl ?_
        rw [AutoSuite.state, AutoSuite.state, hpass]
        rfl
      · cases hstep
  | crash =>
    cases hstep
    refine h.of_same rfl ?_
    cases hpass : s.pass with
    | none => rw [AutoSuite.state, AutoSuite.state, hpass]
    | some p =>
      rw [AutoSuite.state, AutoSuite.state, hpass]
      exact (hok p hpass).symm
  | rename | delete =>
    cases hstep
    exact h.of_same rfl rfl
  | capture id columns =>
    simp only [ensureStep] at hstep
    split at hstep <;> cases hstep
    exact h.of_same rfl rfl

end Steps

/-! ## Every history -/

/-- In every history in which no pass raises between a check it has committed and the record of it,
each role is created at most once, whatever people rename and delete. -/
theorem created_once {d : AutoSuite Shape Thresholds} {es : List (PassEvent Shape Thresholds)}
    (hok : Meets ensureStep Harmless (AutoSuite.start : AutoSuite Shape Thresholds) es)
    (hrun : run ensureStep AutoSuite.start es = some d) : (d.created.map Prod.fst).Nodup :=
  (run_invariant (fun _ _ _ hs hG hstep => OnRecord.step hs hG hstep) OnRecord.start hok hrun).once

/-- Settings that say nothing. -/
def plain : Effective Unit Unit := ⟨fun _ => (), fun _ => ()⟩

instance (s : AutoSuite Unit Unit) (e : PassEvent Unit Unit) : Decidable (Harmless s e) :=
  match e with
  | .crash => decidable_of_iff (∀ p ∈ s.pass, ∀ role ∈ [Role.schema, .volume, .profile, .freshness],
      p.state.checks role = s.autoState.checks role)
      ⟨fun h p hp => funext fun role => h p hp role (by cases role <;> decide),
        fun h p hp role _ => congrFun (h p hp) role⟩
  | .load | .ensure _ | .record | .rename _ _ | .delete _ | .capture _ _ => .isTrue trivial

/-- Two passes, with the schema captured and a renamed and a deleted check in between; the second
pass adds the freshness check and nothing else. -/
theorem created_once_over_two_passes : ∃ d, run ensureStep (AutoSuite.start : AutoSuite Unit Unit)
    [.load, .ensure plain, .ensure plain, .ensure plain, .ensure plain, .record, .delete 1,
      .rename 2 "rows".toList, .capture 0 [⟨"updated_at".toList, "timestamp_ntz".toList⟩], .crash,
      .load, .ensure plain, .ensure plain, .ensure plain, .ensure plain, .record] = some d ∧
    d.created.length = 4 ∧ (d.created.map Prod.fst).Nodup := by
  have hsome : (run ensureStep (AutoSuite.start : AutoSuite Unit Unit)
      [.load, .ensure plain, .ensure plain, .ensure plain, .ensure plain, .record, .delete 1,
        .rename 2 "rows".toList, .capture 0 [⟨"updated_at".toList, "timestamp_ntz".toList⟩], .crash,
        .load, .ensure plain, .ensure plain, .ensure plain, .ensure plain, .record]).any
      (·.created.length = 4) = true := by decide
  obtain ⟨d, hd, hlength⟩ := (Option.any_eq_true _ _).mp hsome
  exact ⟨d, hd, by simpa using hlength, created_once (by decide) hd⟩

/-- A pass raises after its first check is committed; the next one creates it again. -/
theorem created_twice : ¬ ∀ (d : AutoSuite Unit Unit) (es : List (PassEvent Unit Unit)),
    run ensureStep AutoSuite.start es = some d → (d.created.map Prod.fst).Nodup := by
  intro hclaim
  have hsome : (run ensureStep (AutoSuite.start : AutoSuite Unit Unit)
      [.load, .ensure plain, .crash, .load, .ensure plain]).any
      (fun d => !decide (d.created.map Prod.fst).Nodup) = true := by decide
  obtain ⟨d, hd, htwice⟩ := (Option.any_eq_true _ _).mp hsome
  simp [hclaim d _ hd] at htwice

end DataQ.Coverage
