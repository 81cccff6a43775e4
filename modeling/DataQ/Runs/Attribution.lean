import DataQ.Foundations.Transition
import DataQ.Foundations.Json
import DataQ.Foundations.Series

/-! # A check as it was

`services/run_service.py`: the check that a result is read as, by the version of it that was in
effect when the result was written. -/

namespace DataQ.Attribution
set_option autoImplicit false

/-- What a version records of a check, and the check's own row has. -/
structure CheckSource where
  name : Text
  kind : Text
  engine : Text
  expectationType : Text
  dimension : Option Text
  config : Fields
  deriving DecidableEq

/-- A row of `check_versions`. -/
structure CheckVersion where
  createdAt : ℕ
  source : CheckSource
  deriving DecidableEq

inductive CheckAsOfSource
  | version | laterVersion | live
  deriving DecidableEq, Repr

structure CheckAsOf where
  name : Option Text
  kind : Option Text
  engine : Text
  expectationType : Option Text
  dimension : Option Text
  column : Option Json
  resolvedFrom : Option CheckAsOfSource
  aggregate : Option Text
  deriving DecidableEq

def gxEngine : Text := "gx".toList

/-- `_UNKNOWN_CHECK`. -/
def unknownCheck : CheckAsOf := ⟨none, none, gxEngine, none, none, none, none, none⟩

/-- `_config_aggregate`. -/
def configAggregate (config : Fields) : Option Text :=
  match config.lookup "aggregate".toList with
  | some (.str name) => some name
  | _ => none

/-- `_versions_by_check`, of one check: in the order of `created_at`. -/
def inOrder (versions : List CheckVersion) : List CheckVersion :=
  Series.byDate CheckVersion.createdAt versions

/-- The last version at or before the time, or the first where all are later. -/
def effectiveVersion (versions : List CheckVersion) (at_ : ℕ) : Option CheckVersion :=
  ((versions.takeWhile fun v => v.createdAt ≤ at_).getLast?).or versions.head?

def asOf (source : CheckSource) (resolvedFrom : CheckAsOfSource) : CheckAsOf where
  name := some source.name
  kind := some source.kind
  engine := if source.engine = [] then gxEngine else source.engine
  expectationType := some source.expectationType
  dimension := source.dimension
  column := source.config.lookup "column".toList
  resolvedFrom := some resolvedFrom
  aggregate := configAggregate source.config

/-- `historical_check_snapshots_at`, of one check. -/
def snapshotAt (versions : List CheckVersion) (live : Option CheckSource) (at_ : ℕ) : CheckAsOf :=
  match effectiveVersion (inOrder versions) at_ with
  | some version =>
    asOf version.source (if at_ < version.createdAt then .laterVersion else .version)
  | none =>
    match live with
    | some source => asOf source .live
    | none => unknownCheck

end DataQ.Attribution

/-! # Edits while a run is in flight

`execute_run` and `record_check_version`: a run sorts its checks by engine, reads each check when it
first needs it after a commit, and writes its results with the start of the transaction; an edit
writes the columns that it changed of the check it loaded, and its version with the start of its
own. Statements are read committed. -/

namespace DataQ.Attribution
open DataQ.Interleaving
set_option autoImplicit false

/-- A result, and the check that its outcome was computed with. -/
structure Produced where
  checkId : ℕ
  createdAt : ℕ
  computedWith : CheckSource
  deriving DecidableEq

structure Store where
  clock : ℕ
  check : ℕ → CheckSource
  versions : ℕ → List CheckVersion
  results : List Produced

/-- A check as a transaction reads it, and the versions of it that are committed then. -/
structure Read where
  source : CheckSource
  seen : List CheckVersion
  deriving DecidableEq

/-- A transaction of a run: the checks that it has read, and what it computed with. -/
structure Phase where
  startedAt : ℕ
  read : List (ℕ × Read)
  computed : List (ℕ × CheckSource)
  deriving DecidableEq

inductive Stage
  | idle
  /-- A transaction of an editor. -/
  | editing (checkId : ℕ) (startedAt : ℕ) (loaded : Option CheckSource)
  /-- A run between two transactions, with the engines that its checks were sorted by. -/
  | between (engines : List (ℕ × Text))
  | running (engines : List (ℕ × Text)) (phase : Phase)

inductive Act
  | tick
  | beginEdit (checkId : ℕ)
  | load
  | commitEdit (edited : CheckSource)
  | beginRun
  | beginPhase
  | readCheck (checkId : ℕ)
  | sortCheck (checkId : ℕ)
  | evaluate (checkId : ℕ)
  | commitPhase
  | leave

/-- The row after the columns in which the copy was edited are written. -/
def written (loaded edited row : CheckSource) : CheckSource where
  name := if edited.name = loaded.name then row.name else edited.name
  kind := if edited.kind = loaded.kind then row.kind else edited.kind
  engine := if edited.engine = loaded.engine then row.engine else edited.engine
  expectationType :=
    if edited.expectationType = loaded.expectationType then row.expectationType
    else edited.expectationType
  dimension := if edited.dimension = loaded.dimension then row.dimension else edited.dimension
  config := if edited.config = loaded.config then row.config else edited.config

def Store.edit (store : Store) (checkId startedAt : ℕ) (loaded edited : CheckSource) : Store :=
  { store with
    check := Function.update store.check checkId (written loaded edited (store.check checkId))
    versions := Function.update store.versions checkId
      (store.versions checkId ++ [⟨startedAt, edited⟩]) }

/-- A statement that needs the check reads it, unless the transaction has read it before. -/
def Phase.readCheck (phase : Phase) (store : Store) (checkId : ℕ) : Phase :=
  match phase.read.lookup checkId with
  | some _ => phase
  | none =>
    { phase with
      read := (checkId, ⟨store.check checkId, store.versions checkId⟩) :: phase.read }

def act : Act → Store → Stage → Option (Store × Stage)
  | .tick, store, stage => some ({ store with clock := store.clock + 1 }, stage)
  | .beginEdit checkId, store, .idle => some (store, .editing checkId store.clock none)
  | .load, store, .editing checkId startedAt none =>
    some (store, .editing checkId startedAt (some (store.check checkId)))
  | .commitEdit edited, store, .editing checkId startedAt (some loaded) =>
    some (store.edit checkId startedAt loaded edited, .idle)
  | .beginRun, store, .idle => some (store, .between [])
  | .beginPhase, store, .between engines => some (store, .running engines ⟨store.clock, [], []⟩)
  | .readCheck checkId, store, .running engines phase =>
    some (store, .running engines (phase.readCheck store checkId))
  | .sortCheck checkId, store, .running engines phase =>
    (phase.read.lookup checkId).map fun read =>
      (store, .running (setField checkId read.source.engine engines) phase)
  | .evaluate checkId, store, .running engines phase =>
    match phase.read.lookup checkId, engines.lookup checkId with
    | some read, some engine =>
      some (store, .running engines
        { phase with
          computed := phase.computed ++ [(checkId, { read.source with engine := engine })] })
    | _, _ => none
  | .commitPhase, store, .running engines phase =>
    some ({ store with
      results := store.results ++
        phase.computed.map fun entry => ⟨entry.1, phase.startedAt, entry.2⟩ }, .between engines)
  | .leave, store, .editing _ _ _ => some (store, .idle)
  | .leave, store, .running _ _ => some (store, .idle)
  | .leave, store, .between _ => some (store, .idle)
  | _, _, _ => none

theorem act_tick (store : Store) (stage : Stage) :
    act .tick store stage = some ({ store with clock := store.clock + 1 }, stage) := by
  simp only [act]

variable {ι : Type} [DecidableEq ι]

abbrev World (ι : Type) := Config ι Store Stage

/-- Every check has the version of its creation. -/
def start (created : ℕ → CheckSource) : World ι :=
  ⟨⟨1, created, fun checkId => [⟨0, created checkId⟩], []⟩, fun _ => .idle⟩

/-- What a result is read by: column, expectation type, engine and aggregate. -/
def CheckAsOf.reading (check : CheckAsOf) : Option Json × Option Text × Text × Option Text :=
  (check.column, check.expectationType, check.engine, check.aggregate)

def CheckSource.reading (source : CheckSource) : Option Json × Option Text × Text × Option Text :=
  (asOf source .version).reading

/-- `historical_check_snapshots`, of one result. -/
def Store.snapshotOf (store : Store) (result : Produced) : CheckAsOf :=
  snapshotAt (store.versions result.checkId) (some (store.check result.checkId)) result.createdAt

end DataQ.Attribution
