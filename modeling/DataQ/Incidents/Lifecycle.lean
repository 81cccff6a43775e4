import DataQ.Foundations.Transition
import DataQ.Foundations.Locks
import DataQ.Runs.Vocabulary
import Mathlib.Data.Prod.Lex

/-! # The incident lifecycle

`incident_service`: the synchronisation of a run's results with the incidents of their checks, and
the manual acknowledge and resolve, as the statements their transactions issue. A `SELECT … FOR
UPDATE` picks its row from what is committed, then waits for the row's lock and drops a row that no
longer matches. What a synchronisation changes stays in its session until its commit: the changed
objects are flushed there, and a row it has inserted is seen by nobody else, though the partial
unique index makes other inserts for the pair wait. -/

namespace DataQ.Incidents
open DataQ.Locking DataQ.Interleaving
open DataQ.Runs (ResultStatus)
set_option autoImplicit false

/-- `INCIDENT_STATUSES`. -/
inductive IncidentStatus
  | opened | acknowledged | resolved
  deriving DecidableEq, Repr

/-- `INCIDENT_ACTIVE_STATUSES`. -/
def IncidentStatus.active : IncidentStatus → Bool
  | .opened | .acknowledged => true
  | .resolved => false

inductive ResolvedBy
  | user | auto
  deriving DecidableEq, Repr

/-- `INCIDENT_RESOLUTIONS`. -/
inductive Resolution
  | fixed | expectedChange | falsePositive
  deriving DecidableEq, Repr

/-- An asset and a check. -/
abbrev Pair := ℕ × ℕ

/-- An `incidents` row. `createdAt` is when the transaction that opened it began. -/
structure Incident where
  id : ℕ
  assetId : ℕ
  checkId : ℕ
  suiteId : ℕ
  status : IncidentStatus
  occurrenceCount : ℕ
  createdAt : ℕ
  lastSeenAt : ℕ
  acknowledgedAt : Option ℕ
  acknowledgedBy : Option ℕ
  resolvedBy : Option ResolvedBy
  resolvedByUserId : Option ℕ
  resolvedAt : Option ℕ
  resolution : Option Resolution
  priorIncidentId : Option ℕ
  deriving DecidableEq, Repr

def Incident.pair (inc : Incident) : Pair := (inc.assetId, inc.checkId)

def Incident.active (inc : Incident) : Bool := inc.status.active

/-! ## What is written to one incident -/

def Incident.attach (inc : Incident) (now : ℕ) : Incident :=
  { inc with occurrenceCount := inc.occurrenceCount + 1, lastSeenAt := now }

def Incident.autoResolve (inc : Incident) (now : ℕ) : Incident :=
  { inc with status := .resolved, resolvedBy := some .auto, resolvedAt := some now }

def Incident.acknowledge (inc : Incident) (userId now : ℕ) : Incident :=
  { inc with status := .acknowledged, acknowledgedAt := some now, acknowledgedBy := some userId }

def Incident.resolve (inc : Incident) (userId : ℕ) (resolution : Option Resolution) (now : ℕ) :
    Incident :=
  { inc with
    status := .resolved
    resolvedBy := some .user
    resolvedByUserId := some userId
    resolvedAt := some now
    resolution := resolution }

/-- `_most_recent_resolved_id`: by `resolved_at`, nulls last, then by `created_at`. -/
def mostRecentResolved (incidents : List Incident) (pair : Pair) : Option Incident :=
  (incidents.filter fun inc => inc.pair = pair ∧ inc.status = .resolved).argmax fun inc =>
    toLex ((inc.resolvedAt.map (· + 1)).getD 0, inc.createdAt)

/-! ## The statements of a synchronisation -/

/-- What has happened to a pair, for the record: an incident was opened, a failing result was
synchronised. -/
inductive Fact
  | opened (id : ℕ) (pair : Pair)
  | failing (pair : Pair)
  deriving DecidableEq, Repr

/-- A synchronisation under way. `own` are the incidents it has inserted or locked, as its session
holds them; `facts` is what it will have done once it commits, newest first. -/
structure Sync where
  assetId : ℕ
  suiteId : ℕ
  autoResolve : Bool
  startedAt : ℕ
  results : List (ℕ × ResultStatus)
  todo : List (ℕ × ResultStatus)
  own : List Incident
  facts : List Fact

/-- What an active incident is wanted for; `attempt` counts the rounds of
`_OPEN_ATTACH_ATTEMPTS`. -/
inductive Purpose
  | attach (attempt : ℕ)
  | autoResolve
  deriving DecidableEq, Repr

inductive Pc
  | idle
  | next (y : Sync)
  | readPrior (y : Sync) (checkId attempt : ℕ)
  | insertOpen (y : Sync) (checkId attempt : ℕ) (priorId : Option ℕ)
  | selectActive (y : Sync) (checkId : ℕ) (purpose : Purpose)
  | lockActive (y : Sync) (checkId : ℕ) (purpose : Purpose) (id : ℕ)

/-- `locks` are those on the rows, `inserting` the pairs of the active rows that are inserted and
not committed. `synced` are the pairs of the failing results that have been synchronised, and
`history` what came of them, both newest first. -/
structure Store (ι : Type*) where
  incidents : List Incident
  now : ℕ
  nextId : ℕ
  locks : Locks ℕ ι
  inserting : Locks Pair ι
  synced : List Pair
  history : List Fact

inductive Act
  | sync (assetId suiteId : ℕ) (autoResolve : Bool) (results : List (ℕ × ResultStatus))
  | proceed
  | acknowledge (id userId : ℕ)
  | resolve (id userId : ℕ) (resolution : Option Resolution)
  | fail
  | tick
  deriving DecidableEq, Repr

def openAttachAttempts : ℕ := 3

def Sync.pair (y : Sync) (checkId : ℕ) : Pair := (y.assetId, checkId)

/-- The pairs of the failing ones among some results of the run. -/
def Sync.failingPairs (y : Sync) (results : List (ℕ × ResultStatus)) : List Pair :=
  (results.filter fun r => r.2.failingTier.isSome).map fun r => y.pair r.1

/-- The changed object and what was done. -/
def Sync.write (y : Sync) (purpose : Purpose) (inc : Incident) (now : ℕ) : Sync :=
  let others := y.own.filter fun o => o.id ≠ inc.id
  match purpose with
  | .attach _ =>
    { y with own := inc.attach now :: others, facts := .failing inc.pair :: y.facts }
  | .autoResolve => { y with own := inc.autoResolve now :: others }

def Sync.newIncident (y : Sync) (checkId id : ℕ) (priorId : Option ℕ) : Incident where
  id := id
  assetId := y.assetId
  checkId := checkId
  suiteId := y.suiteId
  status := .opened
  occurrenceCount := 1
  createdAt := y.startedAt
  lastSeenAt := y.startedAt
  acknowledgedAt := none
  acknowledgedBy := none
  resolvedBy := none
  resolvedByUserId := none
  resolvedAt := none
  resolution := none
  priorIncidentId := priorId

def Sync.inserted (y : Sync) (inc : Incident) : Sync :=
  { y with own := inc :: y.own, facts := .opened inc.id inc.pair :: .failing inc.pair :: y.facts }

/-- The row as the commit of the session's objects leaves it. -/
def flushed (own : List Incident) (row : Incident) : Incident :=
  (own.find? fun o => o.id = row.id).getD row

def insertedRows (own incidents : List Incident) : List Incident :=
  own.reverse.filter fun o => o.id ∉ incidents.map Incident.id

variable {ι : Type*} [DecidableEq ι]

def Store.release (s : Store ι) (i : ι) : Store ι :=
  { s with locks := s.locks.release i, inserting := s.inserting.release i }

def Store.commit (s : Store ι) (i : ι) (y : Sync) : Store ι :=
  { s with
    incidents := s.incidents.map (flushed y.own) ++ insertedRows y.own s.incidents
    locks := s.locks.release i
    inserting := s.inserting.release i
    synced := (y.failingPairs y.results).reverse ++ s.synced
    history := y.facts ++ s.history }

/-- The head of the loop of `_sync_incidents_for_run`. -/
def nextResult (i : ι) (s : Store ι) (y : Sync) : Store ι × Pc :=
  match y.todo with
  | [] => (s.commit i y, .idle)
  | (checkId, status) :: todo =>
    let y := { y with todo := todo }
    if status.failingTier.isSome then (s, .readPrior y checkId 0)
    else if status = .pass && y.autoResolve then (s, .selectActive y checkId .autoResolve)
    else (s, .next y)

/-- The `INSERT … ON CONFLICT DO NOTHING`: a conflict with a row that is not committed waits. -/
def insertOpen (i : ι) (s : Store ι) (y : Sync) (checkId attempt : ℕ) (priorId : Option ℕ) :
    Option (Store ι × Pc) :=
  let pair := y.pair checkId
  if (y.own.any fun o => o.pair = pair) || s.incidents.any fun r => r.pair = pair ∧ r.active then
    some (s, .selectActive y checkId (.attach attempt))
  else if s.inserting.Free i pair then
    some ({ s with
      nextId := s.nextId + 1
      locks := s.locks.take i s.nextId
      inserting := s.inserting.take i pair }, .next (y.inserted (y.newIncident checkId s.nextId
        priorId)))
  else none

/-- No active incident was found: another attempt to open one, or nothing to resolve. -/
def missed (i : ι) (s : Store ι) (y : Sync) (checkId : ℕ) : Purpose → Store ι × Pc
  | .attach attempt =>
    if attempt + 1 < openAttachAttempts then (s, .readPrior y checkId (attempt + 1))
    else (s.release i, .idle)
  | .autoResolve => (s, .next y)

/-- The row that `_active_incident` picks: the session's own one, or what is committed. -/
def selectActive (i : ι) (s : Store ι) (y : Sync) (checkId : ℕ) (purpose : Purpose) :
    Store ι × Pc :=
  match y.own.find? fun o => o.pair = y.pair checkId with
  | some o => (s, .next (y.write purpose o s.now))
  | none =>
    match s.incidents.find? fun r => r.pair = y.pair checkId ∧ r.active with
    | some row => (s, .lockActive y checkId purpose row.id)
    | none => missed i s y checkId purpose

def lockActive (i : ι) (s : Store ι) (y : Sync) (checkId : ℕ) (purpose : Purpose) (id : ℕ) :
    Option (Store ι × Pc) :=
  if s.locks.Free i id then
    match s.incidents.find? fun r => r.id = id ∧ r.active with
    | some row =>
      some ({ s with locks := s.locks.take i id }, .next (y.write purpose row s.now))
    | none => some (missed i s y checkId purpose)
  else none

def proceed (i : ι) (s : Store ι) : Pc → Option (Store ι × Pc)
  | .idle => none
  | .next y => some (nextResult i s y)
  | .readPrior y checkId attempt =>
    some (s, .insertOpen y checkId attempt
      ((mostRecentResolved s.incidents (y.pair checkId)).map Incident.id))
  | .insertOpen y checkId attempt priorId => insertOpen i s y checkId attempt priorId
  | .selectActive y checkId purpose => some (selectActive i s y checkId purpose)
  | .lockActive y checkId purpose id => lockActive i s y checkId purpose id

/-- `acknowledge_incident` and `resolve_incident`: `refresh` with the row's lock, then the change
and its commit, unless the incident is resolved. -/
def transition (i : ι) (s : Store ι) (id : ℕ) (change : Incident → Incident) :
    Option (Store ι × Pc) :=
  if s.locks.Free i id then
    some ({ s with incidents := s.incidents.map fun r =>
      if r.id = id ∧ r.active then change r else r }, .idle)
  else none

/-- One statement of a session. `sync` is a run that executed and has an asset. -/
def act (i : ι) (a : Act) (s : Store ι) (pc : Pc) : Option (Store ι × Pc) :=
  match a, pc with
  | .sync assetId suiteId autoResolve results, .idle =>
    some (s, .next ⟨assetId, suiteId, autoResolve, s.now, results, results, [], []⟩)
  | .acknowledge id userId, .idle => transition i s id fun r => r.acknowledge userId s.now
  | .resolve id userId resolution, .idle =>
    transition i s id fun r => r.resolve userId resolution s.now
  | .proceed, pc => proceed i s pc
  | .fail, _ => some (s.release i, .idle)
  | .tick, pc => some ({ s with now := s.now + 1 }, pc)
  | _, _ => none

abbrev World (ι : Type*) := Config ι (Store ι) Pc

def step (c : World ι) (e : ι × Act) : Option (World ι) := Interleaving.step (act e.1) c e

omit [DecidableEq ι] in
/-- No incident yet. -/
def World.initial : World ι := ⟨⟨[], 0, 0, Locks.none, Locks.none, [], []⟩, fun _ => .idle⟩

end DataQ.Incidents
