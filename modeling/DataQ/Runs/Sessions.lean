import Mathlib.Data.Fintype.Basic
import DataQ.Foundations.Transition
import DataQ.Runs.Phases

/-! # The sessions that write one run

The statements `run_service` and `worker/tasks.py` issue against one `runs` row and its `results`
rows: `cancel_run`, `reap_stuck_runs`, `fail_run_worker_lost`, and the worker task with
`execute_run`, `skip_run` and `_terminal_failed`. `act` is one statement of a session; a session's
flushed but uncommitted rows live in its own state, and an `UPDATE` is taken together with the
commit that releases its row lock.

The ORM writes a column only when the assigned value differs from the loaded one, so a session
that holds a loaded row carries the status it loaded (`held`); an expired row (`none`) is always
written. `_mark_succeeded` is the one guarded `UPDATE` (`status = 'running'`); its mirror onto the
expired ORM object is flushed by the session's next commit (`mirrored`). -/

namespace DataQ.Runs
open DataQ.Interleaving
set_option autoImplicit false

structure Store where
  run : Run
  results : List Result
  deriving DecidableEq, Repr

inductive TaskPath
  | execute
  | skip
  | setupFailed (reason : Option String)
  deriving DecidableEq, Repr

/-- One `run_suite` task: what it will do once it has loaded the run. -/
structure Task where
  path : TaskPath
  checks : List Check
  coverage : Check → Option Thresholds
  phases : List PhaseEvent
  safeFailureReason : String → String

def Task.holdUntilTerminal (t : Task) : Bool := t.checks.any (·.kind = .piiDrift)

def reapedReason : String :=
  "The run did not complete in time and was marked failed — the worker may have stopped " ++
    "mid-execution."

def workerLostReason : String :=
  "The worker process running this suite was terminated before it finished — most often " ++
    "because the dataset did not fit in worker memory. Try a smaller batch or a narrower run target."

/-- `execute_run`'s locals: the phases still to come, the staged rows, the `published` flag. -/
structure Work where
  remaining : List PhaseEvent
  staged : List Result
  published : Bool

/-- Where a session stands: the next statement it will issue. -/
inductive Pc
  | cancel
  | cancelWrite
  | reap (cutoff : ℕ)
  | workerLost
  | failWrite (reason : String) (wasRunning : Bool)
  | discard
  | taskLoad (t : Task)
  | taskReady (t : Task) (held : Option RunStatus)
  | executing (t : Task) (w : Work)
  | cancelCheck (t : Task) (w : Work) (publishable : Bool)
  | publish (t : Task) (w : Work)
  | record (t : Task) (w : Work)
  | markSucceeded (t : Task) (w : Work) (recorded : RecordedOutcome)
  | mirrored (recorded : RecordedOutcome) (finishedAt : ℕ)
  | abandon (published : Bool)
  | rescue (reason : String) (published : Bool)
  | rescueReload (reason : String)
  | rescueCheck (reason : String) (held : RunStatus)
  | rescueWrite (reason : String) (held : RunStatus)
  | skipReload (t : Task)
  | skipWrite (t : Task) (held : Option RunStatus)
  | done

/-- `proceed` issues the next statement at an instant; `reload` and `expire` are the reads and
commits in between that refresh or expire a loaded row. -/
inductive Act
  | proceed (now : ℕ)
  | reload
  | expire
  deriving DecidableEq, Repr

/-- `run.status = new` on a loaded row, as the flush writes it. -/
def Run.assignStatus (run : Run) (held : Option RunStatus) (new : RunStatus) : Run :=
  if held = some new then run else { run with status := new }

/-- The rows of a phase: `[_build_result(run.id, checks[i], outcome) for i, outcome in resolved]`. -/
def Task.rowsOf (t : Task) (runId : ℕ) (phase : OutcomePhase) : List Result :=
  phase.resolved.filterMap fun p => (t.checks[p.1]?).map fun c => buildResult t.coverage runId c p.2

def Run.markDispatchFailed (run : Run) (now : ℕ) (reason : String) : Run :=
  { run with status := .failed, finishedAt := some now, failureReason := some reason }

/-- `coalesce(started_at, created_at) < cutoff`. -/
def Run.stuckSince (run : Run) (cutoff : ℕ) : Bool := decide (run.startedAt.getD run.createdAt < cutoff)

/-- `run.status = 'running'; run.started_at = now; commit`. -/
def Store.start (s : Store) (held : Option RunStatus) (now : ℕ) : Store :=
  { s with run := { s.run.assignStatus held .running with startedAt := some now } }

def Store.terminalFailed (s : Store) (held : Option RunStatus) (now : ℕ) (reason : Option String) :
    Store :=
  { s with run :=
    { s.run.assignStatus held .failed with
      startedAt := some (s.run.startedAt.getD now)
      finishedAt := some now
      failureReason := reason } }

/-- The values `_mark_succeeded` writes, in its `UPDATE` and again through the mirror. -/
def Run.succeed (run : Run) (finishedAt : ℕ) (recorded : RecordedOutcome) : Run :=
  { run with
    status := .succeeded
    finishedAt := some finishedAt
    failureReason := none }.record recorded

/-- `skip_run` after its first commit: every check gets a `skip` row and the run succeeds. -/
def Store.skipAll (s : Store) (t : Task) (held : Option RunStatus) (now : ℕ) : Store :=
  let results := s.results ++ t.checks.map fun c => ⟨s.run.id, c.id, .skip⟩
  { run := { s.run.assignStatus held .succeeded with finishedAt := some now }.record
      (recordedOutcomeValues results)
    results := results }

/-- The next statement of the worker task. -/
def taskAct (now : ℕ) (s : Store) : Pc → Option (Store × Pc)
  | .taskLoad t =>
    if s.run.status = .cancelled then some (s, .done) else some (s, .taskReady t s.run.status)
  | .taskReady t held =>
    match t.path with
    | .execute => some (s.start held now, .executing t ⟨t.phases, [], false⟩)
    | .skip => some (s.start held now, .skipReload t)
    | .setupFailed reason => some (s.terminalFailed held now reason, .done)
  | .executing t w =>
    match w.remaining with
    | [] => if s.run.status = .cancelled then some (s, .abandon w.published) else some (s, .record t w)
    | .raised message :: _ => some (s, .rescue (t.safeFailureReason message) w.published)
    | .yielded phase :: rest =>
      some (s, .cancelCheck t ⟨rest, w.staged ++ t.rowsOf s.run.id phase, w.published⟩
        phase.publishable)
  | .cancelCheck t w publishable =>
    if s.run.status = .cancelled then some (s, .abandon w.published)
    else if t.holdUntilTerminal || !publishable then some (s, .executing t w)
    else some (s, .publish t w)
  | .publish t w =>
    some ({ s with results := s.results ++ w.staged }, .executing t ⟨w.remaining, [], true⟩)
  | .record t w => some (s, .markSucceeded t w (recordedOutcomeValues (s.results ++ w.staged)))
  | .markSucceeded _ w recorded =>
    -- The commit stores the staged rows whether or not the guarded `UPDATE` matched.
    if s.run.status = .running then
      some (⟨s.run.succeed now recorded, s.results ++ w.staged⟩, .mirrored recorded now)
    else some ({ s with results := s.results ++ w.staged }, .abandon w.published)
  | .mirrored recorded finishedAt =>
    some ({ s with run := s.run.succeed finishedAt recorded }, .done)
  | .abandon published => some ({ s with results := if published then [] else s.results }, .done)
  | .rescue reason published =>
    some ({ s with results := if published then [] else s.results }, .rescueReload reason)
  | .rescueReload reason => some (s, .rescueCheck reason s.run.status)
  | .rescueCheck reason held =>
    if s.run.status = .cancelled then some (s, .done) else some (s, .rescueWrite reason held)
  | .rescueWrite reason held =>
    some ({ s with run :=
      { s.run.assignStatus held .failed with
        finishedAt := some now
        failureReason := some reason } }, .done)
  | .skipReload t =>
    some (s, .skipWrite t (if t.checks = [] then none else some s.run.status))
  | .skipWrite t held => some (s.skipAll t held now, .done)
  | _ => none

/-- The next statement of a cancel request, the reaper, or the worker-lost handler. -/
def foreignAct (now : ℕ) (s : Store) : Pc → Option (Store × Pc)
  | .cancel => if s.run.status.terminal then some (s, .done) else some (s, .cancelWrite)
  | .cancelWrite =>
    some ({ s with run := { s.run with status := .cancelled, finishedAt := some now } }, .done)
  | .reap cutoff =>
    if !s.run.status.terminal && s.run.stuckSince cutoff then
      some (s, .failWrite reapedReason (s.run.status = .running))
    else some (s, .done)
  | .workerLost =>
    if s.run.status.terminal then some (s, .done)
    else some (s, .failWrite workerLostReason (s.run.status = .running))
  | .failWrite reason wasRunning =>
    some ({ s with run := s.run.markDispatchFailed now reason },
      if wasRunning then .discard else .done)
  | .discard => some ({ s with results := [] }, .done)
  | _ => none

/-- Whether a statement belongs to a cancel request, the reaper or the worker-lost handler. -/
def Pc.foreign : Pc → Bool
  | .cancel | .cancelWrite | .reap _ | .workerLost | .failWrite _ _ | .discard => true
  | _ => false

/-- One statement of a session. -/
def act : Act → Store → Pc → Option (Store × Pc)
  | .proceed now, s, pc => if pc.foreign then foreignAct now s pc else taskAct now s pc
  | .reload, s, .taskReady t _ => some (s, .taskReady t s.run.status)
  | .expire, s, .taskReady t _ => some (s, .taskReady t none)
  | _, _, _ => none

/-- A session that has not issued a statement yet, or has none to issue. -/
def Pc.atStart : Pc → Bool
  | .cancel | .reap _ | .workerLost | .taskLoad _ | .done => true
  | _ => false

/-- The worker that executes the run, and one session of somebody else. -/
inductive Party
  | worker | other
  deriving DecidableEq, Repr

instance : Fintype Party := ⟨{.worker, .other}, fun p => by cases p <;> simp⟩

def workerAnd (s : Store) (t : Task) (other : Pc) : Config Party Store Pc :=
  { store := s
    session := fun
      | .worker => .taskLoad t
      | .other => other }

/-! ## Status writes -/

@[simp] theorem assignStatus_id (run : Run) (held : Option RunStatus) (new : RunStatus) :
    (run.assignStatus held new).id = run.id := by
  unfold Run.assignStatus
  split <;> rfl

theorem assignStatus_status (run : Run) (held : Option RunStatus) (new : RunStatus) :
    (run.assignStatus held new).status = if held = some new then run.status else new := by
  unfold Run.assignStatus
  split <;> rfl

@[simp] theorem start_status (s : Store) (held : Option RunStatus) (now : ℕ) :
    (s.start held now).run.status = if held = some .running then s.run.status else .running :=
  assignStatus_status s.run held .running

@[simp] theorem start_results (s : Store) (held : Option RunStatus) (now : ℕ) :
    (s.start held now).results = s.results := rfl

@[simp] theorem terminalFailed_status (s : Store) (held : Option RunStatus) (now : ℕ)
    (reason : Option String) : (s.terminalFailed held now reason).run.status =
      if held = some .failed then s.run.status else .failed :=
  assignStatus_status s.run held .failed

@[simp] theorem succeed_status (run : Run) (now : ℕ) (recorded : RecordedOutcome) :
    (run.succeed now recorded).status = .succeeded := rfl

theorem succeed_records (run : Run) (now : ℕ) (recorded : RecordedOutcome) :
    (run.succeed now recorded).Records recorded := Run.record_records _ _

@[simp] theorem skipAll_status (s : Store) (t : Task) (held : Option RunStatus) (now : ℕ) :
    (s.skipAll t held now).run.status =
      if held = some .succeeded then s.run.status else .succeeded :=
  assignStatus_status s.run held .succeeded

@[simp] theorem markDispatchFailed_status (run : Run) (now : ℕ) (reason : String) :
    (run.markDispatchFailed now reason).status = .failed := rfl

end DataQ.Runs
