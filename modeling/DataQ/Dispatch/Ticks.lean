import DataQ.Foundations.Transition
import DataQ.Foundations.Locks
import DataQ.Foundations.Text
import DataQ.Runs.Vocabulary
import Mathlib.Data.PNat.Notation

/-! # The ticks of the schedule dispatchers

`schedule_dispatch.dispatch_due_schedules`, and `cron.next_fire` on which it rests. A batch selects
the due schedules with `FOR UPDATE SKIP LOCKED`: row by row in the order of its snapshot, it passes
over one that another session has locked, looks again at one that has changed since, and locks the
others up to the limit. Their advances and runs are committed together and then published. Times
are counted from `cron._PROBE_BASE`. -/

namespace DataQ.Dispatch
open DataQ.Locking DataQ.Interleaving
open DataQ.Runs (RunStatus)
set_option autoImplicit false

/-! ## When a schedule fires next -/

/-- What `cron.py` asks of `croniter` and `zoneinfo`: the syntax check, the next time after a base
in a zone unless there is none, the zone of a name. -/
structure Croniter (Zone : Type*) where
  isValid : String → Bool
  getNext : String → Zone → ℕ → Option ℕ
  zone : String → Option Zone
  utc : Zone

/-- `croniter` returns a time strictly after its argument. -/
def Croniter.Advances {Zone : Type*} (lib : Croniter Zone) : Prop :=
  ∀ expression tz after t, lib.getNext expression tz after = some t → after < t

/-- `refused` is a `DataQError`; any other exception is `raised`. -/
inductive Fire
  | next (t : ℕ)
  | refused
  | raised
  deriving DecidableEq, Repr

/-- `str.split`. -/
def fields (expression : String) : List Text :=
  (expression.toList.splitOnP pySpace).filter (· ≠ [])

variable {Zone : Type*}

def validateCron (lib : Croniter Zone) (expression : String) : Bool :=
  decide ((fields expression).length = 5) && lib.isValid expression &&
    (lib.getNext expression lib.utc 0).isSome

def nextFire (lib : Croniter Zone) (expression timezone : String) (after : ℕ) : Fire :=
  if !validateCron lib expression then .refused
  else
    match lib.zone timezone with
    | none => .refused
    | some tz =>
      match lib.getNext expression tz after with
      | some t => .next t
      | none => .raised

/-- The answers of a tick so far, by expression and timezone. -/
abbrev Fires := List ((String × String) × Option ℕ)

/-- `_next_fire`, unless it raises. -/
def memoFire (lib : Croniter Zone) (now : ℕ) (fires : Fires) (expression timezone : String) :
    Option (Fires × Option ℕ) :=
  match fires.lookup (expression, timezone) with
  | some answer => some (fires, answer)
  | none =>
    match nextFire lib expression timezone now with
    | .next t => some (((expression, timezone), some t) :: fires, some t)
    | .refused => some (((expression, timezone), none) :: fires, none)
    | .raised => none

/-! ## The rows -/

structure Schedule where
  id : ℕ
  suiteId : ℕ
  cron : String
  timezone : String
  enabled : Bool
  nextRunAt : ℕ
  lastRunAt : Option ℕ
  deriving DecidableEq, Repr

structure Run where
  id : ℕ
  suiteId : ℕ
  triggeredBy : ℕ
  status : RunStatus
  dispatched : Bool
  deriving DecidableEq, Repr

/-- The `WHERE` of the batch and of the residual. -/
def Schedule.due (row : Schedule) (now : ℕ) : Bool := row.enabled && decide (row.nextRunAt ≤ now)

/-- What the batch has decided for a claimed schedule. -/
structure Handled where
  schedule : Schedule
  next : Option ℕ
  runId : Option ℕ
  deriving DecidableEq, Repr

/-- A committed claim, for the record. -/
structure Claim (ι : Type*) extends Handled where
  claimant : ι
  now : ℕ

/-- What a batch's statement found of a schedule of its snapshot when its turn came. -/
inductive Verdict (ι : Type*)
  | claimed
  | lockedBy (j : ι)
  | moved
  deriving DecidableEq, Repr

/-- How a tick ended: its last batch was short, with the snapshot and the findings of its statement,
or it stopped and counted what was still due. -/
inductive Ending (ι : Type*)
  | drained (snapshot : List ℕ) (found : List (ℕ × Verdict ι))
  | stopped (due : List ℕ)

structure Summary where
  due : ℕ
  dispatched : ℕ
  skippedTarget : ℕ
  dispatchFailed : ℕ
  disabled : ℕ
  residual : ℕ
  deriving DecidableEq, Repr

structure Report (ι : Type*) where
  dispatcher : ι
  now : ℕ
  summary : Summary
  ending : Ending ι

/-- A tick under way: its fixed `now`, its batch size, what it has memoised and counted. -/
structure Tick where
  now : ℕ
  batchSize : ℕ+
  fires : Fires
  summary : Summary

/-- The rows, the messages published and the records, both newest first. -/
structure Store (ι : Type*) where
  schedules : List Schedule
  runs : List Run
  nextRunId : ℕ
  locks : Locks ℕ ι
  published : List ℕ
  claims : List (Claim ι)
  reports : List (Report ι)

/-- Where a dispatcher stands. A statement under way has `todo` of its snapshot before it. A batch
that is committed has `queued` runs to publish. -/
inductive Pc (ι : Type*)
  | idle
  | selecting (y : Tick)
  | scanning (y : Tick) (snapshot todo : List ℕ) (found : List (ℕ × Verdict ι))
  | publishing (y : Tick) (snapshot : List ℕ) (found : List (ℕ × Verdict ι)) (queued : List ℕ)
      (sent failed : List ℕ) (streak : ℕ) (brokerDown : Bool)
  | counting (y : Tick)

/-- `select` carries the order in which the snapshot's rows come, `commit` the suites whose target
resolves, `publish` whether the broker takes the message, `record` whether the time is up. -/
inductive Act
  | tick (now : ℕ) (batchSize : ℕ+)
  | select (order : List ℕ)
  | scan
  | commit (runnable : List ℕ)
  | publish (sent : Bool)
  | record (exhausted : Bool)
  | count
  | die
  deriving DecidableEq, Repr

/-- `BROKER_DOWN_AFTER`. -/
def brokerDownAfter : ℕ := 3

def Summary.zero : Summary := ⟨0, 0, 0, 0, 0, 0⟩

def dueIds (schedules : List Schedule) (now : ℕ) : List ℕ :=
  (schedules.filter fun row => row.due now).map Schedule.id

variable {ι : Type*}

/-- The order puts the due schedules by `next_run_at`. -/
def ordered (schedules : List Schedule) (now : ℕ) (order : List ℕ) : Bool :=
  order.isPerm (dueIds schedules now) &&
    decide (order.Pairwise fun a b => ∀ r ∈ schedules, ∀ r' ∈ schedules, r.id = a → r'.id = b →
      r.nextRunAt ≤ r'.nextRunAt)

def claimedIds (found : List (ℕ × Verdict ι)) : List ℕ :=
  found.filterMap fun
    | (id, .claimed) => some id
    | _ => none

variable [DecidableEq ι]

/-- The next row of the statement's snapshot. -/
def scan (i : ι) (s : Store ι) (y : Tick) (snapshot : List ℕ) (found : List (ℕ × Verdict ι)) :
    List ℕ → Option (Store ι × Pc ι)
  | [] => none
  | id :: todo =>
    if y.batchSize ≤ (claimedIds found).length then none
    else
      match s.locks id with
      | some j => some (s, .scanning y snapshot todo ((id, .lockedBy j) :: found))
      | none =>
        if s.schedules.any fun row => row.id = id ∧ row.due y.now then
          some ({ s with locks := s.locks.take i id },
            .scanning y snapshot todo ((id, .claimed) :: found))
        else some (s, .scanning y snapshot todo ((id, .moved) :: found))

/-- The loop over the claimed schedules. `nextRunId` is the next run's id. -/
def handle (lib : Croniter Zone) (now : ℕ) (runnable : List ℕ) :
    List Schedule → Fires → ℕ → Option (List Handled × Fires × ℕ)
  | [], fires, nextRunId => some ([], fires, nextRunId)
  | row :: rows, fires, nextRunId =>
    match memoFire lib now fires row.cron row.timezone with
    | none => none
    | some (fires, next) =>
      let run := next.isSome && decide (row.suiteId ∈ runnable)
      (handle lib now runnable rows fires (if run then nextRunId + 1 else nextRunId)).map
        fun rest => (⟨row, next, if run then some nextRunId else none⟩ :: rest.1, rest.2)

/-- `_ADVANCE_SQL`. -/
def Schedule.advance (now : ℕ) (handled : List Handled) (row : Schedule) : Schedule :=
  match handled.find? fun h => h.schedule.id = row.id with
  | some h =>
    { row with
      lastRunAt := some now
      nextRunAt := h.next.getD row.nextRunAt
      enabled := h.next.isSome }
  | none => row

def Handled.run (h : Handled) : Option Run :=
  h.runId.map fun id => ⟨id, h.schedule.suiteId, h.schedule.id, .queued, false⟩

def Summary.batch (n : Summary) (handled : List Handled) : Summary :=
  { n with
    due := n.due + handled.length
    disabled := n.disabled + handled.countP fun h => h.next.isNone
    skippedTarget := n.skippedTarget + handled.countP fun h => h.next.isSome ∧ h.runId.isNone }

def Store.release (s : Store ι) (i : ι) : Store ι := { s with locks := s.locks.release i }

def Store.report (s : Store ι) (i : ι) (y : Tick) (ending : Ending ι) : Store ι :=
  { s with reports := ⟨i, y.now, y.summary, ending⟩ :: s.reports }

def Store.commit (s : Store ι) (i : ι) (y : Tick) (handled : List Handled) (nextRunId : ℕ) :
    Store ι :=
  { s with
    schedules := s.schedules.map (Schedule.advance y.now handled)
    runs := s.runs ++ handled.filterMap Handled.run
    nextRunId := nextRunId
    locks := s.locks.release i
    claims := (handled.map fun h => ⟨h, i, y.now⟩) ++ s.claims }

/-- The rest of `_dispatch_batch` up to its commit, once its statement has returned. -/
def commit (lib : Croniter Zone) (i : ι) (s : Store ι) (y : Tick) (snapshot todo : List ℕ)
    (found : List (ℕ × Verdict ι)) (runnable : List ℕ) : Option (Store ι × Pc ι) :=
  let ids := (claimedIds found).reverse
  if todo ≠ [] ∧ (claimedIds found).length < y.batchSize then none
  else if ids = [] then some ((s.release i).report i y (.drained snapshot found), .idle)
  else
    let rows := ids.filterMap fun id => s.schedules.find? fun row => row.id = id
    match handle lib y.now runnable rows y.fires s.nextRunId with
    | none => some (s.release i, .idle)
    | some (handled, fires, nextRunId) =>
      some (s.commit i y handled nextRunId,
        .publishing { y with fires := fires, summary := y.summary.batch handled } snapshot found
          (handled.filterMap Handled.runId) [] [] 0 false)

/-- One `dispatch_run`. -/
def publish (s : Store ι) (y : Tick) (snapshot : List ℕ) (found : List (ℕ × Verdict ι))
    (sent failed : List ℕ) (streak : ℕ) (ok : Bool) : List ℕ → Option (Store ι × Pc ι)
  | [] => none
  | id :: queued =>
    if ok then
      some ({ s with published := id :: s.published },
        .publishing y snapshot found queued (id :: sent) failed 0 false)
    else if brokerDownAfter ≤ streak + 1 then
      some (s, .publishing y snapshot found [] sent (queued ++ id :: failed) (streak + 1) true)
    else some (s, .publishing y snapshot found queued sent (id :: failed) (streak + 1) false)

/-- The outcome of the publishing written to a run. -/
def Run.outcome (sent failed : List ℕ) (run : Run) : Run :=
  if run.id ∈ sent then { run with dispatched := true }
  else if run.id ∈ failed ∧ run.status = .queued then { run with status := .failed }
  else run

/-- The second commit of a batch and what the loop of the tick makes of the batch. -/
def record (i : ι) (s : Store ι) (y : Tick) (snapshot : List ℕ) (found : List (ℕ × Verdict ι))
    (sent failed : List ℕ) (brokerDown exhausted : Bool) : Store ι × Pc ι :=
  let s := { s with runs := s.runs.map (Run.outcome sent failed) }
  let y := { y with summary := { y.summary with
    dispatched := y.summary.dispatched + sent.length
    dispatchFailed := y.summary.dispatchFailed + failed.length } }
  if (claimedIds found).length < y.batchSize ∧ !brokerDown then
    (s.report i y (.drained snapshot found), .idle)
  else if brokerDown || exhausted then (s, .counting y)
  else (s, .selecting y)

/-- One statement of a dispatcher. -/
def act (lib : Croniter Zone) (i : ι) (a : Act) (s : Store ι) (pc : Pc ι) :
    Option (Store ι × Pc ι) :=
  match a, pc with
  | .tick now batchSize, .idle => some (s, .selecting ⟨now, batchSize, [], .zero⟩)
  | .select order, .selecting y =>
    if ordered s.schedules y.now order then some (s, .scanning y order order []) else none
  | .scan, .scanning y snapshot todo found => scan i s y snapshot found todo
  | .commit runnable, .scanning y snapshot todo found =>
    commit lib i s y snapshot todo found runnable
  | .publish ok, .publishing y snapshot found queued sent failed streak _ =>
    publish s y snapshot found sent failed streak ok queued
  | .record exhausted, .publishing y snapshot found [] sent failed _ brokerDown =>
    some (record i s y snapshot found sent failed brokerDown exhausted)
  | .count, .counting y =>
    let due := dueIds s.schedules y.now
    let y := { y with summary := { y.summary with residual := due.length } }
    some (s.report i y (.stopped due), .idle)
  | .die, _ => some (s.release i, .idle)
  | _, _ => none

abbrev World (ι : Type*) := Config ι (Store ι) (Pc ι)

def step (lib : Croniter Zone) (c : World ι) (e : ι × Act) : Option (World ι) :=
  Interleaving.step (act lib e.1) c e

omit [DecidableEq ι] in
/-- Some schedules, and no dispatcher at work. -/
def World.initial (schedules : List Schedule) : World ι :=
  ⟨⟨schedules, [], 0, Locks.none, [], [], []⟩, fun _ => .idle⟩

end DataQ.Dispatch
