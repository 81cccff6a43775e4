import DataQ.Alerts.HealthTasks
import DataQ.Foundations.Transition

/-! # The ticks of the workspace signals

`services/pipeline_baseline.py`, `services/workspace_health_service.py` and
`alerting/composite.py`: a tick goes over its signals one after the other, locks the row of each if
no other tick has it, sends the edge that is due, and commits the row only after a channel has
sent it. -/

namespace DataQ.SignalEdges
open DataQ.HealthAlerts (HealthState)
set_option autoImplicit false

structure Pipeline where
  provider : Text
  pipelineOrDagId : Text
  env : Text
  deriving DecidableEq

/-- What a tick looks at: the polling of the workspace, or a bound pipeline. -/
inductive Signal
  | pollStaleness
  | pipeline (p : Pipeline)
  deriving DecidableEq

def pollStalenessKey : Text := "orchestration_poll_staleness".toList

def signalKeyPrefix : Text := "pipeline_baseline:".toList

def signalKey (sha256 : Text → Text) (p : Pipeline) : Text :=
  signalKeyPrefix ++ (sha256 (p.provider ++ Char.ofNat 0 :: (p.pipelineOrDagId ++
    Char.ofNat 0 :: p.env))).take 40

def Signal.key (sha256 : Text → Text) : Signal → Text
  | .pollStaleness => pollStalenessKey
  | .pipeline p => signalKey sha256 p

/-! ## Reports and rows -/

inductive Report
  | pollStaleness (state : HealthState)
  | pipelineBaseline (p : Pipeline) (state : HealthState) (isOverdue isSlowOrFast : Bool)
  deriving DecidableEq

def Report.state : Report → HealthState
  | .pollStaleness state => state
  | .pipelineBaseline _ state _ _ => state

def Report.isFailing (report : Report) : Bool := report.state = .failing

structure Payload where
  pipeline : Option Pipeline
  reason : Option Text
  alerted : Bool
  deriving DecidableEq

/-- The columns of a `workspace_health` row. -/
structure Flag where
  alertedAt : Option ℤ
  payload : Option Payload
  deriving DecidableEq

/-- `_payload`; the row of the poll staleness has none. -/
def payload (report : Report) (alerted : Bool) (stored : Option Payload) : Option Payload :=
  match report with
  | .pollStaleness _ => stored
  | .pipelineBaseline p _ isOverdue isSlowOrFast =>
    some ⟨some p, if isOverdue then some "overdue".toList
      else if isSlowOrFast then some "duration".toList else none, alerted⟩

/-- The row once the report has been sent. -/
def Flag.reported (flag : Flag) (report : Report) (moment : ℤ) : Flag :=
  ⟨if report.isFailing then some moment else none,
    SignalEdges.payload report report.isFailing flag.payload⟩

def Flag.unwatched (flag : Flag) : Flag :=
  ⟨none, some { flag.payload.getD ⟨none, none, false⟩ with
    alerted := false, reason := some "unwatched".toList }⟩

structure Settings where
  pollStalenessAlertAfterS : ℤ
  pipelineBaselineZThreshold : ℚ
  deriving DecidableEq

/-- What `evaluate_poll_staleness` finds, of the connections and when the last was polled. -/
def evaluatePollStaleness (settings : Settings) (count : ℕ) (reference : Option ℤ)
    (moment : ℤ) : Report :=
  let threshold := settings.pollStalenessAlertAfterS
  if 0 < threshold ∧ count ≠ 0 ∧ reference.any fun polled => polled < moment - threshold then
    .pollStaleness .failing
  else .pollStaleness .recovered

/-- What `evaluate_pipeline` finds; `overdue` is only asked for while the runs are ingested. -/
def evaluatePipeline (settings : Settings) (p : Pipeline) (ingesting overdue : Bool)
    (zScore : Option ℚ) : Option Report :=
  if ingesting && overdue then some (.pipelineBaseline p .failing true false)
  else if zScore.any fun z => settings.pipelineBaselineZThreshold ≤ z then
    some (.pipelineBaseline p .failing false true)
  else if ingesting then some (.pipelineBaseline p .recovered false false)
  else none

/-! ## Channels -/

/-- What a channel does with an edge: it sends it, it is not configured, or it raises. -/
inductive ChannelResult
  | sent | skipped | raised
  deriving DecidableEq

inductive Delivery
  | delivered | undeliverable | failed
  deriving DecidableEq

/-- `_fan_out_delivered_first`, from what was delivered and whether a channel had raised. -/
def fanOutFrom : ℕ → Bool → List ChannelResult → Delivery
  | 0, false, [] => .undeliverable
  | 0, true, [] => .failed
  | _ + 1, _, [] => .delivered
  | delivered, lastError, .sent :: results => fanOutFrom (delivered + 1) lastError results
  | delivered, lastError, .skipped :: results => fanOutFrom delivered lastError results
  | delivered, _, .raised :: results => fanOutFrom delivered true results

def fanOutDeliveredFirst (results : List ChannelResult) : Delivery := fanOutFrom 0 false results

/-! ## Ticks -/

/-- How a tick has left a signal. -/
inductive Outcome
  | alerted | recovered | undeliverable | ok | unknown | skipped
  deriving DecidableEq

structure Tick where
  settings : Settings
  watched : List Signal
  todo : List Signal
  counted : List (Signal × Outcome)
  deriving DecidableEq

def Tick.over (settings : Settings) (watched : List Signal) : Tick :=
  ⟨settings, watched, watched, []⟩

def Tick.count (tick : Tick) (signal : Signal) (outcome : Outcome) : Tick :=
  { tick with counted := tick.counted ++ [(signal, outcome)] }

/-- What came of the alerts of a row: an edge that was sent or not, or a closing. -/
inductive Event
  | edge (state : HealthState) (delivered : Bool)
  | closed
  deriving DecidableEq

/-- The rows, which of them a session has locked or is inserting, what came of the alerts of each,
the last first, and the ticks that have ended. -/
structure Store where
  rows : Text → Option Flag
  locked : Text → Bool
  history : Text → List Event
  finished : List Tick

def Store.flag (s : Store) (key : Text) : Flag := (s.rows key).getD ⟨none, none⟩

def Store.outstanding (s : Store) (key : Text) : Bool := (s.flag key).alertedAt.isSome

def Store.lock (s : Store) (keys : Text → Bool) : Store :=
  { s with locked := fun key => s.locked key || keys key }

def Store.release (s : Store) (keys : Text → Bool) : Store :=
  { s with locked := fun key => s.locked key && !keys key }

def Store.write (s : Store) (keys : Text → Bool) (columns : Flag → Flag) : Store :=
  { s with rows := fun key => if keys key then some (columns (s.flag key)) else s.rows key }

def Store.record (s : Store) (keys : Text → Bool) (event : Event) : Store :=
  { s with history := fun key => if keys key then event :: s.history key else s.history key }

def Store.finish (s : Store) (tick : Tick) : Store := { s with finished := tick :: s.finished }

/-- The rows that `_clear_unwatched` selects, without those that another session has locked. -/
def Store.unwatched (s : Store) (watched : List Text) (key : Text) : Bool :=
  signalKeyPrefix.isPrefixOf key && s.outstanding key && !watched.contains key && !s.locked key

/-- Where a session stands. -/
inductive Local
  | idle
  | clearing (tick : Tick) (stale : Text → Bool)
  | ticking (tick : Tick)
  | holding (tick : Tick) (signal : Signal)
  | sending (tick : Tick) (signal : Signal) (report : Report)
  /-- a channel has sent the edge, and the row is not committed yet -/
  | delivered (tick : Tick) (signal : Signal) (report : Report)

variable (sha256 : Text → Text)

def Signal.only (signal : Signal) (key : Text) : Bool := key = signal.key sha256

/-- The rows that the session has locked. -/
def Local.holds : Local → Text → Bool
  | .idle | .ticking _ => fun _ => false
  | .clearing _ stale => stale
  | .holding _ signal | .sending _ signal _ | .delivered _ signal _ => signal.only sha256

inductive Act
  | runPollStalenessCheck (settings : Settings)
  | runPipelineBaselineCheck (settings : Settings) (bound : List Pipeline)
  | clearUnwatched
  /-- the row of the next signal, inserted where it is missing -/
  | claim
  | evaluatePollStaleness (count : ℕ) (reference : Option ℤ) (moment : ℤ)
  | evaluatePipeline (ingesting overdue : Bool) (zScore : Option ℚ)
  | publishWorkspaceSignal (results : List ChannelResult)
  | commit (moment : ℤ)
  | finish
  /-- an exception before a channel has sent anything -/
  | raise
  deriving DecidableEq

/-- What a tick does with the report of the row that it has locked. -/
def judge (s : Store) (tick : Tick) (signal : Signal) : Option Report → Store × Local
  | none => (s.release (signal.only sha256), .ticking (tick.count signal .unknown))
  | some report =>
    if report.isFailing = s.outstanding (signal.key sha256) then
      (s.release (signal.only sha256), .ticking (tick.count signal .ok))
    else (s, .sending tick signal report)

def act : Act → Store → Local → Option (Store × Local)
  | .runPollStalenessCheck settings, s, .idle =>
    if settings.pollStalenessAlertAfterS ≤ 0 then some (s, .idle)
    else some (s, .ticking (Tick.over settings [.pollStaleness]))
  | .runPipelineBaselineCheck settings bound, s, .idle =>
    let watched := if settings.pipelineBaselineZThreshold ≤ 0 then [] else bound
    let stale := s.unwatched (watched.map (signalKey sha256))
    some (s.lock stale, .clearing (Tick.over settings (watched.map .pipeline)) stale)
  | .clearUnwatched, s, .clearing tick stale =>
    some (((s.write stale Flag.unwatched).record stale .closed).release stale, .ticking tick)
  | .claim, s, .ticking ⟨settings, watched, signal :: todo, counted⟩ =>
    let tick : Tick := ⟨settings, watched, todo, counted⟩
    if s.locked (signal.key sha256) then
      -- the insert waits where the row is another session's and not committed
      if (s.rows (signal.key sha256)).isNone then none
      else some (s, .ticking (tick.count signal .skipped))
    else some (s.lock (signal.only sha256), .holding tick signal)
  | .evaluatePollStaleness count reference moment, s, .holding tick .pollStaleness =>
    some (judge sha256 s tick .pollStaleness
      (SignalEdges.evaluatePollStaleness tick.settings count reference moment))
  | .evaluatePipeline ingesting overdue zScore, s, .holding tick (.pipeline p) =>
    some (judge sha256 s tick (.pipeline p)
      (SignalEdges.evaluatePipeline tick.settings p ingesting overdue zScore))
  | .publishWorkspaceSignal results, s, .sending tick signal report =>
    let keys := signal.only sha256
    match fanOutDeliveredFirst results with
    | .delivered => some (s.record keys (.edge report.state true), .delivered tick signal report)
    | .undeliverable => some ((s.record keys (.edge report.state false)).release keys,
        .ticking (tick.count signal .undeliverable))
    | .failed => some ((s.record keys (.edge report.state false)).release keys, .idle)
  | .commit moment, s, .delivered tick signal report =>
    let keys := signal.only sha256
    some ((s.write keys fun flag => flag.reported report moment).release keys,
      .ticking (tick.count signal (if report.isFailing then .alerted else .recovered)))
  | .finish, s, .ticking tick => if tick.todo = [] then some (s.finish tick, .idle) else none
  | .raise, _, .delivered .. => none
  | .raise, s, l => some (s.release (l.holds sha256), .idle)
  | _, _, _ => none

def initial : Store := ⟨fun _ => none, fun _ => false, fun _ => [], []⟩

end DataQ.SignalEdges
