import DataQ.Foundations.Transition
import DataQ.Foundations.Json

/-! # LLM invocations

`llm_service.execute_invocation` and `reap_stuck_invocations` on the row of one invocation. A
delivery claims the row, prepares the prompt, calls the provider and closes the row; the reaper
closes it when it has waited too long. Times are in microseconds. -/

namespace DataQ.Llm
open DataQ.Interleaving
set_option autoImplicit false

/-! ## The row -/

/-- `LLM_INVOCATION_STATUSES`. -/
inductive Status
  | pending | running | succeeded | failed
  deriving DecidableEq, Repr

def Status.Terminal : Status → Prop
  | .succeeded | .failed => True
  | .pending | .running => False

structure Row where
  status : Status
  createdAt : ℤ
  startedAt : Option ℤ
  finishedAt : Option ℤ
  durationMs : Option ℕ
  request : Option Fields
  contextFingerprint : Option Text
  response : Option Json
  error : Option Text
  inputTokens : Option ℕ
  outputTokens : Option ℕ
  deriving DecidableEq

/-- `.values(**terminal)`: the columns that the terminal write sets, those of `none` left as they
are. -/
structure Terminal where
  status : Status
  error : Option Text
  response : Option Json
  contextFingerprint : Option Text
  tokens : Option (Option ℕ × Option ℕ)
  durationMs : Option ℕ
  finishedAt : ℤ
  deriving DecidableEq

def Row.close (row : Row) (t : Terminal) : Row :=
  { row with
    status := t.status
    error := t.error.or row.error
    response := t.response.or row.response
    contextFingerprint := t.contextFingerprint.or row.contextFingerprint
    inputTokens := (t.tokens.map Prod.fst).getD row.inputTokens
    outputTokens := (t.tokens.map Prod.snd).getD row.outputTokens
    durationMs := t.durationMs.or row.durationMs
    finishedAt := some t.finishedAt }

/-! ## What a delivery gets on the way -/

def scrubText (s : Text) : Text := s.filter (· ≠ '\x00')

mutual

/-- `_scrub_nul`. -/
def scrubNul : Json → Json
  | .str s => .str (scrubText s)
  | .arr items => .arr (scrubItems items)
  | .obj fields => .obj ((scrubFields fields).foldl (fun d entry => setField entry.1 entry.2 d) [])
  | j => j

def scrubItems : List Json → List Json
  | [] => []
  | item :: items => scrubNul item :: scrubItems items

def scrubFields : Fields → Fields
  | [] => []
  | (key, value) :: fields => (scrubText key, scrubNul value) :: scrubFields fields

end

/-- An exception: a `DataQError`, or another one of a class. -/
inductive Raised
  | dataq (code message : Text) (detail : Fields)
  | other (className : Text)
  deriving DecidableEq

structure Prompt where
  prompt : Text
  system : Option Text
  structured : Bool
  deriving DecidableEq

/-- `LLMResult`. -/
structure LlmResult where
  text : Text
  parsed : Option Json
  inputTokens : Option ℕ
  outputTokens : Option ℕ
  deriving DecidableEq

/-- What the code of the kind, the provider and the libraries do. `dumpsLength` is
`len(json.dumps(·))`. -/
structure World where
  sha256 : Text → Text
  dumpsLength : Json → ℕ

def detailMaxChars : ℕ := 4096

/-- The work of a delivery up to the terminal write: what it has to record. -/
structure Work where
  contextFingerprint : Option Text
  tokens : Option (Option ℕ × Option ℕ)
  deriving DecidableEq

def outputInvalid : Raised :=
  .dataq "llm_output_invalid".toList "provider returned no structured output".toList []

/-- The `except` branches. -/
def Work.failed (world : World) (w : Work) (durationMs : ℕ) (finishedAt : ℤ) : Raised → Terminal
  | .dataq code message detail =>
    { status := .failed
      error := some ((scrubText (code ++ ": ".toList ++ message)).take 1024)
      response :=
        if detail = [] then none
        else if detailMaxChars < world.dumpsLength (scrubNul (.obj detail)) then
          some (.obj [("truncated".toList, .bool true)])
        else some (scrubNul (.obj detail))
      contextFingerprint := w.contextFingerprint
      tokens := w.tokens
      durationMs := some durationMs
      finishedAt := finishedAt }
  | .other className =>
    { status := .failed
      error := some (("internal: ".toList ++ className).take 1024)
      response := none
      contextFingerprint := w.contextFingerprint
      tokens := w.tokens
      durationMs := some durationMs
      finishedAt := finishedAt }

def Work.succeeded (w : Work) (payload : Json) (durationMs : ℕ) (finishedAt : ℤ) : Terminal where
  status := .succeeded
  error := none
  response := some (scrubNul payload)
  contextFingerprint := w.contextFingerprint
  tokens := w.tokens
  durationMs := some durationMs
  finishedAt := finishedAt

/-- The payload of what the provider answered. -/
def payloadOf (structured : Bool) (result : LlmResult) : Except Raised Json :=
  if structured then
    match result.parsed with
    | none => .error outputInvalid
    | some parsed => .ok (scrubNul parsed)
  else .ok (.obj [("text".toList, .str (scrubText result.text))])

/-- The tries after the call: the answer, and the gate of the kind on the payload. -/
def settle (world : World) (w : Work) (structured : Bool) (answer : Except Raised LlmResult)
    (validate : Json → Except Raised Json) (durationMs : ℕ) (finishedAt : ℤ) : Terminal :=
  match answer with
  | .error raised => w.failed world durationMs finishedAt raised
  | .ok result =>
    match payloadOf structured result with
    | .error raised => w.failed world durationMs finishedAt raised
    | .ok payload =>
      let w := { w with tokens := some (result.inputTokens, result.outputTokens) }
      match validate payload with
      | .error raised => w.failed world durationMs finishedAt raised
      | .ok stored => w.succeeded stored durationMs finishedAt

/-! ## Deliveries and reapers -/

/-- What `execute_invocation` returns. -/
inductive Outcome
  | skipped | superseded | failed | succeeded
  deriving DecidableEq, Repr

/-- Where a delivery stands. `stopped` is a process that died or an exception that left the
function. -/
inductive Delivery
  | idle
  | claimed
  | ready (w : Work) (structured : Bool)
  | closing (t : Terminal)
  | retrying (t : Terminal)
  | returned (outcome : Outcome)
  | stopped
  deriving DecidableEq

/-- What becomes of a statement and its commit: stored, stored but answered with an error, or not
stored. -/
inductive Fate
  | stored | lost | unstored
  deriving DecidableEq, Repr

inductive Act
  | claim (now : ℤ) (fate : Fate)
  | rememberColumns (columns : List Text) (total : ℕ)
  | prepare (prompt : Except Raised Prompt) (provider : Except Raised Unit) (durationMs : ℕ)
      (finishedAt : ℤ)
  | call (answer : Except Raised LlmResult) (validate : Json → Except Raised Json)
      (durationMs : ℕ) (finishedAt : ℤ)
  | persist (fate : Fate)
  | persistAgain (finishedAt : ℤ) (fate : Fate)
  | stop
  | reapPending (now thresholdMinutes : ℤ)
  | reapRunning (now thresholdMinutes : ℤ)

/-- The row, and how often the provider was called for it. -/
structure Store where
  row : Row
  calls : ℕ
  deriving DecidableEq

def microsPerMinute : ℤ := 60000000

/-- `internal: result could not be stored`. -/
def unstorable (finishedAt : ℤ) : Terminal where
  status := .failed
  error := some "internal: result could not be stored".toList
  response := none
  contextFingerprint := none
  tokens := none
  durationMs := none
  finishedAt := finishedAt

def pendingReapReason : Text :=
  ("reaped: stuck in pending past the threshold — the dispatch may have been lost" ++
    " before a worker claimed it, or nothing is currently consuming the worker's" ++
    " llm queue (a deploy in progress, or the worker's own backlog), so the" ++
    " message sat unclaimed rather than lost (#1726/#1777)").toList

def runningReapReason : Text :=
  ("reaped: stuck in running past the threshold — the worker may have been killed" ++
    " mid-call, or the provider/warehouse call is simply taking longer than usual" ++
    " (a cold warehouse resume or a wide-table profile can extend this, #1726)").toList

/-- What the reaper's `UPDATE` sets. -/
def reaped (now : ℤ) (reason : Text) : Terminal where
  status := .failed
  error := some reason
  response := none
  contextFingerprint := none
  tokens := none
  durationMs := none
  finishedAt := now

/-- `_persist`: the guarded terminal write, and whether it found the row running. -/
def Row.persist (row : Row) (t : Terminal) : Row × Bool :=
  if row.status = .running then (row.close t, true) else (row, false)

def Status.outcome : Status → Outcome
  | .succeeded => .succeeded
  | _ => .failed

def rememberColumns (row : Row) (columns : List Text) (total : ℕ) : Row :=
  { row with request := some (setField "columns_total".toList (.num (.ofNat total))
      (setField "columns".toList (.arr (columns.map .str)) (row.request.getD []))) }

/-- One statement of a delivery with its commit, or what it does between two of them. -/
def act (world : World) (a : Act) (s : Store) (d : Delivery) : Option (Store × Delivery) :=
  match a, d with
  | .claim now fate, .idle =>
    let claimed := s.row.status = .pending
    let row := if claimed then { s.row with status := .running, startedAt := some now } else s.row
    match fate with
    | .stored => some ({ s with row := row }, if claimed then .claimed else .returned .skipped)
    | .lost => some ({ s with row := row }, .stopped)
    | .unstored => some (s, .stopped)
  | .rememberColumns columns total, .claimed =>
    some ({ s with row := rememberColumns s.row columns total }, .claimed)
  | .prepare prompt provider durationMs finishedAt, .claimed =>
    match prompt with
    | .error raised =>
      some (s, .closing (Work.failed world ⟨none, none⟩ durationMs finishedAt raised))
    | .ok prompt =>
      let w : Work := ⟨some (world.sha256 (prompt.prompt ++ prompt.system.getD [])), none⟩
      match provider with
      | .error raised => some (s, .closing (w.failed world durationMs finishedAt raised))
      | .ok () => some (s, .ready w prompt.structured)
  | .call answer validate durationMs finishedAt, .ready w structured =>
    some ({ s with calls := s.calls + 1 },
      .closing (settle world w structured answer validate durationMs finishedAt))
  | .persist fate, .closing t =>
    let r := s.row.persist t
    match fate with
    | .stored =>
      some ({ s with row := r.1 }, .returned (if r.2 then t.status.outcome else .superseded))
    | .lost => some ({ s with row := r.1 }, .retrying t)
    | .unstored => some (s, .retrying t)
  | .persistAgain finishedAt fate, .retrying _ =>
    let r := s.row.persist (unstorable finishedAt)
    match fate with
    | .stored => some ({ s with row := r.1 }, .returned (if r.2 then .failed else .superseded))
    | .lost => some ({ s with row := r.1 }, .stopped)
    | .unstored => some (s, .stopped)
  | .stop, d => if d = .idle then none else some (s, .stopped)
  | .reapPending now minutes, .idle =>
    if 0 < minutes ∧ s.row.status = .pending ∧
        s.row.createdAt < now - minutes * microsPerMinute then
      some ({ s with row := s.row.close (reaped now pendingReapReason) }, .idle)
    else some (s, .idle)
  | .reapRunning now minutes, .idle =>
    if 0 < minutes ∧ s.row.status = .running ∧
        (s.row.startedAt.any fun started => started < now - minutes * microsPerMinute) = true then
      some ({ s with row := s.row.close (reaped now runningReapReason) }, .idle)
    else some (s, .idle)
  | _, _ => none

abbrev System (ι : Type*) := Config ι Store Delivery

variable {ι : Type*} [DecidableEq ι]

abbrev step (world : World) (c : System ι) (e : ι × Act) : Option (System ι) :=
  Interleaving.step (act world) c e

/-- No delivery has begun. -/
structure Fresh (c : System ι) : Prop where
  idle : ∀ i, c.session i = .idle
  uncalled : c.store.calls = 0

end DataQ.Llm
