import Mathlib.Data.List.MinMax
import Mathlib.Data.List.Sort
import Mathlib.Data.Prod.Lex
import DataQ.Foundations.HashChain

/-! # The audit chain

`services/audit_chain.py` and the purge loop of `audit_read_service.purge_expired_events` over the
`audit_events`, `audit_chain_checkpoints` and `audit_chain_state` tables. `digest prev content` is
the row hash: SHA-256 of the canonical JSON of the hashed columns and the previous hash. Rows stand
in the table in the order they were inserted, which no statement relies on; ids are compared as the
database compares UUIDs. -/

namespace DataQ.Audit
open DataQ.HashChain
set_option autoImplicit false

/-- An `audit_events` row; `body` is the hashed columns other than `id` and `occurred_at`. -/
structure AuditEvent (γ η : Type) where
  id : ℕ
  occurredAt : ℕ
  body : γ
  prevHash : Option η
  rowHash : Option η
  deriving DecidableEq, Repr

/-- An event as `record()` adds it; the flush gives it its transaction's `now()`. -/
structure Draft (γ : Type) where
  id : ℕ
  body : γ
  deriving DecidableEq, Repr

structure AuditChainCheckpoint (η : Type) where
  cutoff : ℕ
  deletedCount : ℕ
  lastDeletedEventId : ℕ
  lastDeletedRowHash : Option η
  firstSurvivingEventId : Option ℕ
  deriving DecidableEq, Repr

structure AuditDb (γ η : Type) where
  events : List (AuditEvent γ η)
  checkpoints : List (AuditChainCheckpoint η)
  headHash : Option η
  headEventId : Option ℕ
  deriving DecidableEq, Repr

variable {γ η : Type}

def AuditDb.empty : AuditDb γ η := ⟨[], [], none, none⟩

def AuditEvent.canonical (e : AuditEvent γ η) : ℕ × ℕ × γ := (e.id, e.occurredAt, e.body)

def AuditEvent.hashed (e : AuditEvent γ η) : Bool := e.rowHash.isSome

/-- The rows a `row_hash IS NOT NULL` query returns. -/
def AuditDb.hashed (db : AuditDb γ η) : List (AuditEvent γ η) := db.events.filter (·.hashed)

variable (digest : Option η → ℕ × ℕ × γ → η)

def computeRowHash (e : AuditEvent γ η) (prevHash : Option η) : η := digest prevHash e.canonical

/-! ## Committing events -/

/-- `pending`: the new objects and then the recorded ones, each once. -/
def pendingEvents (new recorded : List (Draft γ)) : List (Draft γ) :=
  (new ++ recorded).foldl
    (fun pending d => if pending.any (·.id = d.id) then pending else pending ++ [d]) []

/-- `session.flush(pending)` in a transaction that started at `now`. -/
def flushPending (now : ℕ) (pending : List (Draft γ)) : List (AuditEvent γ η) :=
  pending.map fun d => ⟨d.id, now, d.body, none, none⟩

/-- The hashing loop: each event names the head and becomes it. -/
def chainOnto : Option η → List (AuditEvent γ η) → List (AuditEvent γ η)
  | _, [] => []
  | head, e :: es =>
    let rowHash := computeRowHash digest e head
    { e with prevHash := head, rowHash := some rowHash } :: chainOnto (some rowHash) es

/-- A commit with `_chain_pending_audit_events`, under the lock on the head. -/
def commitEvents (db : AuditDb γ η) (now : ℕ) (new recorded : List (Draft γ)) : AuditDb γ η :=
  let pending := (flushPending now (pendingEvents new recorded)).insertionSort
    fun a b => a.occurredAt ≤ b.occurredAt
  let rows := chainOnto digest db.headHash pending
  { db with
    events := db.events ++ rows
    headHash := tip AuditEvent.rowHash db.headHash rows
    headEventId := tip (fun e => some e.id) db.headEventId rows }

/-! ## Verifying -/

structure ChainBreak (η : Type) where
  eventId : ℕ
  occurredAt : Option ℕ
  expectedPrevHash : Option η
  actualPrevHash : Option η
  deriving DecidableEq, Repr

structure ChainVerification (η : Type) where
  verifiedCount : ℕ
  unverifiableLegacyCount : ℕ
  chainHeadHash : Option η
  firstBreak : Option (ChainBreak η)
  deriving DecidableEq, Repr

/-- The rows the loop of `verify_chain` has verified, newest first, and how it left the loop. -/
structure Walk (γ η : Type) where
  visited : List (AuditEvent γ η)
  firstBreak : Option (ChainBreak η)
  finished : Bool

def Walk.visit (e : AuditEvent γ η) (w : Walk γ η) : Walk γ η := { w with visited := e :: w.visited }

variable [DecidableEq η]

/-- `by_hash`: a later row of the query wins. -/
def AuditDb.byHash (db : AuditDb γ η) (h : η) : Option (AuditEvent γ η) :=
  db.hashed.reverse.find? (·.rowHash = some h)

/-- `boundary.get`: a later checkpoint wins. -/
def AuditDb.boundary (db : AuditDb γ η) (id : ℕ) : Option η :=
  (db.checkpoints.reverse.find? fun cp =>
    cp.firstSurvivingEventId = some id && cp.lastDeletedRowHash.isSome).bind (·.lastDeletedRowHash)

def AuditDb.get (db : AuditDb γ η) (id : ℕ) : Option (AuditEvent γ η) :=
  db.events.find? (·.id = id)

/-- The walk ends at this row: genesis, or a documented purge boundary. -/
def AuditDb.stopsAt (db : AuditDb γ η) (e : AuditEvent γ η) : Bool :=
  e.prevHash = none || db.boundary e.id = e.prevHash

/-- The break a pointer to no live row is reported as. -/
def AuditDb.danglingBreak (db : AuditDb γ η) (blameId : Option ℕ) (currentHash : η) :
    Option (ChainBreak η) :=
  blameId.map fun id => ⟨id, (db.get id).map (·.occurredAt), some currentHash, none⟩

/-- The loop of `verify_chain`, for at most `fuel` rows. -/
def AuditDb.walk (db : AuditDb γ η) : (fuel : ℕ) → Option η → Option ℕ → Walk γ η
  | _, none, _ => ⟨[], none, true⟩
  | 0, some _, _ => ⟨[], none, false⟩
  | fuel + 1, some currentHash, blameId =>
    match db.byHash currentHash with
    | none => ⟨[], db.danglingBreak blameId currentHash, true⟩
    | some row =>
      if some (computeRowHash digest row row.prevHash) ≠ row.rowHash then
        ⟨[], some ⟨row.id, some row.occurredAt, row.prevHash, row.rowHash⟩, true⟩
      else if db.stopsAt row then ⟨[row], none, true⟩
      else (AuditDb.walk db fuel row.prevHash (some row.id)).visit row

/-- `verify_chain`, if its loop ends within `fuel` rows. -/
def verifyChain (fuel : ℕ) (db : AuditDb γ η) : Option (ChainVerification η) :=
  let walk := db.walk digest fuel db.headHash db.headEventId
  if walk.finished then
    some
      { verifiedCount := walk.visited.length
        unverifiableLegacyCount := db.events.countP (!·.hashed)
        chainHeadHash := db.headHash
        firstBreak := walk.firstBreak }
  else none

/-! ## Purging -/

/-- `occurred_at < cutoff`. -/
def AuditEvent.expired (cutoff : ℕ) (e : AuditEvent γ η) : Bool := e.occurredAt < cutoff

/-- The `(occurred_at, id)` both boundary queries order by. -/
def AuditEvent.purgeOrder (e : AuditEvent γ η) : ℕ ×ₗ ℕ := toLex (e.occurredAt, e.id)

omit [DecidableEq η]

def AuditDb.lastDeleted (db : AuditDb γ η) (cutoff : ℕ) : Option (AuditEvent γ η) :=
  (db.events.filter (·.expired cutoff)).argmax AuditEvent.purgeOrder

def AuditDb.deletedCount (db : AuditDb γ η) (cutoff : ℕ) : ℕ := db.events.countP (·.expired cutoff)

def AuditDb.firstSurviving (db : AuditDb γ η) (cutoff : ℕ) : Option (AuditEvent γ η) :=
  (db.events.filter (!·.expired cutoff)).argmin AuditEvent.purgeOrder

/-- The last statements of `write_purge_checkpoint`: reset the head under its lock when nothing
survives, and insert the checkpoint. -/
def AuditDb.insertCheckpoint (db : AuditDb γ η) (cutoff : ℕ) (lastDeleted : AuditEvent γ η)
    (deletedCount : ℕ) (firstSurviving : Option (AuditEvent γ η)) : AuditDb γ η :=
  { db with
    headHash := if firstSurviving.isNone then none else db.headHash
    headEventId := if firstSurviving.isNone then none else db.headEventId
    checkpoints := db.checkpoints ++
      [⟨cutoff, deletedCount, lastDeleted.id, lastDeleted.rowHash, firstSurviving.map (·.id)⟩] }

/-- `write_purge_checkpoint` and its commit, with no other session in between. -/
def AuditDb.writePurgeCheckpoint (db : AuditDb γ η) (cutoff : ℕ) : AuditDb γ η :=
  match db.lastDeleted cutoff with
  | none => db
  | some l => db.insertCheckpoint cutoff l (db.deletedCount cutoff) (db.firstSurviving cutoff)

def chunkSize : ℕ := 500

def AuditDb.chunk (db : AuditDb γ η) (cutoff : ℕ) : List ℕ :=
  (((db.events.filter (·.expired cutoff)).insertionSort
    fun a b => a.occurredAt ≤ b.occurredAt).take chunkSize).map (·.id)

def AuditDb.deleteChunk (db : AuditDb γ η) (cutoff : ℕ) : AuditDb γ η :=
  { db with events := db.events.filter fun e => !(e.expired cutoff && (db.chunk cutoff).contains e.id) }

/-- The purge loop: it ends with the first `DELETE` that affects no row. -/
def AuditDb.deleteExpired (cutoff : ℕ) : (fuel : ℕ) → AuditDb γ η → Option (AuditDb γ η)
  | 0, _ => none
  | fuel + 1, db =>
    let after := db.deleteChunk cutoff
    if after.events.length = db.events.length then some after
    else AuditDb.deleteExpired cutoff fuel after

/-- `purge_expired_events` at the cutoff its retention gives. -/
def purgeExpiredEvents (db : AuditDb γ η) (cutoff : ℕ) : Option (AuditDb γ η) :=
  (db.writePurgeCheckpoint cutoff).deleteExpired cutoff (db.events.length + 1)

end DataQ.Audit
