import DataQ.Foundations.Transition
import DataQ.Offboarding.Tables

/-! # The pass, and the departing user's requests beside it

`offboard` statement by statement over a transaction with savepoints, and the requests the user may
still have in flight, `create_suite` and `create_key`. An insert that references a user holds the
user's row shared to its commit; `FOR UPDATE` takes it exclusively. -/

namespace DataQ.Offboarding
open DataQ.Locking DataQ.Savepoints DataQ.Interleaving
open DataQ.Membership (Role User WorkspaceMember Settings inIdOrder)
set_option autoImplicit false

variable {Address ι : Type*}

structure Args (Address : Type*) where
  userId : ℕ
  newOwnerId : Option ℕ
  confirmEmail : Address
  actorId : ℕ
  actorEmail : Address
  keepPreviousOwnerAccess : Bool
  deriving DecidableEq

/-- The next statement of `_run`, and of `offboard` after it. -/
inductive Place
  | lockAdmins (todo : List ℕ)
  | lockParty (todo : List ℕ)
  | ownedSuites
  | transfer (todo : List ℕ)
  | revokeKeys
  | revokeSessions
  | demote
  | membership
  | removeMember (memberId : ℕ)
  | finish
  | outerCommit
  deriving DecidableEq, Repr

/-- A row that a request of the user inserts. -/
inductive NewRow
  | suite (createdBy : ℕ)
  | apiKey (userId expiresAt : ℕ)
  deriving DecidableEq, Repr

/-- The users row it references. -/
def NewRow.userId : NewRow → ℕ
  | .suite createdBy => createdBy
  | .apiKey userId _ => userId

inductive Pc (Address : Type*)
  | offboard (args : Args Address)
  | pass (args : Args Address) (user : User Address) (changes : Changes Change) (place : Place)
  | raised
  | committed
  | createSuite (userId : ℕ)
  | createKey (userId expiresInDays : ℕ)
  | insert (row : NewRow)
  | commit (row : NewRow)
  | done

/-- `fail` is an exception in the statement, `tick` a second gone by. -/
inductive Act
  | proceed
  | fail
  | tick
  deriving DecidableEq, Repr

/-- `locks` are those on the rows of `users`. -/
structure Store (ι Address : Type*) where
  tables : Tables Address
  now : ℕ
  nextId : ℕ
  locks : ℕ → Advisory ι

section Locks
variable [DecidableEq ι]

def Store.release (s : Store ι Address) (i : ι) : Store ι Address :=
  { s with locks := fun id => (s.locks id).release i }

/-- `inner.close()` and `db.rollback()`: nothing has been published. -/
def Store.raise (s : Store ι Address) (i : ι) : Option (Store ι Address × Pc Address) :=
  some (s.release i, .raised)

/-- A request of the user is over. -/
def Store.quit (s : Store ι Address) (i : ι) : Option (Store ι Address × Pc Address) :=
  some (s.release i, .done)

/-- `SELECT … FROM users WHERE id = … FOR UPDATE`, or wait. -/
def Store.lockUser (s : Store ι Address) (i : ι) (id : ℕ) (next : Pc Address) :
    Option (Store ι Address × Pc Address) :=
  if (s.locks id).FreeExclusive i then
    some ({ s with locks := Function.update s.locks id ((s.locks id).takeExclusive i) }, next)
  else none

end Locks

/-- The lock an insert takes on the user it references. -/
def Store.referenceUser (s : Store ι Address) (i : ι) (id : ℕ) : Store ι Address :=
  { s with locks := Function.update s.locks id ((s.locks id).takeShared i) }

/-- The row, committed. -/
def Store.insertRow (s : Store ι Address) (row : NewRow) : Store ι Address :=
  let tables := match row with
    | .suite createdBy =>
      { s.tables with suites := s.tables.suites ++ [{ id := s.nextId, createdBy }] }
    | .apiKey userId expiresAt =>
      { s.tables with
        apiKeys := s.tables.apiKeys ++ [{ id := s.nextId, userId, expiresAt, revokedAt := none }] }
  { s with
    tables
    nextId := s.nextId + 1 }

def day : ℕ := 24 * 60 * 60

def maxExpiryDays : ℕ := 365

variable [DecidableEq ι] [DecidableEq Address]

/-- The checks of `_run` after the guard, up to the lock on the party. -/
def Store.afterGuard (s : Store ι Address) (i : ι) (args : Args Address) (user : User Address)
    (changes : Changes Change) : Option (Store ι Address × Pc Address) :=
  if args.confirmEmail ≠ user.email || args.newOwnerId = some args.userId then s.raise i
  else some (s, .pass args user changes (.lockParty (inIdOrder
    ((s.tables.users.map User.id).filter fun id =>
      id = args.userId || some id = args.newOwnerId))))

/-- One statement of the pass. `t` is what the transaction reads. -/
def passAct (settings : Settings Address) (i : ι) (s : Store ι Address) (args : Args Address)
    (user : User Address) (changes : Changes Change) (place : Place) :
    Option (Store ι Address × Pc Address) :=
  let t := changes.view Tables.change s.tables
  match place with
  | .lockAdmins (id :: todo) => s.lockUser i id (.pass args user changes (.lockAdmins todo))
  | .lockAdmins [] =>
    if t.adminRemains (.offboarding args.userId args.newOwnerId args.confirmEmail user.email) then
      s.afterGuard i args user changes
    else s.raise i
  | .lockParty (id :: todo) => s.lockUser i id (.pass args user changes (.lockParty todo))
  | .lockParty [] =>
    match t.userById args.userId with
    | none => s.raise i
    | some refreshed => some (s, .pass args refreshed changes .ownedSuites)
  | .ownedSuites =>
    let suites := t.ownedSuites args.userId
    if !suites.isEmpty && args.newOwnerId.isNone then s.raise i
    else some (s, .pass args user changes (.transfer suites))
  | .transfer (suiteId :: todo) =>
    match args.newOwnerId.bind fun newOwnerId =>
      transferOwnership settings t suiteId newOwnerId args.keepPreviousOwnerAccess with
    | none => s.raise i
    | some transferred =>
      some (s, .pass args user (changes.write transferred).release (.transfer todo))
  | .transfer [] => some (s, .pass args user changes .revokeKeys)
  | .revokeKeys =>
    some (s, .pass args user (changes.write (revokeAllKeys t args.userId s.now)) .revokeSessions)
  | .revokeSessions =>
    some (s, .pass args user (changes.write (revokeAllSessions t args.userId s.now)) .demote)
  | .demote =>
    let demoted := if user.role = .viewer then [] else [.setRole args.userId .viewer]
    some (s, .pass args user (changes.write demoted) .membership)
  | .membership =>
    match t.members.find? (·.email = user.email) with
    | none => some (s, .pass args user changes .finish)
    | some row => some (s, .pass args user changes (.removeMember row.id))
  | .removeMember memberId =>
    match removeMember t memberId args.actorEmail (args.userId = args.actorId) with
    | none => s.raise i
    | some removed => some (s, .pass args user (changes.write removed).release .finish)
  | .finish => some (s, .pass args user changes.release .outerCommit)
  | .outerCommit =>
    some ({ s with tables := changes.publish Tables.change s.tables }.release i, .committed)

/-- The next statement of a session. -/
def proceed (settings : Settings Address) (i : ι) (s : Store ι Address) :
    Pc Address → Option (Store ι Address × Pc Address)
  | .offboard args =>
    match s.tables.userById args.userId with
    | none => s.raise i
    | some user =>
      if user.role = .admin then
        some (s, .pass args user .none (.lockAdmins (inIdOrder
          ((s.tables.users.filter (·.role = .admin)).map User.id))))
      else s.afterGuard i args user .none
  | .pass args user changes place => passAct settings i s args user changes place
  | .createSuite userId => some (s, .insert (.suite userId))
  | .createKey userId expiresInDays =>
    if 1 ≤ expiresInDays ∧ expiresInDays ≤ maxExpiryDays then
      some (s, .insert (.apiKey userId (s.now + expiresInDays * day)))
    else s.quit i
  | .insert row =>
    if (s.locks row.userId).FreeShared i then
      if (s.tables.userById row.userId).isNone then s.quit i
      else some (s.referenceUser i row.userId, .commit row)
    else none
  | .commit row => (s.insertRow row).quit i
  | .raised | .committed | .done => none

/-- An exception rolls the session's transaction back. -/
def failAct (i : ι) (s : Store ι Address) : Pc Address → Option (Store ι Address × Pc Address)
  | .offboard _ | .pass _ _ _ _ => s.raise i
  | .createSuite _ | .createKey _ _ | .insert _ | .commit _ => s.quit i
  | .raised | .committed | .done => none

def act (settings : Settings Address) (i : ι) (a : Act) (s : Store ι Address) (pc : Pc Address) :
    Option (Store ι Address × Pc Address) :=
  match a with
  | .proceed => proceed settings i s pc
  | .fail => failAct i s pc
  | .tick => some ({ s with now := s.now + 1 }, pc)

abbrev World (ι Address : Type*) := Config ι (Store ι Address) (Pc Address)

/-- One statement of the named session. -/
def step (settings : Settings Address) (c : World ι Address) (e : ι × Act) :
    Option (World ι Address) :=
  Interleaving.step (act settings e.1) c e

end DataQ.Offboarding
