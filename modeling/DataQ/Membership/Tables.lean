import DataQ.Foundations.Transition
import DataQ.Foundations.Locks
import Mathlib.Data.List.Sort

/-! # The two tables of the workspace's door

`users` and `workspace_members`, the environment's allowlists, and the predicate every door reads
(`membership_service._decide`). Addresses are taken as `normalize_email` leaves them: every path
that stores or looks up one normalises it first, and both tables are unique on it. -/

namespace DataQ.Membership
open DataQ.Locking
set_option autoImplicit false

inductive Role
  | admin | member | viewer
  deriving DecidableEq, Repr

inductive MemberSource
  | admin | autoImport
  deriving DecidableEq, Repr

structure User (Address : Type*) where
  id : ℕ
  aadObjectId : Option ℕ
  email : Address
  role : Role
  deriving DecidableEq, Repr

structure WorkspaceMember (Address : Type*) where
  id : ℕ
  email : Address
  initialRole : Role
  source : MemberSource
  invitedBy : Option ℕ
  deriving DecidableEq, Repr

inductive EnvVerdict
  | granted | denied | noAllowlist
  deriving DecidableEq, Repr

/-- What the deployment's environment fixes. `gates` are the allowlists of the configured modes,
`usable` is the form `_validate_email` accepts. -/
structure Settings (Address : Type*) where
  devBypassActive : Bool
  isAdminEmail : Address → Bool
  gates : List (Address → Bool)
  usable : Address → Bool
  devBypassOid : ℕ
  devBypassEmail : Address
  oidcDefaultRole : Role
  otpDefaultRole : Role

variable {Address ι : Type*}

def Settings.envVerdict (settings : Settings Address) (email : Address) : EnvVerdict :=
  if settings.isAdminEmail email || settings.gates.any (· email) then .granted
  else if settings.gates.isEmpty then .noAllowlist
  else .denied

/-- `bootstrap_role`. -/
def Settings.bootstrapRole (settings : Settings Address) (email : Address) (default : Role) :
    Role :=
  if settings.isAdminEmail email then .admin else default

/-- The rows, and the locks transactions hold on them. `nextId` is the supply of fresh ids. -/
structure Store (ι Address : Type*) where
  users : List (User Address)
  members : List (WorkspaceMember Address)
  nextId : ℕ
  userLocks : Locks ℕ ι
  memberLocks : Locks ℕ ι
  signin : Advisory ι

/-- `select(exists().select_from(WorkspaceMember))`. -/
def Store.enforcementActive (s : Store ι Address) : Bool := !s.members.isEmpty

def Store.userById (s : Store ι Address) (id : ℕ) : Option (User Address) :=
  s.users.find? (·.id = id)

def Store.memberById (s : Store ι Address) (id : ℕ) : Option (WorkspaceMember Address) :=
  s.members.find? (·.id = id)

variable [DecidableEq Address]

/-- `_row_for`. -/
def Store.rowFor (s : Store ι Address) (email : Address) : Option (WorkspaceMember Address) :=
  s.members.find? (·.email = email)

def Store.userByEmail (s : Store ι Address) (email : Address) : Option (User Address) :=
  s.users.find? (·.email = email)

/-- `_stored_role`. -/
def Store.storedRole (s : Store ι Address) (email : Address) : Option Role :=
  (s.userByEmail email).map User.role

/-- `is_member`, on one committed state of the tables. -/
def Store.isMember (s : Store ι Address) (settings : Settings Address) (email : Address) : Bool :=
  settings.devBypassActive || (s.rowFor email).isSome || settings.envVerdict email = .granted ||
    (!s.enforcementActive && settings.envVerdict email ≠ .denied)

/-- The database's own constraints on the two tables. -/
structure Store.WellFormed (s : Store ι Address) : Prop where
  userIds : (s.users.map User.id).Nodup
  userEmails : (s.users.map User.email).Nodup
  memberIds : (s.members.map WorkspaceMember.id).Nodup
  memberEmails : (s.members.map WorkspaceMember.email).Nodup
  usersFresh : ∀ u ∈ s.users, u.id < s.nextId
  membersFresh : ∀ m ∈ s.members, m.id < s.nextId

/-- Some stored-role admin can still come in. -/
def Store.UsableAdmin (s : Store ι Address) : Prop :=
  ∃ u ∈ s.users, u.role = .admin ∧ (s.members = [] ∨ ∃ m ∈ s.members, m.email = u.email)

/-- Nobody holds a lock. -/
def Store.Idle (s : Store ι Address) : Prop :=
  s.userLocks = Locks.none ∧ s.memberLocks = Locks.none ∧ s.signin = Advisory.none

end DataQ.Membership

/-! # The transactions that move the door

`set_user_role`, `add_member`, `remove_member`, `confirm_member` and `offboard`, each as the
statements its transaction issues, with the cross-table guard `assert_admin_remains` as a
subprogram of three of them. Every statement reads the tables as they are committed at that moment
(read committed); a `SELECT … FOR UPDATE` over several rows fixes the ids it will visit, then locks
row by row in id order, waiting for whoever holds the next one and dropping a row that no longer
matches. A write is taken together with the commit that publishes it: until then only its own
transaction could see it. -/

namespace DataQ.Membership
open DataQ.Locking
set_option autoImplicit false

variable {Address ι : Type*}

inductive Request (Address : Type*)
  | setUserRole (userId : ℕ) (newRole : Role) (actorId : ℕ) (confirmSelf : Bool)
  | addMember (email : Address) (initialRole : Role) (actorId : ℕ)
  | removeMember (memberId : ℕ) (actorEmail : Address) (confirmSelf : Bool)
  | confirmMember (memberId actorId : ℕ)
  | offboard (userId : ℕ) (newOwnerId : Option ℕ) (confirmEmail : Address)
  | tokenSignIn (aadObjectId : ℕ) (email : Address) (role : Option Role)
  | otpSignIn (email : Address)

/-- Where `assert_admin_remains` stands. -/
inductive GuardPc (Address : Type*)
  | selectAdmins
  | lockAdmins (todo : List ℕ) (admins : List (ℕ × Address))
  | selectMembers (admins : List (ℕ × Address))
  | lockMembers (todo : List ℕ) (admins : List (ℕ × Address)) (memberIds : List (Address × ℕ))

/-- What called the guard, and goes on if it passes. -/
inductive GuardedPc (Address : Type*)
  | roleChange (userId : ℕ) (newRole : Role) (actorId : ℕ) (confirmSelf : Bool)
  | removal (memberId : ℕ)
  | offboarding (userId : ℕ) (newOwnerId : Option ℕ) (confirmEmail email : Address)

/-- What a sign-in door has in hand while it decides. -/
structure SignIn (Address : Type*) where
  aadObjectId : ℕ
  email : Address
  role : Option Role
  retrying : Bool

/-- The next statement of a session. `guarded` says whether the last-admin guard has run. -/
inductive Pc (Address : Type*)
  | start (request : Request Address)
  | guard (guard : GuardPc Address) (next : GuardedPc Address)
  | lockTarget (held : User Address) (newRole : Role) (actorId : ℕ) (confirmSelf : Bool)
  | writeRole (userId : ℕ) (newRole : Role)
  | storedRole (memberId : ℕ) (email : Address)
  | lockRemoved (memberId : ℕ) (guarded : Bool)
  | deleteMember (memberId : ℕ) (guarded : Bool)
  | lockConfirmed (memberId actorId : ℕ)
  | writeConfirmed (memberId actorId : ℕ) (source : MemberSource)
  | selectParty (userId : ℕ) (newOwnerId : Option ℕ) (guarded : Bool)
  | lockParty (userId : ℕ) (todo : List ℕ) (guarded : Bool)
  | refreshUser (userId : ℕ) (guarded : Bool)
  | membership (userId : ℕ) (email : Address) (guarded : Bool)
  | lockOffboarded (userId memberId : ℕ) (guarded : Bool)
  | finishOffboard (userId : ℕ) (memberId : Option ℕ) (guarded : Bool)
  | lockSwitch (email : Address) (initialRole : Role) (actorId : ℕ)
  | checkAbsent (email : Address) (initialRole : Role) (actorId : ℕ)
  | readSwitch (email : Address) (initialRole : Role) (actorId : ℕ)
  | autoImport (email : Address) (initialRole : Role) (actorId : ℕ)
  | insertMember (imported : Option (List (Address × Role))) (email : Address)
      (initialRole : Role) (actorId : ℕ)
  | lockSignIn (signIn : SignIn Address)
  | signInRow (signIn : SignIn Address)
  | signInSwitch (signIn : SignIn Address)
  | upsertUser (signIn : SignIn Address) (initialRole : Option Role)
  | claimUser (signIn : SignIn Address)
  | otpRow (email : Address)
  | otpSwitch (email : Address)
  | otpResolve (email : Address)
  | otpTouch (userId : ℕ) (promote : Bool)
  | otpLock (email : Address)
  | otpInitialRole (email : Address)
  | otpInsert (email : Address) (initialRole : Option Role)
  | done

/-- `fail` is an exception anywhere in the request: the transaction rolls back. -/
inductive Act
  | proceed
  | fail
  deriving DecidableEq, Repr

def GuardedPc.excludeUser : GuardedPc Address → Option ℕ
  | .roleChange userId _ _ _ | .offboarding userId _ _ _ => some userId
  | .removal _ => none

def GuardedPc.excludeMember : GuardedPc Address → Option ℕ
  | .removal memberId => some memberId
  | _ => none

section Locks
variable [DecidableEq ι]

def Store.release (s : Store ι Address) (i : ι) : Store ι Address :=
  { s with
    userLocks := s.userLocks.release i
    memberLocks := s.memberLocks.release i
    signin := s.signin.release i }

/-- The transaction is over without having written. -/
def Store.quit (s : Store ι Address) (i : ι) : Option (Store ι Address × Pc Address) :=
  some (s.release i, .done)

/-- `SELECT … FROM users WHERE id = … FOR UPDATE`, or wait. -/
def Store.lockUser (s : Store ι Address) (i : ι) (id : ℕ) (next : Pc Address) :
    Option (Store ι Address × Pc Address) :=
  if s.userLocks.Free i id then some ({ s with userLocks := s.userLocks.take i id }, next) else none

def Store.lockMember (s : Store ι Address) (i : ι) (id : ℕ) (next : Pc Address) :
    Option (Store ι Address × Pc Address) :=
  if s.memberLocks.Free i id then some ({ s with memberLocks := s.memberLocks.take i id }, next)
  else none

/-- `_locked_member`: the row, locked, or the 404 that ends the request. -/
def Store.lockedMember (s : Store ι Address) (i : ι) (id : ℕ)
    (next : WorkspaceMember Address → Pc Address) : Option (Store ι Address × Pc Address) :=
  match s.memberById id with
  | none => s.quit i
  | some row => s.lockMember i id (next row)

end Locks

/-! ## The writes -/

def Store.setRole (s : Store ι Address) (userId : ℕ) (role : Role) : Store ι Address :=
  { s with users := s.users.map fun u => if u.id = userId then { u with role := role } else u }

def Store.deleteMember (s : Store ι Address) (memberId : ℕ) : Store ι Address :=
  { s with members := s.members.filter (·.id ≠ memberId) }

def Store.confirm (s : Store ι Address) (memberId actorId : ℕ) : Store ι Address :=
  { s with members := s.members.map fun m =>
      if m.id = memberId then { m with source := .admin, invitedBy := some actorId } else m }

/-- The rows of `_auto_import`, with the ids from `nextId` on. -/
def importedRows (nextId : ℕ) : List (Address × Role) → List (WorkspaceMember Address)
  | [] => []
  | (email, role) :: rest =>
    { id := nextId, email, initialRole := role, source := .autoImport, invitedBy := none } ::
      importedRows (nextId + 1) rest

/-- The import and the added row, in one commit. -/
def Store.insertMembers (s : Store ι Address) (imported : List (Address × Role)) (email : Address)
    (initialRole : Role) (actorId : ℕ) : Store ι Address :=
  { s with
    members := s.members ++ importedRows s.nextId imported ++
      [{ id := s.nextId + imported.length, email, initialRole, source := .admin,
         invitedBy := some actorId }]
    nextId := s.nextId + imported.length + 1 }

variable [DecidableEq Address]

/-- The loop of `_auto_import`: the addresses to admit, with the roles their rows seed. -/
def autoImport (seen : List Address) : List (User Address) → List (Address × Role)
  | [] => []
  | u :: users =>
    if seen.contains u.email then autoImport seen users
    else (u.email, u.role) :: autoImport (u.email :: seen) users

/-! ## `assert_admin_remains` -/

/-- The ids a multi-row `SELECT … ORDER BY id FOR UPDATE` will visit. -/
def inIdOrder (ids : List ℕ) : List ℕ := ids.insertionSort (· ≤ ·)

/-- The admins the guard counts: not the excluded one and, while membership is enforced, with a
row that is not the excluded one. -/
def remaining (enforced : Bool) (next : GuardedPc Address) (admins : List (ℕ × Address))
    (memberIds : List (Address × ℕ)) : List (ℕ × Address) :=
  admins.filter fun (userId, email) =>
    some userId ≠ next.excludeUser && (!enforced ||
      ((memberIds.lookup email).any fun memberId => some memberId ≠ next.excludeMember))

variable [DecidableEq ι]

/-- What follows the guard: the rest of the caller's checks, up to its next statement. -/
def Store.afterGuard (s : Store ι Address) (i : ι) :
    GuardedPc Address → Option (Store ι Address × Pc Address)
  | .roleChange userId newRole actorId confirmSelf =>
    if userId = actorId && !confirmSelf then s.quit i else some (s, .writeRole userId newRole)
  | .removal memberId => some (s, .lockRemoved memberId true)
  | .offboarding userId newOwnerId confirmEmail email =>
    if confirmEmail ≠ email || newOwnerId = some userId then s.quit i
    else some (s, .selectParty userId newOwnerId true)

/-- `if remaining == 0: raise`. -/
def Store.decide (s : Store ι Address) (i : ι) (enforced : Bool) (next : GuardedPc Address)
    (admins : List (ℕ × Address)) (memberIds : List (Address × ℕ)) :
    Option (Store ι Address × Pc Address) :=
  if (remaining enforced next admins memberIds).isEmpty then s.quit i else s.afterGuard i next

def guardAct (i : ι) (s : Store ι Address) (next : GuardedPc Address) :
    GuardPc Address → Option (Store ι Address × Pc Address)
  | .selectAdmins =>
    some (s, .guard (.lockAdmins
      (inIdOrder ((s.users.filter (·.role = .admin)).map User.id)) []) next)
  | .lockAdmins (id :: todo) admins =>
    match (s.userById id).filter (·.role = .admin) with
    | none =>
      if s.userLocks.Free i id then some (s, .guard (.lockAdmins todo admins) next) else none
    | some u => s.lockUser i id (.guard (.lockAdmins todo (admins ++ [(id, u.email)])) next)
  | .lockAdmins [] admins =>
    -- `enforcement_active`, a statement of its own
    if s.enforcementActive && !admins.isEmpty then some (s, .guard (.selectMembers admins) next)
    else s.decide i s.enforcementActive next admins []
  | .selectMembers admins =>
    some (s, .guard (.lockMembers
      (inIdOrder ((s.members.filter fun m => (admins.map Prod.snd).contains m.email).map
        WorkspaceMember.id)) admins []) next)
  | .lockMembers (id :: todo) admins memberIds =>
    match s.memberById id with
    | none => some (s, .guard (.lockMembers todo admins memberIds) next)
    | some m =>
      s.lockMember i id (.guard (.lockMembers todo admins ((m.email, id) :: memberIds)) next)
  | .lockMembers [] admins memberIds => s.decide i true next admins memberIds

/-! ## The requests -/

/-- The first statement of a request, with the checks around it. -/
def startAct (settings : Settings Address) (i : ι) (s : Store ι Address) :
    Request Address → Option (Store ι Address × Pc Address)
  | .setUserRole userId newRole actorId confirmSelf =>
    match s.userById userId with
    | none => s.quit i
    | some held => some (s, .lockTarget held newRole actorId confirmSelf)
  | .addMember email initialRole actorId =>
    if settings.usable email then some (s, .lockSwitch email initialRole actorId) else s.quit i
  | .removeMember memberId actorEmail confirmSelf =>
    match s.memberById memberId with
    | none => s.quit i
    | some row =>
      if row.email = actorEmail && !confirmSelf then s.quit i
      else some (s, .storedRole memberId row.email)
  | .confirmMember memberId actorId => some (s, .lockConfirmed memberId actorId)
  | .offboard userId newOwnerId confirmEmail =>
    match s.userById userId with
    | none => s.quit i
    | some user =>
      if user.role = .admin then
        some (s, .guard .selectAdmins (.offboarding userId newOwnerId confirmEmail user.email))
      else if confirmEmail ≠ user.email || newOwnerId = some userId then s.quit i
      else some (s, .selectParty userId newOwnerId false)
  | .tokenSignIn aadObjectId email role =>
    some (s, .lockSignIn { aadObjectId, email, role, retrying := false })
  | .otpSignIn email => some (s, .otpRow email)

/-- The next statement of an admin's request. -/
def adminAct (settings : Settings Address) (i : ι) (s : Store ι Address) :
    Pc Address → Option (Store ι Address × Pc Address)
  | .start request => startAct settings i s request
  | .guard guard next => guardAct i s next guard
  | .lockTarget held newRole actorId confirmSelf =>
    -- `held` is the identity-mapped object: the locking statement does not refresh it.
    if ¬ s.userLocks.Free i held.id then none
    else if held.role = newRole then s.quit i
    else if held.aadObjectId = some settings.devBypassOid || held.email = settings.devBypassEmail
    then s.quit i
    else if newRole = .admin then s.lockUser i held.id (.writeRole held.id newRole)
    else s.lockUser i held.id
      (.guard .selectAdmins (.roleChange held.id newRole actorId confirmSelf))
  | .writeRole userId newRole => some ((s.setRole userId newRole).release i, .done)
  | .storedRole memberId email =>
    if s.storedRole email = some .admin then some (s, .guard .selectAdmins (.removal memberId))
    else some (s, .lockRemoved memberId false)
  | .lockRemoved memberId guarded =>
    s.lockedMember i memberId fun _ => .deleteMember memberId guarded
  | .deleteMember memberId _ => some ((s.deleteMember memberId).release i, .done)
  | .lockConfirmed memberId actorId =>
    s.lockedMember i memberId fun row => .writeConfirmed memberId actorId row.source
  | .writeConfirmed memberId actorId source =>
    if source = .admin then s.quit i else some ((s.confirm memberId actorId).release i, .done)
  | .selectParty userId newOwnerId guarded =>
    some (s, .lockParty userId (inIdOrder ((s.users.map User.id).filter fun id =>
      id = userId || some id = newOwnerId)) guarded)
  | .lockParty userId (id :: todo) guarded => s.lockUser i id (.lockParty userId todo guarded)
  | .lockParty userId [] guarded => some (s, .refreshUser userId guarded)
  | .refreshUser userId guarded =>
    match s.userById userId with
    | none => s.quit i
    | some user => some (s, .membership userId user.email guarded)
  | .membership userId email guarded =>
    match s.rowFor email with
    | none => some (s, .finishOffboard userId none guarded)
    | some row => some (s, .lockOffboarded userId row.id guarded)
  | .lockOffboarded userId memberId guarded =>
    -- `remove_member` inside the pass: its `_stored_role` reads the viewer just written.
    s.lockedMember i memberId fun _ => .finishOffboard userId (some memberId) guarded
  | .finishOffboard userId memberId _ =>
    let demoted := s.setRole userId .viewer
    some ((memberId.elim demoted demoted.deleteMember).release i, .done)
  | .lockSwitch email initialRole actorId =>
    if s.signin.FreeExclusive i then
      some ({ s with signin := s.signin.takeExclusive i }, .checkAbsent email initialRole actorId)
    else none
  | .checkAbsent email initialRole actorId =>
    if (s.rowFor email).isSome then s.quit i else some (s, .readSwitch email initialRole actorId)
  | .readSwitch email initialRole actorId =>
    if s.enforcementActive then some (s, .insertMember none email initialRole actorId)
    else some (s, .autoImport email initialRole actorId)
  | .autoImport email initialRole actorId =>
    some (s, .insertMember (some (autoImport [email] s.users)) email initialRole actorId)
  | .insertMember imported email initialRole actorId =>
    let rows := imported.getD []
    -- `uq_workspace_members_email_lower`
    if s.members.any fun m => m.email = email || (rows.map Prod.fst).contains m.email then s.quit i
    else some ((s.insertMembers rows email initialRole actorId).release i, .done)
  | _ => none

end DataQ.Membership
