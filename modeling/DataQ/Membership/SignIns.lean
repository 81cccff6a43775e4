import DataQ.Membership.Tables

/-! # The sign-ins that write `users`

`_upsert_user` with `_claim_unlinked_user`, for tokens, and the end of `verify_code` with
`resolve_or_create_user`, for e-mailed codes. A token sign-in takes the sign-in lock before its
membership check; a code sign-in checks eligibility, and takes the lock only if it has to create
the row. -/

namespace DataQ.Membership
open DataQ.Locking DataQ.Interleaving
set_option autoImplicit false

variable {Address ι : Type*}

/-- The role a sign-in leaves on a row that exists: `role`, else promote-only. -/
def Settings.roleOnConflict (settings : Settings Address) (email : Address) (role : Option Role)
    (stored : Role) : Role :=
  role.getD (if settings.isAdminEmail email then .admin else stored)

/-- The on-conflict branch of the upsert: `email` and perhaps `role` of the row. -/
def Store.updateUser (s : Store ι Address) (settings : Settings Address) (userId : ℕ)
    (signIn : SignIn Address) : Store ι Address :=
  { s with users := s.users.map fun u =>
      if u.id = userId then
        { u with
          aadObjectId := some signIn.aadObjectId
          email := signIn.email
          role := settings.roleOnConflict signIn.email signIn.role u.role }
      else u }

def Store.insertUser (s : Store ι Address) (aadObjectId : Option ℕ) (email : Address)
    (role : Role) : Store ι Address :=
  { s with
    users := s.users ++ [{ id := s.nextId, aadObjectId, email, role }]
    nextId := s.nextId + 1 }

variable [DecidableEq Address] [DecidableEq ι]

/-- A write to a `users` row, and its commit: it waits while another transaction holds the row. -/
def Store.writeUser (s : Store ι Address) (i : ι) (userId : ℕ) (written : Store ι Address) :
    Option (Store ι Address × Pc Address) :=
  if s.userLocks.Free i userId then some (written.release i, .done) else none

/-- The rest of `_decide` when no row was found and the environment does not grant. -/
def Store.unlistedMayEnter (s : Store ι Address) (settings : Settings Address) (email : Address) :
    Bool :=
  !s.enforcementActive && settings.envVerdict email ≠ .denied

/-- The next statement of a sign-in. -/
def signInAct (settings : Settings Address) (i : ι) (s : Store ι Address) :
    Pc Address → Option (Store ι Address × Pc Address)
  | .lockSignIn signIn =>
    if s.signin.FreeShared i then
      some ({ s with signin := s.signin.takeShared i }, .signInRow signIn)
    else none
  | .signInRow signIn =>
    if settings.devBypassActive then some (s, .upsertUser signIn none)
    else
      let row := s.rowFor signIn.email
      if row.isSome || settings.envVerdict signIn.email = .granted then
        some (s, .upsertUser signIn (row.map WorkspaceMember.initialRole))
      else some (s, .signInSwitch signIn)
  | .signInSwitch signIn =>
    if s.unlistedMayEnter settings signIn.email then some (s, .upsertUser signIn none)
    else s.quit i
  | .upsertUser signIn initialRole =>
    -- `uq_users_email_lower` fails: roll back, try to link the row, and retry once
    let conflict := if signIn.retrying then s.quit i else some (s.release i, .claimUser signIn)
    match s.users.find? (·.aadObjectId = some signIn.aadObjectId) with
    | some u =>
      if s.users.any fun v => v.id ≠ u.id && v.email = signIn.email then conflict
      else s.writeUser i u.id (s.updateUser settings u.id signIn)
    | none =>
      if (s.userByEmail signIn.email).isSome then conflict
      else
        let role := signIn.role.getD (settings.bootstrapRole signIn.email
          (initialRole.getD settings.oidcDefaultRole))
        some ((s.insertUser (some signIn.aadObjectId) signIn.email role).release i, .done)
  | .claimUser signIn =>
    match s.users.find? fun u => u.email = signIn.email && u.aadObjectId.isNone with
    | some u => s.writeUser i u.id (s.updateUser settings u.id signIn)
    | none => some (s.release i, .lockSignIn { signIn with retrying := true })
  | .otpRow email =>
    if settings.devBypassActive || (s.rowFor email).isSome || settings.envVerdict email = .granted
    then some (s, .otpResolve email)
    else some (s, .otpSwitch email)
  | .otpSwitch email =>
    if s.unlistedMayEnter settings email then some (s, .otpResolve email) else s.quit i
  | .otpResolve email =>
    match s.userByEmail email with
    | some u => some (s, .otpTouch u.id (settings.isAdminEmail email && u.role ≠ .admin))
    | none => some (s, .otpLock email)
  | .otpTouch userId promote =>
    s.writeUser i userId (if promote then s.setRole userId .admin else s)
  | .otpLock email =>
    if s.signin.FreeShared i then
      some ({ s with signin := s.signin.takeShared i }, .otpInitialRole email)
    else none
  | .otpInitialRole email =>
    some (s, .otpInsert email ((s.rowFor email).map WorkspaceMember.initialRole))
  | .otpInsert email initialRole =>
    if (s.userByEmail email).isSome then s.quit i
    else
      let role := settings.bootstrapRole email (initialRole.getD settings.otpDefaultRole)
      some ((s.insertUser none email role).release i, .done)
  | _ => none

/-- The statements of a sign-in, past its first. -/
def Pc.ofSignIn : Pc Address → Bool
  | .lockSignIn _ | .signInRow _ | .signInSwitch _ | .upsertUser _ _ | .claimUser _ | .otpRow _
  | .otpSwitch _ | .otpResolve _ | .otpTouch _ _ | .otpLock _ | .otpInitialRole _
  | .otpInsert _ _ => true
  | _ => false

def Pc.running : Pc Address → Bool
  | .start _ | .done => false
  | _ => true

/-- One statement of session `i`. -/
def act (settings : Settings Address) (i : ι) (a : Act) (s : Store ι Address) (pc : Pc Address) :
    Option (Store ι Address × Pc Address) :=
  match a with
  | .fail => if pc.running then s.quit i else none
  | .proceed => if pc.ofSignIn then signInAct settings i s pc else adminAct settings i s pc

abbrev World (ι Address : Type*) := Config ι (Store ι Address) (Pc Address)

/-- One statement of the named session. -/
def step (settings : Settings Address) (c : World ι Address) (e : ι × Act) :
    Option (World ι Address) :=
  Interleaving.step (act settings e.1) c e

end DataQ.Membership
