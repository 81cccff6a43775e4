import DataQ.Foundations.Locks
import DataQ.Membership.Tables

/-! # What offboarding a user touches

The rows of the six tables the pass reads and writes, the row changes it makes, and the predicates
its queries filter by. Times are in seconds; a credential is live while it is neither revoked nor
expired. -/

namespace DataQ.Offboarding
open DataQ.Locking DataQ.Savepoints
open DataQ.Membership (Role User WorkspaceMember Settings GuardedPc remaining inIdOrder)
set_option autoImplicit false

variable {Address ι : Type*}

inductive Permission
  | view | edit | admin
  deriving DecidableEq, Repr

structure Suite where
  id : ℕ
  createdBy : Option ℕ
  deriving DecidableEq, Repr

structure Share where
  suiteId : ℕ
  userId : ℕ
  permission : Permission
  deriving DecidableEq, Repr

/-- A row of `api_keys` or of `sessions`. -/
structure Credential where
  id : ℕ
  userId : ℕ
  expiresAt : ℕ
  revokedAt : Option ℕ
  deriving DecidableEq, Repr

structure Tables (Address : Type*) where
  users : List (User Address)
  members : List (WorkspaceMember Address)
  suites : List Suite
  shares : List Share
  apiKeys : List Credential
  sessions : List Credential

/-- Neither revoked nor expired. -/
def Credential.live (c : Credential) (now : ℕ) : Bool := c.revokedAt.isNone && now < c.expiresAt

def Tables.userById (t : Tables Address) (id : ℕ) : Option (User Address) :=
  t.users.find? (·.id = id)

def Tables.memberById (t : Tables Address) (id : ℕ) : Option (WorkspaceMember Address) :=
  t.members.find? (·.id = id)

def Tables.suiteById (t : Tables Address) (id : ℕ) : Option Suite := t.suites.find? (·.id = id)

/-- `_owned_suites`, in the order of the table. -/
def Tables.ownedSuites (t : Tables Address) (userId : ℕ) : List ℕ :=
  (t.suites.filter (·.createdBy = some userId)).map Suite.id

/-! ## Row changes -/

def revoke (credentials : List Credential) (id now : ℕ) : List Credential :=
  credentials.map fun c => if c.id = id then { c with revokedAt := some now } else c

/-- The ids of a user's live credentials. -/
def liveIds (credentials : List Credential) (userId now : ℕ) : List ℕ :=
  (credentials.filter fun c => c.userId = userId && c.live now).map Credential.id

/-- What one statement of the pass does to a row. -/
inductive Change
  | deleteShare (suiteId userId : ℕ)
  | insertShare (suiteId userId : ℕ) (permission : Permission)
  | setPermission (suiteId userId : ℕ) (permission : Permission)
  | setOwner (suiteId ownerId : ℕ)
  | revokeKey (keyId revokedAt : ℕ)
  | revokeSession (sessionId revokedAt : ℕ)
  | setRole (userId : ℕ) (role : Role)
  | deleteMember (memberId : ℕ)
  deriving DecidableEq, Repr

def Tables.change (t : Tables Address) : Change → Tables Address
  | .deleteShare suiteId userId =>
    { t with shares := t.shares.filter fun s => !(s.suiteId = suiteId && s.userId = userId) }
  | .insertShare suiteId userId permission =>
    { t with shares := t.shares ++ [{ suiteId, userId, permission }] }
  | .setPermission suiteId userId permission =>
    { t with shares := t.shares.map fun s =>
        if s.suiteId = suiteId ∧ s.userId = userId then { s with permission } else s }
  | .setOwner suiteId ownerId =>
    { t with suites := t.suites.map fun s =>
        if s.id = suiteId then { s with createdBy := some ownerId } else s }
  | .revokeKey keyId revokedAt => { t with apiKeys := revoke t.apiKeys keyId revokedAt }
  | .revokeSession sessionId revokedAt =>
    { t with sessions := revoke t.sessions sessionId revokedAt }
  | .setRole userId role =>
    { t with users := t.users.map fun u => if u.id = userId then { u with role } else u }
  | .deleteMember memberId => { t with members := t.members.filter (·.id ≠ memberId) }

abbrev Tables.changeAll (t : Tables Address) (changes : List Change) : Tables Address :=
  changes.foldl Tables.change t

/-! ## The primitives -/

/-- `resolve_role`. -/
def Settings.resolveRole (settings : Settings Address) (u : User Address) : Role :=
  if u.role = .admin || settings.isAdminEmail u.email then .admin else u.role

/-- `cap_for_viewer`. -/
def capForViewer (level : Permission) (role : Role) : Permission :=
  if role = .viewer then .view else level

/-- What `transfer_ownership` does with the share of the previous owner. -/
def previousOwnerChanges (settings : Settings Address) (t : Tables Address) (suiteId ownerId : ℕ)
    (keepAccess : Bool) : List Change :=
  let existing := t.shares.find? fun s => s.suiteId = suiteId && s.userId = ownerId
  if keepAccess then
    let role := (t.userById ownerId).elim .viewer (Settings.resolveRole settings)
    match existing with
    | none => [.insertShare suiteId ownerId (capForViewer .edit role)]
    | some share => [.setPermission suiteId ownerId (capForViewer share.permission role)]
  else if existing.isSome then [.deleteShare suiteId ownerId]
  else []

/-- `transfer_ownership`: its changes, or `none` where it raises. -/
def transferOwnership (settings : Settings Address) (t : Tables Address) (suiteId newOwnerId : ℕ)
    (keepAccess : Bool) : Option (List Change) :=
  match t.suiteById suiteId, t.userById newOwnerId with
  | some suite, some target =>
    if suite.createdBy = some newOwnerId then none
    else if Settings.resolveRole settings target = .viewer then none
    else
      let handedOver := [.deleteShare suiteId newOwnerId, .setOwner suiteId newOwnerId]
      let kept := suite.createdBy.elim [] fun ownerId =>
        previousOwnerChanges settings (t.changeAll handedOver) suiteId ownerId keepAccess
      some (handedOver ++ kept)
  | _, _ => none

/-- `api_key_service.revoke_all_for_user`. -/
def revokeAllKeys (t : Tables Address) (userId now : ℕ) : List Change :=
  (liveIds t.apiKeys userId now).map fun id => .revokeKey id now

/-- `session_service.revoke_all_for_user`. -/
def revokeAllSessions (t : Tables Address) (userId now : ℕ) : List Change :=
  (liveIds t.sessions userId now).map fun id => .revokeSession id now

section Guarded
variable [DecidableEq Address]

/-- `assert_admin_remains`, on the rows one transaction sees. -/
def Tables.adminRemains (t : Tables Address) (next : GuardedPc Address) : Bool :=
  let admins := (t.users.filter (·.role = .admin)).map fun u => (u.id, u.email)
  let memberIds := t.members.map fun m => (m.email, m.id)
  !(remaining (!t.members.isEmpty) next admins memberIds).isEmpty

/-- `remove_member`: the row's deletion, or `none` where it raises. -/
def removeMember (t : Tables Address) (memberId : ℕ) (actorEmail : Address) (confirmSelf : Bool) :
    Option (List Change) :=
  match t.memberById memberId with
  | none => none
  | some row =>
    if row.email = actorEmail && !confirmSelf then none
    else if (t.users.find? (·.email = row.email)).map User.role = some .admin &&
        !t.adminRemains (.removal memberId) then none
    else some [.deleteMember memberId]

end Guarded

/-! ## What the changes do -/

variable {t : Tables Address} {changes : List Change}

/-- Changes that leave a part of the tables alone leave it alone together. -/
theorem changeAll_keeps {β : Type*} (part : Tables Address → β)
    (h : ∀ c ∈ changes, ∀ t : Tables Address, part (t.change c) = part t) (t : Tables Address) :
    part (t.changeAll changes) = part t := by
  induction changes generalizing t with
  | nil => rfl
  | cons c cs ih =>
    have hrest := ih (fun c' hc' => h c' (List.mem_cons_of_mem c hc')) (t.change c)
    exact hrest.trans (h c List.mem_cons_self t)

/-- No credential of the user is live. -/
def NoneLive (credentials : List Credential) (userId now : ℕ) : Prop :=
  ∀ c ∈ credentials, c.userId = userId → c.live now = false

theorem NoneLive.later {credentials : List Credential} {userId now now' : ℕ}
    (h : NoneLive credentials userId now) (hle : now ≤ now') :
    NoneLive credentials userId now' := by
  intro c hc huser
  have hdead := h c hc huser
  rw [Credential.live, Bool.and_eq_false_iff] at hdead ⊢
  refine hdead.imp_right fun hexpired => ?_
  simp only [decide_eq_false_iff_not, not_lt] at hexpired ⊢
  exact hexpired.trans hle

theorem mem_foldl_revoke {ids : List ℕ} {now : ℕ} {credentials : List Credential} {c : Credential}
    (h : c ∈ ids.foldl (fun cs id => revoke cs id now) credentials) :
    (c ∈ credentials ∧ c.id ∉ ids) ∨ c.revokedAt = some now := by
  induction ids generalizing credentials with
  | nil => exact .inl ⟨h, List.not_mem_nil⟩
  | cons id ids ih =>
    rcases ih h with ⟨hin, hout⟩ | hrevoked
    · obtain ⟨old, hold, heq⟩ := List.mem_map.mp hin
      split at heq
      · exact .inr (heq ▸ rfl)
      · next hid =>
        subst heq
        exact .inl ⟨hold, fun hmem => (List.mem_cons.mp hmem).elim hid hout⟩
    · exact .inr hrevoked

/-- Revoking all of a user's live credentials leaves none live. -/
theorem noneLive_foldl_revoke (credentials : List Credential) (userId now : ℕ) :
    NoneLive ((liveIds credentials userId now).foldl (fun cs id => revoke cs id now) credentials)
      userId now := by
  intro c hc huser
  rcases mem_foldl_revoke hc with ⟨hin, hout⟩ | hrevoked
  · by_contra hlive
    refine hout (List.mem_map_of_mem (List.mem_filter.mpr ⟨hin, ?_⟩))
    simpa [huser] using hlive
  · simp [Credential.live, hrevoked]

theorem revokeAllKeys_apiKeys (t : Tables Address) (ids : List ℕ) (now : ℕ) :
    (t.changeAll (ids.map fun id => .revokeKey id now)).apiKeys =
      ids.foldl (fun cs id => revoke cs id now) t.apiKeys := by
  induction ids generalizing t with
  | nil => rfl
  | cons id ids ih => exact ih (t.change (.revokeKey id now))

theorem revokeAllSessions_sessions (t : Tables Address) (ids : List ℕ) (now : ℕ) :
    (t.changeAll (ids.map fun id => .revokeSession id now)).sessions =
      ids.foldl (fun cs id => revoke cs id now) t.sessions := by
  induction ids generalizing t with
  | nil => rfl
  | cons id ids ih => exact ih (t.change (.revokeSession id now))

theorem revokeAllKeys_keeps (t : Tables Address) (ids : List ℕ) (now : ℕ) :
    (t.changeAll (ids.map fun id => .revokeKey id now)).suites = t.suites ∧
      (t.changeAll (ids.map fun id => .revokeKey id now)).users = t.users := by
  constructor <;> refine changeAll_keeps _ (fun c hc t => ?_) t <;>
  · obtain ⟨id, -, rfl⟩ := List.mem_map.mp hc
    rfl

theorem revokeAllSessions_keeps (t : Tables Address) (ids : List ℕ) (now : ℕ) :
    (t.changeAll (ids.map fun id => .revokeSession id now)).suites = t.suites ∧
      (t.changeAll (ids.map fun id => .revokeSession id now)).users = t.users ∧
      (t.changeAll (ids.map fun id => .revokeSession id now)).apiKeys = t.apiKeys := by
  refine ⟨?_, ?_, ?_⟩ <;> refine changeAll_keeps _ (fun c hc t => ?_) t <;>
  · obtain ⟨id, -, rfl⟩ := List.mem_map.mp hc
    rfl

theorem previousOwnerChanges_keeps (settings : Settings Address) (t u : Tables Address)
    (suiteId ownerId : ℕ) (keepAccess : Bool) :
    (u.changeAll (previousOwnerChanges settings t suiteId ownerId keepAccess)).suites = u.suites ∧
      (u.changeAll (previousOwnerChanges settings t suiteId ownerId keepAccess)).users =
        u.users := by
  unfold previousOwnerChanges
  dsimp only
  split
  · split <;> exact ⟨rfl, rfl⟩
  · split <;> exact ⟨rfl, rfl⟩

/-- A transfer makes the suite's rows the heir's, and changes no user. -/
theorem transferOwnership_spec {settings : Settings Address} {suiteId newOwnerId : ℕ}
    {keepAccess : Bool}
    (h : transferOwnership settings t suiteId newOwnerId keepAccess = some changes) :
    (t.changeAll changes).suites = (t.change (.setOwner suiteId newOwnerId)).suites ∧
      (t.changeAll changes).users = t.users := by
  unfold transferOwnership at h
  split at h
  · next suite target _ _ =>
    split at h
    · cases h
    · split at h
      · cases h
      · cases h
        rw [Tables.changeAll, List.foldl_append]
        cases suite.createdBy with
        | none => exact ⟨rfl, rfl⟩
        | some ownerId => exact previousOwnerChanges_keeps settings _ _ suiteId ownerId keepAccess
  · cases h

theorem userById_setRole {u : User Address} {userId : ℕ} (role : Role)
    (h : t.userById userId = some u) :
    (t.change (.setRole userId role)).userById userId = some { u with role } := by
  have hid : u.id = userId := by simpa using List.find?_some h
  rw [Tables.userById] at h ⊢
  simp only [Tables.change, List.find?_map]
  have hpred : ((fun v : User Address => decide (v.id = userId)) ∘ fun v =>
      if v.id = userId then { v with role } else v) = fun v => decide (v.id = userId) := by
    funext v
    simp only [Function.comp]
    split <;> simp_all
  rw [hpred, h, Option.map_some, if_pos hid]

theorem removeMember_keeps [DecidableEq Address] {memberId : ℕ} {actorEmail : Address}
    {confirmSelf : Bool} (h : removeMember t memberId actorEmail confirmSelf = some changes) :
    changes = [.deleteMember memberId] := by
  unfold removeMember at h
  split at h
  · cases h
  · split at h
    · cases h
    · split at h
      · cases h
      · exact (Option.some.inj h).symm

end DataQ.Offboarding
