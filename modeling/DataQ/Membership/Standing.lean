import DataQ.Membership.Statements

/-! # What a session knows before its next statement

The locks a request holds, the rows it has seen and what it read of them; all of it stays true
while the other sessions run. `remove_member` and `offboard` call `assert_admin_remains` only if
the role they read beforehand, without a lock, was admin: `guardMissed` is the statement that takes
the locks although that role has become admin since. -/

namespace DataQ.Membership
open DataQ.Locking DataQ.Interleaving DataQ.Transition
set_option autoImplicit false

variable {Address ι : Type*}

/-- The five requests of the workspace's administrators. -/
def Request.administrative : Request Address → Bool
  | .tokenSignIn _ _ _ | .otpSignIn _ => false
  | _ => true

section Decidable
variable [DecidableEq Address]

/-- The locks are taken unguarded, although the address or user is an admin by now. -/
def guardMissed (s : Store ι Address) : Pc Address → Bool
  | .lockRemoved memberId false =>
    (s.memberById memberId).any fun m => s.storedRole m.email = some .admin
  | .lockParty userId (id :: _) false =>
    id = userId && (s.userById userId).any (·.role = .admin)
  | _ => false

/-- The role that a removal or an offboarding read before its locks still stands. -/
abbrev RoleStands (c : World ι Address) (e : ι × Act) : Prop :=
  guardMissed c.store (c.session e.1) = false

end Decidable

/-! ## What a session knows -/

/-- A user that the session has locked as an admin. -/
def AdminLocked (s : Store ι Address) (i : ι) (p : ℕ × Address) : Prop :=
  ∃ u ∈ s.users, u.id = p.1 ∧ u.email = p.2 ∧ u.role = .admin ∧ s.userLocks u.id = some i

/-- A membership row that the session has locked. -/
def RowLocked (s : Store ι Address) (i : ι) (q : Address × ℕ) : Prop :=
  ∃ m ∈ s.members, m.id = q.2 ∧ m.email = q.1 ∧ s.memberLocks m.id = some i

def HasUser (s : Store ι Address) (userId : ℕ) : Prop := ∃ u ∈ s.users, u.id = userId

/-- The departing user's row is locked and, where the guard was skipped, no admin's. -/
structure Departing (s : Store ι Address) (i : ι) (userId : ℕ) (guarded : Bool) : Prop where
  hasUser : HasUser s userId
  locked : s.userLocks userId = some i
  notAdmin : guarded = false → ∀ u ∈ s.users, u.id = userId → u.role ≠ .admin

/-- A row with this id is the departing user's. -/
structure DepartingRow (s : Store ι Address) (userId memberId : ℕ) : Prop where
  known : memberId < s.nextId
  email : ∀ m ∈ s.members, m.id = memberId → ∀ u ∈ s.users, u.id = userId → m.email = u.email

def Counted (s : Store ι Address) (i : ι) : GuardPc Address → Prop
  | .selectAdmins => True
  | .lockAdmins _ admins | .selectMembers admins => ∀ p ∈ admins, AdminLocked s i p
  | .lockMembers _ admins memberIds =>
    (∀ p ∈ admins, AdminLocked s i p) ∧ ∀ q ∈ memberIds, RowLocked s i q

def Caller (s : Store ι Address) (i : ι) : GuardedPc Address → Prop
  | .roleChange userId _ _ _ => s.userLocks userId = some i
  | .removal memberId => memberId < s.nextId
  | .offboarding userId _ _ _ => HasUser s userId

/-- Every user will have a row once these are inserted. -/
structure Importing (s : Store ι Address) (rows : List (Address × Role)) (email : Address) :
    Prop where
  empty : s.members = []
  nodup : (rows.map Prod.fst).Nodup
  fresh : email ∉ rows.map Prod.fst
  covers : ∀ u ∈ s.users, u.email = email ∨ u.email ∈ rows.map Prod.fst

/-- What session `i` knows before its next statement. -/
def Standing (s : Store ι Address) (i : ι) : Pc Address → Prop
  | .start request => request.administrative = true
  | .guard guard next => Counted s i guard ∧ Caller s i next
  | .writeRole userId _ => s.userLocks userId = some i
  | .storedRole memberId email =>
    memberId < s.nextId ∧ ∀ m ∈ s.members, m.id = memberId → m.email = email
  | .lockRemoved memberId _ => memberId < s.nextId
  | .deleteMember memberId _ => ∃ email, RowLocked s i (email, memberId)
  | .selectParty userId _ _ => HasUser s userId
  | .lockParty userId todo guarded =>
    HasUser s userId ∧ (userId ∈ todo ∨ Departing s i userId guarded)
  | .refreshUser userId guarded => Departing s i userId guarded
  | .membership userId email guarded =>
    Departing s i userId guarded ∧ ∀ u ∈ s.users, u.id = userId → u.email = email
  | .lockOffboarded userId memberId guarded =>
    Departing s i userId guarded ∧ DepartingRow s userId memberId
  | .finishOffboard userId none guarded => Departing s i userId guarded
  | .finishOffboard userId (some memberId) guarded =>
    Departing s i userId guarded ∧ DepartingRow s userId memberId ∧
      ∃ email, RowLocked s i (email, memberId)
  | .checkAbsent _ _ _ | .readSwitch _ _ _ => s.signin.exclusive = some i
  | .autoImport _ _ _ => s.signin.exclusive = some i ∧ s.members = []
  | .insertMember none _ _ _ => s.signin.exclusive = some i ∧ s.members ≠ []
  | .insertMember (some rows) email _ _ => s.signin.exclusive = some i ∧ Importing s rows email
  | .lockTarget _ _ _ _ | .lockConfirmed _ _ | .writeConfirmed _ _ _ | .lockSwitch _ _ _
  | .done => True
  | _ => False

/-! ## It stays known while the others run -/

section Frames
variable {i j : ι} {s s' : Store ι Address}

theorem Frame.identity (h : Frame j s s') {u' : User Address} (hu : u' ∈ s'.users) :
    ∃ u ∈ s.users, u.id = u'.id ∧ u.email = u'.email := by
  have hin : (u'.id, u'.email) ∈ s.users.map fun u => (u.id, u.email) := by
    rw [← h.identities]
    exact List.mem_map_of_mem hu
  obtain ⟨u, hmem, heq⟩ := List.mem_map.mp hin
  exact ⟨u, hmem, (Prod.mk.inj heq).1, (Prod.mk.inj heq).2⟩

theorem Frame.identity_after (h : Frame j s s') {u : User Address} (hu : u ∈ s.users) :
    ∃ u' ∈ s'.users, u'.id = u.id ∧ u'.email = u.email := by
  have hin : (u.id, u.email) ∈ s'.users.map fun u => (u.id, u.email) := by
    rw [h.identities]
    exact List.mem_map_of_mem hu
  obtain ⟨u', hmem, heq⟩ := List.mem_map.mp hin
  exact ⟨u', hmem, (Prod.mk.inj heq).1, (Prod.mk.inj heq).2⟩

theorem AdminLocked.frame {p : ℕ × Address} (h : AdminLocked s i p) (hf : Frame i s s') :
    AdminLocked s' i p := by
  obtain ⟨u, hu, hid, hemail, hrole, hlock⟩ := h
  exact ⟨u, hf.users u hu hlock, hid, hemail, hrole, hf.userLocks _ hlock⟩

theorem RowLocked.frame {q : Address × ℕ} (h : RowLocked s i q) (hf : Frame i s s') :
    RowLocked s' i q := by
  obtain ⟨m, hm, hid, hemail, hlock⟩ := h
  obtain ⟨m', hm', hid', hemail'⟩ := hf.members m hm hlock
  refine ⟨m', hm', hid'.trans hid, hemail'.trans hemail, ?_⟩
  rw [hid']
  exact hf.memberLocks _ hlock

theorem RowLocked.lock {email : Address} {memberId : ℕ} (h : RowLocked s i (email, memberId)) :
    s.memberLocks memberId = some i := by
  obtain ⟨m, -, hid, -, hlock⟩ := h
  rw [← hlock]
  exact congrArg s.memberLocks hid.symm

theorem RowLocked.known {email : Address} {memberId : ℕ} (h : RowLocked s i (email, memberId))
    (hwf : s.WellFormed) : memberId < s.nextId := by
  obtain ⟨m, hm, hid, -, -⟩ := h
  have hlt := hwf.membersFresh m hm
  simp only at hid
  omega

theorem HasUser.frame {userId : ℕ} (h : HasUser s userId) (hf : Frame i s s') :
    HasUser s' userId := by
  obtain ⟨u, hu, hid⟩ := h
  obtain ⟨u', hu', hid', -⟩ := hf.identity_after hu
  exact ⟨u', hu', hid'.trans hid⟩

theorem Store.WellFormed.user_unique (hwf : s.WellFormed) {u v : User Address} (hu : u ∈ s.users)
    (hv : v ∈ s.users) (h : u.id = v.id) : u = v :=
  List.inj_on_of_nodup_map hwf.userIds hu hv h

theorem Store.WellFormed.email_unique (hwf : s.WellFormed) {u v : User Address} (hu : u ∈ s.users)
    (hv : v ∈ s.users) (h : u.email = v.email) : u = v :=
  List.inj_on_of_nodup_map hwf.userEmails hu hv h

theorem Departing.frame {userId : ℕ} {guarded : Bool} (h : Departing s i userId guarded)
    (hf : Frame i s s') (hwf : s'.WellFormed) : Departing s' i userId guarded := by
  refine ⟨h.hasUser.frame hf, hf.userLocks _ h.locked, fun hg u' hu' hid => ?_⟩
  obtain ⟨u, hu, huid⟩ := h.hasUser
  have hu'' : u ∈ s'.users := hf.users u hu (huid ▸ h.locked)
  have heq : u = u' := hwf.user_unique hu'' hu' (huid.trans hid.symm)
  exact heq ▸ h.notAdmin hg u hu huid

theorem DepartingRow.frame {userId memberId : ℕ} (h : DepartingRow s userId memberId)
    (hf : Frame i s s') : DepartingRow s' userId memberId := by
  refine ⟨h.known.trans_le hf.nextId, fun m' hm' hid u' hu' huid => ?_⟩
  obtain ⟨m, hm, hmid, hmemail⟩ := hf.oldMembers m' hm' (hid ▸ h.known)
  obtain ⟨u, hu, hid', hemail⟩ := hf.identity hu'
  rw [← hmemail, ← hemail]
  exact h.email m hm (hmid.trans hid) u hu (hid'.trans huid)

theorem Counted.frame {guard : GuardPc Address} (h : Counted s i guard) (hf : Frame i s s') :
    Counted s' i guard := by
  cases guard with
  | selectAdmins => trivial
  | lockAdmins | selectMembers => exact fun p hp => (h p hp).frame hf
  | lockMembers => exact ⟨fun p hp => (h.1 p hp).frame hf, fun q hq => (h.2 q hq).frame hf⟩

theorem Caller.frame {next : GuardedPc Address} (h : Caller s i next) (hf : Frame i s s') :
    Caller s' i next := by
  cases next with
  | roleChange => exact hf.userLocks _ h
  | removal => exact lt_of_lt_of_le h hf.nextId
  | offboarding => exact HasUser.frame h hf

theorem Importing.frame {rows : List (Address × Role)} {email : Address}
    (h : Importing s rows email) (hf : Frame i s s') (hlock : s.signin.exclusive = some i) :
    Importing s' rows email := by
  refine ⟨hf.noInsert hlock h.empty, h.nodup, h.fresh, fun u' hu' => ?_⟩
  obtain ⟨u, hu, -, hemail⟩ := hf.identity hu'
  rw [← hemail]
  exact h.covers u hu

theorem Standing.frame {pc : Pc Address} (h : Standing s i pc) (hf : Frame i s s')
    (hwf : s'.WellFormed) (hon : s.members ≠ [] → s'.members ≠ []) : Standing s' i pc := by
  cases pc with
  | start => exact h
  | guard => exact ⟨h.1.frame hf, h.2.frame hf⟩
  | writeRole => exact hf.userLocks _ h
  | lockRemoved => exact lt_of_lt_of_le h hf.nextId
  | storedRole memberId email =>
    refine ⟨h.1.trans_le hf.nextId, fun m' hm' hid => ?_⟩
    obtain ⟨m, hm, hmid, hmemail⟩ := hf.oldMembers m' hm' (hid ▸ h.1)
    rw [← hmemail]
    exact h.2 m hm (hmid.trans hid)
  | deleteMember =>
    obtain ⟨email, hrow⟩ := h
    exact ⟨email, hrow.frame hf⟩
  | selectParty => exact HasUser.frame h hf
  | lockParty => exact ⟨h.1.frame hf, h.2.imp id fun hd => hd.frame hf hwf⟩
  | refreshUser => exact Departing.frame h hf hwf
  | membership userId email guarded =>
    refine ⟨h.1.frame hf hwf, fun u' hu' hid => ?_⟩
    obtain ⟨u, hu, hid', hemail⟩ := hf.identity hu'
    rw [← hemail]
    exact h.2 u hu (hid'.trans hid)
  | lockOffboarded => exact ⟨h.1.frame hf hwf, h.2.frame hf⟩
  | finishOffboard userId memberId guarded =>
    cases memberId with
    | none => exact Departing.frame h hf hwf
    | some memberId =>
      obtain ⟨hd, hr, email, hrow⟩ := h
      exact ⟨hd.frame hf hwf, hr.frame hf, email, hrow.frame hf⟩
  | checkAbsent | readSwitch => exact hf.exclusive h
  | autoImport => exact ⟨hf.exclusive h.1, hf.noInsert h.1 h.2⟩
  | insertMember imported =>
    cases imported with
    | none => exact ⟨hf.exclusive h.1, hon h.2⟩
    | some rows => exact ⟨hf.exclusive h.1, h.2.frame hf h.1⟩
  | lockTarget | lockConfirmed | writeConfirmed | lockSwitch | done => trivial
  | lockSignIn | signInRow | signInSwitch | upsertUser | claimUser | otpRow | otpSwitch
  | otpResolve | otpTouch | otpLock | otpInitialRole | otpInsert => exact h.elim

theorem Standing.owned {pc : Pc Address} (h : Standing s i pc) : Owned s i pc := by
  cases pc with
  | writeRole => exact h
  | deleteMember memberId =>
    obtain ⟨email, hrow⟩ := h
    exact hrow.lock
  | finishOffboard userId memberId guarded =>
    cases memberId with
    | none => exact h.locked
    | some memberId =>
      obtain ⟨hd, -, email, hrow⟩ := h
      exact ⟨hd.locked, hrow.lock⟩
  | insertMember imported =>
    cases imported with
    | none => exact ⟨h.1, List.nodup_nil, List.not_mem_nil⟩
    | some rows => exact ⟨h.1, h.2.nodup, h.2.fresh⟩
  | _ => trivial

end Frames

/-! ## What the statement itself adds -/

def GuardedPc.resume : GuardedPc Address → Pc Address
  | .roleChange userId newRole _ _ => .writeRole userId newRole
  | .removal memberId => .lockRemoved memberId true
  | .offboarding userId newOwnerId _ _ => .selectParty userId newOwnerId true

section Found
variable {i : ι} {s : Store ι Address}

theorem userById_some {id : ℕ} {u : User Address} (h : s.userById id = some u) :
    u ∈ s.users ∧ u.id = id :=
  ⟨List.mem_of_find?_eq_some h, by simpa using List.find?_some h⟩

theorem memberById_some {id : ℕ} {m : WorkspaceMember Address} (h : s.memberById id = some m) :
    m ∈ s.members ∧ m.id = id :=
  ⟨List.mem_of_find?_eq_some h, by simpa using List.find?_some h⟩

/-- The row just locked. -/
theorem rowLocked_take {id : ℕ} {m : WorkspaceMember Address} (hm : m ∈ s.members)
    (hid : m.id = id) :
    RowLocked { s with memberLocks := s.memberLocks.take i id } i (m.email, id) :=
  ⟨m, hm, hid, rfl, by simp [hid]⟩

theorem Caller.resume {next : GuardedPc Address} (h : Caller s i next) :
    Standing s i next.resume := by
  cases next with
  | roleChange | removal | offboarding => exact h

end Found

section Steps
variable [DecidableEq ι] {settings : Settings Address} {i : ι} {s s' : Store ι Address}
  {pc pc' : Pc Address}

theorem lockUser_inv {id : ℕ} {next : Pc Address} (h : s.lockUser i id next = some (s', pc')) :
    s.userLocks.Free i id ∧ s' = { s with userLocks := s.userLocks.take i id } ∧ pc' = next := by
  unfold Store.lockUser at h
  split at h
  · next hfree =>
    cases h
    exact ⟨hfree, rfl, rfl⟩
  · cases h

theorem lockMember_inv {id : ℕ} {next : Pc Address} (h : s.lockMember i id next = some (s', pc')) :
    s.memberLocks.Free i id ∧ s' = { s with memberLocks := s.memberLocks.take i id } ∧
      pc' = next := by
  unfold Store.lockMember at h
  split at h
  · next hfree =>
    cases h
    exact ⟨hfree, rfl, rfl⟩
  · cases h

theorem lockedMember_inv {id : ℕ} {next : WorkspaceMember Address → Pc Address}
    (h : s.lockedMember i id next = some (s', pc')) :
    pc' = .done ∨ ∃ m ∈ s.members, m.id = id ∧ s.memberLocks.Free i id ∧
      s' = { s with memberLocks := s.memberLocks.take i id } ∧ pc' = next m := by
  unfold Store.lockedMember at h
  split at h
  · cases h
    exact .inl rfl
  · next m hm =>
    obtain ⟨hmem, hid⟩ := memberById_some hm
    obtain ⟨hfree, hs, hpc⟩ := lockMember_inv h
    exact .inr ⟨m, hmem, hid, hfree, hs, hpc⟩

variable [DecidableEq Address]

theorem decide_inv {enforced : Bool} {next : GuardedPc Address} {admins : List (ℕ × Address)}
    {memberIds : List (Address × ℕ)}
    (h : s.decide i enforced next admins memberIds = some (s', pc')) :
    pc' = .done ∨ s' = s ∧ pc' = next.resume ∧ remaining enforced next admins memberIds ≠ [] := by
  unfold Store.decide at h
  split at h
  · cases h
    exact .inl rfl
  · next hsome =>
    have hne : remaining enforced next admins memberIds ≠ [] := by simpa using hsome
    cases next with
    | removal memberId =>
      cases h
      exact .inr ⟨rfl, rfl, hne⟩
    | roleChange userId newRole actorId confirmSelf =>
      simp only [Store.afterGuard] at h
      split at h
      · cases h
        exact .inl rfl
      · cases h
        exact .inr ⟨rfl, rfl, hne⟩
    | offboarding userId newOwnerId confirmEmail email =>
      simp only [Store.afterGuard] at h
      split at h
      · cases h
        exact .inl rfl
      · cases h
        exact .inr ⟨rfl, rfl, hne⟩

theorem standing_decide {enforced : Bool} {next : GuardedPc Address} {admins : List (ℕ × Address)}
    {memberIds : List (Address × ℕ)} (hcaller : Caller s i next)
    (h : s.decide i enforced next admins memberIds = some (s', pc')) : Standing s' i pc' := by
  rcases decide_inv h with rfl | ⟨rfl, rfl, -⟩
  · trivial
  · exact hcaller.resume

theorem standing_guard {guard : GuardPc Address} {next : GuardedPc Address}
    (hcount : Counted s i guard) (hcaller : Caller s i next)
    (h : guardAct i s next guard = some (s', pc')) : Standing s' i pc' := by
  cases guard with
  | selectAdmins =>
    cases h
    exact ⟨fun p hp => absurd hp List.not_mem_nil, hcaller⟩
  | selectMembers admins =>
    cases h
    exact ⟨⟨hcount, fun q hq => absurd hq List.not_mem_nil⟩, hcaller⟩
  | lockAdmins todo admins =>
    cases todo with
    | nil =>
      simp only [guardAct] at h
      split at h
      · cases h
        exact ⟨hcount, hcaller⟩
      · exact standing_decide hcaller h
    | cons id todo =>
      simp only [guardAct] at h
      split at h
      · split at h
        · cases h
          exact ⟨hcount, hcaller⟩
        · cases h
      · next u hu =>
        obtain ⟨hsome, hrole⟩ := Option.filter_eq_some_iff.mp hu
        obtain ⟨hmem, hid⟩ := userById_some hsome
        obtain ⟨hfree, rfl, rfl⟩ := lockUser_inv h
        have hf := (LockMove.user (s := s) id hfree).frame (j := i)
        refine ⟨fun p hp => ?_, hcaller.frame hf⟩
        rcases List.mem_append.mp hp with hp | hp
        · exact (hcount p hp).frame hf
        · rw [List.mem_singleton] at hp
          subst hp
          exact ⟨u, hmem, hid, rfl, by simpa using hrole, by simp [hid]⟩
  | lockMembers todo admins memberIds =>
    cases todo with
    | nil => exact standing_decide hcaller h
    | cons id todo =>
      simp only [guardAct] at h
      split at h
      · cases h
        exact ⟨hcount, hcaller⟩
      · next m hm =>
        obtain ⟨hmem, hid⟩ := memberById_some hm
        obtain ⟨hfree, rfl, rfl⟩ := lockMember_inv h
        have hf := (LockMove.member (s := s) id hfree).frame (j := i)
        refine ⟨⟨fun p hp => (hcount.1 p hp).frame hf, fun q hq => ?_⟩, hcaller.frame hf⟩
        rcases List.mem_cons.mp hq with rfl | hq
        · exact rowLocked_take hmem hid
        · exact (hcount.2 q hq).frame hf

theorem standing_start (hwf : s.WellFormed) {request : Request Address}
    (hadmin : request.administrative = true)
    (h : startAct settings i s request = some (s', pc')) : Standing s' i pc' := by
  cases request <;> simp only [startAct] at h
  case tokenSignIn | otpSignIn => cases hadmin
  case confirmMember =>
    cases h
    trivial
  case addMember =>
    split at h
    · cases h
      trivial
    · cases h
      trivial
  case setUserRole =>
    split at h
    · cases h
      trivial
    · cases h
      trivial
  case removeMember =>
    split at h
    · cases h
      trivial
    · next row hrow =>
      obtain ⟨hmem, hid⟩ := memberById_some hrow
      split at h
      · cases h
        trivial
      · cases h
        refine ⟨hid ▸ hwf.membersFresh row hmem, fun m hm hmid => ?_⟩
        rw [List.inj_on_of_nodup_map hwf.memberIds hm hmem (hmid.trans hid.symm)]
  case offboard =>
    split at h
    · cases h
      trivial
    · next user huser =>
      obtain ⟨hmem, hid⟩ := userById_some huser
      split at h
      · cases h
        exact ⟨trivial, user, hmem, hid⟩
      · split at h
        · cases h
          trivial
        · cases h
          exact ⟨user, hmem, hid⟩

theorem standing_lockParty {userId : ℕ} {todo : List ℕ} {guarded : Bool} (hwf : s.WellFormed)
    (hst : Standing s i (.lockParty userId todo guarded))
    (hok : guardMissed s (.lockParty userId todo guarded) = false)
    (h : adminAct settings i s (.lockParty userId todo guarded) = some (s', pc')) :
    Standing s' i pc' := by
  obtain ⟨huser, hwhere⟩ := hst
  cases todo with
  | nil =>
    cases h
    exact hwhere.resolve_left List.not_mem_nil
  | cons id todo =>
    obtain ⟨hfree, rfl, rfl⟩ := lockUser_inv h
    have hf := (LockMove.user (s := s) id hfree).frame (j := i)
    refine ⟨huser.frame hf, ?_⟩
    by_cases hid : userId = id
    · subst hid
      refine .inr ⟨huser.frame hf, by simp, fun hg u hu hid hrole => ?_⟩
      obtain ⟨v, hv⟩ : ∃ v, s.userById userId = some v := by
        rw [← Option.isSome_iff_exists, Store.userById, List.find?_isSome]
        exact ⟨u, hu, by simpa using hid⟩
      obtain ⟨hmem, hvid⟩ := userById_some hv
      have huv : u = v := hwf.user_unique hu hmem (hid.trans hvid.symm)
      subst hg huv
      simp [guardMissed, hv, hrole] at hok
    · rcases hwhere with hin | hd
      · exact .inl ((List.mem_cons.mp hin).resolve_left hid)
      · exact .inr (hd.frame hf ⟨hwf.userIds, hwf.userEmails, hwf.memberIds, hwf.memberEmails,
          hwf.usersFresh, hwf.membersFresh⟩)

theorem standing_next (hwf : s.WellFormed) (hst : Standing s i pc)
    (hok : guardMissed s pc = false) (h : adminAct settings i s pc = some (s', pc')) :
    Standing s' i pc' := by
  cases pc
  case lockParty => exact standing_lockParty hwf hst hok h
  all_goals simp only [adminAct] at h
  case start => exact standing_start hwf hst h
  case guard => exact standing_guard hst.1 hst.2 h
  case lockTarget =>
    split at h
    · cases h
    · split at h
      · cases h
        trivial
      · split at h
        · cases h
          trivial
        · split at h
          · obtain ⟨-, rfl, rfl⟩ := lockUser_inv h
            exact Locks.take_self _ _ _
          · obtain ⟨-, rfl, rfl⟩ := lockUser_inv h
            exact ⟨trivial, Locks.take_self _ _ _⟩
  case storedRole =>
    split at h
    · cases h
      exact ⟨trivial, hst.1⟩
    · cases h
      exact hst.1
  case lockRemoved =>
    rcases lockedMember_inv h with rfl | ⟨m, hm, hid, -, rfl, rfl⟩
    · trivial
    · exact ⟨m.email, rowLocked_take hm hid⟩
  case lockConfirmed =>
    rcases lockedMember_inv h with rfl | ⟨m, -, -, -, rfl, rfl⟩
    · trivial
    · trivial
  case writeConfirmed =>
    split at h
    · cases h
      trivial
    · cases h
      trivial
  case selectParty userId newOwnerId guarded =>
    cases h
    obtain ⟨u, hu, hid⟩ := hst
    refine ⟨⟨u, hu, hid⟩, .inl ?_⟩
    rw [inIdOrder, List.mem_insertionSort, List.mem_filter]
    exact ⟨hid ▸ List.mem_map_of_mem hu, by simp⟩
  case refreshUser =>
    split at h
    · cases h
      trivial
    · next user huser =>
      obtain ⟨hmem, hid⟩ := userById_some huser
      cases h
      exact ⟨hst, fun u hu huid => by rw [hwf.user_unique hu hmem (huid.trans hid.symm)]⟩
  case membership userId email guarded =>
    split at h
    · cases h
      exact hst.1
    · next row hrow =>
      have hmem : row ∈ s.members := List.mem_of_find?_eq_some hrow
      have hemail : row.email = email := by simpa using List.find?_some hrow
      cases h
      refine ⟨hst.1, hwf.membersFresh row hmem, fun m hm hid u hu huid => ?_⟩
      rw [List.inj_on_of_nodup_map hwf.memberIds hm hmem hid, hemail, hst.2 u hu huid]
  case lockOffboarded =>
    rcases lockedMember_inv h with rfl | ⟨m, hm, hid, hfree, rfl, rfl⟩
    · trivial
    · have hf := (LockMove.member (s := s) _ hfree).frame (j := i)
      exact ⟨hst.1.frame hf ⟨hwf.userIds, hwf.userEmails, hwf.memberIds, hwf.memberEmails,
        hwf.usersFresh, hwf.membersFresh⟩, hst.2.frame hf, m.email, rowLocked_take hm hid⟩
  case lockSwitch =>
    split at h
    · cases h
      rfl
    · cases h
  case checkAbsent =>
    split at h
    · cases h
      trivial
    · cases h
      exact hst
  case readSwitch =>
    split at h
    · next hon =>
      cases h
      exact ⟨hst, by simpa [Store.enforcementActive] using hon⟩
    · next hoff =>
      cases h
      exact ⟨hst, by simpa [Store.enforcementActive] using hoff⟩
  case autoImport email initialRole actorId =>
    cases h
    obtain ⟨hnodup, hfresh⟩ := autoImport_nodup [email] s.users
    refine ⟨hst.1, hst.2, hnodup, fun hin => hfresh email hin List.mem_cons_self, fun u hu => ?_⟩
    exact (autoImport_covers [email] s.users u hu).imp_left List.mem_singleton.mp
  case insertMember =>
    split at h
    · cases h
      trivial
    · cases h
      trivial
  case writeRole | deleteMember | finishOffboard =>
    cases h
    trivial
  all_goals cases h

end Steps

end DataQ.Membership
