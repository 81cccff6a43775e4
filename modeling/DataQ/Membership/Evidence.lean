import DataQ.Foundations.Dictionary
import DataQ.Membership.Standing

/-! # What the last-admin guard has made sure of

`assert_admin_remains` locks the admins it counts and their membership rows, so what it has seen
stays true until its transaction ends. Where membership was off it has no row to lock; the rows a
switch-on creates meanwhile belong to admins it holds, and a removal of one of them has to sweep
over the admin first. -/

namespace DataQ.Membership
open DataQ.Locking DataQ.Interleaving
set_option autoImplicit false

variable {Address ι : Type*}

/-! ## What the guard has made sure of -/

/-- The user a session past the guard will demote, and the row it will delete. -/
def Pc.reliance : Pc Address → Option (Option ℕ × Option ℕ)
  | .writeRole userId newRole => if newRole = .admin then none else some (some userId, none)
  | .lockRemoved memberId true | .deleteMember memberId true => some (none, some memberId)
  | .selectParty userId _ true | .lockParty userId _ true | .refreshUser userId true
  | .membership userId _ true | .lockOffboarded userId _ true | .finishOffboard userId _ true =>
    some (some userId, none)
  | _ => none

/-- The row a session will delete without having run the guard. -/
def Pc.unguardedDelete : Pc Address → Option ℕ
  | .deleteMember memberId false => some memberId
  | .finishOffboard _ memberId false => memberId
  | _ => none

/-- While somebody else holds the admin `u` locked, this session cannot get to delete the row
of `u`: a removal of it has still to sweep over `u`. -/
def Harmless (s : Store ι Address) (u : User Address) : Pc Address → Prop
  | .guard (.lockAdmins todo _) (.removal memberId) =>
    u.id ∈ todo ∨ ∀ m ∈ s.members, m.id = memberId → m.email ≠ u.email
  | .guard (.selectMembers _) (.removal memberId) | .guard (.lockMembers _ _ _) (.removal memberId)
  | .lockRemoved memberId true | .deleteMember memberId _ =>
    ∀ m ∈ s.members, m.id = memberId → m.email ≠ u.email
  | _ => True

/-- `u` can come in, and not by the row `doomed` alone. -/
def Admitted (s : Store ι Address) (u : User Address) (doomed : Option ℕ) : Prop :=
  s.members = [] ∨ ∃ m ∈ s.members, m.email = u.email ∧ some m.id ≠ doomed

/-- What the guard of session `i` has seen, and what keeps it true: the session holds the row of
the admin it counted and, unless membership was off, the membership row. -/
structure Evidence (c : World ι Address) (i : ι) (excluded doomed : Option ℕ) (u : User Address) :
    Prop where
  mem : u ∈ c.store.users
  role : u.role = .admin
  locked : c.store.userLocks u.id = some i
  other : some u.id ≠ excluded
  admitted : Admitted c.store u doomed
  kept : (∃ m ∈ c.store.members, m.email = u.email ∧ some m.id ≠ doomed ∧
      c.store.memberLocks m.id = some i) ∨
    ∀ j, j ≠ i → Harmless c.store u (c.session j)

/-- Some admin can come in by a row that nobody is about to delete unguarded. -/
def Usable (c : World ι Address) : Prop :=
  ∃ u ∈ c.store.users, u.role = .admin ∧ (c.store.members = [] ∨
    ∃ m ∈ c.store.members, m.email = u.email ∧
      ∀ j, (c.session j).unguardedDelete ≠ some m.id)

structure Inv (c : World ι Address) : Prop where
  wellFormed : c.store.WellFormed
  standing : ∀ i, Standing c.store i (c.session i)
  evidence : ∀ i excluded doomed, (c.session i).reliance = some (excluded, doomed) →
    ∃ u, Evidence c i excluded doomed u
  usable : Usable c

/-! ## How a session gets where it can do harm -/

/-- Statements of `add_member` under its lock. -/
def Pc.adding : Pc Address → Bool
  | .checkAbsent _ _ _ | .readSwitch _ _ _ | .autoImport _ _ _ | .insertMember _ _ _ _ => true
  | _ => false

/-- Statements from which a session writes nothing that the guard is about without passing one
that is not plain. -/
def Pc.plain : Pc Address → Bool
  | .guard .selectAdmins _ | .lockRemoved _ false => true
  | .guard _ _ | .lockRemoved _ true | .deleteMember _ _ => false
  | .writeRole _ newRole => newRole = .admin
  | .selectParty _ _ guarded | .lockParty _ _ guarded | .refreshUser _ guarded
  | .membership _ _ guarded | .lockOffboarded _ _ guarded => !guarded
  | .finishOffboard _ memberId guarded => !guarded && memberId.isNone
  | _ => true

/-- Statements of a sign-in past its lock or its check. -/
def Pc.entering : Pc Address → Bool
  | .signInRow _ | .signInSwitch _ | .upsertUser _ _ | .otpResolve _ | .otpLock _
  | .otpInitialRole _ | .otpInsert _ _ => true
  | _ => false

/-- The departing user of an offboarding past its first checks, and whether the guard ran. -/
def Pc.offboarding : Pc Address → Option (ℕ × Bool)
  | .selectParty userId _ guarded | .lockParty userId _ guarded | .refreshUser userId guarded
  | .membership userId _ guarded | .lockOffboarded userId _ guarded
  | .finishOffboard userId _ guarded => some (userId, guarded)
  | _ => none

section Arrivals
variable [DecidableEq Address] [DecidableEq ι] {settings : Settings Address} {i : ι}
  {s s' : Store ι Address} {pc pc' : Pc Address}

/-- How a statement comes to its next one. -/
inductive Arrival (i : ι) (s : Store ι Address) : Pc Address → Store ι Address → Pc Address → Prop
  | plain {pc : Pc Address} {s' : Store ι Address} {pc' : Pc Address} : pc'.plain = true →
      pc'.entering = false → (pc'.adding = true → pc.adding = true ∨ ∃ email initialRole actorId,
        pc = .lockSwitch email initialRole actorId) → Arrival i s pc s' pc'
  | guard {guard : GuardPc Address} {next : GuardedPc Address} {s' : Store ι Address}
      {pc' : Pc Address} : guardAct i s next guard = some (s', pc') →
      Arrival i s (.guard guard next) s' pc'
  | removal (memberId : ℕ) (guarded : Bool) (m : WorkspaceMember Address) : m ∈ s.members →
      m.id = memberId → s.memberLocks.Free i memberId →
      Arrival i s (.lockRemoved memberId guarded)
        { s with memberLocks := s.memberLocks.take i memberId } (.deleteMember memberId guarded)
  | offboarding {userId : ℕ} {guarded : Bool} {pc : Pc Address} {s' : Store ι Address}
      {pc' : Pc Address} : LockMove i s s' → pc.offboarding = some (userId, guarded) →
      pc'.offboarding = some (userId, guarded) →
      (∀ memberId, pc' = .finishOffboard userId (some memberId) guarded →
        pc = .lockOffboarded userId memberId guarded) →
      Arrival i s pc s' pc'

theorem arrives_start {request : Request Address}
    (h : startAct settings i s request = some (s', pc')) :
    pc'.plain = true ∧ pc'.entering = false ∧ pc'.adding = false := by
  cases request <;> simp only [startAct] at h
  case confirmMember | tokenSignIn | otpSignIn =>
    cases h
    exact ⟨rfl, rfl, rfl⟩
  case addMember | setUserRole =>
    split at h <;> cases h <;> exact ⟨rfl, rfl, rfl⟩
  case removeMember =>
    split at h
    · cases h
      exact ⟨rfl, rfl, rfl⟩
    · split at h <;> cases h <;> exact ⟨rfl, rfl, rfl⟩
  case offboard =>
    split at h
    · cases h
      exact ⟨rfl, rfl, rfl⟩
    · split at h
      · cases h
        exact ⟨rfl, rfl, rfl⟩
      · split at h <;> cases h <;> exact ⟨rfl, rfl, rfl⟩

theorem arrives (h : adminAct settings i s pc = some (s', pc')) : Arrival i s pc s' pc' := by
  cases pc <;> simp only [adminAct] at h
  case start =>
    obtain ⟨hplain, hentering, hadding⟩ := arrives_start h
    exact .plain hplain hentering fun hadds => by simp [hadding] at hadds
  case guard => exact .guard h
  case lockTarget held newRole actorId confirmSelf =>
    split at h
    · cases h
    · split at h
      · cases h
        exact .plain rfl rfl fun hadds => by cases hadds
      · split at h
        · cases h
          exact .plain rfl rfl fun hadds => by cases hadds
        · split at h
          · next hadmin =>
            obtain ⟨-, rfl, rfl⟩ := lockUser_inv h
            exact .plain (by simpa [Pc.plain] using hadmin) rfl fun hadds => by cases hadds
          · obtain ⟨-, rfl, rfl⟩ := lockUser_inv h
            exact .plain rfl rfl fun hadds => by cases hadds
  case checkAbsent | readSwitch | insertMember =>
    split at h <;> cases h <;> exact .plain rfl rfl fun _ => .inl rfl
  case lockSwitch email initialRole actorId =>
    split at h <;> cases h
    exact .plain rfl rfl fun _ => .inr ⟨email, initialRole, actorId, rfl⟩
  case storedRole | writeConfirmed =>
    split at h <;> cases h <;> exact .plain rfl rfl fun hadds => by cases hadds
  case lockConfirmed =>
    rcases lockedMember_inv h with rfl | ⟨m, -, -, -, rfl, rfl⟩ <;>
      exact .plain rfl rfl fun hadds => by cases hadds
  case lockRemoved =>
    rcases lockedMember_inv h with rfl | ⟨m, hm, hid, hfree, rfl, rfl⟩
    · exact .plain rfl rfl fun hadds => by cases hadds
    · exact .removal _ _ m hm hid hfree
  case selectParty =>
    cases h
    exact .offboarding .stay rfl rfl fun _ heq => by cases heq
  case lockParty userId todo guarded =>
    cases todo with
    | nil =>
      cases h
      exact .offboarding .stay rfl rfl fun _ heq => by cases heq
    | cons id todo =>
      obtain ⟨hfree, rfl, rfl⟩ := lockUser_inv h
      exact .offboarding (.user id hfree) rfl rfl fun _ heq => by cases heq
  case refreshUser =>
    split at h
    · cases h
      exact .plain rfl rfl fun hadds => by cases hadds
    · cases h
      exact .offboarding .stay rfl rfl fun _ heq => by cases heq
  case membership =>
    split at h
    · cases h
      exact .offboarding .stay rfl rfl fun _ heq => by cases heq
    · cases h
      exact .offboarding .stay rfl rfl fun _ heq => by cases heq
  case lockOffboarded =>
    rcases lockedMember_inv h with rfl | ⟨m, -, -, hfree, rfl, rfl⟩
    · exact .plain rfl rfl fun hadds => by cases hadds
    · exact .offboarding (.member _ hfree) rfl rfl fun _ heq => by cases heq; rfl
  case autoImport =>
    cases h
    exact .plain rfl rfl fun _ => .inl rfl
  case writeRole | deleteMember | finishOffboard =>
    cases h
    exact .plain rfl rfl fun hadds => by cases hadds
  all_goals cases h

/-- Where a statement of the guard leads: on in the guard, out of it, or past it. -/
theorem guard_next {guard : GuardPc Address} {next : GuardedPc Address}
    (h : guardAct i s next guard = some (s', pc')) :
    (∃ guard', pc' = .guard guard' next) ∨ pc' = .done ∨
      s' = s ∧ pc' = next.resume ∧ ∃ admins memberIds,
        (guard = .lockAdmins [] admins ∧ s.enforcementActive = false ∧
          remaining false next admins [] ≠ []) ∨
        (guard = .lockMembers [] admins memberIds ∧
          remaining true next admins memberIds ≠ []) := by
  cases guard with
  | selectAdmins | selectMembers =>
    cases h
    exact .inl ⟨_, rfl⟩
  | lockAdmins todo admins =>
    cases todo <;> simp only [guardAct] at h
    · split at h
      · cases h
        exact .inl ⟨_, rfl⟩
      · next hoff =>
        rcases decide_inv h with rfl | ⟨rfl, rfl, hrem⟩
        · exact .inr (.inl rfl)
        · refine .inr (.inr ⟨rfl, rfl, admins, [], .inl ⟨rfl, ?_⟩⟩)
          cases hon : s'.enforcementActive with
          | false => exact ⟨rfl, hon ▸ hrem⟩
          | true =>
            have hnil : admins = [] := by simpa [hon] using hoff
            subst hnil
            exact absurd rfl hrem
    · split at h
      · split at h
        · cases h
          exact .inl ⟨_, rfl⟩
        · cases h
      · obtain ⟨-, rfl, rfl⟩ := lockUser_inv h
        exact .inl ⟨_, rfl⟩
  | lockMembers todo admins memberIds =>
    cases todo <;> simp only [guardAct] at h
    · rcases decide_inv h with rfl | ⟨rfl, rfl, hrem⟩
      · exact .inr (.inl rfl)
      · exact .inr (.inr ⟨rfl, rfl, admins, memberIds, .inr ⟨rfl, hrem⟩⟩)
    · split at h
      · cases h
        exact .inl ⟨_, rfl⟩
      · obtain ⟨-, rfl, rfl⟩ := lockMember_inv h
        exact .inl ⟨_, rfl⟩

end Arrivals

section Evidence
variable {i j : ι} {s s' : Store ι Address} {u : User Address}

theorem Harmless.frame {pc : Pc Address} (h : Harmless s u pc) (hwf : s.WellFormed)
    (hst : Standing s j pc) (hf : Frame j s s') : Harmless s' u pc := by
  have hrow : ∀ {memberId : ℕ}, memberId < s.nextId →
      (∀ m ∈ s.members, m.id = memberId → m.email ≠ u.email) →
      ∀ m ∈ s'.members, m.id = memberId → m.email ≠ u.email := by
    intro memberId hknown hno m' hm' hid
    obtain ⟨m, hm, hmid, hemail⟩ := hf.oldMembers m' hm' (hid ▸ hknown)
    rw [← hemail]
    exact hno m hm (hmid.trans hid)
  cases pc with
  | guard guard next =>
    cases next with
    | roleChange | offboarding => cases guard <;> exact h
    | removal memberId =>
      cases guard with
      | selectAdmins => trivial
      | lockAdmins todo admins => exact h.imp_right (hrow hst.2)
      | selectMembers | lockMembers => exact hrow hst.2 h
  | lockRemoved memberId guarded =>
    cases guarded with
    | false => trivial
    | true => exact hrow hst h
  | deleteMember memberId guarded =>
    obtain ⟨email, hlocked⟩ := hst
    exact hrow (hlocked.known hwf) h
  | _ => trivial

theorem Store.WellFormed.storedRole_eq [DecidableEq Address] (hwf : s.WellFormed)
    (hu : u ∈ s.users) {email : Address} (hemail : u.email = email) :
    s.storedRole email = some u.role := by
  obtain ⟨v, hv⟩ : ∃ v, s.userByEmail email = some v := by
    rw [← Option.isSome_iff_exists, Store.userByEmail, List.find?_isSome]
    exact ⟨u, hu, by simpa using hemail⟩
  have hvemail : v.email = email := by simpa using List.find?_some hv
  have huv : u = v :=
    hwf.email_unique hu (List.mem_of_find?_eq_some hv) (hemail.trans hvemail.symm)
  rw [Store.storedRole, hv, huv]
  rfl

theorem Store.WellFormed.memberById_eq (hwf : s.WellFormed) {m : WorkspaceMember Address}
    (hm : m ∈ s.members) : s.memberById m.id = some m := by
  obtain ⟨v, hv⟩ : ∃ v, s.memberById m.id = some v := by
    rw [← Option.isSome_iff_exists, Store.memberById, List.find?_isSome]
    exact ⟨m, hm, by simp⟩
  obtain ⟨hmem, hid⟩ := memberById_some hv
  rw [hv, List.inj_on_of_nodup_map hwf.memberIds hm hmem hid.symm]

/-- The row an unguarded removal locks belongs to no admin. -/
theorem unguarded_row [DecidableEq Address] (hwf : s.WellFormed) {memberId : ℕ}
    (hok : guardMissed s (.lockRemoved memberId false) = false) {m : WorkspaceMember Address}
    (hm : m ∈ s.members) (hid : m.id = memberId) (hu : u ∈ s.users) (hadmin : u.role = .admin) :
    m.email ≠ u.email := by
  intro hemail
  have hrole := hwf.storedRole_eq hu hemail.symm
  rw [hadmin] at hrole
  subst hid
  simp [guardMissed, hwf.memberById_eq hm, hrole] at hok

theorem harmless_of_empty (h : s.members = []) (pc : Pc Address) :
    Harmless s u pc := by
  have hrow : ∀ {memberId : ℕ}, ∀ m ∈ s.members, m.id = memberId → m.email ≠ u.email := by
    intro memberId m hm
    rw [h] at hm
    cases hm
  cases pc with
  | guard guard next =>
    cases next with
    | roleChange | offboarding => cases guard <;> trivial
    | removal memberId =>
      cases guard with
      | selectAdmins => trivial
      | lockAdmins => exact .inr hrow
      | selectMembers | lockMembers => exact hrow
  | lockRemoved memberId guarded =>
    cases guarded with
    | false => trivial
    | true => exact hrow
  | deleteMember => exact hrow
  | _ => trivial

theorem Harmless.of_plain {pc : Pc Address} (h : pc.plain = true) (s : Store ι Address) :
    Harmless s u pc := by
  cases pc with
  | guard guard next =>
    cases guard with
    | selectAdmins => trivial
    | lockAdmins | selectMembers | lockMembers => cases h
  | lockRemoved memberId guarded =>
    cases guarded with
    | false => trivial
    | true => cases h
  | deleteMember => cases h
  | _ => trivial

theorem Harmless.of_offboarding {pc : Pc Address} {p : ℕ × Bool} (h : pc.offboarding = some p)
    (s : Store ι Address) : Harmless s u pc := by
  cases pc with
  | selectParty | lockParty | refreshUser | membership | lockOffboarded | finishOffboard => trivial
  | _ => cases h

section Steps
variable [DecidableEq Address] [DecidableEq ι] {settings : Settings Address} {pc pc' : Pc Address}

theorem harmless_decide {enforced : Bool} {next : GuardedPc Address} {admins : List (ℕ × Address)}
    {memberIds : List (Address × ℕ)}
    (hrow : ∀ memberId, next = .removal memberId →
      ∀ m ∈ s.members, m.id = memberId → m.email ≠ u.email)
    (h : s.decide j enforced next admins memberIds = some (s', pc')) : Harmless s' u pc' := by
  rcases decide_inv h with rfl | ⟨rfl, rfl, -⟩
  · trivial
  · cases next with
    | roleChange | offboarding => trivial
    | removal memberId => exact hrow memberId rfl

theorem harmless_guard {guard : GuardPc Address} {next : GuardedPc Address} (hij : j ≠ i)
    (hu : u ∈ s.users) (hadmin : u.role = .admin) (hlock : s.userLocks u.id = some i)
    (hharm : Harmless s u (.guard guard next))
    (h : guardAct j s next guard = some (s', pc')) : Harmless s' u pc' := by
  have hblocked : ¬ s.userLocks.Free j u.id := by
    rintro (hfree | hmine)
    · rw [hlock] at hfree
      cases hfree
    · exact hij (Option.some.inj (hmine.symm.trans hlock))
  cases guard with
  | selectAdmins =>
    cases h
    cases next with
    | roleChange | offboarding => trivial
    | removal memberId =>
      refine .inl ?_
      rw [inIdOrder, List.mem_insertionSort]
      exact List.mem_map_of_mem (List.mem_filter.mpr ⟨hu, by simpa using hadmin⟩)
  | selectMembers admins =>
    cases h
    cases next with
    | roleChange | offboarding => trivial
    | removal memberId => exact hharm
  | lockAdmins todo admins =>
    cases todo with
    | nil =>
      simp only [guardAct] at h
      split at h
      · cases h
        cases next with
        | roleChange | offboarding => trivial
        | removal memberId => exact hharm.resolve_left List.not_mem_nil
      · refine harmless_decide (fun memberId hnext => ?_) h
        subst hnext
        exact hharm.resolve_left List.not_mem_nil
    | cons id todo =>
      have hrest : ∀ memberId, next = .removal memberId → s.userLocks.Free j id →
          u.id ∈ todo ∨ ∀ m ∈ s.members, m.id = memberId → m.email ≠ u.email := by
        intro memberId hnext hfree
        subst hnext
        refine hharm.imp_left fun hin => (List.mem_cons.mp hin).resolve_left fun heq => ?_
        exact hblocked (heq ▸ hfree)
      simp only [guardAct] at h
      split at h
      · split at h
        · next hfree =>
          cases h
          cases next with
          | roleChange | offboarding => trivial
          | removal memberId => exact hrest memberId rfl hfree
        · cases h
      · obtain ⟨hfree, rfl, rfl⟩ := lockUser_inv h
        cases next with
        | roleChange | offboarding => trivial
        | removal memberId => exact hrest memberId rfl hfree
  | lockMembers todo admins memberIds =>
    cases todo with
    | nil =>
      refine harmless_decide (fun memberId hnext => ?_) h
      subst hnext
      exact hharm
    | cons id todo =>
      simp only [guardAct] at h
      have hmoved : s'.members = s.members ∧
          ∃ found, pc' = .guard (.lockMembers todo admins found) next := by
        split at h
        · cases h
          exact ⟨rfl, memberIds, rfl⟩
        · obtain ⟨-, rfl, rfl⟩ := lockMember_inv h
          exact ⟨rfl, _, rfl⟩
      obtain ⟨hmembers, found, rfl⟩ := hmoved
      cases next with
      | roleChange | offboarding => trivial
      | removal memberId => exact fun m hm => hharm m (hmembers ▸ hm)

theorem harmless_next (hwf : s.WellFormed) (hij : j ≠ i) (hu : u ∈ s.users)
    (hadmin : u.role = .admin) (hlock : s.userLocks u.id = some i)
    (hok : guardMissed s pc = false) (hharm : Harmless s u pc)
    (h : adminAct settings j s pc = some (s', pc')) : Harmless s' u pc' := by
  cases arrives h with
  | plain hplain _ _ => exact .of_plain hplain s'
  | guard hguard => exact harmless_guard hij hu hadmin hlock hharm hguard
  | removal memberId guarded m hm hid hfree =>
    cases guarded with
    | true => exact hharm
    | false => exact fun m' hm' hid' => unguarded_row hwf hok hm' hid' hu hadmin
  | offboarding _ _ hafter _ => exact .of_offboarding hafter s'

end Steps

end Evidence

/-! ## The guard passes on evidence -/

theorem plain_reliance {pc : Pc Address} (h : pc.plain = true) : pc.reliance = none := by
  cases pc with
  | writeRole userId newRole => exact if_pos (by simpa [Pc.plain] using h)
  | lockRemoved _ guarded | selectParty _ _ guarded | lockParty _ _ guarded | refreshUser _ guarded
  | membership _ _ guarded | lockOffboarded _ _ guarded | finishOffboard _ _ guarded =>
    cases guarded <;> first | rfl | cases h
  | deleteMember => cases h
  | _ => rfl

theorem offboarding_reliance {pc : Pc Address} {userId : ℕ} {guarded : Bool}
    (h : pc.offboarding = some (userId, guarded)) :
    pc.reliance = if guarded then some (some userId, none) else none := by
  cases pc with
  | selectParty _ _ guarded | lockParty _ _ guarded | refreshUser _ guarded
  | membership _ _ guarded | lockOffboarded _ _ guarded | finishOffboard _ _ guarded =>
    cases h
    cases guarded <;> rfl
  | _ => cases h

theorem resume_reliance {next : GuardedPc Address} {excluded doomed : Option ℕ}
    (h : next.resume.reliance = some (excluded, doomed)) :
    next.excludeUser = excluded ∧ next.excludeMember = doomed := by
  cases next with
  | removal | offboarding =>
    cases h
    exact ⟨rfl, rfl⟩
  | roleChange userId newRole =>
    simp only [GuardedPc.resume, Pc.reliance] at h
    split at h
    · cases h
    · cases h
      exact ⟨rfl, rfl⟩

section Passing
variable [DecidableEq Address] {settings : Settings Address} {c : World ι Address}
  {i j : ι} {s' : Store ι Address} {pc' : Pc Address} {u : User Address}

/-- An admin the guard counted. -/
theorem remaining_ne_nil {enforced : Bool} {next : GuardedPc Address}
    {admins : List (ℕ × Address)} {memberIds : List (Address × ℕ)}
    (h : remaining enforced next admins memberIds ≠ []) :
    ∃ p ∈ admins, some p.1 ≠ next.excludeUser ∧ (enforced = true →
      ∃ memberId, (p.2, memberId) ∈ memberIds ∧ some memberId ≠ next.excludeMember) := by
  obtain ⟨p, hp⟩ := List.exists_mem_of_ne_nil _ h
  obtain ⟨hin, hcond⟩ := List.mem_filter.mp hp
  simp only [Bool.and_eq_true, decide_eq_true_eq, Bool.or_eq_true, Bool.not_eq_true'] at hcond
  refine ⟨p, hin, hcond.1, fun hon => ?_⟩
  have hany := hcond.2.resolve_left (by simp [hon])
  obtain ⟨memberId, hlookup, hne⟩ := (Option.any_eq_true _ _).mp hany
  exact ⟨memberId, mem_of_lookup hlookup, by simpa using hne⟩

/-- With membership off, the guard counts every other admin. -/
theorem evidence_off {next : GuardedPc Address} {admins : List (ℕ × Address)}
    (hcount : ∀ p ∈ admins, AdminLocked c.store i p) (hoff : c.store.members = [])
    (hrem : remaining false next admins [] ≠ []) :
    ∃ u, Evidence c i next.excludeUser next.excludeMember u := by
  obtain ⟨p, hp, hother, -⟩ := remaining_ne_nil hrem
  obtain ⟨u, hu, hid, -, hrole, hlock⟩ := hcount p hp
  exact ⟨u, hu, hrole, hlock, hid ▸ hother, .inl hoff,
    .inr fun j _ => harmless_of_empty hoff (c.session j)⟩

/-- With membership on, it counts the other admins with another row than the one to go. -/
theorem evidence_on {next : GuardedPc Address} {admins : List (ℕ × Address)}
    {memberIds : List (Address × ℕ)} (hcount : ∀ p ∈ admins, AdminLocked c.store i p)
    (hrows : ∀ q ∈ memberIds, RowLocked c.store i q)
    (hrem : remaining true next admins memberIds ≠ []) :
    ∃ u, Evidence c i next.excludeUser next.excludeMember u := by
  obtain ⟨p, hp, hother, hrow⟩ := remaining_ne_nil hrem
  obtain ⟨memberId, hin, hne⟩ := hrow rfl
  obtain ⟨u, hu, hid, hemail, hrole, hlock⟩ := hcount p hp
  obtain ⟨m, hm, hmid, hmemail, hmlock⟩ := hrows _ hin
  have hmu : m.email = u.email := hmemail.trans hemail.symm
  have hmne : some m.id ≠ next.excludeMember := by
    rw [hmid]
    exact hne
  exact ⟨u, hu, hrole, hlock, hid ▸ hother, .inr ⟨m, hm, hmu, hmne⟩,
    .inl ⟨m, hm, hmu, hmne, hmlock⟩⟩

/-- Past the guard a session keeps its evidence, or has just gained it. -/
theorem reliance_next [DecidableEq ι] {excluded doomed : Option ℕ}
    (hst : Standing c.store i (c.session i))
    (h : adminAct settings i c.store (c.session i) = some (s', pc'))
    (hr : pc'.reliance = some (excluded, doomed)) :
    LockMove i c.store s' ∧ ((c.session i).reliance = some (excluded, doomed) ∨
      ∃ u, Evidence c i excluded doomed u) := by
  have harrives := arrives h
  generalize c.session i = pc at harrives hst
  cases harrives with
  | plain hplain _ _ =>
    rw [plain_reliance hplain] at hr
    cases hr
  | removal memberId guarded m hm hid hfree =>
    cases guarded with
    | false => cases hr
    | true => exact ⟨.member _ hfree, .inl hr⟩
  | offboarding hmove hbefore hafter _ =>
    rw [offboarding_reliance hafter] at hr
    exact ⟨hmove, .inl ((offboarding_reliance hbefore).trans hr)⟩
  | guard hguard =>
    obtain ⟨hcount, -⟩ := hst
    rcases guard_next hguard with ⟨guard', rfl⟩ | rfl | ⟨rfl, rfl, admins, memberIds, hrem⟩
    · cases hr
    · cases hr
    · obtain ⟨rfl, rfl⟩ := resume_reliance hr
      refine ⟨.stay, .inr ?_⟩
      rcases hrem with ⟨rfl, hoff, hrem⟩ | ⟨rfl, hrem⟩
      · exact evidence_off hcount (by simpa [Store.enforcementActive] using hoff) hrem
      · exact evidence_on hcount.1 hcount.2 hrem

end Passing

end DataQ.Membership
