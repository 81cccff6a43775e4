import DataQ.Membership.SignIns

/-! # What one statement may do

A statement either moves locks of its own session or publishes one write and ends the transaction.
`LockMove` and `Write` say so; what other sessions can rely on is read off them. -/

namespace DataQ.Membership
open DataQ.Locking DataQ.Interleaving
set_option autoImplicit false

variable {Address ι : Type*} {s : Store ι Address}

/-! ## The writes, row by row -/

theorem mem_setRole {userId : ℕ} {role : Role} {u : User Address} :
    u ∈ (s.setRole userId role).users ↔
      ∃ v ∈ s.users, (if v.id = userId then { v with role := role } else v) = u := by
  simp [Store.setRole]

theorem setRole_keeps {userId : ℕ} {role : Role} {u : User Address} (hu : u ∈ s.users)
    (hne : u.id ≠ userId) : u ∈ (s.setRole userId role).users :=
  mem_setRole.mpr ⟨u, hu, if_neg hne⟩

@[simp] theorem setRole_members (userId : ℕ) (role : Role) :
    (s.setRole userId role).members = s.members := rfl

theorem setRole_identities (userId : ℕ) (role : Role) :
    (s.setRole userId role).users.map (fun u => (u.id, u.email)) =
      s.users.map fun u => (u.id, u.email) := by
  rw [Store.setRole, List.map_map]
  apply List.map_congr_left
  intro u _
  show (fun u : User Address => (u.id, u.email)) (if u.id = userId then _ else u) = _
  split <;> rfl

theorem mem_deleteMember {memberId : ℕ} {m : WorkspaceMember Address} :
    m ∈ (s.deleteMember memberId).members ↔ m ∈ s.members ∧ m.id ≠ memberId := by
  simp [Store.deleteMember]

theorem confirm_identities (memberId actorId : ℕ) :
    (s.confirm memberId actorId).members.map (fun m => (m.id, m.email)) =
      s.members.map fun m => (m.id, m.email) := by
  rw [Store.confirm, List.map_map]
  apply List.map_congr_left
  intro m _
  show (fun m : WorkspaceMember Address => (m.id, m.email)) (if m.id = memberId then _ else m) = _
  split <;> rfl

theorem importedRows_ids (n : ℕ) (rows : List (Address × Role)) :
    ∀ m ∈ importedRows n rows, n ≤ m.id ∧ m.id < n + rows.length := by
  induction rows generalizing n with
  | nil =>
    intro m hm
    cases hm
  | cons row rows ih =>
    intro m hm
    rcases List.mem_cons.mp hm with rfl | hm
    · simp
    · have hrest := ih (n + 1) m hm
      simp only [List.length_cons]
      omega

theorem importedRows_emails (n : ℕ) (rows : List (Address × Role)) :
    (importedRows n rows).map WorkspaceMember.email = rows.map Prod.fst := by
  induction rows generalizing n with
  | nil => rfl
  | cons row rows ih => simp [importedRows, ih (n + 1)]

theorem importedRows_nodup (n : ℕ) (rows : List (Address × Role)) :
    ((importedRows n rows).map WorkspaceMember.id).Nodup := by
  induction rows generalizing n with
  | nil => exact List.nodup_nil
  | cons row rows ih =>
    refine List.nodup_cons.mpr ⟨fun hmem => ?_, ih (n + 1)⟩
    obtain ⟨m, hm, hid⟩ := List.mem_map.mp hmem
    have hlow := (importedRows_ids (n + 1) rows m hm).1
    simp only at hid
    omega

theorem mem_insertMembers {imported : List (Address × Role)} {email : Address}
    {initialRole : Role} {actorId : ℕ} {m : WorkspaceMember Address}
    (hm : m ∈ (s.insertMembers imported email initialRole actorId).members) :
    m ∈ s.members ∨
      s.nextId ≤ m.id ∧ m.id < s.nextId + imported.length + 1 ∧
        (m.email = email ∨ m.email ∈ imported.map Prod.fst) := by
  simp only [Store.insertMembers, List.mem_append, List.mem_singleton] at hm
  rcases hm with (hm | hm) | rfl
  · exact .inl hm
  · have hid := importedRows_ids _ _ m hm
    refine .inr ⟨hid.1, by omega, .inr ?_⟩
    rw [← importedRows_emails s.nextId imported]
    exact List.mem_map_of_mem hm
  · exact .inr ⟨by simp, by simp, .inl rfl⟩

theorem insertMembers_keeps {imported : List (Address × Role)} {email : Address}
    {initialRole : Role} {actorId : ℕ} {m : WorkspaceMember Address} (hm : m ∈ s.members) :
    m ∈ (s.insertMembers imported email initialRole actorId).members := by
  simp [Store.insertMembers, hm]

/-- Every address that is imported or added has a fresh row afterwards. -/
theorem insertMembers_adds {imported : List (Address × Role)} {email : Address}
    (initialRole : Role) (actorId : ℕ) {added : Address}
    (hadded : added = email ∨ added ∈ imported.map Prod.fst) :
    ∃ m ∈ (s.insertMembers imported email initialRole actorId).members,
      m.email = added ∧ s.nextId ≤ m.id := by
  rcases hadded with rfl | hin
  · exact ⟨_, by simp [Store.insertMembers]; exact .inr (.inr rfl), rfl, by simp⟩
  · rw [← importedRows_emails s.nextId imported] at hin
    obtain ⟨m, hm, hemail⟩ := List.mem_map.mp hin
    exact ⟨m, by simp [Store.insertMembers, hm], hemail, (importedRows_ids _ _ m hm).1⟩

theorem autoImport_covers [DecidableEq Address] (seen : List Address)
    (users : List (User Address)) :
    ∀ u ∈ users, u.email ∈ seen ∨ u.email ∈ (autoImport seen users).map Prod.fst := by
  induction users generalizing seen with
  | nil =>
    intro u hu
    cases hu
  | cons v users ih =>
    intro u hu
    unfold autoImport
    split
    · next hseen =>
      rcases List.mem_cons.mp hu with rfl | hu
      · exact .inl (List.contains_iff_mem.mp hseen)
      · exact ih seen u hu
    · rcases List.mem_cons.mp hu with rfl | hu
      · exact .inr (by simp)
      · rcases ih (v.email :: seen) u hu with hin | hin
        · rcases List.mem_cons.mp hin with heq | hin
          · exact .inr (by simp [heq])
          · exact .inl hin
        · exact .inr (List.mem_cons_of_mem _ hin)

theorem autoImport_nodup [DecidableEq Address] (seen : List Address) (users : List (User Address)) :
    ((autoImport seen users).map Prod.fst).Nodup ∧
      ∀ email ∈ (autoImport seen users).map Prod.fst, email ∉ seen := by
  induction users generalizing seen with
  | nil => simp [autoImport]
  | cons v users ih =>
    unfold autoImport
    split
    · exact ih seen
    · next hseen =>
      obtain ⟨hnodup, hout⟩ := ih (v.email :: seen)
      refine ⟨List.nodup_cons.mpr ⟨fun hmem => hout _ hmem List.mem_cons_self, hnodup⟩, ?_⟩
      intro email hemail
      rcases List.mem_cons.mp hemail with rfl | hemail
      · exact fun hin => hseen (List.contains_iff_mem.mpr hin)
      · exact fun hin => hout email hemail (List.mem_cons_of_mem _ hin)

theorem identities_of_map {l l' : List (WorkspaceMember Address)}
    (h : l'.map (fun m => (m.id, m.email)) = l.map fun m => (m.id, m.email)) :
    ∀ m ∈ l, ∃ m' ∈ l', m'.id = m.id ∧ m'.email = m.email := by
  intro m hm
  have hin : (m.id, m.email) ∈ l'.map fun m => (m.id, m.email) := by
    rw [h]
    exact List.mem_map_of_mem hm
  obtain ⟨m', hm', heq⟩ := List.mem_map.mp hin
  exact ⟨m', hm', (Prod.mk.inj heq).1, (Prod.mk.inj heq).2⟩

/-! ## The database's constraints -/

/-- The constraints on the members table alone. -/
structure MembersOk (s : Store ι Address) : Prop where
  ids : (s.members.map WorkspaceMember.id).Nodup
  emails : (s.members.map WorkspaceMember.email).Nodup
  fresh : ∀ m ∈ s.members, m.id < s.nextId

theorem Store.WellFormed.membersOk (h : s.WellFormed) : MembersOk s :=
  ⟨h.memberIds, h.memberEmails, h.membersFresh⟩

theorem MembersOk.of_identities {s s' : Store ι Address} (h : MembersOk s)
    (hmembers : (s'.members.map fun m => (m.id, m.email)).Sublist
      (s.members.map fun m => (m.id, m.email))) (hnext : s.nextId ≤ s'.nextId) : MembersOk s' := by
  have hids : (s'.members.map WorkspaceMember.id).Sublist (s.members.map WorkspaceMember.id) := by
    have hsub := hmembers.map Prod.fst
    rwa [List.map_map, List.map_map] at hsub
  have hemails : (s'.members.map WorkspaceMember.email).Sublist
      (s.members.map WorkspaceMember.email) := by
    have hsub := hmembers.map Prod.snd
    rwa [List.map_map, List.map_map] at hsub
  refine ⟨h.ids.sublist hids, h.emails.sublist hemails, fun m hm => ?_⟩
  obtain ⟨v, hv, heq⟩ := List.mem_map.mp (hids.subset (List.mem_map_of_mem hm))
  have hlt := h.fresh v hv
  omega

theorem MembersOk.insertMembers {s : Store ι Address} (h : MembersOk s)
    {imported : List (Address × Role)} {email : Address} {initialRole : Role} {actorId : ℕ}
    (hunique : ∀ m ∈ s.members, m.email ≠ email ∧ m.email ∉ imported.map Prod.fst)
    (hnodup : (imported.map Prod.fst).Nodup) (hout : email ∉ imported.map Prod.fst) :
    MembersOk (s.insertMembers imported email initialRole actorId) := by
  have hids := importedRows_ids s.nextId imported
  refine ⟨?_, ?_, fun m hm => ?_⟩
  · simp only [Store.insertMembers, List.map_append, List.map_cons, List.map_nil]
    refine List.nodup_append.mpr ⟨List.nodup_append.mpr ⟨h.ids, importedRows_nodup _ _, ?_⟩,
      List.nodup_singleton _, ?_⟩
    · intro a ha b hb heq
      obtain ⟨m, hm, rfl⟩ := List.mem_map.mp ha
      obtain ⟨m', hm', rfl⟩ := List.mem_map.mp hb
      have hlt := h.fresh m hm
      have hge := (hids m' hm').1
      omega
    · intro a ha b hb heq
      rw [List.mem_singleton] at hb
      rcases List.mem_append.mp ha with ha | ha
      · obtain ⟨m, hm, rfl⟩ := List.mem_map.mp ha
        have hlt := h.fresh m hm
        omega
      · obtain ⟨m, hm, rfl⟩ := List.mem_map.mp ha
        have hlt := (hids m hm).2
        omega
  · simp only [Store.insertMembers, List.map_append, List.map_cons, List.map_nil,
      importedRows_emails]
    refine List.nodup_append.mpr ⟨List.nodup_append.mpr ⟨h.emails, hnodup, ?_⟩,
      List.nodup_singleton _, ?_⟩
    · intro a ha b hb heq
      obtain ⟨m, hm, rfl⟩ := List.mem_map.mp ha
      exact (hunique m hm).2 (heq ▸ hb)
    · intro a ha b hb heq
      rw [List.mem_singleton] at hb
      rcases List.mem_append.mp ha with ha | ha
      · obtain ⟨m, hm, rfl⟩ := List.mem_map.mp ha
        exact (hunique m hm).1 (heq.trans hb)
      · exact hout ((heq.trans hb) ▸ ha)
  · rcases mem_insertMembers hm with hm | hfresh
    · have hlt := h.fresh m hm
      simp only [Store.insertMembers]
      omega
    · exact hfresh.2.1

theorem Store.WellFormed.of_identities {s s' : Store ι Address} (h : s.WellFormed)
    (husers : s'.users.map (fun u => (u.id, u.email)) = s.users.map fun u => (u.id, u.email))
    (hmembers : MembersOk s') (hnext : s.nextId ≤ s'.nextId) : s'.WellFormed := by
  have hids : s'.users.map User.id = s.users.map User.id := by
    have heq := congrArg (List.map Prod.fst) husers
    rwa [List.map_map, List.map_map] at heq
  have hemails : s'.users.map User.email = s.users.map User.email := by
    have heq := congrArg (List.map Prod.snd) husers
    rwa [List.map_map, List.map_map] at heq
  refine ⟨hids ▸ h.userIds, hemails ▸ h.userEmails, hmembers.ids, hmembers.emails, fun u hu => ?_,
    hmembers.fresh⟩
  have hin : u.id ∈ s.users.map User.id := hids ▸ List.mem_map_of_mem hu
  obtain ⟨v, hv, heq⟩ := List.mem_map.mp hin
  have hlt := h.usersFresh v hv
  omega

/-! ## What the other sessions can rely on -/

/-- Where `s'` comes from `s` by a statement of another session than `j`. -/
structure Frame (j : ι) (s s' : Store ι Address) : Prop where
  userLocks : ∀ id, s.userLocks id = some j → s'.userLocks id = some j
  memberLocks : ∀ id, s.memberLocks id = some j → s'.memberLocks id = some j
  exclusive : s.signin.exclusive = some j → s'.signin.exclusive = some j
  nextId : s.nextId ≤ s'.nextId
  identities : s'.users.map (fun u => (u.id, u.email)) = s.users.map fun u => (u.id, u.email)
  users : ∀ u ∈ s.users, s.userLocks u.id = some j → u ∈ s'.users
  members : ∀ m ∈ s.members, s.memberLocks m.id = some j →
    ∃ m' ∈ s'.members, m'.id = m.id ∧ m'.email = m.email
  oldMembers : ∀ m' ∈ s'.members, m'.id < s.nextId →
    ∃ m ∈ s.members, m.id = m'.id ∧ m.email = m'.email
  noInsert : s.signin.exclusive = some j → s.members = [] → s'.members = []

/-! ## Statements -/

/-- A statement of `i` that leaves the rows alone. -/
inductive LockMove (i : ι) (s : Store ι Address) : Store ι Address → Prop
  | stay : LockMove i s s
  | user (id : ℕ) : s.userLocks.Free i id →
      LockMove i s { s with userLocks := s.userLocks.take i id }
  | member (id : ℕ) : s.memberLocks.Free i id →
      LockMove i s { s with memberLocks := s.memberLocks.take i id }
  | exclusive : s.signin.FreeExclusive i →
      LockMove i s { s with signin := s.signin.takeExclusive i }
  | shared : s.signin.FreeShared i → LockMove i s { s with signin := s.signin.takeShared i }

/-- What a session holds when it is about to write. -/
def Owned (s : Store ι Address) (i : ι) : Pc Address → Prop
  | .writeRole userId _ | .finishOffboard userId none _ => s.userLocks userId = some i
  | .deleteMember memberId _ => s.memberLocks memberId = some i
  | .finishOffboard userId (some memberId) _ =>
    s.userLocks userId = some i ∧ s.memberLocks memberId = some i
  | .insertMember imported email _ _ =>
    s.signin.exclusive = some i ∧ ((imported.getD []).map Prod.fst).Nodup ∧
      email ∉ (imported.getD []).map Prod.fst
  | _ => True

/-- What a commit has done to the members table. -/
inductive MembersChange (s : Store ι Address) (pc : Pc Address) (s' : Store ι Address) : Prop
  | same : s'.members = s.members → MembersChange s pc s'
  | delete (memberId : ℕ) : s'.members = (s.deleteMember memberId).members → MembersChange s pc s'
  | confirm (memberId actorId : ℕ) : s'.members = (s.confirm memberId actorId).members →
      MembersChange s pc s'
  | insert (imported : Option (List (Address × Role))) (email : Address) (initialRole : Role)
      (actorId : ℕ) : pc = .insertMember imported email initialRole actorId →
      (∀ m ∈ s.members, m.email ≠ email ∧ m.email ∉ (imported.getD []).map Prod.fst) →
      s'.users = s.users →
      s'.members = (s.insertMembers (imported.getD []) email initialRole actorId).members →
      s'.nextId = (s.insertMembers (imported.getD []) email initialRole actorId).nextId →
      MembersChange s pc s'

theorem MembersChange.membersOk {i : ι} {s s' : Store ι Address} {pc : Pc Address}
    (h : MembersChange s pc s') (howned : ∀ imported email initialRole actorId,
      pc = .insertMember imported email initialRole actorId → Owned s i pc) (hok : MembersOk s)
    (hnext : s.nextId ≤ s'.nextId) : MembersOk s' := by
  cases h with
  | same heq =>
    refine hok.of_identities ?_ hnext
    rw [heq]
  | delete memberId heq =>
    refine hok.of_identities ?_ hnext
    rw [heq]
    exact List.filter_sublist.map _
  | confirm memberId actorId heq =>
    refine hok.of_identities ?_ hnext
    rw [heq, confirm_identities]
  | insert imported email initialRole actorId hpc hunique _ heq hnextId =>
    have hmine := howned imported email initialRole actorId hpc
    subst hpc
    have hin : MembersOk (s.insertMembers (imported.getD []) email initialRole actorId) :=
      hok.insertMembers hunique hmine.2.1 hmine.2.2
    exact ⟨heq ▸ hin.ids, heq ▸ hin.emails, fun m hm => hnextId ▸ hin.fresh m (heq ▸ hm)⟩

theorem Frame.of_rows [DecidableEq ι] {i j : ι} (hij : j ≠ i) {s s' : Store ι Address}
    (hnext : s.nextId ≤ s'.nextId)
    (huserLocks : s'.userLocks = s.userLocks) (hmemberLocks : s'.memberLocks = s.memberLocks)
    (hsignin : s'.signin = s.signin)
    (hidentities : s'.users.map (fun u => (u.id, u.email)) = s.users.map fun u => (u.id, u.email))
    (husers : ∀ u ∈ s.users, s.userLocks u.id = some j → u ∈ s'.users)
    (hmembers : ∀ m ∈ s.members, s.memberLocks m.id = some j →
      ∃ m' ∈ s'.members, m'.id = m.id ∧ m'.email = m.email)
    (hold : ∀ m' ∈ s'.members, m'.id < s.nextId →
      ∃ m ∈ s.members, m.id = m'.id ∧ m.email = m'.email)
    (hnoInsert : s.signin.exclusive = some j → s.members = [] → s'.members = []) :
    Frame j s (s'.release i) where
  userLocks _ h := Locks.release_keeps hij (huserLocks ▸ h)
  memberLocks _ h := Locks.release_keeps hij (hmemberLocks ▸ h)
  exclusive h := Advisory.release_exclusive hij (hsignin ▸ h)
  nextId := hnext
  identities := hidentities
  users := husers
  members := hmembers
  oldMembers := hold
  noInsert := hnoInsert

theorem LockMove.frame {i j : ι} {s s' : Store ι Address} (h : LockMove i s s') :
    Frame j s s' := by
  have hrows : ∀ t : Store ι Address, t.users = s.users → t.members = s.members →
      t.nextId = s.nextId → (∀ id, s.userLocks id = some j → t.userLocks id = some j) →
      (∀ id, s.memberLocks id = some j → t.memberLocks id = some j) →
      (s.signin.exclusive = some j → t.signin.exclusive = some j) → Frame j s t := by
    intro t husers hmembers hnext huserLocks hmemberLocks hexclusive
    exact
      { userLocks := huserLocks
        memberLocks := hmemberLocks
        exclusive := hexclusive
        nextId := hnext.ge
        identities := by rw [husers]
        users := fun u hu _ => husers ▸ hu
        members := fun m hm _ => ⟨m, hmembers ▸ hm, rfl, rfl⟩
        oldMembers := fun m hm _ => ⟨m, hmembers ▸ hm, rfl, rfl⟩
        noInsert := fun _ hnil => hmembers.trans hnil }
  cases h with
  | stay => exact hrows s rfl rfl rfl (fun _ h => h) (fun _ h => h) id
  | user id hfree =>
    exact hrows _ rfl rfl rfl (fun _ h => Locks.take_keeps hfree h) (fun _ h => h) (fun h => h)
  | member id hfree =>
    exact hrows _ rfl rfl rfl (fun _ h => h) (fun _ h => Locks.take_keeps hfree h) (fun h => h)
  | exclusive hfree =>
    exact hrows _ rfl rfl rfl (fun _ h => h) (fun _ h => h)
      (fun h => Advisory.takeExclusive_keeps hfree h)
  | shared hfree => exact hrows _ rfl rfl rfl (fun _ h => h) (fun _ h => h) (fun h => h)

variable [DecidableEq ι]

/-- The writes of the administrative requests, before the locks are released. -/
inductive Write (s : Store ι Address) : Pc Address → Store ι Address → Prop
  | role (userId : ℕ) (newRole : Role) :
      Write s (.writeRole userId newRole) (s.setRole userId newRole)
  | delete (memberId : ℕ) (guarded : Bool) :
      Write s (.deleteMember memberId guarded) (s.deleteMember memberId)
  | confirm (memberId actorId : ℕ) (source : MemberSource) :
      Write s (.writeConfirmed memberId actorId source) (s.confirm memberId actorId)
  | offboard (userId memberId : ℕ) (guarded : Bool) :
      Write s (.finishOffboard userId (some memberId) guarded)
        ((s.setRole userId .viewer).deleteMember memberId)
  | demote (userId : ℕ) (guarded : Bool) :
      Write s (.finishOffboard userId none guarded) (s.setRole userId .viewer)
  | insert (imported : Option (List (Address × Role))) (email : Address) (initialRole : Role)
      (actorId : ℕ)
      (hunique : ∀ m ∈ s.members, m.email ≠ email ∧ m.email ∉ (imported.getD []).map Prod.fst) :
      Write s (.insertMember imported email initialRole actorId)
        (s.insertMembers (imported.getD []) email initialRole actorId)

/-- What a statement of an administrative request does to the store. -/
inductive Effect (i : ι) (s : Store ι Address) (pc : Pc Address) :
    Store ι Address → Pc Address → Prop
  | move {s' : Store ι Address} {pc' : Pc Address} : LockMove i s s' → Effect i s pc s' pc'
  | quit : Effect i s pc (s.release i) .done
  | write {s' : Store ι Address} : Write s pc s' → Effect i s pc (s'.release i) .done

variable {settings : Settings Address} {i : ι} {s' : Store ι Address} {pc pc' : Pc Address}

theorem effect_of_quit (h : s.quit i = some (s', pc')) : Effect i s pc s' pc' := by
  cases h
  exact .quit

theorem effect_of_stay {next : Pc Address} (h : some (s, next) = some (s', pc')) :
    Effect i s pc s' pc' := by
  cases h
  exact .move .stay

theorem effect_of_lockUser {id : ℕ} {next : Pc Address}
    (h : s.lockUser i id next = some (s', pc')) : Effect i s pc s' pc' := by
  unfold Store.lockUser at h
  split at h
  · next hfree =>
    cases h
    exact .move (.user id hfree)
  · cases h

theorem effect_of_lockedMember {id : ℕ} {next : WorkspaceMember Address → Pc Address}
    (h : s.lockedMember i id next = some (s', pc')) : Effect i s pc s' pc' := by
  unfold Store.lockedMember Store.lockMember at h
  split at h
  · exact effect_of_quit h
  · split at h
    · next hfree =>
      cases h
      exact .move (.member id hfree)
    · cases h

section Requests
variable [DecidableEq Address]

theorem effect_of_afterGuard {next : GuardedPc Address}
    (h : s.afterGuard i next = some (s', pc')) : Effect i s pc s' pc' := by
  cases next with
  | removal memberId => exact effect_of_stay h
  | roleChange userId newRole actorId confirmSelf =>
    simp only [Store.afterGuard] at h
    split at h
    · exact effect_of_quit h
    · exact effect_of_stay h
  | offboarding userId newOwnerId confirmEmail email =>
    simp only [Store.afterGuard] at h
    split at h
    · exact effect_of_quit h
    · exact effect_of_stay h

theorem effect_of_decide {enforced : Bool} {next : GuardedPc Address}
    {admins : List (ℕ × Address)} {memberIds : List (Address × ℕ)}
    (h : s.decide i enforced next admins memberIds = some (s', pc')) : Effect i s pc s' pc' := by
  unfold Store.decide at h
  split at h
  · exact effect_of_quit h
  · exact effect_of_afterGuard h

theorem effect_of_guard {guard : GuardPc Address} {next : GuardedPc Address}
    (h : guardAct i s next guard = some (s', pc')) : Effect i s pc s' pc' := by
  cases guard with
  | selectAdmins | selectMembers => exact effect_of_stay h
  | lockAdmins todo admins =>
    cases todo with
    | nil =>
      simp only [guardAct] at h
      split at h
      · exact effect_of_stay h
      · exact effect_of_decide h
    | cons id todo =>
      simp only [guardAct] at h
      split at h
      · split at h
        · exact effect_of_stay h
        · cases h
      · exact effect_of_lockUser h
  | lockMembers todo admins memberIds =>
    cases todo with
    | nil => exact effect_of_decide h
    | cons id todo =>
      simp only [guardAct] at h
      split at h
      · exact effect_of_stay h
      · unfold Store.lockMember at h
        split at h
        · next hfree =>
          cases h
          exact .move (.member id hfree)
        · cases h

theorem effect_of_start {request : Request Address}
    (h : startAct settings i s request = some (s', pc')) : Effect i s pc s' pc' := by
  cases request <;> simp only [startAct] at h
  case confirmMember | tokenSignIn | otpSignIn => exact effect_of_stay h
  case addMember =>
    split at h
    · exact effect_of_stay h
    · exact effect_of_quit h
  case setUserRole =>
    split at h
    · exact effect_of_quit h
    · exact effect_of_stay h
  case removeMember =>
    split at h
    · exact effect_of_quit h
    · split at h
      · exact effect_of_quit h
      · exact effect_of_stay h
  case offboard =>
    split at h
    · exact effect_of_quit h
    · split at h
      · exact effect_of_stay h
      · split at h
        · exact effect_of_quit h
        · exact effect_of_stay h

theorem effect_of_adminAct (h : adminAct settings i s pc = some (s', pc')) :
    Effect i s pc s' pc' := by
  cases pc <;> simp only [adminAct] at h
  case start => exact effect_of_start h
  case guard => exact effect_of_guard h
  case selectParty => exact effect_of_stay h
  case lockRemoved | lockConfirmed | lockOffboarded => exact effect_of_lockedMember h
  case writeRole userId newRole =>
    cases h
    exact .write (.role userId newRole)
  case deleteMember memberId guarded =>
    cases h
    exact .write (.delete memberId guarded)
  case writeConfirmed memberId actorId source =>
    split at h
    · exact effect_of_quit h
    · cases h
      exact .write (.confirm memberId actorId source)
  case finishOffboard userId memberId guarded =>
    cases memberId with
    | none =>
      cases h
      exact .write (.demote userId guarded)
    | some memberId =>
      cases h
      exact .write (.offboard userId memberId guarded)
  case lockTarget =>
    split at h
    · cases h
    · split at h
      · exact effect_of_quit h
      · split at h
        · exact effect_of_quit h
        · split at h
          · exact effect_of_lockUser h
          · exact effect_of_lockUser h
  case storedRole | readSwitch =>
    split at h
    · exact effect_of_stay h
    · exact effect_of_stay h
  case lockParty userId todo guarded =>
    cases todo with
    | nil => exact effect_of_stay h
    | cons id todo => exact effect_of_lockUser h
  case refreshUser | checkAbsent =>
    split at h
    · exact effect_of_quit h
    · exact effect_of_stay h
  case membership =>
    split at h
    · exact effect_of_stay h
    · exact effect_of_stay h
  case lockSwitch =>
    split at h
    · next hfree =>
      cases h
      exact .move (.exclusive hfree)
    · cases h
  case autoImport => exact effect_of_stay h
  case insertMember imported email initialRole actorId =>
    split at h
    · exact effect_of_quit h
    · next hunique =>
      cases h
      refine .write (.insert imported email initialRole actorId fun m hm => ?_)
      have hno := hunique
      simp only [List.any_eq_true, not_exists, not_and, Bool.or_eq_true, decide_eq_true_eq,
        List.contains_iff_mem, not_or] at hno
      exact hno m hm
  all_goals cases h

end Requests

theorem Effect.frame {i j : ι} {s s' : Store ι Address} {pc pc' : Pc Address}
    (h : Effect i s pc s' pc') (howned : Owned s i pc) (hij : j ≠ i) : Frame j s s' := by
  have hnotMine : ∀ {k : ℕ} {l : Locks ℕ ι}, l k = some i → l k ≠ some j :=
    fun hi hj => hij (Option.some.inj (hj.symm.trans hi))
  cases h with
  | move h => exact h.frame
  | quit =>
    exact .of_rows hij le_rfl rfl rfl rfl rfl (fun _ hu _ => hu) (fun m hm _ => ⟨m, hm, rfl, rfl⟩)
      (fun m hm _ => ⟨m, hm, rfl, rfl⟩) (fun _ h => h)
  | write h =>
    cases h with
    | role userId newRole =>
      exact .of_rows hij le_rfl rfl rfl rfl (setRole_identities _ _)
        (fun u hu hlock => setRole_keeps hu fun heq => hnotMine howned (heq ▸ hlock))
        (fun m hm _ => ⟨m, hm, rfl, rfl⟩) (fun m hm _ => ⟨m, hm, rfl, rfl⟩) (fun _ h => h)
    | demote userId guarded =>
      exact .of_rows hij le_rfl rfl rfl rfl (setRole_identities _ _)
        (fun u hu hlock => setRole_keeps hu fun heq => hnotMine howned (heq ▸ hlock))
        (fun m hm _ => ⟨m, hm, rfl, rfl⟩) (fun m hm _ => ⟨m, hm, rfl, rfl⟩) (fun _ h => h)
    | delete memberId guarded =>
      refine .of_rows hij le_rfl rfl rfl rfl rfl (fun _ hu _ => hu) (fun m hm hlock => ?_)
        (fun m hm _ => ⟨m, (mem_deleteMember.mp hm).1, rfl, rfl⟩) (fun _ hnil => ?_)
      · exact ⟨m, mem_deleteMember.mpr ⟨hm, fun heq => hnotMine howned (heq ▸ hlock)⟩, rfl, rfl⟩
      · simp [Store.deleteMember, hnil]
    | offboard userId memberId guarded =>
      refine .of_rows hij le_rfl rfl rfl rfl (setRole_identities _ _)
        (fun u hu hlock => setRole_keeps hu fun heq => hnotMine howned.1 (heq ▸ hlock))
        (fun m hm hlock => ?_) (fun m hm _ => ⟨m, (mem_deleteMember.mp hm).1, rfl, rfl⟩)
        (fun _ hnil => ?_)
      · exact ⟨m, mem_deleteMember.mpr ⟨hm, fun heq => hnotMine howned.2 (heq ▸ hlock)⟩, rfl, rfl⟩
      · simp [Store.deleteMember, hnil]
    | confirm memberId actorId source =>
      refine .of_rows hij le_rfl rfl rfl rfl rfl (fun _ hu _ => hu)
        (fun m hm _ => identities_of_map (confirm_identities memberId actorId) m hm)
        (fun m hm _ => identities_of_map (confirm_identities memberId actorId).symm m hm)
        (fun _ hnil => ?_)
      simp [Store.confirm, hnil]
    | insert imported email initialRole actorId hunique =>
      refine .of_rows hij (by simp [Store.insertMembers]; omega) rfl rfl rfl rfl (fun _ hu _ => hu)
        (fun m hm _ => ⟨m, insertMembers_keeps hm, rfl, rfl⟩) (fun m hm hlt => ?_)
        (fun hexclusive => ?_)
      · rcases mem_insertMembers hm with hm | hfresh
        · exact ⟨m, hm, rfl, rfl⟩
        · omega
      · exact absurd (Option.some.inj (hexclusive.symm.trans howned.1)) hij

theorem Effect.members {i : ι} {s s' : Store ι Address} {pc pc' : Pc Address}
    (h : Effect i s pc s' pc') : MembersChange s pc s' := by
  cases h with
  | move hmove => cases hmove <;> exact .same rfl
  | quit => exact .same rfl
  | write hwrite =>
    cases hwrite with
    | role | demote => exact .same rfl
    | delete memberId | offboard _ memberId => exact .delete memberId rfl
    | confirm memberId actorId => exact .confirm memberId actorId rfl
    | insert imported email initialRole actorId hunique =>
      exact .insert imported email initialRole actorId rfl hunique rfl rfl rfl

theorem Effect.nextId {i : ι} {s s' : Store ι Address} {pc pc' : Pc Address}
    (h : Effect i s pc s' pc') : s.nextId ≤ s'.nextId := by
  cases h with
  | move hmove => cases hmove <;> exact le_rfl
  | quit => exact le_rfl
  | write hwrite =>
    cases hwrite with
    | role | demote | delete | offboard | confirm => exact le_rfl
    | insert =>
      simp only [Store.release, Store.insertMembers]
      omega

theorem Effect.identities {i : ι} {s s' : Store ι Address} {pc pc' : Pc Address}
    (h : Effect i s pc s' pc') :
    s'.users.map (fun u => (u.id, u.email)) = s.users.map fun u => (u.id, u.email) := by
  cases h with
  | move hmove => cases hmove <;> rfl
  | quit => rfl
  | write hwrite =>
    cases hwrite with
    | role | demote | offboard => exact setRole_identities _ _
    | delete | confirm | insert => rfl

theorem Effect.wellFormed {i : ι} {s s' : Store ι Address} {pc pc' : Pc Address}
    (h : Effect i s pc s' pc') (howned : Owned s i pc) (hwf : s.WellFormed) : s'.WellFormed :=
  hwf.of_identities h.identities
    (h.members.membersOk (fun _ _ _ _ _ => howned) hwf.membersOk h.nextId) h.nextId

end DataQ.Membership
