import DataQ.Membership.Trail

/-! # What the sign-in lock keeps apart

`lock_signin`: an `add_member` takes it exclusively before it reads the switch, every sign-in that
may create a row takes it shared before its check. What one side has read under the lock therefore
stays true until it writes: the import of a switch-on covers every stored address, and a sign-in
that was let in stays covered. -/

namespace DataQ.Membership
open DataQ.Locking DataQ.Interleaving
set_option autoImplicit false

variable {Address ι : Type*}

/-! ## The writes of the sign-ins -/

/-- The writes of the sign-ins, before the locks are released. -/
inductive SignInWrite (settings : Settings Address) (s : Store ι Address) :
    Pc Address → Store ι Address → Prop
  | update (signIn : SignIn Address) (initialRole : Option Role) (u : User Address) :
      (∀ v ∈ s.users, v.id ≠ u.id → v.email ≠ signIn.email) →
      SignInWrite settings s (.upsertUser signIn initialRole) (s.updateUser settings u.id signIn)
  | claim (signIn : SignIn Address) (u : User Address) : u ∈ s.users → u.email = signIn.email →
      SignInWrite settings s (.claimUser signIn) (s.updateUser settings u.id signIn)
  | create (signIn : SignIn Address) (initialRole : Option Role) (role : Role) :
      (∀ v ∈ s.users, v.email ≠ signIn.email) →
      SignInWrite settings s (.upsertUser signIn initialRole)
        (s.insertUser (some signIn.aadObjectId) signIn.email role)
  | createByCode (email : Address) (initialRole : Option Role) (role : Role) :
      (∀ v ∈ s.users, v.email ≠ email) →
      SignInWrite settings s (.otpInsert email initialRole) (s.insertUser none email role)
  | touch (userId : ℕ) (promote : Bool) :
      SignInWrite settings s (.otpTouch userId promote)
        (if promote then s.setRole userId .admin else s)

/-- A session's place that needs no lock. -/
def Pc.unlocked : Pc Address → Bool
  | .done | .claimUser _ | .lockSignIn _ => true
  | _ => false

section Effects
variable [DecidableEq ι]

inductive SignInEffect (settings : Settings Address) (i : ι) (s : Store ι Address)
    (pc : Pc Address) : Store ι Address → Pc Address → Prop
  | move {s' : Store ι Address} {pc' : Pc Address} : LockMove i s s' →
      SignInEffect settings i s pc s' pc'
  | release {pc' : Pc Address} : pc'.unlocked = true →
      SignInEffect settings i s pc (s.release i) pc'
  | write {s' : Store ι Address} : SignInWrite settings s pc s' →
      SignInEffect settings i s pc (s'.release i) .done

variable {settings : Settings Address} {i : ι} {s s' : Store ι Address} {pc pc' : Pc Address}

theorem writeUser_inv {userId : ℕ} {written : Store ι Address}
    (h : s.writeUser i userId written = some (s', pc')) : s' = written.release i ∧ pc' = .done := by
  unfold Store.writeUser at h
  split at h
  · cases h
    exact ⟨rfl, rfl⟩
  · cases h

theorem signInEffect_of_quit (h : s.quit i = some (s', pc')) :
    SignInEffect settings i s pc s' pc' := by
  cases h
  exact .release rfl

variable [DecidableEq Address]

theorem signInEffect_of_upsert {signIn : SignIn Address} {initialRole : Option Role}
    (h : signInAct settings i s (.upsertUser signIn initialRole) = some (s', pc')) :
    SignInEffect settings i s (.upsertUser signIn initialRole) s' pc' := by
  have hconflict : (if signIn.retrying then s.quit i else some (s.release i, .claimUser signIn)) =
      some (s', pc') → SignInEffect settings i s (.upsertUser signIn initialRole) s' pc' := by
    intro h
    split at h
    · exact signInEffect_of_quit h
    · cases h
      exact .release rfl
  simp only [signInAct] at h
  split at h
  · next u hu =>
    split at h
    · exact hconflict h
    · next hunique =>
      obtain ⟨rfl, rfl⟩ := writeUser_inv h
      refine .write (.update signIn initialRole u fun v hv hid hemail => hunique ?_)
      exact List.any_eq_true.mpr ⟨v, hv, by simp [hid, hemail]⟩
  · split at h
    · exact hconflict h
    · next hnone =>
      cases h
      refine .write (.create signIn initialRole _ fun v hv hemail => hnone ?_)
      rw [Store.userByEmail, List.find?_isSome]
      exact ⟨v, hv, by simpa using hemail⟩

/-- An upsert ends the transaction, or rolls it back to link the row it collided with. -/
theorem upsert_unlocked {signIn : SignIn Address} {initialRole : Option Role}
    (h : signInAct settings i s (.upsertUser signIn initialRole) = some (s', pc')) :
    pc'.unlocked = true := by
  have hconflict : (if signIn.retrying then s.quit i else some (s.release i, .claimUser signIn)) =
      some (s', pc') → pc'.unlocked = true := by
    intro h
    split at h <;> cases h <;> rfl
  simp only [signInAct] at h
  split at h
  · split at h
    · exact hconflict h
    · obtain ⟨-, rfl⟩ := writeUser_inv h
      rfl
  · split at h
    · exact hconflict h
    · cases h
      rfl

theorem effect_of_signInAct (h : signInAct settings i s pc = some (s', pc')) :
    SignInEffect settings i s pc s' pc' := by
  cases pc
  case upsertUser => exact signInEffect_of_upsert h
  all_goals simp only [signInAct] at h
  case lockSignIn | otpLock =>
    split at h
    · next hfree =>
      cases h
      exact .move (.shared hfree)
    · cases h
  case signInRow =>
    split at h
    · cases h
      exact .move .stay
    · split at h <;> cases h <;> exact .move .stay
  case signInSwitch | otpSwitch =>
    split at h
    · cases h
      exact .move .stay
    · exact signInEffect_of_quit h
  case claimUser signIn =>
    split at h
    · next u hu =>
      obtain ⟨rfl, rfl⟩ := writeUser_inv h
      have hfound := List.find?_some hu
      simp only [Bool.and_eq_true, decide_eq_true_eq] at hfound
      exact .write (.claim signIn u (List.mem_of_find?_eq_some hu) hfound.1)
    · cases h
      exact .release rfl
  case otpRow | otpResolve =>
    split at h <;> cases h <;> exact .move .stay
  case otpTouch userId promote =>
    obtain ⟨rfl, rfl⟩ := writeUser_inv h
    exact .write (.touch userId promote)
  case otpInitialRole =>
    cases h
    exact .move .stay
  case otpInsert email initialRole =>
    split at h
    · exact signInEffect_of_quit h
    · next hnone =>
      cases h
      refine .write (.createByCode email initialRole _ fun v hv hemail => hnone ?_)
      rw [Store.userByEmail, List.find?_isSome]
      exact ⟨v, hv, by simpa using hemail⟩
  all_goals cases h

end Effects

/-! ## What a session holds and has seen -/

section Holding
variable [DecidableEq Address]

/-- What session `i` holds and knows before its next statement. -/
def Holding (settings : Settings Address) (s : Store ι Address) (t : Trail Address) (i : ι) :
    Pc Address → Prop
  | .checkAbsent _ _ _ | .readSwitch _ _ _ => s.signin.exclusive = some i
  | .autoImport _ _ _ => s.signin.exclusive = some i ∧ s.members = []
  | .insertMember none _ _ _ => s.signin.exclusive = some i
  | .insertMember (some rows) email _ _ => s.signin.exclusive = some i ∧ Importing s rows email
  | .signInRow _ | .signInSwitch _ | .otpInitialRole _ | .otpInsert _ _ => i ∈ s.signin.shared
  | .upsertUser signIn _ => i ∈ s.signin.shared ∧ t.covers settings s signIn.email = true
  | _ => True

structure DoorInv (settings : Settings Address) (c : World ι Address) (t : Trail Address) :
    Prop where
  membersOk : MembersOk c.store
  sound : c.store.signin.Sound
  holding : ∀ i, Holding settings c.store t i (c.session i)
  barred : t.Barred c.store

theorem Holding.owned {settings : Settings Address} {s : Store ι Address} {t : Trail Address}
    {i : ι} {imported : Option (List (Address × Role))} {email : Address} {initialRole : Role}
    {actorId : ℕ}
    (h : Holding settings s t i (.insertMember imported email initialRole actorId)) :
    Owned s i (.insertMember imported email initialRole actorId) := by
  cases imported with
  | none => exact ⟨h, List.nodup_nil, List.not_mem_nil⟩
  | some rows => exact ⟨h.1, h.2.nodup, h.2.fresh⟩

end Holding

/-! ## What the other sessions can rely on -/

section Frames
variable [DecidableEq Address] {settings : Settings Address} {s s' : Store ι Address}
  {t t' : Trail Address} {i j : ι} {pc pc' : Pc Address}

/-- Where `s'` comes from `s` by a statement of another session than `j`. -/
structure DoorFrame (j : ι) (s s' : Store ι Address) : Prop where
  exclusive : s.signin.exclusive = some j → s'.signin.exclusive = some j
  shared : j ∈ s.signin.shared → j ∈ s'.signin.shared
  noInsert : s.signin.exclusive = some j → s.members = [] → s'.members = []
  emails : s.signin.exclusive = some j → ∀ u' ∈ s'.users, ∃ u ∈ s.users, u.email = u'.email

theorem Holding.frame (h : Holding settings s t j pc) (hf : DoorFrame j s s')
    (hcovers : j ∈ s.signin.shared → ∀ email, t.covers settings s email = true →
      t'.covers settings s' email = true) : Holding settings s' t' j pc := by
  cases pc with
  | checkAbsent | readSwitch => exact hf.exclusive h
  | autoImport => exact ⟨hf.exclusive h.1, hf.noInsert h.1 h.2⟩
  | insertMember imported email =>
    cases imported with
    | none => exact hf.exclusive h
    | some rows =>
      obtain ⟨hlock, himport⟩ := h
      refine ⟨hf.exclusive hlock, hf.noInsert hlock himport.empty, himport.nodup, himport.fresh, ?_⟩
      intro u' hu'
      obtain ⟨u, hu, hemail⟩ := hf.emails hlock u' hu'
      rw [← hemail]
      exact himport.covers u hu
  | signInRow | signInSwitch | otpInitialRole | otpInsert => exact hf.shared h
  | upsertUser => exact ⟨hf.shared h.1, hcovers h.1 _ h.2⟩
  | _ => trivial

/-- A statement that does not switch membership on keeps every address covered. -/
theorem MembersChange.covers (h : MembersChange s pc s')
    (hoff : s.members = [] → s'.members = []) {email : Address}
    (hcovers : t.covers settings s email = true) :
    (t.observe s.members s'.members).covers settings s' email = true := by
  by_cases hon : s.members = []
  · exact covers_of_same hcovers ((hoff hon).trans hon.symm)
  · refine covers_of_rows hcovers hon fun m hm => ?_
    cases h with
    | same heq => exact .inl ⟨m, heq ▸ hm, rfl⟩
    | delete memberId heq =>
      by_cases hid : m.id = memberId
      · refine .inr fun m' hm' => ?_
        rw [heq] at hm'
        rw [hid]
        exact (mem_deleteMember.mp hm').2
      · exact .inl ⟨m, heq ▸ mem_deleteMember.mpr ⟨hm, hid⟩, rfl⟩
    | confirm memberId actorId heq =>
      obtain ⟨m', hm', -, hemail⟩ := identities_of_map (confirm_identities memberId actorId) m hm
      exact .inl ⟨m', heq ▸ hm', hemail⟩
    | insert imported added initialRole actorId _ _ _ heq =>
      exact .inl ⟨m, heq ▸ insertMembers_keeps hm, rfl⟩

/-- No statement readmits an address whose removal stands. -/
theorem MembersChange.barred (h : MembersChange s pc s') (hok : MembersOk s)
    (hholding : Holding settings s t i pc) (hbarred : t.Barred s) :
    (t.observe s.members s'.members).Barred s' := by
  cases h with
  | same heq => exact hbarred.of_same heq
  | delete memberId heq =>
    intro email hemail
    obtain ⟨hafter, hwhere, -⟩ := observe_sinceOn hemail
    refine ⟨hafter, fun m hm heq' => ?_⟩
    rw [heq] at hm
    obtain ⟨hmem, hid⟩ := mem_deleteMember.mp hm
    rcases hwhere with hold | hgone
    · exact (hbarred email hold).2 m hmem heq'
    · obtain ⟨n, hn, hnemail, hngone⟩ := mem_goneAddresses.mp hgone
      have hmn : m = n := List.inj_on_of_nodup_map hok.emails hmem hn (heq'.trans hnemail.symm)
      subst hmn
      exact hngone m (heq ▸ hm) rfl
  | confirm memberId actorId heq =>
    have hids := identities_of_map (confirm_identities (s := s) memberId actorId)
    intro email hemail
    obtain ⟨hafter, hwhere, -⟩ := observe_sinceOn hemail
    have hold := hwhere.resolve_right (by
      rw [goneAddresses_eq_nil fun m hm => ?_]
      · exact List.not_mem_nil
      · obtain ⟨m', hm', hid, -⟩ := hids m hm
        exact ⟨m', heq ▸ hm', hid⟩)
    refine ⟨hafter, fun m hm heq' => ?_⟩
    obtain ⟨n, hn, -, hnemail⟩ :=
      identities_of_map (confirm_identities (s := s) memberId actorId).symm m (heq ▸ hm)
    exact (hbarred email hold).2 n hn (hnemail.trans heq')
  | insert imported added initialRole actorId hpc hunique _ heq _ =>
    subst hpc
    intro email hemail
    obtain ⟨hafter, hwhere, hnotAdded⟩ := observe_sinceOn hemail
    have hold := hwhere.resolve_right (by
      rw [goneAddresses_eq_nil fun m hm => ⟨m, heq ▸ insertMembers_keeps hm, rfl⟩]
      exact List.not_mem_nil)
    obtain ⟨hon, hout⟩ := hbarred email hold
    have hnone : imported = none := by
      cases imported with
      | none => rfl
      | some rows => exact absurd hholding.2.empty hon
    subst hnone
    refine ⟨hafter, fun m hm heq' => ?_⟩
    rw [heq] at hm
    have hcases : m ∈ s.members ∨ m = ⟨s.nextId, added, initialRole, .admin, some actorId⟩ := by
      simpa [Store.insertMembers, importedRows] using hm
    rcases hcases with hmem | rfl
    · exact hout m hmem heq'
    · refine hnotAdded (List.mem_map.mpr ⟨_, List.mem_filter.mpr ⟨heq ▸ hm, ?_⟩, heq'⟩)
      have hfresh : ∀ n ∈ s.members, n.id ≠ s.nextId := fun n hn => (hok.fresh n hn).ne
      simpa using hfresh

end Frames

section Rows
variable {settings : Settings Address} {s s' : Store ι Address} {i j : ι} {pc : Pc Address}

theorem mem_updateUser {userId : ℕ} {signIn : SignIn Address} {u' : User Address}
    (h : u' ∈ (s.updateUser settings userId signIn).users) :
    u'.email = signIn.email ∨ ∃ u ∈ s.users, u.email = u'.email := by
  obtain ⟨u, hu, heq⟩ := List.mem_map.mp h
  split at heq
  · exact .inl (heq ▸ rfl)
  · exact .inr ⟨u, hu, heq ▸ rfl⟩

theorem mem_insertUser {aadObjectId : Option ℕ} {email : Address} {role : Role}
    {u' : User Address} (h : u' ∈ (s.insertUser aadObjectId email role).users) :
    u'.email = email ∨ ∃ u ∈ s.users, u.email = u'.email := by
  rcases List.mem_append.mp h with hu | hu
  · exact .inr ⟨u', hu, rfl⟩
  · rw [List.mem_singleton] at hu
    exact .inl (hu ▸ rfl)

theorem emails_of_identities
    (h : s'.users.map (fun u => (u.id, u.email)) = s.users.map fun u => (u.id, u.email)) :
    ∀ u' ∈ s'.users, ∃ u ∈ s.users, u.email = u'.email := by
  intro u' hu'
  have hin : (u'.id, u'.email) ∈ s.users.map fun u => (u.id, u.email) := by
    rw [← h]
    exact List.mem_map_of_mem hu'
  obtain ⟨u, hu, heq⟩ := List.mem_map.mp hin
  exact ⟨u, hu, (Prod.mk.inj heq).2⟩

theorem MembersChange.noInsert {t : Trail Address} [DecidableEq Address]
    (h : MembersChange s pc s') (hholding : Holding settings s t i pc) (hij : j ≠ i)
    (hj : s.signin.exclusive = some j) (hnil : s.members = []) : s'.members = [] := by
  cases h with
  | same heq => rw [heq, hnil]
  | delete memberId heq => simp [heq, Store.deleteMember, hnil]
  | confirm memberId actorId heq => simp [heq, Store.confirm, hnil]
  | insert imported email initialRole actorId hpc =>
    subst hpc
    exact absurd (Option.some.inj (hj.symm.trans hholding.owned.1)) hij

theorem resume_adding (next : GuardedPc Address) : next.resume.adding = false := by
  cases next <;> rfl

theorem offboarding_adding {p : ℕ × Bool} (h : pc.offboarding = some p) : pc.adding = false := by
  cases pc with
  | checkAbsent | readSwitch | autoImport | insertMember => cases h
  | _ => rfl

theorem resume_entering (next : GuardedPc Address) : next.resume.entering = false := by
  cases next <;> rfl

theorem offboarding_entering {p : ℕ × Bool} (h : pc.offboarding = some p) :
    pc.entering = false := by
  cases pc with
  | signInRow | signInSwitch | upsertUser | otpResolve | otpLock | otpInitialRole | otpInsert =>
    cases h
  | _ => rfl

theorem holding_unlocked [DecidableEq Address] {t : Trail Address} (h : pc.unlocked = true) :
    Holding settings s t i pc := by
  cases pc with
  | done | claimUser | lockSignIn => trivial
  | _ => cases h

theorem holding_outside [DecidableEq Address] {t : Trail Address} (hentering : pc.entering = false)
    (hadding : pc.adding = false) : Holding settings s t i pc := by
  cases pc with
  | checkAbsent | readSwitch | autoImport | insertMember => cases hadding
  | signInRow | signInSwitch | upsertUser | otpInitialRole | otpInsert => cases hentering
  | _ => trivial

/-- Only an `add_member` with the sign-in lock switches membership on. -/
theorem MembersChange.switchOn (h : MembersChange s pc s') (hoff : s.members = [])
    (hon : s'.members ≠ []) : ∃ imported email initialRole actorId,
      pc = .insertMember imported email initialRole actorId ∧ s'.users = s.users ∧
        s'.members = (s.insertMembers (imported.getD []) email initialRole actorId).members := by
  cases h with
  | same heq => exact absurd (heq.trans hoff) hon
  | delete memberId heq => exact absurd (by simp [heq, Store.deleteMember, hoff]) hon
  | confirm memberId actorId heq => exact absurd (by simp [heq, Store.confirm, hoff]) hon
  | insert imported email initialRole actorId hpc _ husers heq _ =>
    exact ⟨imported, email, initialRole, actorId, hpc, husers, heq⟩

section Covers
variable [DecidableEq Address]

theorem covers_of_isMember {t : Trail Address} {email : Address}
    (h : s.isMember settings email = true) : t.covers settings s email = true :=
  covers_iff.mpr fun _ _ => .inl h

theorem covers_of_empty {t : Trail Address} {email : Address} (h : s.members = []) :
    (t.observe s.members s.members).covers settings s email = true :=
  covers_iff.mpr fun _ hgone => absurd h (observe_switchedOn hgone).1

end Covers

end Rows

/-! ## One statement -/

section Statement
variable [DecidableEq ι] {settings : Settings Address} {s s' : Store ι Address} {i j : ι}
  {pc pc' : Pc Address}

theorem LockMove.signin (h : LockMove i s s') : s.signin.Moves i s'.signin := by
  cases h with
  | stay | user | member => exact .same
  | exclusive hfree => exact .exclusive hfree
  | shared hfree => exact .shared hfree

theorem Effect.signin (h : Effect i s pc s' pc') : s.signin.Moves i s'.signin := by
  cases h with
  | move hmove => exact hmove.signin
  | quit => exact .release
  | write hwrite => cases hwrite <;> exact .release

theorem SignInEffect.signin (h : SignInEffect settings i s pc s' pc') :
    s.signin.Moves i s'.signin := by
  cases h with
  | move hmove => exact hmove.signin
  | release => exact .release
  | write hwrite =>
    cases hwrite with
    | touch userId promote => cases promote <;> exact .release
    | update | claim | create | createByCode => exact .release

theorem SignInEffect.members (h : SignInEffect settings i s pc s' pc') :
    MembersChange s pc s' := by
  cases h with
  | move hmove => cases hmove <;> exact .same rfl
  | release => exact .same rfl
  | write hwrite =>
    cases hwrite with
    | touch userId promote => cases promote <;> exact .same rfl
    | update | claim | create | createByCode => exact .same rfl

theorem SignInEffect.nextId (h : SignInEffect settings i s pc s' pc') : s.nextId ≤ s'.nextId := by
  cases h with
  | move hmove => cases hmove <;> exact le_rfl
  | release => exact le_rfl
  | write hwrite =>
    cases hwrite with
    | touch userId promote => cases promote <;> exact le_rfl
    | update | claim => exact le_rfl
    | create | createByCode => exact Nat.le_succ _

/-- The address a sign-in is about to store. -/
def Pc.storing : Pc Address → Option Address
  | .upsertUser signIn _ => some signIn.email
  | .otpInsert email _ => some email
  | _ => none

theorem SignInEffect.emails (h : SignInEffect settings i s pc s' pc') :
    ∀ u' ∈ s'.users, pc.storing = some u'.email ∨ ∃ u ∈ s.users, u.email = u'.email := by
  intro u' hu'
  cases h with
  | move hmove => cases hmove <;> exact .inr ⟨u', hu', rfl⟩
  | release => exact .inr ⟨u', hu', rfl⟩
  | write hwrite =>
    cases hwrite with
    | touch userId promote =>
      cases promote with
      | false => exact .inr ⟨u', hu', rfl⟩
      | true => exact .inr (emails_of_identities (setRole_identities userId .admin) u' hu')
    | update => exact (mem_updateUser hu').imp_left fun h => congrArg some h.symm
    | claim signIn u hu hemail =>
      refine .inr ((mem_updateUser hu').elim (fun h => ⟨u, hu, hemail.trans h.symm⟩) id)
    | create => exact (mem_insertUser hu').imp_left fun h => congrArg some h.symm
    | createByCode => exact (mem_insertUser hu').imp_left fun h => congrArg some h.symm

variable [DecidableEq Address]

/-- What a statement does to the rows and to the sign-in lock. -/
structure Outcome (i : ι) (s : Store ι Address) (pc : Pc Address) (s' : Store ι Address) :
    Prop where
  signin : s.signin.Moves i s'.signin
  members : MembersChange s pc s'
  nextId : s.nextId ≤ s'.nextId
  emails : ∀ u' ∈ s'.users, pc.storing = some u'.email ∨ ∃ u ∈ s.users, u.email = u'.email

theorem outcome_of_act {a : Act} (h : act settings i a s pc = some (s', pc')) :
    Outcome i s pc s' ∧ (pc' = .done ∨
      pc.ofSignIn = true ∧ signInAct settings i s pc = some (s', pc') ∨
      pc.ofSignIn = false ∧ adminAct settings i s pc = some (s', pc')) := by
  cases a with
  | fail =>
    simp only [act] at h
    split at h
    · cases h
      exact ⟨⟨.release, .same rfl, le_rfl, fun u' hu' => .inr ⟨u', hu', rfl⟩⟩, .inl rfl⟩
    · cases h
  | proceed =>
    simp only [act] at h
    split at h
    · next hsign =>
      have heff := effect_of_signInAct h
      exact ⟨⟨heff.signin, heff.members, heff.nextId, heff.emails⟩, .inr (.inl ⟨hsign, h⟩)⟩
    · next hsign =>
      have heff := effect_of_adminAct h
      exact ⟨⟨heff.signin, heff.members, heff.nextId,
        fun u' hu' => .inr (emails_of_identities heff.identities u' hu')⟩,
        .inr (.inr ⟨by simpa using hsign, h⟩)⟩

theorem holding_adding {t t' : Trail Address} (hadding : pc'.adding = true)
    (hholding : Holding settings s t i pc)
    (h : adminAct settings i s pc = some (s', pc')) : Holding settings s' t' i pc' := by
  have hfrom : pc.adding = true ∨ ∃ email initialRole actorId,
      pc = .lockSwitch email initialRole actorId := by
    cases arrives h with
    | plain _ _ hadds => exact hadds hadding
    | guard hguard =>
      rcases guard_next hguard with ⟨guard', rfl⟩ | rfl | ⟨-, rfl, -⟩
      · cases hadding
      · cases hadding
      · rw [resume_adding] at hadding
        cases hadding
    | removal => cases hadding
    | offboarding _ _ hafter _ =>
      rw [offboarding_adding hafter] at hadding
      cases hadding
  rcases hfrom with hpc | ⟨email, initialRole, actorId, rfl⟩
  · cases pc <;> simp only [Pc.adding, Bool.false_eq_true] at hpc <;> simp only [adminAct] at h
    case checkAbsent =>
      split at h <;> cases h
      · cases hadding
      · exact hholding
    case readSwitch =>
      split at h
      · cases h
        exact hholding
      · next hoff =>
        cases h
        exact ⟨hholding, by simpa [Store.enforcementActive] using hoff⟩
    case autoImport email initialRole actorId =>
      cases h
      obtain ⟨hnodup, hfresh⟩ := autoImport_nodup [email] s.users
      refine ⟨hholding.1, hholding.2, hnodup, fun hin => hfresh email hin List.mem_cons_self, ?_⟩
      intro u hu
      exact (autoImport_covers [email] s.users u hu).imp_left List.mem_singleton.mp
    case insertMember =>
      split at h <;> cases h <;> cases hadding
  · simp only [adminAct] at h
    split at h <;> cases h
    rfl

/-- What a sign-in holds and has seen after its own statement. -/
theorem holding_signIn {t : Trail Address} (hholding : Holding settings s t i pc)
    (h : signInAct settings i s pc = some (s', pc')) :
    Holding settings s' (t.observe s.members s'.members) i pc' := by
  cases pc
  case upsertUser => exact holding_unlocked (upsert_unlocked h)
  all_goals simp only [signInAct] at h
  case lockSignIn =>
    split at h <;> cases h
    exact List.mem_cons_self
  case signInRow signIn =>
    split at h
    · next hdev =>
      cases h
      exact ⟨hholding, covers_of_isMember (by simp [Store.isMember, hdev])⟩
    · split at h
      · next hrow =>
        cases h
        refine ⟨hholding, covers_of_isMember ?_⟩
        simp only [Bool.or_eq_true, decide_eq_true_eq] at hrow
        rcases hrow with hrow | hgranted
        · simp [Store.isMember, hrow]
        · simp [Store.isMember, hgranted]
      · cases h
        exact hholding
  case signInSwitch signIn =>
    split at h
    · next henter =>
      cases h
      refine ⟨hholding, covers_of_empty ?_⟩
      simp only [Store.unlistedMayEnter, Store.enforcementActive, Bool.and_eq_true,
        Bool.not_eq_true', Bool.not_eq_false', List.isEmpty_iff] at henter
      exact henter.1
    · cases h
      trivial
  case claimUser | otpTouch =>
    first
      | (split at h
         · obtain ⟨rfl, rfl⟩ := writeUser_inv h
           trivial
         · cases h
           trivial)
      | (obtain ⟨rfl, rfl⟩ := writeUser_inv h
         trivial)
  case otpRow | otpResolve =>
    split at h <;> cases h <;> trivial
  case otpSwitch =>
    split at h <;> cases h <;> trivial
  case otpLock =>
    split at h <;> cases h
    exact List.mem_cons_self
  case otpInitialRole =>
    cases h
    exact hholding
  case otpInsert =>
    split at h <;> cases h <;> trivial
  all_goals cases h

/-- The statements of the admin requests lead to no sign-in's that is past its lock or check. -/
theorem adminAct_entering (h : adminAct settings i s pc = some (s', pc')) :
    pc'.entering = false := by
  cases arrives h with
  | plain _ hentering _ => exact hentering
  | removal => rfl
  | guard hguard =>
    rcases guard_next hguard with ⟨guard', rfl⟩ | rfl | ⟨-, rfl, -⟩
    · rfl
    · rfl
    · exact resume_entering _
  | offboarding _ _ hafter _ => exact offboarding_entering hafter

/-- What session `i` holds and has seen after its own statement. -/
theorem holding_next {t : Trail Address} {a : Act} (hholding : Holding settings s t i pc)
    (h : act settings i a s pc = some (s', pc')) :
    Holding settings s' (t.observe s.members s'.members) i pc' := by
  rcases (outcome_of_act h).2 with rfl | ⟨-, hsign⟩ | ⟨-, hadmin⟩
  · trivial
  · exact holding_signIn hholding hsign
  · by_cases hadding : pc'.adding = true
    · exact holding_adding hadding hholding hadmin
    · exact holding_outside (adminAct_entering hadmin) (by simpa using hadding)

variable {c : World ι Address} {t : Trail Address}

theorem Outcome.frame (h : Outcome i s pc s') (hholding : Holding settings s t i pc)
    (hsound : s.signin.Sound) (hij : j ≠ i) : DoorFrame j s s' where
  exclusive := h.signin.keeps_exclusive hij
  shared := h.signin.keeps_shared hij
  noInsert := h.members.noInsert hholding hij
  emails := by
    intro hj u' hu'
    refine (h.emails u' hu').resolve_left fun hstoring => hij ?_
    have hshared : i ∈ s.signin.shared := by
      cases pc with
      | upsertUser => exact hholding.1
      | otpInsert => exact hholding
      | _ => cases hstoring
    exact (hsound j hj i hshared).symm

theorem DoorInv.step {a : Act} (hinv : DoorInv settings c t)
    (h : act settings i a c.store (c.session i) = some (s', pc')) :
    DoorInv settings (c.put i (s', pc')) (t.observe c.store.members s'.members) := by
  obtain ⟨hout, -⟩ := outcome_of_act h
  have hmine := hinv.holding i
  refine ⟨?_, hout.signin.sound hinv.sound, fun j => ?_,
    hout.members.barred hinv.membersOk hmine hinv.barred⟩
  · refine hout.members.membersOk (i := i) (fun imported email initialRole actorId hpc => ?_)
      hinv.membersOk hout.nextId
    rw [hpc] at hmine ⊢
    exact hmine.owned
  · by_cases hj : j = i
    · subst hj
      rw [Config.put_session_self]
      exact holding_next hmine h
    · rw [Config.put_session_ne c _ hj]
      refine (hinv.holding j).frame (hout.frame hmine hinv.sound hj) fun hshared email hcovers => ?_
      refine hout.members.covers (fun hoff => ?_) hcovers
      by_contra hon
      obtain ⟨imported, added, initialRole, actorId, hpc, -⟩ := hout.members.switchOn hoff hon
      rw [hpc] at hmine
      exact hj (hinv.sound i hmine.owned.1 j hshared)

end Statement

end DataQ.Membership
