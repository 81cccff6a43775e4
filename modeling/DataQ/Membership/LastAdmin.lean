import DataQ.Foundations.Transition
import DataQ.Membership.Evidence

/-! # The workspace keeps a usable administrator

Along every run of the five administrative requests in which the role that a removal or an
offboarding read before its locks still stands when it takes them, some stored-role admin can come
in. Without that a promotion that falls between the read and the locks loses the new admin's
membership, or role, unguarded. -/

namespace DataQ.Membership
open DataQ.Locking DataQ.Interleaving DataQ.Transition
set_option autoImplicit false

variable {Address ι : Type*}

section Store
variable {i j : ι} {s : Store ι Address} {u : User Address}

/-- A row that somebody holds is not one that another session deletes unguarded. -/
theorem unguardedDelete_locked {pc : Pc Address} {memberId : ℕ} (hst : Standing s j pc)
    (h : pc.unguardedDelete = some memberId) : s.memberLocks memberId = some j := by
  cases pc with
  | deleteMember mid guarded =>
    cases guarded with
    | true => cases h
    | false =>
      cases h
      obtain ⟨email, hrow⟩ := hst
      exact hrow.lock
  | finishOffboard userId mid guarded =>
    cases guarded with
    | true => cases h
    | false =>
      cases h
      obtain ⟨-, -, email, hrow⟩ := hst
      exact hrow.lock
  | _ => cases h

theorem unguardedDelete_known {pc : Pc Address} {memberId : ℕ} (hwf : s.WellFormed)
    (hst : Standing s j pc) (h : pc.unguardedDelete = some memberId) : memberId < s.nextId := by
  cases pc with
  | deleteMember mid guarded =>
    cases guarded with
    | true => cases h
    | false =>
      cases h
      obtain ⟨email, hrow⟩ := hst
      exact hrow.known hwf
  | finishOffboard userId mid guarded =>
    cases guarded with
    | true => cases h
    | false =>
      cases h
      exact hst.2.1.known
  | _ => cases h

/-- A departing user's row is not the row of another user. -/
theorem DepartingRow.ne_of_email {userId memberId : ℕ} {guarded : Bool} (hwf : s.WellFormed)
    (h : DepartingRow s userId memberId) (hd : Departing s j userId guarded) (hu : u ∈ s.users)
    (hne : u.id ≠ userId) {m : WorkspaceMember Address} (hm : m ∈ s.members)
    (hemail : m.email = u.email) : m.id ≠ memberId := by
  intro hid
  obtain ⟨v, hv, hvid⟩ := hd.hasUser
  have hve : m.email = v.email := h.email m hm hid v hv hvid
  have huv : u = v := hwf.email_unique hu hv (hemail.symm.trans hve)
  exact hne (huv ▸ hvid)

/-- While `i` holds the admin `u`, no harmless session deletes its row unguarded. -/
theorem Harmless.not_unguarded {pc : Pc Address} (hwf : s.WellFormed) (hst : Standing s j pc)
    (hij : j ≠ i) (hharm : Harmless s u pc) (hu : u ∈ s.users) (hlock : s.userLocks u.id = some i)
    {m : WorkspaceMember Address} (hm : m ∈ s.members) (hemail : m.email = u.email) :
    pc.unguardedDelete ≠ some m.id := by
  intro h
  cases pc with
  | deleteMember mid guarded =>
    cases guarded with
    | true => cases h
    | false => exact hharm m hm (Option.some.inj h).symm hemail
  | finishOffboard userId mid guarded =>
    cases guarded with
    | true => cases h
    | false =>
      change mid = some m.id at h
      subst h
      obtain ⟨hd, hrow, -⟩ := hst
      refine hrow.ne_of_email hwf hd hu (fun heq => ?_) hm hemail rfl
      subst heq
      exact hij (Option.some.inj (hd.locked.symm.trans hlock))
  | _ => cases h

/-- The row by which the counted admin comes in is safe from everybody. -/
theorem Evidence.undoomed {excluded doomed : Option ℕ} {c : World ι Address}
    (h : Evidence c i excluded doomed u)
    (hinv : Inv c) : c.store.members = [] ∨ ∃ m ∈ c.store.members, m.email = u.email ∧
      some m.id ≠ doomed ∧ ∀ k, k ≠ i → (c.session k).unguardedDelete ≠ some m.id := by
  rcases h.kept with ⟨m, hm, hemail, hne, hlock⟩ | hharm
  · refine .inr ⟨m, hm, hemail, hne, fun k hk hdel => hk ?_⟩
    have hmine := unguardedDelete_locked (hinv.standing k) hdel
    exact Option.some.inj (hmine.symm.trans hlock)
  · refine h.admitted.imp_right fun ⟨m, hm, hemail, hne⟩ => ⟨m, hm, hemail, hne, fun k hk => ?_⟩
    exact (hharm k hk).not_unguarded hinv.wellFormed (hinv.standing k) hk h.mem h.locked hm hemail

/-- Demoting the departing user leaves an admin whose row is not the departing user's. -/
theorem demotion_spares {c : World ι Address} (hinv : Inv c) {userId : ℕ} {guarded : Bool}
    {memberId : Option ℕ}
    (hpc : c.session i = .finishOffboard userId memberId guarded)
    (hd : Departing c.store i userId guarded)
    (hdrow : ∀ mid, memberId = some mid → DepartingRow c.store userId mid) :
    ∃ v ∈ (c.store.setRole userId .viewer).users, v.role = .admin ∧
      (c.store.members = [] ∨ ∃ m ∈ c.store.members, m.email = v.email ∧ memberId ≠ some m.id ∧
        ∀ k, k ≠ i → (c.session k).unguardedDelete ≠ some m.id) := by
  have hwf := hinv.wellFormed
  cases guarded with
  | true =>
    obtain ⟨v, hv⟩ := hinv.evidence i (some userId) none (by rw [hpc]; rfl)
    have hne : v.id ≠ userId := fun heq => hv.other (congrArg some heq)
    refine ⟨v, setRole_keeps hv.mem hne, hv.role, ?_⟩
    rcases hv.undoomed hinv with hnil | ⟨m, hm, hemail, -, hsafe⟩
    · exact .inl hnil
    · refine .inr ⟨m, hm, hemail, fun heq => ?_, hsafe⟩
      exact (hdrow m.id heq).ne_of_email hwf hd hv.mem hne hm hemail rfl
  | false =>
    obtain ⟨u, hu, hadmin, hrow⟩ := hinv.usable
    have hne : u.id ≠ userId := fun heq => hd.notAdmin rfl u hu heq hadmin
    refine ⟨u, setRole_keeps hu hne, hadmin, hrow.imp_right ?_⟩
    rintro ⟨m, hm, hemail, hsafe⟩
    have hself := hsafe i
    rw [hpc] at hself
    exact ⟨m, hm, hemail, hself, fun k _ => hsafe k⟩

theorem reliance_known {s : Store ι Address} {pc : Pc Address} (hwf : s.WellFormed)
    (hst : Standing s i pc) {excluded doomed : Option ℕ}
    (h : pc.reliance = some (excluded, doomed)) :
    ∀ memberId, doomed = some memberId → memberId < s.nextId := by
  intro memberId hdoomed
  subst hdoomed
  cases pc <;> simp only [Pc.reliance] at h
  case writeRole =>
    split at h <;> cases h
  case lockRemoved mid guarded =>
    cases guarded <;> cases h
    exact hst
  case deleteMember mid guarded =>
    cases guarded <;> cases h
    obtain ⟨email, hrow⟩ := hst
    exact hrow.known hwf
  case selectParty _ _ guarded | lockParty _ _ guarded | refreshUser _ guarded
      | membership _ _ guarded | lockOffboarded _ _ guarded | finishOffboard _ _ guarded =>
    cases guarded <;> cases h
  all_goals cases h

theorem plain_unguardedDelete {pc : Pc Address} (h : pc.plain = true) :
    pc.unguardedDelete = none := by
  cases pc with
  | deleteMember => cases h
  | finishOffboard userId memberId guarded =>
    cases guarded with
    | true => cases h
    | false => exact Option.isNone_iff_eq_none.mp h
  | _ => rfl

theorem resume_unguardedDelete (next : GuardedPc Address) : next.resume.unguardedDelete = none := by
  cases next <;> rfl

theorem offboarding_unguardedDelete {pc : Pc Address} {userId memberId : ℕ} {guarded : Bool}
    (h : pc.offboarding = some (userId, guarded)) (hdel : pc.unguardedDelete = some memberId) :
    guarded = false ∧ pc = .finishOffboard userId (some memberId) guarded := by
  cases pc with
  | finishOffboard _ mid guarded =>
    cases h
    cases guarded with
    | true => cases hdel
    | false => exact ⟨rfl, congrArg (Pc.finishOffboard userId · false) hdel⟩
  | selectParty | lockParty | refreshUser | membership | lockOffboarded => cases hdel
  | _ => cases h

end Store

section Surviving
variable [DecidableEq ι] {c : World ι Address} {i j : ι} {s' : Store ι Address}
  {pc' : Pc Address} {u : User Address}

/-- Evidence of a session survives the statements of the others. -/
theorem Evidence.step {excluded doomed : Option ℕ} (h : Evidence c i excluded doomed u)
    (hinv : Inv c) (hij : j ≠ i) (hdoomed : ∀ memberId, doomed = some memberId →
      memberId < c.store.nextId)
    (heff : Effect j c.store (c.session j) s' pc') (hf : Frame i c.store s')
    (hharm : Harmless c.store u (c.session j) → Harmless s' u pc')
    (hframes : ∀ k, k ≠ j → Frame k c.store s') :
    Evidence (c.put j (s', pc')) i excluded doomed u := by
  have hwf := hinv.wellFormed
  have hmem : u ∈ s'.users := hf.users u h.mem h.locked
  have hlock : s'.userLocks u.id = some i := hf.userLocks _ h.locked
  rcases h.kept with ⟨m, hm, hemail, hne, hmlock⟩ | hall
  · obtain ⟨m', hm', hid, hemail'⟩ := hf.members m hm hmlock
    have hne' : some m'.id ≠ doomed := by rwa [hid]
    have hlock' : s'.memberLocks m'.id = some i := by
      rw [hid]
      exact hf.memberLocks _ hmlock
    exact ⟨hmem, h.role, hlock, h.other, .inr ⟨m', hm', hemail'.trans hemail, hne'⟩,
      .inl ⟨m', hm', hemail'.trans hemail, hne', hlock'⟩⟩
  · refine ⟨hmem, h.role, hlock, h.other, ?_, .inr fun k hk => ?_⟩
    · have hj := hall j hij
      have hstand := hinv.standing j
      have hsame : ∀ t : Store ι Address, t.members = c.store.members → Admitted t u doomed := by
        intro t ht
        unfold Admitted
        rw [ht]
        exact h.admitted
      show Admitted s' u doomed
      generalize c.session j = pc at heff hj hstand
      cases heff with
      | move hmove => cases hmove <;> exact hsame _ rfl
      | quit => exact hsame _ rfl
      | write hwrite =>
        cases hwrite with
        | role | demote => exact hsame _ rfl
        | delete memberId guarded =>
          refine h.admitted.imp (fun hnil => ?_) fun ⟨m, hm, hemail, hne⟩ => ?_
          · simp [Store.release, Store.deleteMember, hnil]
          · exact ⟨m, mem_deleteMember.mpr ⟨hm, fun hid => hj m hm hid hemail⟩, hemail, hne⟩
        | offboard userId memberId guarded =>
          obtain ⟨hd, hrow, -⟩ := hstand
          refine h.admitted.imp (fun hnil => ?_) fun ⟨m, hm, hemail, hne⟩ => ?_
          · simp [Store.release, Store.deleteMember, hnil]
          · have huid : u.id ≠ userId := fun heq =>
              hij (Option.some.inj (hd.locked.symm.trans (heq ▸ h.locked)))
            exact ⟨m, mem_deleteMember.mpr
              ⟨hm, hrow.ne_of_email hwf hd h.mem huid hm hemail⟩, hemail, hne⟩
        | confirm memberId actorId source =>
          refine h.admitted.imp (fun hnil => ?_) fun ⟨m, hm, hemail, hne⟩ => ?_
          · simp [Store.release, Store.confirm, hnil]
          · obtain ⟨m', hm', hid, hemail'⟩ :=
              identities_of_map (confirm_identities memberId actorId) m hm
            exact ⟨m', hm', hemail'.trans hemail, by rwa [hid]⟩
        | insert imported email initialRole actorId hunique =>
          refine .inr ?_
          rcases h.admitted with hnil | ⟨m, hm, hemail, hne⟩
          · cases imported with
            | none => exact absurd hnil hstand.2
            | some rows =>
              obtain ⟨m, hm, hemail, hfresh⟩ := insertMembers_adds (s := c.store) initialRole
                actorId (hstand.2.covers u h.mem)
              refine ⟨m, hm, hemail, fun heq => ?_⟩
              have hlt := hdoomed m.id heq.symm
              omega
          · exact ⟨m, insertMembers_keeps hm, hemail, hne⟩
    · by_cases hkj : k = j
      · subst hkj
        rw [Config.put_session_self]
        exact hharm (hall k hk)
      · rw [Config.put_session_ne c _ hkj]
        exact (hall k hk).frame hwf (hinv.standing k) (hframes k hkj)

/-- Evidence of a session survives its own locking. -/
theorem Evidence.keep {excluded doomed : Option ℕ} (h : Evidence c i excluded doomed u)
    (hinv : Inv c) (hmove : LockMove i c.store s') :
    Evidence (c.put i (s', pc')) i excluded doomed u := by
  have hf : ∀ k, Frame k c.store s' := fun k => hmove.frame
  have hmembers : s'.members = c.store.members := by cases hmove <;> rfl
  refine ⟨(hf i).users u h.mem h.locked, h.role, (hf i).userLocks _ h.locked, h.other, ?_, ?_⟩
  · show Admitted s' u doomed
    unfold Admitted
    rw [hmembers]
    exact h.admitted
  · rcases h.kept with ⟨m, hm, hemail, hne, hlock⟩ | hharm
    · exact .inl ⟨m, hmembers ▸ hm, hemail, hne, (hf i).memberLocks _ hlock⟩
    · refine .inr fun k hk => ?_
      rw [Config.put_session_ne c _ hk]
      exact (hharm k hk).frame hinv.wellFormed (hinv.standing k) (hf k)

/-- A write that spares the row `m` and its admin keeps that row safe. -/
theorem usable_after {u' : User Address} (hu : u' ∈ s'.users)
    (hadmin : u'.role = .admin) (hemail : u'.email = u.email)
    (hspared : c.store.members = [] ∧ s'.members = [] ∨ ∃ m ∈ s'.members, m.email = u.email ∧
      ∀ k, k ≠ i → (c.session k).unguardedDelete ≠ some m.id) :
    Usable (c.put i (s', .done)) ∧ (c.store.members ≠ [] → s'.members ≠ []) := by
  constructor
  · refine ⟨u', hu, hadmin, ?_⟩
    rcases hspared with ⟨-, hnil⟩ | ⟨m, hm, hmemail, hsafe⟩
    · exact .inl hnil
    · refine .inr ⟨m, hm, hmemail.trans hemail.symm, fun k => ?_⟩
      by_cases hk : k = i
      · rw [hk, Config.put_session_self]
        exact Option.some_ne_none _ ∘ Eq.symm
      · rw [Config.put_session_ne c _ hk]
        exact hsafe k hk
  · intro hon
    rcases hspared with ⟨hoff, -⟩ | ⟨m, hm, -⟩
    · exact absurd hoff hon
    · exact List.ne_nil_of_mem hm

/-- A published write leaves some admin a way in, and does not turn membership off. -/
theorem usable_write (hinv : Inv c) (hwrite : Write c.store (c.session i) s') :
    Usable (c.put i (s', .done)) ∧ (c.store.members ≠ [] → s'.members ≠ []) := by
  have hwf := hinv.wellFormed
  have hstand := hinv.standing i
  obtain ⟨u, hu, hadmin, hrow⟩ := hinv.usable
  have hspared : c.store.members = [] ∨ ∃ m ∈ c.store.members, m.email = u.email ∧
      (c.session i).unguardedDelete ≠ some m.id ∧
      ∀ k, k ≠ i → (c.session k).unguardedDelete ≠ some m.id := by
    refine hrow.imp_right ?_
    rintro ⟨m, hm, hemail, hsafe⟩
    exact ⟨m, hm, hemail, hsafe i, fun k _ => hsafe k⟩
  have hevidence := hinv.evidence i
  generalize hpc : c.session i = pc at hwrite hstand hspared hevidence
  cases hwrite with
  | role userId newRole =>
    by_cases hnew : newRole = .admin
    · subst hnew
      refine usable_after (u := u) (mem_setRole.mpr ⟨u, hu, rfl⟩) ?_ ?_
        (hspared.imp (fun h => ⟨h, h⟩) ?_)
      · split
        · rfl
        · exact hadmin
      · split <;> rfl
      · rintro ⟨m, hm, hemail, _, hsafe⟩
        exact ⟨m, hm, hemail, hsafe⟩
    · obtain ⟨v, hv⟩ := hevidence (some userId) none (by simp [Pc.reliance, hnew])
      refine usable_after (u := v)
        (setRole_keeps hv.mem fun heq => hv.other (congrArg some heq)) hv.role rfl ?_
      refine (hv.undoomed hinv).imp (fun h => ⟨h, h⟩) ?_
      rintro ⟨m, hm, hemail, _, hsafe⟩
      exact ⟨m, hm, hemail, hsafe⟩
  | delete memberId guarded =>
    have hon : c.store.members ≠ [] := by
      obtain ⟨email, m, hm, -⟩ := hstand
      exact List.ne_nil_of_mem hm
    cases guarded with
    | true =>
      obtain ⟨v, hv⟩ := hevidence none (some memberId) rfl
      obtain ⟨m, hm, hemail, hne, hsafe⟩ := (hv.undoomed hinv).resolve_left hon
      exact usable_after (u := v) hv.mem hv.role rfl (.inr ⟨m, mem_deleteMember.mpr
        ⟨hm, fun heq => hne (congrArg some heq)⟩, hemail, hsafe⟩)
    | false =>
      obtain ⟨m, hm, hemail, hself, hsafe⟩ := hspared.resolve_left hon
      exact usable_after (u := u) hu hadmin rfl (.inr ⟨m, mem_deleteMember.mpr
        ⟨hm, fun heq => hself (congrArg some heq.symm)⟩, hemail, hsafe⟩)
  | confirm memberId actorId source =>
    refine usable_after (u := u) hu hadmin rfl ?_
    refine hspared.imp (fun h => ⟨h, by simp [Store.confirm, h]⟩) ?_
    rintro ⟨m, hm, hemail, _, hsafe⟩
    obtain ⟨m', hm', hid, hemail'⟩ := identities_of_map (confirm_identities memberId actorId) m hm
    exact ⟨m', hm', hemail'.trans hemail, fun k hk => by
      rw [hid]
      exact hsafe k hk⟩
  | demote userId guarded =>
    obtain ⟨v, hv, hrole, hvrow⟩ := demotion_spares hinv hpc hstand
      (fun mid h => by cases h)
    refine usable_after (u := v) hv hrole rfl (hvrow.imp (fun h => ⟨h, h⟩) ?_)
    rintro ⟨m, hm, hemail, _, hsafe⟩
    exact ⟨m, hm, hemail, hsafe⟩
  | offboard userId memberId guarded =>
    obtain ⟨hd, hdrow, email, n, hn, -⟩ := hstand
    obtain ⟨v, hv, hrole, hvrow⟩ := demotion_spares hinv hpc hd
      (fun mid h => by cases h; exact hdrow)
    obtain ⟨m, hm, hemail, hne, hsafe⟩ := hvrow.resolve_left (List.ne_nil_of_mem hn)
    exact usable_after (u := v) hv hrole rfl (.inr ⟨m, mem_deleteMember.mpr
      ⟨hm, fun heq => hne (congrArg some heq.symm)⟩, hemail, hsafe⟩)
  | insert imported email initialRole actorId hunique =>
    refine usable_after (u := u) hu hadmin rfl (.inr ?_)
    rcases hspared with hnil | ⟨m, hm, hemail, -, hsafe⟩
    · cases imported with
      | none => exact absurd hnil hstand.2
      | some rows =>
        obtain ⟨m, hm, hemail, hfresh⟩ := insertMembers_adds (s := c.store) initialRole actorId
          (hstand.2.covers u hu)
        refine ⟨m, hm, hemail, fun k _ hdel => ?_⟩
        have hlt := unguardedDelete_known hwf (hinv.standing k) hdel
        omega
    · exact ⟨m, insertMembers_keeps hm, hemail, hsafe⟩

end Surviving

section Steps
variable [DecidableEq Address] [DecidableEq ι] {settings : Settings Address} {c : World ι Address}
  {i j : ι} {s' : Store ι Address} {pc' : Pc Address} {u : User Address}

/-- What a session is about to delete unguarded, it took from an address that was no admin's. -/
theorem unguarded_next {s : Store ι Address} {pc : Pc Address} (hwf : s.WellFormed)
    (hst : Standing s i pc) (hok : guardMissed s pc = false)
    (h : adminAct settings i s pc = some (s', pc')) (hu : u ∈ s.users) (hadmin : u.role = .admin)
    {m : WorkspaceMember Address} (hm : m ∈ s.members) (hemail : m.email = u.email) :
    pc'.unguardedDelete ≠ some m.id := by
  intro hdel
  cases arrives h with
  | plain hplain _ _ =>
    rw [plain_unguardedDelete hplain] at hdel
    cases hdel
  | guard hguard =>
    rcases guard_next hguard with ⟨guard', rfl⟩ | rfl | ⟨-, rfl, -⟩
    · cases hdel
    · cases hdel
    · rw [resume_unguardedDelete] at hdel
      cases hdel
  | removal memberId guarded n hn hid hfree =>
    cases guarded with
    | true => cases hdel
    | false => exact unguarded_row hwf hok hm (Option.some.inj hdel).symm hu hadmin hemail
  | offboarding _ _ hafter hfinish =>
    obtain ⟨rfl, rfl⟩ := offboarding_unguardedDelete hafter hdel
    have hbefore := hfinish m.id rfl
    subst hbefore
    obtain ⟨hd, hrow⟩ := hst
    refine hrow.ne_of_email hwf hd hu (fun huid => ?_) hm hemail rfl
    exact hd.notAdmin rfl u hu huid hadmin

/-- What a statement of a session in standing does to the store. -/
theorem effect_of_act {a : Act} {s : Store ι Address} {pc : Pc Address} (hst : Standing s i pc)
    (h : act settings i a s pc = some (s', pc')) :
    Effect i s pc s' pc' ∧ (pc' = .done ∨ adminAct settings i s pc = some (s', pc')) := by
  cases a with
  | fail =>
    simp only [act] at h
    split at h
    · cases h
      exact ⟨.quit, .inl rfl⟩
    · cases h
  | proceed =>
    have hadmin : adminAct settings i s pc = some (s', pc') := by
      simp only [act] at h
      split at h
      · cases pc <;> first | exact hst.elim | cases h
      · exact h
    exact ⟨effect_of_adminAct hadmin, .inr hadmin⟩

/-- The invariant outlives every statement that finds the role read before its locks standing. -/
theorem Inv.step {a : Act} (hinv : Inv c) (hok : RoleStands c (i, a))
    (h : act settings i a c.store (c.session i) = some (s', pc')) : Inv (c.put i (s', pc')) := by
  have hwf := hinv.wellFormed
  obtain ⟨heff, hact⟩ := effect_of_act (hinv.standing i) h
  have howned := (hinv.standing i).owned
  have hframe : ∀ k, k ≠ i → Frame k c.store s' := fun k hk => heff.frame howned hk
  have hwf' : s'.WellFormed := heff.wellFormed howned hwf
  have husable : Usable (c.put i (s', pc')) ∧ (c.store.members ≠ [] → s'.members ≠ []) := by
    have hstay : s'.users = c.store.users → s'.members = c.store.members →
        Usable (c.put i (s', pc')) ∧ (c.store.members ≠ [] → s'.members ≠ []) := by
      intro husers hmembers
      refine ⟨?_, fun hon => hmembers ▸ hon⟩
      obtain ⟨u, hu, hadmin, hrow⟩ := hinv.usable
      refine ⟨u, by rw [Config.put_store, husers]; exact hu, hadmin, ?_⟩
      rw [Config.put_store, hmembers]
      refine hrow.imp_right fun ⟨m, hm, hemail, hsafe⟩ => ⟨m, hm, hemail, fun k => ?_⟩
      by_cases hk : k = i
      · subst hk
        rw [Config.put_session_self]
        rcases hact with rfl | hact
        · exact fun hdel => by cases hdel
        · exact unguarded_next hwf (hinv.standing k) hok hact hu hadmin hm hemail
      · rw [Config.put_session_ne c _ hk]
        exact hsafe k
    generalize hpc : c.session i = pc at heff
    cases heff with
    | move hmove => cases hmove <;> exact hstay rfl rfl
    | quit => exact hstay rfl rfl
    | write hwrite =>
      obtain ⟨⟨u, hu, hadmin, hrow⟩, hon⟩ := usable_write hinv (hpc ▸ hwrite)
      exact ⟨⟨u, hu, hadmin, hrow⟩, hon⟩
  refine ⟨hwf', fun k => ?_, fun k excluded doomed hr => ?_, husable.1⟩
  · by_cases hk : k = i
    · subst hk
      rw [Config.put_session_self]
      rcases hact with rfl | hact
      · trivial
      · exact standing_next hwf (hinv.standing k) hok hact
    · rw [Config.put_session_ne c _ hk]
      exact (hinv.standing k).frame (hframe k hk) hwf' husable.2
  · by_cases hk : k = i
    · subst hk
      rw [Config.put_session_self] at hr
      rcases hact with rfl | hact
      · cases hr
      · obtain ⟨hmove, hold | ⟨u, hu⟩⟩ := reliance_next (hinv.standing k) hact hr
        · obtain ⟨u, hu⟩ := hinv.evidence k excluded doomed hold
          exact ⟨u, hu.keep hinv hmove⟩
        · exact ⟨u, hu.keep hinv hmove⟩
    · rw [Config.put_session_ne c _ hk] at hr
      obtain ⟨u, hu⟩ := hinv.evidence k excluded doomed hr
      refine ⟨u, hu.step hinv (Ne.symm hk) (reliance_known hwf (hinv.standing k) hr) heff
        (hframe k hk) (fun hharm => ?_) hframe⟩
      rcases hact with rfl | hact
      · trivial
      · exact harmless_next hwf (Ne.symm hk) hu.mem hu.role hu.locked hok hharm hact

end Steps

/-! ## Every run -/

/-- Nobody has issued a statement yet: the requests that will run, over idle tables. -/
structure World.Initial (c : World ι Address) : Prop where
  wellFormed : c.store.WellFormed
  requests : ∀ i, c.session i = .done ∨
    ∃ request : Request Address, request.administrative = true ∧ c.session i = .start request

theorem Inv.initial {c : World ι Address} (h : c.Initial) (husable : c.store.UsableAdmin) :
    Inv c := by
  refine ⟨h.wellFormed, fun i => ?_, fun i excluded doomed hr => ?_, ?_⟩
  · rcases h.requests i with hpc | ⟨request, hadmin, hpc⟩
    · rw [hpc]
      trivial
    · rw [hpc]
      exact hadmin
  · rcases h.requests i with hpc | ⟨request, -, hpc⟩
    · rw [hpc] at hr
      cases hr
    · rw [hpc] at hr
      cases hr
  · obtain ⟨u, hu, hadmin, hrow⟩ := husable
    refine ⟨u, hu, hadmin, hrow.imp_right fun ⟨m, hm, hemail⟩ => ⟨m, hm, hemail, fun j hdel => ?_⟩⟩
    rcases h.requests j with hpc | ⟨request, -, hpc⟩
    · rw [hpc] at hdel
      cases hdel
    · rw [hpc] at hdel
      cases hdel

section Runs
variable [DecidableEq Address] [DecidableEq ι] {settings : Settings Address} {c d : World ι Address}

/-- In every run in which the role read before the locks still stands when they are taken, some
stored-role admin can come in. -/
theorem usableAdmin_of_run (hinit : c.Initial) (husable : c.store.UsableAdmin) {es : List (ι × Act)}
    (hstands : Meets (step settings) RoleStands c es)
    (hrun : run (step settings) c es = some d) : d.store.UsableAdmin := by
  have hinv : Inv d := by
    refine run_invariant (fun w e w' hw hok hstep => ?_) (Inv.initial hinit husable) hstands hrun
    obtain ⟨⟨s', pc'⟩, hact, hput⟩ := step_eq_some.mp hstep
    subst hput
    exact hw.step hok hact
  obtain ⟨u, hu, hadmin, hrow⟩ := hinv.usable
  exact ⟨u, hu, hadmin, hrow.imp_right fun ⟨m, hm, hemail, _⟩ => ⟨m, hm, hemail⟩⟩

/-- Ada is an admin and Bo is a member; both have a membership row. -/
def twoMembers : Store ℕ String :=
  { users := [⟨1, some 11, "ada@x.io", .admin⟩, ⟨2, some 12, "bo@x.io", .member⟩]
    members := [⟨3, "ada@x.io", .admin, .autoImport, none⟩,
      ⟨4, "bo@x.io", .member, .admin, some 1⟩]
    nextId := 5
    userLocks := Locks.none
    memberLocks := Locks.none
    signin := Advisory.none }

theorem twoMembers_wellFormed : twoMembers.WellFormed :=
  ⟨by decide, by decide, by decide, by decide, by decide,
    by decide⟩

/-- A deployment without allowlists. -/
def openSettings : Settings String :=
  { devBypassActive := false
    isAdminEmail := fun _ => false
    gates := []
    usable := fun _ => true
    devBypassOid := 0
    devBypassEmail := "dev@localhost"
    oidcDefaultRole := .member
    otpDefaultRole := .member }

/-- `n` statements of one session. -/
def statements (i n : ℕ) : List (ℕ × Act) := List.replicate n (i, .proceed)

/-- Ada removes Bo; in other requests she promotes him, and he demotes her. -/
def overtaken : World ℕ String :=
  { store := twoMembers
    session := fun
      | 0 => .start (.removeMember 4 "ada@x.io" false)
      | 1 => .start (.setUserRole 2 .admin 1 false)
      | 2 => .start (.setUserRole 1 .viewer 2 false)
      | _ => .done }

theorem overtaken_initial : overtaken.Initial where
  wellFormed := twoMembers_wellFormed
  requests := fun
    | 0 => .inr ⟨_, rfl, rfl⟩
    | 1 => .inr ⟨_, rfl, rfl⟩
    | 2 => .inr ⟨_, rfl, rfl⟩
    | _ + 3 => .inl rfl

instance (s : Store ι Address) : Decidable s.UsableAdmin :=
  inferInstanceAs (Decidable (∃ u ∈ s.users, u.role = .admin ∧
    (s.members = [] ∨ ∃ m ∈ s.members, m.email = u.email)))

/-- Bo's promotion overtakes his removal: it was read as that of a member, so the guard is skipped,
and by then Ada, counting on Bo, is no admin any more. -/
theorem usableAdmin_lost : ¬ ∀ (c d : World ℕ String) (es : List (ℕ × Act)), c.Initial →
    c.store.UsableAdmin → run (step openSettings) c es = some d → d.store.UsableAdmin := by
  intro hclaim
  have hrun : (run (step openSettings) overtaken
      (statements 0 2 ++ statements 1 3 ++ statements 2 11 ++ statements 0 2)).any
        (fun d => !decide d.store.UsableAdmin) = true := by decide
  obtain ⟨d, hd, hlost⟩ := (Option.any_eq_true _ _).mp hrun
  have hkept := hclaim overtaken d _ overtaken_initial (by decide) hd
  simp [hkept] at hlost

/-- The same requests one after the other: Bo is promoted and demotes Ada, and the guard refuses
to remove him. -/
theorem usableAdmin_of_run_in_turn : ∃ d, run (step openSettings) overtaken
    (statements 1 3 ++ statements 2 11 ++ statements 0 8) = some d ∧ d.store.UsableAdmin := by
  obtain ⟨d, hd⟩ : ∃ d, run (step openSettings) overtaken
      (statements 1 3 ++ statements 2 11 ++ statements 0 8) = some d := by
    rw [← Option.isSome_iff_exists]
    decide
  exact ⟨d, hd, usableAdmin_of_run overtaken_initial (by decide) (by decide) hd⟩

end Runs

end DataQ.Membership
