import Mathlib.Data.Fintype.Basic
import DataQ.Foundations.Transition
import DataQ.Membership.Doors

/-! # Switching membership on evicts nobody, and a removal sticks

The import of a switch-on covers every address in `users`, and the sign-in lock keeps token
sign-ins out of its way. A code sign-in checks its address before it takes that lock, so a switch-on
may shut it out in between and it is stored all the same; and an `add_member` that found membership
on does not lock it on, so the table it adds to may have been emptied. Along every run without these
two, whoever is in `users` stays admitted until removed; and in every run a removed address stays
out until it is added again or the table is emptied. -/

namespace DataQ.Membership
open DataQ.Locking DataQ.Interleaving DataQ.Transition
set_option autoImplicit false

variable {Address ι : Type*}

/-- A configuration and the history of its members table. -/
abbrev Traced (ι Address : Type*) := World ι Address × Trail Address

/-- The address that a code sign-in has found eligible. -/
def Pc.checked : Pc Address → Option Address
  | .otpResolve email | .otpLock email | .otpInitialRole email | .otpInsert email _ => some email
  | _ => none

/-- Whether an `add_member` about to write has imported, and the address it adds. -/
def Pc.inserting : Pc Address → Option (Bool × Address)
  | .insertMember imported email _ _ => some (imported.isSome, email)
  | _ => none

section Conditions
variable [DecidableEq Address]

/-- A switch-on that adds `added` leaves `email` admitted. -/
def Store.keepsAdmitted (s : Store ι Address) (settings : Settings Address)
    (added email : Address) : Bool :=
  settings.devBypassActive || email = added || (s.userByEmail email).isSome ||
    settings.envVerdict email = .granted

/-- An `add_member` that switches membership on has imported, and shuts no code sign-in out that
has passed its check. -/
def Timely (settings : Settings Address) (w : Traced ι Address) (e : ι × Act) : Prop :=
  ∀ p ∈ (w.1.session e.1).inserting, e.2 = .proceed → w.1.store.members = [] →
    p.1 = true ∧ ∀ j, (w.1.session j).checked.all (w.1.store.keepsAdmitted settings p.2) = true

instance [Fintype ι] (settings : Settings Address) (w : Traced ι Address) (e : ι × Act) :
    Decidable (Timely settings w e) :=
  inferInstanceAs (Decidable (∀ p ∈ (w.1.session e.1).inserting, e.2 = .proceed →
    w.1.store.members = [] →
    p.1 = true ∧ ∀ j, (w.1.session j).checked.all (w.1.store.keepsAdmitted settings p.2) = true))

/-- Everybody in `users` is admitted, or was removed since membership was switched on. -/
def EvictsNobody (settings : Settings Address) (w : Traced ι Address) : Prop :=
  ∀ gone, w.2.switchedOn = some gone →
    ∀ u ∈ w.1.store.users, w.1.store.isMember settings u.email = true ∨ u.email ∈ gone

/-- The removed addresses of a list that no allowlist grants are refused. -/
def StaysOut (settings : Settings Address) (s : Store ι Address) (removed : List Address) : Prop :=
  ∀ email ∈ removed, settings.envVerdict email ≠ .granted → s.isMember settings email = false

/-- Every address that is stored or about to be is covered. -/
structure Admitting (settings : Settings Address) (c : World ι Address) (t : Trail Address) :
    Prop where
  stored : ∀ u ∈ c.store.users, t.covers settings c.store u.email = true
  checked : ∀ i email, (c.session i).checked = some email → t.covers settings c.store email = true

end Conditions

/-! ## One statement -/

section Checked
variable {pc : Pc Address}

theorem checked_entering {email : Address} (h : pc.checked = some email) : pc.entering = true := by
  cases pc <;> first | rfl | cases h

theorem unlocked_checked (h : pc.unlocked = true) : pc.checked = none := by
  cases pc <;> first | rfl | cases h

end Checked

/-- What a timely switch-on leaves admitted. -/
theorem admitted_of_switchOn [DecidableEq Address] {settings : Settings Address}
    {s s' : Store ι Address} {rows : List (Address × Role)} {added email : Address}
    {initialRole : Role} {actorId : ℕ} (hrows : Importing s rows added)
    (hmembers : s'.members = (s.insertMembers rows added initialRole actorId).members)
    (hkeeps : s.keepsAdmitted settings added email = true) :
    s'.isMember settings email = true := by
  have hrow : email = added ∨ email ∈ rows.map Prod.fst → s'.isMember settings email = true := by
    intro hin
    obtain ⟨m, hm, hemail, -⟩ := insertMembers_adds (s := s) initialRole actorId hin
    exact isMember_of_row (hmembers ▸ hm) hemail
  simp only [Store.keepsAdmitted, Bool.or_eq_true, decide_eq_true_eq] at hkeeps
  rcases hkeeps with ((hdev | hadded) | hstored) | hgranted
  · simp [Store.isMember, hdev]
  · exact hrow (.inl hadded)
  · obtain ⟨u, hu⟩ := Option.isSome_iff_exists.mp hstored
    have hemail : u.email = email := by simpa using List.find?_some hu
    exact hrow (hemail ▸ hrows.covers u (List.mem_of_find?_eq_some hu))
  · simp [Store.isMember, hgranted]

section Steps
variable [DecidableEq Address] [DecidableEq ι] {settings : Settings Address} {c : World ι Address}
  {t : Trail Address} {s s' : Store ι Address} {i : ι} {a : Act} {pc pc' : Pc Address}

/-- A code sign-in past its check was covered already, or has just been found eligible. -/
theorem checked_next (t : Trail Address) {email : Address}
    (h : act settings i a s pc = some (s', pc')) (hchecked : pc'.checked = some email) :
    s'.members = s.members ∧ (pc.checked = some email ∨
      (t.observe s.members s'.members).covers settings s' email = true) := by
  rcases (outcome_of_act h).2 with rfl | ⟨-, hsign⟩ | ⟨-, hadmin⟩
  · cases hchecked
  · cases pc <;> simp only [signInAct] at hsign
    case upsertUser signIn initialRole =>
      rw [unlocked_checked (upsert_unlocked (i := i) (s := s) hsign)] at hchecked
      cases hchecked
    case otpRow eligible =>
      split at hsign
      · next hrow =>
        cases hsign
        cases hchecked
        refine ⟨rfl, .inr (covers_of_isMember ?_)⟩
        simp only [Store.isMember, Bool.or_eq_true]
        exact .inl (by simpa using hrow)
      · cases hsign
        cases hchecked
    case otpSwitch eligible =>
      split at hsign
      · next henter =>
        cases hsign
        cases hchecked
        refine ⟨rfl, .inr (covers_of_empty ?_)⟩
        simp only [Store.unlistedMayEnter, Store.enforcementActive, Bool.and_eq_true,
          Bool.not_eq_true', Bool.not_eq_false', List.isEmpty_iff] at henter
        exact henter.1
      · cases hsign
        cases hchecked
    case otpResolve =>
      split at hsign <;> cases hsign
      · cases hchecked
      · exact ⟨rfl, .inl hchecked⟩
    case otpLock =>
      split at hsign <;> cases hsign
      exact ⟨rfl, .inl hchecked⟩
    case otpInitialRole =>
      cases hsign
      exact ⟨rfl, .inl hchecked⟩
    case lockSignIn | signInSwitch | otpInsert =>
      split at hsign <;> cases hsign <;> cases hchecked
    case signInRow =>
      split at hsign
      · cases hsign
        cases hchecked
      · split at hsign <;> cases hsign <;> cases hchecked
    case claimUser =>
      split at hsign
      · obtain ⟨-, rfl⟩ := writeUser_inv hsign
        cases hchecked
      · cases hsign
        cases hchecked
    case otpTouch =>
      obtain ⟨-, rfl⟩ := writeUser_inv hsign
      cases hchecked
    all_goals cases hsign
  · have hentering := checked_entering hchecked
    rw [adminAct_entering hadmin] at hentering
    cases hentering

/-- Switching on takes the write of an `add_member`. -/
theorem proceeds_of_switchOn (h : act settings i a s pc = some (s', pc')) (hoff : s.members = [])
    (hon : s'.members ≠ []) : a = .proceed := by
  cases a with
  | proceed => rfl
  | fail =>
    simp only [act] at h
    split at h
    · cases h
      exact absurd hoff hon
    · cases h

theorem Admitting.step (hinv : DoorInv settings c t) (hadm : Admitting settings c t)
    (htimely : Timely settings (c, t) (i, a))
    (h : act settings i a c.store (c.session i) = some (s', pc')) :
    Admitting settings (c.put i (s', pc')) (t.observe c.store.members s'.members) := by
  obtain ⟨hout, -⟩ := outcome_of_act h
  have hmine := hinv.holding i
  by_cases hswitch : c.store.members = [] ∧ s'.members ≠ []
  · obtain ⟨hoff, hon⟩ := hswitch
    obtain ⟨imported, added, initialRole, actorId, hpc, husers, hmembers⟩ :=
      hout.members.switchOn hoff hon
    obtain ⟨himports, hwaiting⟩ := htimely (imported.isSome, added)
      (by rw [hpc]; rfl) (proceeds_of_switchOn h hoff hon) hoff
    obtain ⟨rows, rfl⟩ := Option.isSome_iff_exists.mp himports
    rw [hpc] at hmine
    refine ⟨fun u hu => ?_, fun j email hchecked => ?_⟩
    · have hin := hmine.2.covers u (husers ▸ hu)
      obtain ⟨m, hm, hemail, -⟩ := insertMembers_adds (s := c.store) initialRole actorId hin
      exact covers_of_isMember (isMember_of_row (hmembers ▸ hm) hemail)
    · have hj : j ≠ i := by
        rintro rfl
        rw [Config.put_session_self] at hchecked
        exact hon ((checked_next t h hchecked).1.trans hoff)
      rw [Config.put_session_ne c _ hj] at hchecked
      have hkeeps := hwaiting j
      rw [hchecked] at hkeeps
      exact covers_of_isMember (admitted_of_switchOn hmine.2 hmembers hkeeps)
  · have hoff : c.store.members = [] → s'.members = [] := fun h0 => by
      by_contra hon
      exact hswitch ⟨h0, hon⟩
    have hkeep : ∀ email, t.covers settings c.store email = true →
        (t.observe c.store.members s'.members).covers settings s' email = true :=
      fun email => hout.members.covers hoff
    refine ⟨fun u' hu' => hkeep _ ?_, fun j email hchecked => ?_⟩
    · rcases hout.emails u' hu' with hstoring | ⟨u, hu, hemail⟩
      · cases hpc : c.session i with
        | upsertUser signIn initialRole =>
          rw [hpc] at hstoring hmine
          exact Option.some.inj hstoring ▸ hmine.2
        | otpInsert email initialRole =>
          rw [hpc] at hstoring
          exact hadm.checked i _ (by rw [hpc]; exact hstoring)
        | _ =>
          rw [hpc] at hstoring
          cases hstoring
      · exact hemail ▸ hadm.stored u hu
    · by_cases hj : j = i
      · subst hj
        rw [Config.put_session_self] at hchecked
        exact (checked_next t h hchecked).2.elim (fun hold => hkeep _ (hadm.checked j _ hold)) id
      · rw [Config.put_session_ne c _ hj] at hchecked
        exact hkeep _ (hadm.checked j _ hchecked)

end Steps

/-! ## Every run -/

/-- Nobody has issued a statement yet, of any request or sign-in. -/
structure World.Waiting (c : World ι Address) : Prop where
  wellFormed : c.store.WellFormed
  unlocked : c.store.signin = Advisory.none
  requests : ∀ i, c.session i = .done ∨ ∃ request : Request Address, c.session i = .start request

section Runs
variable [DecidableEq Address] {settings : Settings Address} {c d : World ι Address}
  {t : Trail Address}

theorem DoorInv.initial (h : c.Waiting) : DoorInv settings c Trail.start where
  membersOk := h.wellFormed.membersOk
  sound := h.unlocked ▸ Advisory.sound_none
  holding := fun i => by
    rcases h.requests i with hpc | ⟨request, hpc⟩ <;> rw [hpc] <;> trivial
  barred := fun email hemail => by cases hemail

theorem Admitting.initial : Admitting settings c Trail.start :=
  ⟨fun _ _ => rfl, fun _ _ _ => rfl⟩

theorem DoorInv.staysOut (h : DoorInv settings c t) (hdev : settings.devBypassActive = false) :
    StaysOut settings c.store t.sinceOn := by
  intro email hemail hgranted
  obtain ⟨hon, hout⟩ := h.barred email hemail
  rw [← Bool.not_eq_true, isMember_on hon]
  rintro (hbypass | ⟨m, hm, heq⟩ | hlisted)
  · simp [hdev] at hbypass
  · exact hout m hm heq
  · exact hgranted hlisted

theorem Admitting.evictsNobody (h : Admitting settings c t) : EvictsNobody settings (c, t) :=
  fun gone hgone u hu => covers_iff.mp (h.stored u hu) gone hgone

variable [DecidableEq ι]

def tracedStep (settings : Settings Address) (w : Traced ι Address) (e : ι × Act) :
    Option (Traced ι Address) :=
  (step settings w.1 e).map fun d => (d, w.2.observe w.1.store.members d.store.members)

theorem tracedStep_eq_some {w w' : Traced ι Address} {e : ι × Act} :
    tracedStep settings w e = some w' ↔ ∃ s' pc',
      act settings e.1 e.2 w.1.store (w.1.session e.1) = some (s', pc') ∧
        w' = (w.1.put e.1 (s', pc'), w.2.observe w.1.store.members s'.members) := by
  simp only [tracedStep, Option.map_eq_some_iff, step, step_eq_some, Prod.exists]
  constructor
  · rintro ⟨d, ⟨s', pc', hact, rfl⟩, rfl⟩
    exact ⟨s', pc', hact, rfl⟩
  · rintro ⟨s', pc', hact, rfl⟩
    exact ⟨_, ⟨s', pc', hact, rfl⟩, rfl⟩

/-- Wherever a run arrives: if its switch-ons were timely, whoever is in `users` is admitted or was
removed since; and a removed address stays out until it is added or the table is emptied. -/
theorem membership_of_run (hinit : c.Waiting) {es : List (ι × Act)}
    (hrun : run (tracedStep settings) (c, Trail.start) es = some (d, t)) :
    (Meets (tracedStep settings) (Timely settings) (c, Trail.start) es →
      EvictsNobody settings (d, t)) ∧
      (settings.devBypassActive = false → StaysOut settings d.store t.sinceOn) := by
  have hdoor : ∀ (w : Traced ι Address) (e : ι × Act) (w' : Traced ι Address),
      DoorInv settings w.1 w.2 → tracedStep settings w e = some w' →
      DoorInv settings w'.1 w'.2 := by
    intro w e w' hw hstep
    obtain ⟨s', pc', hact, rfl⟩ := tracedStep_eq_some.mp hstep
    exact hw.step hact
  refine ⟨fun htimely => ?_, fun hdev => ?_⟩
  · have hboth : DoorInv settings d t ∧ Admitting settings d t := by
      refine run_invariant (I := fun w : Traced ι Address =>
        DoorInv settings w.1 w.2 ∧ Admitting settings w.1 w.2) (fun w e w' hw hok hstep => ?_)
        ⟨DoorInv.initial hinit, Admitting.initial⟩ htimely hrun
      refine ⟨hdoor w e w' hw.1 hstep, ?_⟩
      obtain ⟨s', pc', hact, rfl⟩ := tracedStep_eq_some.mp hstep
      exact hw.2.step hw.1 hok hact
    exact hboth.2.evictsNobody
  · have hinv := run_keeps (I := fun w : Traced ι Address => DoorInv settings w.1 w.2) hdoor
      (DoorInv.initial hinit) hrun
    exact hinv.staysOut hdev

end Runs

/-! ## Three deployments -/

instance [DecidableEq Address] (settings : Settings Address) (w : Traced ι Address) :
    Decidable (EvictsNobody settings w) :=
  inferInstanceAs (Decidable (∀ gone ∈ w.2.switchedOn,
    ∀ u ∈ w.1.store.users, w.1.store.isMember settings u.email = true ∨ u.email ∈ gone))

instance [DecidableEq Address] (settings : Settings Address) (s : Store ι Address)
    (removed : List Address) : Decidable (StaysOut settings s removed) :=
  inferInstanceAs (Decidable (∀ email ∈ removed, settings.envVerdict email ≠ .granted →
    s.isMember settings email = false))

/-- No allowlist but the one of admins. -/
def adminsListed : Settings String :=
  { devBypassActive := false
    isAdminEmail := (· = "eve@x.io")
    gates := []
    usable := fun _ => true
    devBypassOid := 0
    devBypassEmail := "dev@localhost"
    oidcDefaultRole := .member
    otpDefaultRole := .member }

/-- `n` statements of one session. -/
def inARow (i : Fin 3) (n : ℕ) : List (Fin 3 × Act) := List.replicate n (i, .proceed)

/-- Ada adds Bo, which switches membership on, while Dan signs in with a code; later she removes
what will be Dan's row. -/
def addWhileDanSignsIn : World (Fin 3) String :=
  { store :=
      { users := [⟨1, some 11, "ada@x.io", .admin⟩]
        members := []
        nextId := 2
        userLocks := Locks.none
        memberLocks := Locks.none
        signin := Advisory.none }
    session := fun
      | 0 => .start (.addMember "bo@x.io" .member 1)
      | 1 => .start (.otpSignIn "dan@x.io")
      | 2 => .start (.removeMember 4 "ada@x.io" false) }

theorem addWhileDanSignsIn_waiting : addWhileDanSignsIn.Waiting where
  wellFormed := ⟨by decide, by decide, by decide, by decide,
    by decide, by decide⟩
  unlocked := rfl
  requests := fun
    | 0 => .inr ⟨_, rfl⟩
    | 1 => .inr ⟨_, rfl⟩
    | 2 => .inr ⟨_, rfl⟩

/-- Dan is in before the switch-on, which imports him; then he is removed. -/
theorem membership_of_run_in_turn : ∃ d t, run (tracedStep adminsListed)
    (addWhileDanSignsIn, Trail.start) (inARow 1 7 ++ inARow 0 6 ++ inARow 2 4) = some (d, t) ∧
      t.sinceOn = ["dan@x.io"] ∧ EvictsNobody adminsListed (d, t) ∧
      StaysOut adminsListed d.store t.sinceOn := by
  have hsome : (run (tracedStep adminsListed) (addWhileDanSignsIn, Trail.start)
      (inARow 1 7 ++ inARow 0 6 ++ inARow 2 4)).any (·.2.sinceOn = ["dan@x.io"]) = true := by
    decide
  obtain ⟨⟨d, t⟩, hrun, hgone⟩ := (Option.any_eq_true _ _).mp hsome
  obtain ⟨hevicts, hout⟩ := membership_of_run addWhileDanSignsIn_waiting hrun
  exact ⟨d, t, hrun, by simpa using hgone, hevicts (by decide), hout rfl⟩

/-- Eve is an admin by the environment's list and has no row; Ada and Bo have one. Eve removes both,
and between the two Ada's token demotes her. -/
def emptiedByEve : World (Fin 3) String :=
  { store :=
      { users := [⟨1, some 11, "ada@x.io", .admin⟩, ⟨2, some 12, "bo@x.io", .member⟩,
          ⟨3, some 13, "eve@x.io", .admin⟩]
        members := [⟨4, "ada@x.io", .admin, .autoImport, none⟩,
          ⟨5, "bo@x.io", .member, .admin, some 1⟩]
        nextId := 6
        userLocks := Locks.none
        memberLocks := Locks.none
        signin := Advisory.none }
    session := fun
      | 0 => .start (.removeMember 5 "eve@x.io" false)
      | 1 => .start (.tokenSignIn 11 "ada@x.io" (some .viewer))
      | 2 => .start (.removeMember 4 "eve@x.io" false) }

theorem emptiedByEve_waiting : emptiedByEve.Waiting where
  wellFormed := ⟨by decide, by decide, by decide, by decide,
    by decide, by decide⟩
  unlocked := rfl
  requests := fun
    | 0 => .inr ⟨_, rfl⟩
    | 1 => .inr ⟨_, rfl⟩
    | 2 => .inr ⟨_, rfl⟩

/-- A switch-on shuts out Dan, who passed his check before it and is stored after it; and Bo is
admitted again when the last row has gone. -/
theorem shutOut_and_readmitted :
    (¬ ∀ (c d : World (Fin 3) String) (t : Trail String) (es : List (Fin 3 × Act)), c.Waiting →
      run (tracedStep adminsListed) (c, Trail.start) es = some (d, t) →
      EvictsNobody adminsListed (d, t)) ∧
    ¬ ∀ (c d : World (Fin 3) String) (t : Trail String) (es : List (Fin 3 × Act)), c.Waiting →
      run (tracedStep adminsListed) (c, Trail.start) es = some (d, t) →
      StaysOut adminsListed d.store t.removed := by
  constructor <;> intro hclaim
  · have hrun : (run (tracedStep adminsListed) (addWhileDanSignsIn, Trail.start)
        (inARow 1 4 ++ inARow 0 6 ++ inARow 1 3)).any
          (fun w => !decide (EvictsNobody adminsListed w)) = true := by decide
    obtain ⟨⟨d, t⟩, hd, hfails⟩ := (Option.any_eq_true _ _).mp hrun
    have hkept := hclaim _ d t _ addWhileDanSignsIn_waiting hd
    simp [hkept] at hfails
  · have hrun : (run (tracedStep adminsListed) (emptiedByEve, Trail.start)
        (inARow 0 4 ++ inARow 1 4 ++ inARow 2 4)).any
          (fun w => !decide (StaysOut adminsListed w.1.store w.2.removed)) = true := by
      decide
    obtain ⟨⟨d, t⟩, hd, hfails⟩ := (Option.any_eq_true _ _).mp hrun
    have hkept := hclaim _ d t _ emptiedByEve_waiting hd
    simp [hkept] at hfails

end DataQ.Membership
