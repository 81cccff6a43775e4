import DataQ.Foundations.Transition
import DataQ.Offboarding.Departure

/-! # An offboarding lands whole, and what it leaves behind

The pass publishes nothing before its last commit, so one that raises might as well not have run.
One that commits leaves nothing of the departed user, unless a request of theirs goes on after it:
an insert that waits for the user's row is what the pass does not see. -/

namespace DataQ.Offboarding
open DataQ.Locking DataQ.Interleaving DataQ.Transition
open DataQ.Membership (Role Settings)
set_option autoImplicit false

variable {Address ι : Type*}

/-! ## Every run -/

def Pc.isCommitted : Pc Address → Bool
  | .committed => true
  | _ => false

def Pc.committing : Pc Address → Bool
  | .commit _ => true
  | _ => false

/-- No request of the departing user commits a row once the pass `off` has committed. -/
def InTime (off : ι) (c : World ι Address) (e : ι × Act) : Prop :=
  (c.session off).isCommitted = true → e.2 = .proceed → (c.session e.1).committing = false

instance (off : ι) (c : World ι Address) (e : ι × Act) : Decidable (InTime off c e) :=
  inferInstanceAs (Decidable ((c.session off).isCommitted = true → e.2 = .proceed →
    (c.session e.1).committing = false))

/-- The pass `off` is about to start, beside requests that the departing user has sent. -/
structure World.Initial (c : World ι Address) (off : ι) (args : Args Address) : Prop where
  offboards : c.session off = .offboard args
  requests : ∀ j, j ≠ off → c.session j = .done ∨ c.session j = .createSuite args.userId ∨
    ∃ days, c.session j = .createKey args.userId days
  unlocked : ∀ id, c.store.locks id = Advisory.none

section Runs
variable {args : Args Address} {owned : List ℕ} {c d : World ι Address} {off i : ι}
  {settings : Settings Address}

theorem Inv.initial (h : c.Initial off args) :
    Inv off args (c.store.tables.ownedSuites args.userId) c where
  sound := fun id => by
    rw [h.unlocked id]
    exact Advisory.sound_none
  requests := fun j hj => by
    rcases h.requests j hj with hpc | hpc | ⟨days, hpc⟩
    · rw [hpc]
      trivial
    · rw [hpc]
      rfl
    · rw [hpc]
      rfl
  stands := by
    rw [h.offboards]
    refine ⟨rfl, fun id hid => ?_⟩
    obtain ⟨s, hs, heq⟩ := List.mem_map.mp hid
    obtain ⟨hmem, howner⟩ := List.mem_filter.mp hs
    exact ⟨s, hmem, heq, by simpa using howner⟩

theorem Stands.ofPass {s : Store ι Address} {pc : Pc Address} (h : Stands args owned s off pc) :
    pc.ofPass = true := by
  cases pc with
  | offboard | pass | raised | committed => rfl
  | _ => cases h

variable [DecidableEq ι] [DecidableEq Address]

theorem Inv.step {a : Act} {s' : Store ι Address} {pc' : Pc Address} (h : Inv off args owned c)
    (htime : InTime off c (i, a))
    (hact : act settings i a c.store (c.session i) = some (s', pc')) :
    Inv off args owned (c.put i (s', pc')) := by
  by_cases hi : i = off
  · subst hi
    have hlocks : LocksMove i c.store s' := by
      cases a with
      | tick =>
        cases hact
        exact fun _ => .same
      | proceed | fail => exact (quiet_of_act h.stands.ofPass (by simp) hact).locks
    refine ⟨fun id => (hlocks id).sound (h.sound id), fun j hj => ?_, ?_⟩
    · rw [Config.put_session_ne c _ hj]
      exact (h.requests j hj).frame ((hlocks args.userId).keeps_shared hj)
    · rw [Config.put_session_self]
      exact stands_next h.stands hact
  · have hmine := h.requests i hi
    obtain ⟨hnext, hlocks, hnow, htables⟩ := request_next hmine hact
    refine ⟨fun id => (hlocks id).sound (h.sound id), fun j hj => ?_, ?_⟩
    · by_cases hji : j = i
      · subst hji
        rw [Config.put_session_self]
        exact hnext
      · rw [Config.put_session_ne c _ hji]
        exact (h.requests j hj).frame ((hlocks args.userId).keeps_shared hji)
    · rw [Config.put_session_ne c _ (Ne.symm hi)]
      refine h.stands.frame ((hlocks args.userId).keeps_exclusive (Ne.symm hi)) hnow ?_
      refine htables.imp_right fun ⟨hproceed, row, hpc, heq⟩ => ⟨fun hheld => ?_, fun hcom => ?_,
        row, heq⟩
      · -- the request holds the user's row shared, so the pass cannot hold it
        rw [hpc] at hmine
        exact hi (h.sound args.userId off hheld i hmine.2)
      · have hnot := htime (by rw [hcom]; rfl) hproceed
        rw [hpc] at hnot
        cases hnot

/-! ## A pass that raises -/

/-- The run without the pass `off`, beside the run with it. -/
structure Shadow (off : ι) (c c' : World ι Address) : Prop where
  tables : c'.store.tables = c.store.tables
  now : c'.store.now = c.store.now
  nextId : c'.store.nextId = c.store.nextId
  sessions : ∀ j, j ≠ off → c'.session j = c.session j
  unlocked : ∀ id, (c'.store.locks id).exclusive = none

/-- The events that are not statements of the pass. -/
def besides (off : ι) (es : List (ι × Act)) : List (ι × Act) :=
  es.filter fun e => e.1 ≠ off || e.2 = .tick

/-- Without the pass a request can do all it does beside it. -/
theorem request_alone {a : Act} {userId : ℕ} {s s' r : Store ι Address} {pc pc' : Pc Address}
    (h : Requesting userId s i pc) (htables : r.tables = s.tables) (hnow : r.now = s.now)
    (hnext : r.nextId = s.nextId) (hfree : ∀ id, (r.locks id).exclusive = none)
    (hact : act settings i a s pc = some (s', pc')) :
    ∃ r', act settings i a r pc = some (r', pc') ∧ r'.tables = s'.tables ∧ r'.now = s'.now ∧
      r'.nextId = s'.nextId ∧ ∀ id, (r'.locks id).exclusive = none := by
  have hreleased : ∀ id, ((r.release i).locks id).exclusive = none := by
    intro id
    simp [Store.release, Advisory.release, hfree id]
  cases a with
  | tick =>
    cases hact
    exact ⟨_, rfl, htables, congrArg (· + 1) hnow, hnext, hfree⟩
  | fail =>
    cases pc with
    | createSuite | createKey | insert | commit =>
      cases hact
      exact ⟨_, rfl, htables, hnow, hnext, hreleased⟩
    | done => cases hact
    | _ => cases h
  | proceed =>
    cases pc <;> simp only [act, proceed] at hact ⊢
    case createSuite u =>
      cases hact
      exact ⟨_, rfl, htables, hnow, hnext, hfree⟩
    case createKey u days =>
      split at hact <;> cases hact
      · next hdays =>
        rw [if_pos hdays, hnow]
        exact ⟨_, rfl, htables, hnow, hnext, hfree⟩
      · next hdays =>
        rw [if_neg hdays]
        exact ⟨_, rfl, htables, hnow, hnext, hreleased⟩
    case insert row =>
      rw [if_pos (.inl (hfree row.userId)), htables]
      split at hact
      · split at hact <;> cases hact
        · next hmissing =>
          rw [if_pos hmissing]
          exact ⟨_, rfl, htables, hnow, hnext, hreleased⟩
        · next hmissing =>
          rw [if_neg hmissing]
          refine ⟨_, rfl, htables, hnow, hnext, fun id => ?_⟩
          by_cases hid : id = row.userId
          · subst hid
            simpa [Store.referenceUser, Advisory.takeShared] using hfree row.userId
          · simpa [Store.referenceUser, hid] using hfree id
      · cases hact
    case commit row =>
      cases hact
      refine ⟨_, rfl, ?_, ?_, ?_, fun id => ?_⟩
      · cases row <;> simp [Store.insertRow, Store.release, htables, hnext]
      · cases row <;> simpa [Store.insertRow, Store.release] using hnow
      · cases row <;> simp [Store.insertRow, Store.release, hnext]
      · cases row <;> simp [Store.insertRow, Store.release, Advisory.release, hfree id]
    all_goals first | cases hact | cases h

/-- Once the pass has committed there is no statement left in it. -/
theorem committed_stays {es : List (ι × Act)} (hrun : run (step settings) c es = some d)
    (hcom : c.session off = .committed) : d.session off = .committed := by
  refine run_keeps (I := fun w : World ι Address => w.session off = .committed)
    (fun w e w' hw hstep => ?_) hcom hrun
  obtain ⟨⟨s', pc'⟩, hact, rfl⟩ := step_eq_some.mp hstep
  by_cases hoff : off = e.1
  · subst hoff
    rw [Config.put_session_self]
    rw [hw] at hact
    obtain ⟨i, a⟩ := e
    cases a <;> cases hact
    rfl
  · rw [Config.put_session_ne w _ hoff]
    exact hw

/-- An event of the run with the pass is one or none of the run without. -/
theorem shadow_step {c' : World ι Address} {e : ι × Act} (hinv : Inv off args owned c)
    (h : Shadow off c c') (hstep : step settings c e = some d)
    (hcom : d.session off ≠ .committed) :
    ∃ d', run (step settings) c' (besides off [e]) = some d' ∧ Shadow off d d' := by
  obtain ⟨⟨s', pc'⟩, hact, rfl⟩ := step_eq_some.mp hstep
  obtain ⟨i, a⟩ := e
  by_cases hi : i = off
  · subst hi
    by_cases ha : a = .tick
    · subst ha
      cases hact
      refine ⟨c'.put i ({ c'.store with now := c'.store.now + 1 }, c'.session i), ?_, ?_⟩
      · simp [besides, run_cons, step, Interleaving.step, act]
      · refine ⟨h.tables, congrArg (· + 1) h.now, h.nextId, fun j hj => ?_, h.unlocked⟩
        rw [Config.put_session_ne _ _ hj, Config.put_session_ne _ _ hj]
        exact h.sessions j hj
    · have hquiet := quiet_of_act hinv.stands.ofPass ha hact
      rw [Config.put_session_self] at hcom
      refine ⟨c', by simp [besides, ha], ?_⟩
      refine ⟨h.tables.trans (hquiet.tables.resolve_right hcom).symm, h.now.trans hquiet.now.symm,
        h.nextId.trans hquiet.nextId.symm, fun j hj => ?_, h.unlocked⟩
      rw [Config.put_session_ne _ _ hj]
      exact h.sessions j hj
  · obtain ⟨r', hact', htables, hnow, hnext, hfree⟩ :=
      request_alone (hinv.requests i hi) h.tables h.now h.nextId h.unlocked hact
    refine ⟨c'.put i (r', pc'), ?_, ⟨htables, hnow, hnext, fun j hj => ?_, hfree⟩⟩
    · have hone : step settings c' (i, a) = some (c'.put i (r', pc')) :=
        step_eq_some.mpr ⟨_, by rw [h.sessions i hi]; exact hact', rfl⟩
      simp [besides, hi, run_cons, hone]
    · by_cases hji : j = i
      · subst hji
        rw [Config.put_session_self, Config.put_session_self]
      · rw [Config.put_session_ne _ _ hji, Config.put_session_ne _ _ hji]
        exact h.sessions j hj

theorem shadow_run {c' : World ι Address} {es : List (ι × Act)} (hinv : Inv off args owned c)
    (h : Shadow off c c') (hrun : run (step settings) c es = some d)
    (hcom : d.session off ≠ .committed) :
    ∃ d', run (step settings) c' (besides off es) = some d' ∧ Shadow off d d' := by
  induction es generalizing c c' with
  | nil =>
    have hcd : c = d := by simpa using hrun
    exact ⟨c', rfl, hcd ▸ h⟩
  | cons e es ih =>
    obtain ⟨w, hw, hrest⟩ := run_cons_eq_some.mp hrun
    have hnot : w.session off ≠ .committed := fun hwcom => hcom (committed_stays hrest hwcom)
    obtain ⟨w', hw', hshadow⟩ := shadow_step hinv h hw hnot
    have hbefore : (c.session off).isCommitted = false := by
      cases hpc : c.session off with
      | committed =>
        exact absurd (committed_stays (run_cons_eq_some.mpr ⟨w, hw, run_nil w⟩) hpc) hnot
      | _ => rfl
    have hinv' : Inv off args owned w := by
      obtain ⟨⟨s', pc'⟩, hact, rfl⟩ := step_eq_some.mp hw
      exact hinv.step (fun htrue => by rw [hbefore] at htrue; cases htrue) hact
    obtain ⟨d', hd', hlast⟩ := ih hinv' hshadow hrest
    refine ⟨d', ?_, hlast⟩
    have hsplit : besides off (e :: es) = besides off [e] ++ besides off es :=
      List.filter_append [e] es
    rw [hsplit, run_append_eq_some]
    exact ⟨w', hw', hd'⟩

/-- A pass that raises leaves the tables as the other requests alone leave them; one that commits,
if no request of the departing user commits after it, leaves nothing of theirs. -/
theorem offboard_of_run (hinit : c.Initial off args) {es : List (ι × Act)}
    (hrun : run (step settings) c es = some d) :
    (d.session off = .raised → ∃ d', run (step settings) c (besides off es) = some d' ∧
      d'.store.tables = d.store.tables) ∧
    (Meets (step settings) (InTime off) c es → d.session off = .committed →
      LeavesNothing args (c.store.tables.ownedSuites args.userId) d.store.tables d.store.now) := by
  have hinv := Inv.initial hinit
  refine ⟨fun hraised => ?_, fun htime hcom => ?_⟩
  · have hshadow : Shadow off c c :=
      ⟨rfl, rfl, rfl, fun _ _ => rfl, fun id => by rw [hinit.unlocked id]; rfl⟩
    obtain ⟨d', hd', hlast⟩ := shadow_run hinv hshadow hrun (by rw [hraised]; nofun)
    exact ⟨d', hd', hlast.tables⟩
  · have hend : Inv off args (c.store.tables.ownedSuites args.userId) d := by
      refine run_invariant (fun w e w' hw hok hstep => ?_) hinv htime hrun
      obtain ⟨⟨s', pc'⟩, hact, rfl⟩ := step_eq_some.mp hstep
      exact hw.step hok hact
    have hstands := hend.stands
    rw [hcom] at hstands
    exact hstands

end Runs

/-! ## A departure -/

/-- Only the address list of admins. -/
def plainSettings : Settings String :=
  { devBypassActive := false
    isAdminEmail := fun _ => false
    gates := []
    usable := fun _ => true
    devBypassOid := 0
    devBypassEmail := "dev@localhost"
    oidcDefaultRole := .member
    otpDefaultRole := .member }

/-- Ada offboards Bo, who owns a suite and holds a key; Cy is to inherit. -/
def boLeaves : Args String :=
  { userId := 2
    newOwnerId := some 3
    confirmEmail := "bo@x.io"
    actorId := 1
    actorEmail := "ada@x.io"
    keepPreviousOwnerAccess := false }

/-- Bo has a request in flight that creates another suite. -/
def boCreates : World (Fin 2) String :=
  { store :=
      { tables :=
          { users := [⟨1, some 11, "ada@x.io", .admin⟩, ⟨2, some 12, "bo@x.io", .member⟩,
              ⟨3, some 13, "cy@x.io", .member⟩]
            members := [⟨4, "bo@x.io", .member, .admin, some 1⟩]
            suites := [⟨5, some 2⟩]
            shares := [⟨5, 3, .view⟩]
            apiKeys := [⟨6, 2, 500, none⟩]
            sessions := [⟨7, 2, 500, none⟩] }
        now := 100
        nextId := 8
        locks := fun _ => Advisory.none }
    session := fun
      | 0 => .offboard boLeaves
      | 1 => .createSuite 2 }

theorem boCreates_initial : boCreates.Initial 0 boLeaves where
  offboards := rfl
  requests := fun
    | 0 => fun h => absurd rfl h
    | 1 => fun _ => .inr (.inl rfl)
  unlocked := fun _ => rfl

/-- `n` statements of one session. -/
def ofSession (i : Fin 2) (n : ℕ) : List (Fin 2 × Act) := List.replicate n (i, .proceed)

def Pc.finished : Pc Address → Bool
  | .raised | .committed | .done => true
  | _ => false

/-- The suite is created before the pass takes Bo's row, and goes to Cy with the other one. -/
theorem offboard_of_run_in_turn : ∃ d, run (step plainSettings) boCreates
    (ofSession 1 3 ++ ofSession 0 15) = some d ∧ d.session 0 = .committed ∧
      LeavesNothing boLeaves [5] d.store.tables d.store.now := by
  have hsome : (run (step plainSettings) boCreates (ofSession 1 3 ++ ofSession 0 15)).any
      (fun d => (d.session 0).isCommitted) = true := by decide
  obtain ⟨d, hd, hcom⟩ := (Option.any_eq_true _ _).mp hsome
  have hcommitted : d.session 0 = .committed := by
    cases hpc : d.session 0 with
    | committed => rfl
    | _ =>
      rw [hpc] at hcom
      cases hcom
  exact ⟨d, hd, hcommitted, (offboard_of_run boCreates_initial hd).2 (by decide) hcommitted⟩

/-- The insert waits for the pass and goes on after it: Bo is gone and owns a suite. -/
theorem suite_left_behind : ¬ ∀ (c d : World (Fin 2) String) (es : List (Fin 2 × Act)),
    c.Initial 0 boLeaves → run (step plainSettings) c es = some d →
    (∀ i, (d.session i).finished = true) → d.session 0 = .committed →
    LeavesNothing boLeaves (c.store.tables.ownedSuites boLeaves.userId) d.store.tables
      d.store.now := by
  intro hclaim
  have hsome : (run (step plainSettings) boCreates
      (ofSession 1 1 ++ ofSession 0 14 ++ ofSession 1 2)).any (fun d =>
        decide (∀ i, (d.session i).finished = true) && (d.session 0).isCommitted &&
          d.store.tables.suites.any (·.createdBy = some boLeaves.userId)) = true := by
    decide
  obtain ⟨d, hd, hall⟩ := (Option.any_eq_true _ _).mp hsome
  simp only [Bool.and_eq_true, decide_eq_true_eq] at hall
  obtain ⟨⟨hfinished, hcom⟩, howned⟩ := hall
  have hcommitted : d.session 0 = .committed := by
    cases hpc : d.session 0 with
    | committed => rfl
    | _ =>
      rw [hpc] at hcom
      cases hcom
  have hleft := hclaim boCreates d _ boCreates_initial hd hfinished hcommitted
  obtain ⟨suite, hsuite, howner⟩ := List.any_eq_true.mp howned
  exact hleft.ownsNone suite hsuite (by simpa using howner)

end DataQ.Offboarding
