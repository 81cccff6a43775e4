import DataQ.Offboarding.Pass

/-! # What the pass knows at each of its statements

While it holds the departing user's row, no request of theirs can insert; what it has read of their
suites and credentials therefore stays complete to its commit. -/

namespace DataQ.Offboarding
open DataQ.Locking DataQ.Savepoints DataQ.Interleaving
open DataQ.Membership (Role User WorkspaceMember Settings inIdOrder)
set_option autoImplicit false

variable {Address ι : Type*}

/-! ## What the pass is to achieve -/

/-- Nothing of the departed user is left: `owned` are the suites they owned. -/
structure LeavesNothing (args : Args Address) (owned : List ℕ) (t : Tables Address) (now : ℕ) :
    Prop where
  ownsNone : ∀ s ∈ t.suites, s.createdBy ≠ some args.userId
  inherited : ∀ id ∈ owned, ∃ heir, args.newOwnerId = some heir ∧
    ∃ s ∈ t.suites, s.id = id ∧ s.createdBy = some heir
  noKey : NoneLive t.apiKeys args.userId now
  noSession : NoneLive t.sessions args.userId now
  viewer : (t.userById args.userId).map User.role = some .viewer

/-- The suites of `todo` are still to be handed over. -/
structure Handed (args : Args Address) (owned : List ℕ) (user : User Address) (t : Tables Address)
    (todo : List ℕ) : Prop where
  user : t.userById args.userId = some user
  waiting : ∀ s ∈ t.suites, s.createdBy = some args.userId → s.id ∈ todo
  kept : ∀ id ∈ owned, ∃ s ∈ t.suites, s.id = id ∧ (s.createdBy = some args.userId ∨
    ∃ heir, args.newOwnerId = some heir ∧ s.createdBy = some heir)

/-- The suites of the departing user are all there. -/
def Present (args : Args Address) (owned : List ℕ) (t : Tables Address) : Prop :=
  ∀ id ∈ owned, ∃ s ∈ t.suites, s.id = id ∧ s.createdBy = some args.userId

section Tables
variable {args : Args Address} {owned : List ℕ} {user : User Address} {t t' : Tables Address}
  {now now' : ℕ} {todo : List ℕ}

theorem LeavesNothing.later (h : LeavesNothing args owned t now) (hle : now ≤ now') :
    LeavesNothing args owned t now' :=
  { h with
    noKey := h.noKey.later hle
    noSession := h.noSession.later hle }

theorem Handed.congr (h : Handed args owned user t todo) (hsuites : t'.suites = t.suites)
    (husers : t'.users = t.users) : Handed args owned user t' todo where
  user := by
    rw [Tables.userById, husers]
    exact h.user
  waiting := hsuites ▸ h.waiting
  kept := hsuites ▸ h.kept

theorem Handed.start (huser : t.userById args.userId = some user) (h : Present args owned t) :
    Handed args owned user t (t.ownedSuites args.userId) where
  user := huser
  waiting := fun s hs howner =>
    List.mem_map_of_mem (List.mem_filter.mpr ⟨hs, by simpa using howner⟩)
  kept := fun id hid =>
    let ⟨s, hs, heq, howner⟩ := h id hid
    ⟨s, hs, heq, .inl howner⟩

/-- One transfer takes its suite off the list. -/
theorem Handed.transfer {settings : Settings Address} {suiteId heir : ℕ} {keepAccess : Bool}
    {changes : List Change} (h : Handed args owned user t (suiteId :: todo))
    (hheir : args.newOwnerId = some heir) (hother : args.newOwnerId ≠ some args.userId)
    (htransfer : transferOwnership settings t suiteId heir keepAccess = some changes) :
    Handed args owned user (t.changeAll changes) todo := by
  obtain ⟨hsuites, husers⟩ := transferOwnership_spec htransfer
  refine ⟨?_, fun s' hs' howner => ?_, fun id hid => ?_⟩
  · rw [Tables.userById, husers]
    exact h.user
  · rw [hsuites] at hs'
    obtain ⟨s, hs, rfl⟩ := List.mem_map.mp hs'
    by_cases hid : s.id = suiteId
    · rw [if_pos hid] at howner
      exact absurd (hheir.trans howner) hother
    · rw [if_neg hid] at howner ⊢
      exact (List.mem_cons.mp (h.waiting s hs howner)).resolve_left hid
  · obtain ⟨s, hs, heq, howner⟩ := h.kept id hid
    rw [hsuites]
    refine ⟨_, List.mem_map_of_mem hs, ?_⟩
    by_cases hmoved : s.id = suiteId
    · rw [if_pos hmoved]
      exact ⟨heq, .inr ⟨heir, hheir, rfl⟩⟩
    · rw [if_neg hmoved]
      exact ⟨heq, howner⟩

/-- With every suite handed over and every credential dead, the demotion is all that is missing. -/
theorem Handed.leavesNothing (h : Handed args owned user t [])
    (hkeys : NoneLive t.apiKeys args.userId now) (hsessions : NoneLive t.sessions args.userId now) :
    LeavesNothing args owned
      (t.changeAll (if user.role = .viewer then [] else [.setRole args.userId .viewer])) now := by
  have hnone : ∀ s ∈ t.suites, s.createdBy ≠ some args.userId := fun s hs howner =>
    List.not_mem_nil (h.waiting s hs howner)
  have hinherited : ∀ id ∈ owned, ∃ heir, args.newOwnerId = some heir ∧
      ∃ s ∈ t.suites, s.id = id ∧ s.createdBy = some heir := by
    intro id hid
    obtain ⟨s, hs, heq, howner⟩ := h.kept id hid
    obtain ⟨heir, hheir, howner⟩ := howner.resolve_left (hnone s hs)
    exact ⟨heir, hheir, s, hs, heq, howner⟩
  split
  · next hviewer =>
    refine ⟨hnone, hinherited, hkeys, hsessions, ?_⟩
    rw [Tables.changeAll, List.foldl_nil, h.user, Option.map_some, hviewer]
  · refine ⟨hnone, hinherited, hkeys, hsessions, ?_⟩
    rw [Tables.changeAll, List.foldl_cons, List.foldl_nil, userById_setRole .viewer h.user,
      Option.map_some]

theorem LeavesNothing.congr (h : LeavesNothing args owned t now) (hsuites : t'.suites = t.suites)
    (husers : t'.users = t.users) (hkeys : t'.apiKeys = t.apiKeys)
    (hsessions : t'.sessions = t.sessions) : LeavesNothing args owned t' now where
  ownsNone := hsuites ▸ h.ownsNone
  inherited := hsuites ▸ h.inherited
  noKey := hkeys ▸ h.noKey
  noSession := hsessions ▸ h.noSession
  viewer := by
    rw [Tables.userById, husers]
    exact h.viewer

end Tables

/-! ## What the pass knows at each of its statements -/

/-- What the rows the transaction reads look like before the statement at a place. -/
def Reached (args : Args Address) (owned : List ℕ) (user : User Address) (t : Tables Address)
    (now : ℕ) : Place → Prop
  | .lockAdmins _ | .lockParty _ => True
  | .ownedSuites => t.userById args.userId = some user ∧ Present args owned t
  | .transfer todo => Handed args owned user t todo
  | .revokeKeys => Handed args owned user t []
  | .revokeSessions => Handed args owned user t [] ∧ NoneLive t.apiKeys args.userId now
  | .demote => Handed args owned user t [] ∧ NoneLive t.apiKeys args.userId now ∧
      NoneLive t.sessions args.userId now
  | .membership | .removeMember _ | .finish | .outerCommit => LeavesNothing args owned t now

/-- The pass `off` holds the row of the departing user. -/
def Held (s : Store ι Address) (off : ι) (args : Args Address) : Prop :=
  (s.locks args.userId).exclusive = some off

/-- What the pass has made sure of before its statement at a place. -/
def PlaceOk (args : Args Address) (owned : List ℕ) (s : Store ι Address) (off : ι)
    (user : User Address) (changes : Changes Change) : Place → Prop
  | .lockAdmins _ => changes = .none ∧ Present args owned s.tables ∧
      (s.tables.userById args.userId).isSome = true
  | .lockParty todo => changes = .none ∧ Present args owned s.tables ∧
      args.newOwnerId ≠ some args.userId ∧ (args.userId ∈ todo ∨ Held s off args)
  | place => Held s off args ∧ args.newOwnerId ≠ some args.userId ∧
      (place = .outerCommit → changes.pending = []) ∧
      Reached args owned user (changes.view Tables.change s.tables) s.now place

def Stands (args : Args Address) (owned : List ℕ) (s : Store ι Address) (off : ι) :
    Pc Address → Prop
  | .offboard a => a = args ∧ Present args owned s.tables
  | .pass a user changes place => a = args ∧ PlaceOk args owned s off user changes place
  | .raised => True
  | .committed => LeavesNothing args owned s.tables s.now
  | _ => False

/-- A request of the departing user, and what it holds. -/
def Requesting (userId : ℕ) (s : Store ι Address) (j : ι) : Pc Address → Prop
  | .createSuite u | .createKey u _ => u = userId
  | .insert row => row.userId = userId
  | .commit row => row.userId = userId ∧ j ∈ (s.locks userId).shared
  | .done => True
  | _ => False

structure Inv (off : ι) (args : Args Address) (owned : List ℕ) (c : World ι Address) : Prop where
  sound : ∀ id, (c.store.locks id).Sound
  requests : ∀ j, j ≠ off → Requesting args.userId c.store j (c.session j)
  stands : Stands args owned c.store off (c.session off)

section Later
variable {args : Args Address} {owned : List ℕ} {user : User Address} {t : Tables Address}
  {changes : Changes Change} {now now' : ℕ} {s s' : Store ι Address} {off j : ι} {place : Place}
  {pc : Pc Address}

theorem Reached.later (h : Reached args owned user t now place) (hle : now ≤ now') :
    Reached args owned user t now' place := by
  cases place with
  | lockAdmins | lockParty | ownedSuites | transfer | revokeKeys => exact h
  | revokeSessions => exact ⟨h.1, h.2.later hle⟩
  | demote => exact ⟨h.1, h.2.1.later hle, h.2.2.later hle⟩
  | membership | removeMember | finish | outerCommit => exact LeavesNothing.later h hle

/-- What the pass knows survives the statements of the others: they change the tables only
while it does not hold the user's row, and only by new rows. -/
theorem Stands.frame (h : Stands args owned s off pc)
    (hheld : Held s off args → Held s' off args) (hle : s.now ≤ s'.now)
    (htables : s'.tables = s.tables ∨ ¬ Held s off args ∧ pc ≠ .committed ∧
      ∃ row, s'.tables = (s.insertRow row).tables) : Stands args owned s' off pc := by
  have hpresent : ∀ {row : NewRow}, Present args owned s.tables →
      Present args owned (s.insertRow row).tables := by
    intro row hp id hid
    obtain ⟨suite, hsuite, hrest⟩ := hp id hid
    cases row with
    | suite => exact ⟨suite, List.mem_append_left _ hsuite, hrest⟩
    | apiKey => exact ⟨suite, hsuite, hrest⟩
  have hstill : Present args owned s.tables → Present args owned s'.tables := by
    intro hp
    rcases htables with heq | ⟨-, -, row, heq⟩
    · rw [heq]
      exact hp
    · rw [heq]
      exact hpresent hp
  have husers : s'.tables.users = s.tables.users := by
    rcases htables with heq | ⟨-, -, row, heq⟩
    · rw [heq]
    · rw [heq]
      cases row <;> rfl
  have hsame : Held s off args → s'.tables = s.tables := fun hlock =>
    htables.resolve_right fun hnot => hnot.1 hlock
  cases pc with
  | offboard a => exact ⟨h.1, hstill h.2⟩
  | pass a user changes place =>
    refine ⟨h.1, ?_⟩
    obtain ⟨-, hok⟩ := h
    cases place with
    | lockAdmins => exact ⟨hok.1, hstill hok.2.1, by rw [Tables.userById, husers]; exact hok.2.2⟩
    | lockParty todo => exact ⟨hok.1, hstill hok.2.1, hok.2.2.1, hok.2.2.2.imp_right hheld⟩
    | ownedSuites | transfer | revokeKeys | revokeSessions | demote | membership | removeMember
      | finish | outerCommit =>
      obtain ⟨hlock, hother, hpending, hreached⟩ := hok
      refine ⟨hheld hlock, hother, hpending, ?_⟩
      rw [hsame hlock]
      exact hreached.later hle
  | raised => trivial
  | committed =>
    rw [Stands, htables.resolve_right fun hnot => hnot.2.1 rfl]
    exact LeavesNothing.later h hle
  | createSuite | createKey | insert | commit | done => cases h

theorem Requesting.frame {userId : ℕ} (h : Requesting userId s j pc)
    (hshared : j ∈ (s.locks userId).shared → j ∈ (s'.locks userId).shared) :
    Requesting userId s' j pc := by
  cases pc with
  | commit row => exact ⟨h.1, hshared h.2⟩
  | offboard | pass | raised | committed => cases h
  | createSuite | createKey | insert | done => exact h

end Later

/-! ## One statement -/

section Steps
variable [DecidableEq ι] {args : Args Address} {owned : List ℕ} {user : User Address}
  {changes : Changes Change} {s s' : Store ι Address} {i off : ι} {pc pc' : Pc Address}
  {settings : Settings Address}

/-- What session `i` may do to the locks. -/
def LocksMove (i : ι) (s s' : Store ι Address) : Prop := ∀ id, (s.locks id).Moves i (s'.locks id)

theorem release_moves (s : Store ι Address) (i : ι) : LocksMove i s (s.release i) :=
  fun _ => .release

theorem referenceUser_moves {id : ℕ} (hfree : (s.locks id).FreeShared i) :
    LocksMove i s (s.referenceUser i id) := by
  intro k
  by_cases hk : k = id
  · subst hk
    simpa [Store.referenceUser] using Advisory.Moves.shared hfree
  · simpa [Store.referenceUser, hk] using Advisory.Moves.same

theorem lockUser_inv {id : ℕ} {next : Pc Address} (h : s.lockUser i id next = some (s', pc')) :
    pc' = next ∧ LocksMove i s s' ∧ s'.tables = s.tables ∧ s'.now = s.now ∧
      s'.nextId = s.nextId ∧ (s'.locks id).exclusive = some i ∧
      ∀ k, (s.locks k).exclusive = some i → (s'.locks k).exclusive = some i := by
  unfold Store.lockUser at h
  split at h
  · next hfree =>
    cases h
    refine ⟨rfl, fun k => ?_, rfl, rfl, rfl, ?_, fun k hk => ?_⟩
    · by_cases hk : k = id
      · subst hk
        simpa using Advisory.Moves.exclusive hfree
      · simpa [hk] using Advisory.Moves.same
    · simp [Advisory.takeExclusive]
    · by_cases hkid : k = id
      · subst hkid
        simp [Advisory.takeExclusive]
      · simpa [hkid] using hk
  · cases h

/-- What a statement of the pass leaves alone unless it is the last commit. -/
structure Quiet (i : ι) (s s' : Store ι Address) (pc' : Pc Address) : Prop where
  locks : LocksMove i s s'
  now : s'.now = s.now
  nextId : s'.nextId = s.nextId
  tables : s'.tables = s.tables ∨ pc' = .committed

theorem quiet_stay (s : Store ι Address) (i : ι) (pc' : Pc Address) : Quiet i s s pc' :=
  ⟨fun _ => .same, rfl, rfl, .inl rfl⟩

theorem quiet_release (s : Store ι Address) (i : ι) (pc' : Pc Address) :
    Quiet i s (s.release i) pc' :=
  ⟨release_moves s i, rfl, rfl, .inl rfl⟩

theorem quiet_lockUser {id : ℕ} {next : Pc Address}
    (h : s.lockUser i id next = some (s', pc')) : Quiet i s s' pc' := by
  obtain ⟨-, hlocks, htables, hnow, hnext, -⟩ := lockUser_inv h
  exact ⟨hlocks, hnow, hnext, .inl htables⟩

variable [DecidableEq Address]

/-- The checks after the guard start the lock on the party, which the departing user is of. -/
theorem afterGuard_inv (h : s.afterGuard i args user changes = some (s', pc')) :
    (s' = s.release i ∧ pc' = .raised) ∨ s' = s ∧ args.newOwnerId ≠ some args.userId ∧
      ∃ todo, pc' = .pass args user changes (.lockParty todo) ∧
        ((s.tables.userById args.userId).isSome = true → args.userId ∈ todo) := by
  unfold Store.afterGuard at h
  split at h
  · cases h
    exact .inl ⟨rfl, rfl⟩
  · next hcheck =>
    cases h
    simp only [ne_eq, Bool.or_eq_true, decide_eq_true_eq, not_or, not_not] at hcheck
    refine .inr ⟨rfl, hcheck.2, _, rfl, fun hsome => ?_⟩
    obtain ⟨u, hu⟩ := Option.isSome_iff_exists.mp hsome
    have hid : u.id = args.userId := by simpa using List.find?_some hu
    rw [inIdOrder, List.mem_insertionSort]
    refine List.mem_filter.mpr ⟨hid ▸ List.mem_map_of_mem (List.mem_of_find?_eq_some hu), ?_⟩
    simp

theorem quiet_afterGuard (h : s.afterGuard i args user changes = some (s', pc')) :
    Quiet i s s' pc' := by
  rcases afterGuard_inv h with ⟨rfl, -⟩ | ⟨rfl, -⟩
  · exact quiet_release s i pc'
  · exact quiet_stay s' i pc'

theorem quiet_pass {place : Place}
    (h : passAct settings i s args user changes place = some (s', pc')) : Quiet i s s' pc' := by
  cases place <;> simp only [passAct] at h
  case lockAdmins todo =>
    cases todo with
    | nil =>
      dsimp only at h
      split at h
      · exact quiet_afterGuard h
      · cases h
        exact quiet_release s i _
    | cons id todo => exact quiet_lockUser h
  case lockParty todo =>
    cases todo with
    | nil =>
      dsimp only at h
      split at h <;> cases h
      · exact quiet_release s i _
      · exact quiet_stay _ i _
    | cons id todo => exact quiet_lockUser h
  case transfer todo =>
    cases todo with
    | nil =>
      cases h
      exact quiet_stay _ i _
    | cons suiteId todo =>
      dsimp only at h
      split at h <;> cases h
      · exact quiet_release s i _
      · exact quiet_stay _ i _
  case ownedSuites | removeMember =>
    split at h <;> cases h
    · exact quiet_release s i _
    · exact quiet_stay _ i _
  case membership =>
    split at h <;> cases h <;> exact quiet_stay _ i _
  case outerCommit =>
    cases h
    exact ⟨release_moves s i, rfl, rfl, .inr rfl⟩
  all_goals
    cases h
    exact quiet_stay _ i _

/-- The session runs the pass. -/
def Pc.ofPass : Pc Address → Bool
  | .offboard _ | .pass _ _ _ _ | .raised | .committed => true
  | _ => false

theorem quiet_of_act {a : Act} (hpc : pc.ofPass = true) (ha : a ≠ .tick)
    (h : act settings i a s pc = some (s', pc')) : Quiet i s s' pc' := by
  cases a with
  | tick => exact absurd rfl ha
  | fail =>
    cases pc with
    | offboard | pass =>
      cases h
      exact quiet_release s i _
    | raised | committed => cases h
    | _ => cases hpc
  | proceed =>
    cases pc with
    | offboard a =>
      simp only [act, proceed] at h
      split at h
      · cases h
        exact quiet_release s i _
      · split at h
        · cases h
          exact quiet_stay _ i _
        · exact quiet_afterGuard h
    | pass a user changes place => exact quiet_pass h
    | raised | committed => cases h
    | _ => cases hpc

/-- What the pass has made sure of after its own statement. -/
theorem stands_place {place : Place} (h : PlaceOk args owned s off user changes place)
    (hact : passAct settings off s args user changes place = some (s', pc')) :
    Stands args owned s' off pc' := by
  cases place with
  | lockAdmins todo =>
    obtain ⟨hnone, hpresent, huser⟩ := h
    cases todo with
    | nil =>
      simp only [passAct] at hact
      split at hact
      · rcases afterGuard_inv hact with ⟨-, rfl⟩ | ⟨rfl, hother, todo, rfl, hin⟩
        · trivial
        · exact ⟨rfl, hnone, hpresent, hother, .inl (hin huser)⟩
      · cases hact
        trivial
    | cons id todo =>
      obtain ⟨rfl, -, htables, -⟩ := lockUser_inv hact
      exact ⟨rfl, hnone, htables ▸ hpresent, htables ▸ huser⟩
  | lockParty todo =>
    obtain ⟨hnone, hpresent, hother, hheld⟩ := h
    cases todo with
    | nil =>
      have hlock := hheld.resolve_left List.not_mem_nil
      subst hnone
      simp only [passAct, view_none] at hact
      split at hact <;> cases hact
      · trivial
      · next refreshed hrefreshed =>
        exact ⟨rfl, hlock, hother, by simp, hrefreshed, hpresent⟩
    | cons id todo =>
      obtain ⟨rfl, -, htables, -, -, hid, hkeeps⟩ := lockUser_inv hact
      refine ⟨rfl, hnone, htables ▸ hpresent, hother, ?_⟩
      rcases hheld with hin | hlock
      · rcases List.mem_cons.mp hin with heq | hin
        · exact .inr (by rw [Held, heq]; exact hid)
        · exact .inl hin
      · exact .inr (hkeeps _ hlock)
  | ownedSuites =>
    obtain ⟨hlock, hother, -, huser, hpresent⟩ := h
    simp only [passAct] at hact
    split at hact <;> cases hact
    · trivial
    · exact ⟨rfl, hlock, hother, by simp, .start huser hpresent⟩
  | transfer todo =>
    obtain ⟨hlock, hother, -, hhanded⟩ := h
    cases todo with
    | nil =>
      cases hact
      exact ⟨rfl, hlock, hother, by simp, hhanded⟩
    | cons suiteId todo =>
      simp only [passAct] at hact
      split at hact
      · cases hact
        trivial
      · next transferred htransferred =>
        cases hact
        obtain ⟨heir, hheir, htransfer⟩ := Option.bind_eq_some_iff.mp htransferred
        refine ⟨rfl, hlock, hother, by simp, ?_⟩
        rw [view_release, view_write]
        exact Handed.transfer hhanded hheir hother htransfer
  | revokeKeys =>
    obtain ⟨hlock, hother, -, hhanded⟩ := h
    cases hact
    refine ⟨rfl, hlock, hother, by simp, ?_⟩
    rw [view_write]
    obtain ⟨hsuites, husers⟩ := revokeAllKeys_keeps (changes.view Tables.change s.tables)
      (liveIds (changes.view Tables.change s.tables).apiKeys args.userId s.now) s.now
    refine ⟨Handed.congr hhanded hsuites husers, ?_⟩
    rw [revokeAllKeys, revokeAllKeys_apiKeys]
    exact noneLive_foldl_revoke _ _ _
  | revokeSessions =>
    obtain ⟨hlock, hother, -, hhanded, hkeys⟩ := h
    cases hact
    refine ⟨rfl, hlock, hother, by simp, ?_⟩
    rw [view_write]
    obtain ⟨hsuites, husers, hsame⟩ := revokeAllSessions_keeps (changes.view Tables.change s.tables)
      (liveIds (changes.view Tables.change s.tables).sessions args.userId s.now) s.now
    refine ⟨Handed.congr hhanded hsuites husers, hsame ▸ hkeys, ?_⟩
    rw [revokeAllSessions, revokeAllSessions_sessions]
    exact noneLive_foldl_revoke _ _ _
  | demote =>
    obtain ⟨hlock, hother, -, hhanded, hkeys, hsessions⟩ := h
    cases hact
    refine ⟨rfl, hlock, hother, by simp, ?_⟩
    rw [view_write]
    exact hhanded.leavesNothing hkeys hsessions
  | membership =>
    obtain ⟨hlock, hother, -, hleft⟩ := h
    simp only [passAct] at hact
    split at hact <;> cases hact <;>
      exact ⟨rfl, hlock, hother, by simp, hleft⟩
  | removeMember memberId =>
    obtain ⟨hlock, hother, -, hleft⟩ := h
    simp only [passAct] at hact
    split at hact
    · cases hact
      trivial
    · next removed hremoved =>
      cases hact
      refine ⟨rfl, hlock, hother, by simp, ?_⟩
      rw [view_release, view_write, removeMember_keeps hremoved]
      exact LeavesNothing.congr hleft rfl rfl rfl rfl
  | finish =>
    obtain ⟨hlock, hother, -, hleft⟩ := h
    cases hact
    refine ⟨rfl, hlock, hother, fun _ => rfl, ?_⟩
    rw [view_release]
    exact hleft
  | outerCommit =>
    obtain ⟨-, -, hpending, hleft⟩ := h
    cases hact
    rw [Stands, publish_eq_view (hpending rfl)]
    exact hleft

theorem stands_next {a : Act} (h : Stands args owned s off pc)
    (hact : act settings off a s pc = some (s', pc')) : Stands args owned s' off pc' := by
  cases a with
  | tick =>
    cases hact
    exact h.frame id (Nat.le_succ _) (.inl rfl)
  | fail =>
    cases pc with
    | offboard | pass =>
      cases hact
      trivial
    | raised | committed => cases hact
    | _ => cases h
  | proceed =>
    cases pc with
    | offboard a =>
      obtain ⟨rfl, hpresent⟩ := h
      simp only [act, proceed] at hact
      split at hact
      · cases hact
        trivial
      · next user huser =>
        have hsome : (s.tables.userById a.userId).isSome = true := by rw [huser]; rfl
        split at hact
        · cases hact
          exact ⟨rfl, rfl, hpresent, hsome⟩
        · rcases afterGuard_inv hact with ⟨-, rfl⟩ | ⟨rfl, hother, todo, rfl, hin⟩
          · trivial
          · exact ⟨rfl, rfl, hpresent, hother, .inl (hin hsome)⟩
    | pass a user changes place =>
      obtain ⟨rfl, hok⟩ := h
      exact stands_place hok hact
    | raised | committed => cases hact
    | _ => cases h

/-- A request's statement: only its commit changes the tables. -/
theorem request_next {a : Act} {userId : ℕ} (h : Requesting userId s i pc)
    (hact : act settings i a s pc = some (s', pc')) :
    Requesting userId s' i pc' ∧ LocksMove i s s' ∧ s.now ≤ s'.now ∧
      (s'.tables = s.tables ∨ a = .proceed ∧ ∃ row, pc = .commit row ∧
        s'.tables = (s.insertRow row).tables) := by
  cases a with
  | tick =>
    cases hact
    exact ⟨h.frame id, fun _ => .same, Nat.le_succ _, .inl rfl⟩
  | fail =>
    cases pc with
    | createSuite | createKey | insert | commit =>
      cases hact
      exact ⟨trivial, release_moves s i, le_rfl, .inl rfl⟩
    | done => cases hact
    | _ => cases h
  | proceed =>
    cases pc <;> simp only [act, proceed] at hact
    case createSuite u =>
      cases hact
      exact ⟨h, fun _ => .same, le_rfl, .inl rfl⟩
    case createKey u days =>
      split at hact <;> cases hact
      · exact ⟨h, fun _ => .same, le_rfl, .inl rfl⟩
      · exact ⟨trivial, release_moves s i, le_rfl, .inl rfl⟩
    case insert row =>
      split at hact
      · next hfree =>
        split at hact <;> cases hact
        · exact ⟨trivial, release_moves s i, le_rfl, .inl rfl⟩
        · have huser : row.userId = userId := h
          subst huser
          refine ⟨⟨rfl, ?_⟩, referenceUser_moves hfree, le_rfl, .inl rfl⟩
          simp [Store.referenceUser, Advisory.takeShared]
      · cases hact
    case commit row =>
      cases hact
      exact ⟨trivial, fun id => by cases row <;> exact .release, by cases row <;> exact le_rfl,
        .inr ⟨rfl, row, rfl, rfl⟩⟩
    all_goals first | cases hact | cases h

end Steps

end DataQ.Offboarding
