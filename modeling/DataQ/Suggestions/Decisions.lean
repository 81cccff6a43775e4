import DataQ.Foundations.Transition
import Mathlib.Data.List.Basic

/-! # Decisions on a suggestion

`services/suggestion_service.py`, `services/suggestion_claims.py` and `create_check`: the requests
that accept or reject one suggestion of a suite's queue, and those that create a check directly,
which may be the very rule that is suggested. What a transaction has written is its session's own
until it commits; the suggestion's row is locked by the session that has selected it for update. -/

namespace DataQ.Suggestions
set_option autoImplicit false

inductive Status
  | pending | accepted | rejected
  deriving DecidableEq

/-- The columns of a `check_suggestions` row that a decision writes. -/
structure Suggestion where
  status : Status
  checkId : Option ℕ
  decidedBy : Option ℕ
  deriving DecidableEq

/-- How a check came about: from the suggestion, by a person who wrote the very rule while it was
pending, or otherwise. -/
inductive Origin
  | suggestion | claimed | user
  deriving DecidableEq

/-- What is committed of one suggestion: its row, whether a session has it locked, the checks that
were ever created in its suite and those that were deleted again. -/
structure Store where
  suggestion : Option Suggestion
  locked : Bool
  created : List (ℕ × Origin)
  deleted : List ℕ
  deriving DecidableEq

inductive Decision
  | accept | reject
  deriving DecidableEq

/-- Where a session stands, with what its transaction has read and not yet committed. -/
inductive Local
  | idle
  | selected (decision : Decision) (user : ℕ) (row : Suggestion)
  | claimed (user : ℕ)
  | flushed (user id : ℕ)
  | created (user id : ℕ)
  | recording (user id : ℕ)
  | rejecting (user : ℕ)
  | authored (user id : ℕ) (claims : Bool)
  deriving DecidableEq

/-- The suggestion's row is locked by the session. -/
def Local.holds : Local → Bool
  | .selected .. | .claimed .. | .flushed .. | .rejecting .. | .authored _ _ true => true
  | .idle | .created .. | .recording .. | .authored _ _ false => false

inductive Act
  /-- `_pending`, up to the row -/
  | select (decision : Decision) (user : ℕ)
  /-- the permission, the status, and for an acceptance the values that are withheld -/
  | check (permitted withheld : Bool)
  /-- `create_check` up to its commit; `none` where a check of it fails -/
  | create (id : Option ℕ)
  /-- a commit, whether it took effect and whether it raised -/
  | commit (landed raised : Bool)
  /-- what follows the commit in `create_check`, and the suggestion read again -/
  | refresh (read : Bool)
  /-- `create_check` for a person, up to its commit; whether the suggestion is of the same rule -/
  | author (user id : ℕ) (same : Bool)
  | deleteCheck (id : ℕ)
  | deleteSuite
  /-- the session is gone, and its transaction with it -/
  | abandon
  deriving DecidableEq

def Store.release (s : Store) : Store := { s with locked := false }

/-- The columns that a decision writes. -/
def Store.decide (s : Store) (status : Status) (checkId : Option ℕ) (user : ℕ) : Store :=
  { s with suggestion := s.suggestion.map fun _ => ⟨status, checkId, some user⟩ }

/-- The columns that the claim of an acceptance writes, before the check has an id. -/
def Store.claim (s : Store) (user : ℕ) : Store :=
  { s with suggestion := s.suggestion.map fun row =>
      { row with status := .accepted, decidedBy := some user } }

def Store.addCheck (s : Store) (id : ℕ) (origin : Origin) : Store :=
  { s with created := (id, origin) :: s.created }

def Store.pending (s : Store) : Bool := s.suggestion.any fun row => row.status = .pending

/-- A session after a commit: without effect it has raised. -/
def committed (s : Store) (landed raised : Bool) (after : Store) (next : Local) :
    Option (Store × Local) :=
  if landed then some (after, if raised then .idle else next)
  else if raised then some (s, .idle)
  else none

def act : Act → Store → Local → Option (Store × Local)
  | .select decision user, s, .idle =>
    match s.suggestion with
    | none => some (s, .idle)
    | some row => if s.locked then none else some ({ s with locked := true }, .selected decision user row)
  | .check permitted withheld, s, .selected decision user row =>
    if !permitted || row.status ≠ .pending then some (s.release, .idle)
    else
      match decision with
      | .accept => if withheld then some (s.release, .idle) else some (s, .claimed user)
      | .reject => some (s, .rejecting user)
  | .create none, s, .claimed _ => some (s.release, .idle)
  | .create (some id), s, .claimed user => some (s, .flushed user id)
  | .commit landed raised, s, .flushed user id =>
    committed s.release landed raised ((s.release.claim user).addCheck id .suggestion)
      (.created user id)
  | .refresh read, s, .created user id =>
    if read && s.suggestion.isSome then some (s, .recording user id) else some (s, .idle)
  | .commit landed raised, s, .recording user id =>
    if s.locked || (landed && s.deleted.contains id) then none
    else committed s landed raised (s.decide .accepted (some id) user) .idle
  | .commit landed raised, s, .rejecting user =>
    committed s.release landed raised (s.release.decide .rejected none user) .idle
  | .author user id same, s, .idle =>
    if same && s.pending then
      -- the row is waited for where another session has it
      if s.locked then none else some ({ s with locked := true }, .authored user id true)
    else some (s, .authored user id false)
  | .commit landed raised, s, .authored user id true =>
    committed s.release landed raised
      ((s.release.decide .accepted (some id) user).addCheck id .claimed) .idle
  | .commit landed raised, s, .authored _ id false =>
    committed s landed raised (s.addCheck id .user) .idle
  | .deleteCheck id, s, .idle =>
    -- the suggestion's row is written where it points at the check
    if s.suggestion.any fun row => row.checkId = some id then
      if s.locked then none
      else some ({ s with
        suggestion := s.suggestion.map fun row => { row with checkId := none }
        deleted := id :: s.deleted }, .idle)
    else some ({ s with deleted := id :: s.deleted }, .idle)
  | .deleteSuite, s, .idle => if s.locked then none else some ({ s with suggestion := none }, .idle)
  | .abandon, s, l => some (if l.holds then s.release else s, .idle)
  | _, _, _ => none

def initial : Store := ⟨some ⟨.pending, none, none⟩, false, [], []⟩

end DataQ.Suggestions

/-! # A suggestion yields at most one check

Whatever requests come at once and wherever they fail, a suggestion is decided once, and it is stored
as accepted where the one check that it stands for was created with it. -/

namespace DataQ.Suggestions
open DataQ.Interleaving DataQ.Transition
set_option autoImplicit false

def Store.status (s : Store) : Option Status := s.suggestion.map (·.status)

/-- The checks that stand for the suggestion. -/
def Store.own (s : Store) : List (ℕ × Origin) := s.created.filter fun c => c.2 ≠ .user

/-- What an act does to the decision. -/
inductive Effect (s s' : Store) : Prop
  | kept (status : s'.status = s.status) (own : s'.own = s.own)
  | accepts (status : s.status = some .pending) (status' : s'.status = some .accepted)
      (own : ∃ check, s'.own = check :: s.own)
  | rejects (status : s.status = some .pending) (status' : s'.status = some .rejected)
      (own : s'.own = s.own)
  | removed (status : s'.status = none) (own : s'.own = s.own)

/-- What a session goes on is still so. -/
def Current (s : Store) : Local → Prop
  | .selected _ _ row => s.suggestion = some row
  | .claimed _ | .flushed _ _ | .rejecting _ | .authored _ _ true => s.status = some .pending
  | .created _ _ | .recording _ _ => ∀ status, s.status = some status → status = .accepted
  | .idle | .authored _ _ false => True

theorem committed_eq_some {s s' after : Store} {landed raised : Bool} {next l' : Local} :
    committed s landed raised after next = some (s', l') ↔
      landed = true ∧ after = s' ∧ (if raised then .idle else next) = l' ∨
        landed = false ∧ raised = true ∧ s = s' ∧ .idle = l' := by
  unfold committed
  cases landed <;> cases raised <;> simp

theorem status_claim {s : Store} {user : ℕ} (h : s.status = some .pending) :
    (s.claim user).status = some .accepted := by
  obtain ⟨row, hrow, -⟩ := Option.map_eq_some_iff.mp h
  simp [Store.status, Store.claim, hrow]

theorem status_decide {s : Store} {status : Status} {checkId : Option ℕ} {user : ℕ}
    (h : s.status ≠ none) : (s.decide status checkId user).status = some status := by
  obtain ⟨row, hrow⟩ := Option.ne_none_iff_exists'.mp fun hnone : s.suggestion = none => h (by
    rw [Store.status, hnone]
    rfl)
  simp [Store.status, Store.decide, hrow]

theorem own_addCheck {s : Store} {id : ℕ} {origin : Origin} (h : origin ≠ .user) :
    (s.addCheck id origin).own = (id, origin) :: s.own := by
  simp [Store.own, Store.addCheck, h]

/-- What an act of a session leaves, to itself and to the others. -/
structure Moves (s : Store) (l : Local) (s' : Store) (l' : Local) : Prop where
  effect : Effect s s'
  current : Current s' l'
  locks : l'.holds = true → s'.locked = true ∧ (l.holds = true ∨ s.locked = false)
  others : s.locked = true → l.holds = false → s'.locked = true ∧ s'.suggestion = s.suggestion

theorem effect_of_eq {s s' : Store} (hrow : s'.suggestion = s.suggestion)
    (hown : s'.own = s.own) : Effect s s' := by
  refine .kept ?_ hown
  rw [Store.status, hrow, Store.status]

/-- The session has decided nothing and lets the lock go, if it has it. -/
theorem moves_release {s : Store} {l : Local} (hheld : l.holds = true) :
    Moves s l s.release .idle where
  effect := effect_of_eq rfl rfl
  current := trivial
  locks h := by cases h
  others _ hfree := by rw [hheld] at hfree; cases hfree

theorem moves_same {s : Store} {l l' : Local} (hcurrent : Current s l')
    (hheld : l'.holds = true → l.holds = true ∧ s.locked = true) : Moves s l s l' where
  effect := effect_of_eq rfl rfl
  current := hcurrent
  locks h := ⟨(hheld h).2, .inl (hheld h).1⟩
  others hlocked _ := ⟨hlocked, rfl⟩

/-- A commit decides or is undone, and lets the lock go that the session has. -/
theorem moves_committed {s s' after : Store} {l l' next : Local} {landed raised : Bool}
    (hheld : l.holds = true) (hnext : next.holds = false)
    (heffect : Effect s after) (hcurrent : Current after next)
    (h : committed s.release landed raised after next = some (s', l')) : Moves s l s' l' := by
  obtain ⟨-, rfl, rfl⟩ | ⟨-, -, rfl, rfl⟩ := committed_eq_some.mp h
  · have hother : ∀ {P : Prop}, s.locked = true → l.holds = false → P := by
      intro _ _ hfree
      rw [hheld] at hfree
      cases hfree
    cases raised with
    | true => exact ⟨heffect, trivial, nofun, hother⟩
    | false =>
      refine ⟨heffect, hcurrent, fun hnow => ?_, hother⟩
      rw [if_neg Bool.false_ne_true, hnext] at hnow
      cases hnow
  · exact moves_release hheld

theorem act_moves {a : Act} {s s' : Store} {l l' : Local} (hlocked : l.holds = true → s.locked = true)
    (hcurrent : Current s l) (h : act a s l = some (s', l')) : Moves s l s' l' := by
  unfold act at h
  split at h
  · -- select
    split at h
    · cases h
      exact moves_same trivial nofun
    · next row hrow =>
      split at h
      · cases h
      · next hfree =>
        cases h
        exact ⟨effect_of_eq rfl rfl, hrow, fun _ => ⟨rfl, .inr (by simpa using hfree)⟩,
          fun hlocked => absurd hlocked hfree⟩
  · -- check
    next user row =>
    split at h
    · cases h
      exact moves_release rfl
    · next hpending =>
      have hstatus : s.status = some .pending := by
        rw [Store.status, show s.suggestion = some row from hcurrent]
        rw [Option.map_some, Option.some.injEq]
        by_contra hother
        exact hpending (by simp [hother])
      split at h
      · split at h
        · cases h
          exact moves_release rfl
        · cases h
          exact moves_same hstatus fun _ => ⟨rfl, hlocked rfl⟩
      · cases h
        exact moves_same hstatus fun _ => ⟨rfl, hlocked rfl⟩
  · -- create, refused
    cases h
    exact moves_release rfl
  · -- create
    cases h
    exact moves_same hcurrent fun _ => ⟨rfl, hlocked rfl⟩
  · -- commit of an acceptance
    next user id =>
    have hpending : s.release.status = some .pending := hcurrent
    have hstatus : ((s.release.claim user).addCheck id .suggestion).status = some .accepted :=
      status_claim hpending
    have heffect : Effect s ((s.release.claim user).addCheck id .suggestion) :=
      .accepts hcurrent hstatus ⟨_, own_addCheck nofun⟩
    refine moves_committed rfl rfl heffect ?_ h
    intro status hthen
    exact Option.some.inj (hthen.symm.trans hstatus)
  · -- refresh
    split at h
    · cases h
      exact moves_same hcurrent nofun
    · cases h
      exact moves_same trivial nofun
  · -- commit of the check's id
    next user id =>
    split at h
    · cases h
    · next hfree =>
      have hunlocked : s.locked = false := by
        by_contra hnot
        exact hfree (by simp [hnot])
      obtain ⟨-, rfl, rfl⟩ | ⟨-, -, rfl, rfl⟩ := committed_eq_some.mp h
      · have heffect : Effect s (s.decide .accepted (some id) user) := by
          refine .kept ?_ rfl
          cases hstatus : s.status with
          | none =>
            rw [Store.status, Option.map_eq_none_iff] at hstatus
            rw [Store.status, Store.decide, hstatus]
            rfl
          | some status =>
            obtain rfl := hcurrent status hstatus
            exact status_decide (by rw [hstatus]; nofun)
        refine ⟨heffect, by split <;> trivial, ?_, fun hlocked => ?_⟩
        · split <;> nofun
        · rw [hunlocked] at hlocked
          cases hlocked
      · exact moves_same trivial nofun
  · -- commit of a rejection
    have hpending : s.release.status ≠ none := by
      rw [show s.release.status = some .pending from hcurrent]
      nofun
    have heffect : ∀ user, Effect s (s.release.decide .rejected none user) := fun _ =>
      .rejects hcurrent (status_decide hpending) rfl
    exact @moves_committed s s' _ _ l' .idle _ _ rfl rfl (heffect _) trivial h
  · -- author
    split at h
    · next hclaims =>
      split at h
      · cases h
      · next hfree =>
        have hstatus : s.status = some .pending := by
          rw [Bool.and_eq_true, Store.pending, Option.any_eq_true] at hclaims
          obtain ⟨row, hrow, hpending⟩ := hclaims.2
          rw [Store.status, hrow, Option.map_some, of_decide_eq_true hpending]
        cases h
        exact ⟨effect_of_eq rfl rfl, hstatus, fun _ => ⟨rfl, .inr (by simpa using hfree)⟩,
          fun hlocked => absurd hlocked hfree⟩
    · cases h
      exact moves_same trivial nofun
  · -- commit of a check that claims
    next user id =>
    have hpending : s.release.status ≠ none := by
      rw [show s.release.status = some .pending from hcurrent]
      nofun
    have heffect :
        Effect s ((s.release.decide .accepted (some id) user).addCheck id .claimed) :=
      .accepts hcurrent (status_decide hpending) ⟨_, own_addCheck nofun⟩
    exact @moves_committed s s' _ _ l' .idle _ _ rfl rfl heffect trivial h
  · -- commit of another check
    obtain ⟨-, rfl, rfl⟩ | ⟨-, -, rfl, rfl⟩ := committed_eq_some.mp h
    · refine ⟨effect_of_eq rfl rfl, by split <;> trivial, ?_, fun hlocked _ => ⟨hlocked, rfl⟩⟩
      split <;> nofun
    · exact moves_same trivial nofun
  · -- a check deleted
    split at h
    · split at h
      · cases h
      · next hfree =>
        cases h
        refine ⟨.kept ?_ rfl, trivial, nofun, fun hlocked => absurd hlocked hfree⟩
        simp [Store.status, Option.map_map, Function.comp_def]
    · cases h
      exact ⟨effect_of_eq rfl rfl, trivial, nofun, fun hlocked _ => ⟨hlocked, rfl⟩⟩
  · -- the suite deleted
    split at h
    · cases h
    · next hfree =>
      cases h
      exact ⟨.removed rfl rfl, trivial, nofun, fun hlocked => absurd hlocked hfree⟩
  · -- the session gone
    split at h
    · next hheld =>
      cases h
      exact moves_release hheld
    · cases h
      exact moves_same trivial nofun
  · cases h

/-! ## Every run -/

/-- A suggestion stands as accepted where there is a check that stands for it, which is one. -/
def Settled (s : Store) : Prop :=
  s.own.length ≤ 1 ∧ ∀ status, s.status = some status → (status = .accepted ↔ s.own ≠ [])

theorem settled_of_effect {s s' : Store} (hsettled : Settled s) (h : Effect s s') : Settled s' := by
  obtain ⟨hone, hiff⟩ := hsettled
  have hnone (hpending : s.status = some .pending) : s.own = [] := by
    by_contra hown
    cases (hiff .pending hpending).mpr hown
  cases h with
  | kept hstatus hown => exact ⟨hown ▸ hone, fun status h => hown ▸ hiff status (hstatus ▸ h)⟩
  | accepts hpending haccepted hown =>
    obtain ⟨check, hown⟩ := hown
    rw [hnone hpending] at hown
    refine ⟨by rw [hown]; exact Nat.le_refl 1, fun status hstatus => ?_⟩
    obtain rfl := Option.some.inj (haccepted.symm.trans hstatus)
    simp [hown]
  | rejects hpending hrejected hown =>
    rw [hnone hpending] at hown
    refine ⟨by rw [hown]; exact Nat.zero_le 1, fun status hstatus => ?_⟩
    obtain rfl := Option.some.inj (hrejected.symm.trans hstatus)
    simp [hown]
  | removed hstatus hown =>
    refine ⟨hown ▸ hone, fun status h => ?_⟩
    rw [hstatus] at h
    cases h

theorem current_of_row {s s' : Store} {l : Local} (hrow : s'.suggestion = s.suggestion)
    (h : Current s l) : Current s' l := by
  have hstatus : s'.status = s.status := by rw [Store.status, hrow, Store.status]
  unfold Current at h ⊢
  split <;> simp_all

/-- What a session without the lock goes on stays so whatever is decided. -/
theorem current_of_effect {s s' : Store} {l : Local} (hfree : l.holds = false)
    (hcurrent : Current s l) (h : Effect s s') : Current s' l := by
  have hstays (hcurrent : ∀ status, s.status = some status → status = .accepted) :
      ∀ status, s'.status = some status → status = .accepted := by
    intro status hstatus
    cases h with
    | kept hsame _ => exact hcurrent status (hsame ▸ hstatus)
    | accepts _ haccepted _ => exact Option.some.inj (hstatus.symm.trans haccepted)
    | rejects hpending _ _ => cases hcurrent .pending hpending
    | removed hnone _ =>
      rw [hnone] at hstatus
      cases hstatus
  cases l with
  | idle => trivial
  | created user id => exact hstays hcurrent
  | recording user id => exact hstays hcurrent
  | authored user id claims =>
    cases claims with
    | true => cases hfree
    | false => trivial
  | selected | claimed | flushed | rejecting => cases hfree

section Sessions
variable {ι : Type*} [DecidableEq ι]

/-- The lock has one holder at most, and what every session goes on is so. -/
structure Sound (c : Config ι Store Local) : Prop where
  settled : Settled c.store
  alone : ∀ i j, (c.session i).holds = true → (c.session j).holds = true → i = j
  locked : ∀ i, (c.session i).holds = true → c.store.locked = true
  current : ∀ i, Current c.store (c.session i)

def start : Config ι Store Local := ⟨initial, fun _ => .idle⟩

omit [DecidableEq ι] in
theorem sound_start : Sound (start : Config ι Store Local) where
  settled := by
    refine ⟨Nat.zero_le 1, fun status hstatus => ?_⟩
    obtain rfl := Option.some.inj hstatus
    constructor
    · intro h
      cases h
    · exact fun h => absurd rfl h
  alone _ _ h := by cases h
  locked _ h := by cases h
  current _ := trivial

theorem sound_step {c d : Config ι Store Local} {e : ι × Act} (hsound : Sound c)
    (h : step act c e = some d) : Sound d ∧ Effect c.store d.store := by
  obtain ⟨i, a⟩ := e
  obtain ⟨⟨s', l'⟩, hact, rfl⟩ := step_eq_some.mp h
  have hmoves := act_moves (hsound.locked i) (hsound.current i) hact
  have hexclusive : Exclusive (fun s (_ : Unit) => s.locked = true) (fun l _ => l.holds = true) c :=
    ⟨fun j k _ => hsound.alone j k, fun j _ => hsound.locked j⟩
  have hothers (j : ι) (hj : j ≠ i) (hheld : (c.session j).holds = true) :
      s'.locked = true ∧ s'.suggestion = c.store.suggestion := by
    obtain ⟨hlocked, hnot⟩ := @Exclusive.others _ _ _ _ _ _ _ hexclusive _ _ () hj hheld
    exact hmoves.others hlocked (by simpa using hnot)
  have hput : Exclusive (fun s (_ : Unit) => s.locked = true) (fun l _ => l.holds = true)
      (c.put i (s', l')) := by
    refine hexclusive.put (fun _ hnow => ?_) fun _ hlocked hnot => ?_
    · obtain ⟨hlocked, hbefore | hopen⟩ := hmoves.locks hnow
      · exact ⟨hlocked, .inl hbefore⟩
      · exact ⟨hlocked, .inr (by rw [hopen]; exact Bool.false_ne_true)⟩
    · exact (hmoves.others hlocked (by simpa using hnot)).1
  refine ⟨⟨settled_of_effect hsound.settled hmoves.effect, fun j k => hput.alone j k (),
    fun j => hput.locked j (), fun j => ?_⟩, hmoves.effect⟩
  by_cases hji : j = i
  · subst hji
    rw [Config.put_session_self]
    exact hmoves.current
  · rw [Config.put_session_ne _ _ hji]
    cases hj : (c.session j).holds with
    | true => exact current_of_row (hothers j hji hj).2 (hsound.current j)
    | false => exact current_of_effect hj (hsound.current j) hmoves.effect

/-- Every status came from itself or from the pending one. -/
theorem status_before {s s' : Store} (h : Effect s s') {status : Status}
    (hstatus : s'.status = some status) : s.status = some status ∨ s.status = some .pending := by
  cases h with
  | kept hsame _ => exact .inl (hsame ▸ hstatus)
  | accepts hpending _ _ => exact .inr hpending
  | rejects hpending _ _ => exact .inr hpending
  | removed hnone _ =>
    rw [hnone] at hstatus
    cases hstatus

/-- What is decided in the one is so in the other. -/
def Before (c d : Config ι Store Local) : Prop :=
  ∀ status, d.store.status = some status →
    c.store.status = some status ∨ c.store.status = some .pending

theorem sound_run {c d : Config ι Store Local} {es : List (ι × Act)} (hsound : Sound c)
    (hrun : run (step act) c es = some d) : Sound d ∧ Before c d := by
  have hkept : Sound d := run_keeps (fun _ _ _ hs h => (sound_step hs h).1) hsound hrun
  refine ⟨hkept, ?_⟩
  refine run_relates (I := Sound) (R := Before) (G := fun _ _ => True)
    (fun _ _ => Or.inl) ?_ ?_ hsound (meets_of_forall (fun _ _ => trivial) c es) hrun
  · intro c d e hcd hde status hstatus
    obtain hsame | hpending := hde status hstatus
    · exact hcd status hsame
    · obtain hsame | hpending := hcd .pending hpending
      · exact .inr hsame
      · exact .inr hpending
  · intro c e d hc _ hstep
    obtain ⟨hd, heffect⟩ := sound_step hc hstep
    exact ⟨hd, fun status hstatus => status_before heffect hstatus⟩

/-- However the requests for a suggestion interleave and fail, one check at most stands for it, it is
accepted where that check was created, and what is decided stays so. -/
theorem suggestion_yields_one_check (es : List (ι × Act)) (c : Config ι Store Local)
    (hrun : run (step act) start es = some c) :
    (c.store.created.filter fun check => check.2 ≠ .user).length ≤ 1 ∧
    (∀ row, c.store.suggestion = some row →
      (row.status = .accepted ↔ ∃ check ∈ c.store.created, check.2 ≠ .user)) ∧
    ∀ fs d, run (step act) c fs = some d → ∀ row row', c.store.suggestion = some row →
      d.store.suggestion = some row' → row'.status = row.status ∨ row.status = .pending := by
  obtain ⟨hsound, -⟩ := sound_run sound_start hrun
  refine ⟨hsound.settled.1, fun row hrow => ?_, fun fs d hfs row row' hrow hrow' => ?_⟩
  · have hstatus : c.store.status = some row.status := by rw [Store.status, hrow, Option.map_some]
    rw [hsound.settled.2 row.status hstatus, Store.own, Ne, List.filter_eq_nil_iff]
    simp
  · have hstatus : d.store.status = some row'.status := by rw [Store.status, hrow', Option.map_some]
    have hbefore : c.store.status = some row.status := by rw [Store.status, hrow, Option.map_some]
    obtain hsame | hpending := (sound_run hsound hfs).2 row'.status hstatus
    · exact .inl (Option.some.inj (hsame.symm.trans hbefore))
    · exact .inr (Option.some.inj (hbefore.symm.trans hpending))

end Sessions

/-- Two acceptances at once, the second of which waits for the first and is refused. -/
def twoAcceptances : List (ℕ × Act) :=
  [(0, .select .accept 7), (0, .check true false), (0, .create (some 1)),
    (0, .commit true false), (1, .select .accept 8), (1, .check true false), (0, .refresh true),
    (0, .commit true false)]

theorem suggestion_yields_one_check_twoAcceptances :
    ∃ c, run (step act) start twoAcceptances = some c ∧
      (c.store.created.filter fun check => check.2 ≠ .user).length ≤ 1 :=
  ⟨_, rfl, (suggestion_yields_one_check twoAcceptances _ rfl).1⟩

end DataQ.Suggestions
