import DataQ.Foundations.Transition

/-! # The schedule of an automatic suite

The daily reconciler pauses the schedule of a table that is no longer covered and resumes it when
it is covered again; a flag in the suite's `auto_state` remembers that the pause was its own. A
person may switch the schedule on and off at any time, also between what a pass reads and what it
writes. -/

namespace DataQ.Coverage
open DataQ.Transition
set_option autoImplicit false

/-- `cron.py`: whether an expression and a timezone are accepted, and when they fire next. -/
structure Clockwork (Cron Zone : Type*) where
  valid : Cron → Zone → Bool
  nextFire : Cron → Zone → ℕ → ℕ
  utc : Zone
  cronFor : Cron

variable {Cron Zone : Type*}

structure Schedule (Cron Zone : Type*) where
  cron : Cron
  timezone : Zone
  enabled : Bool
  nextRunAt : ℕ
  deriving DecidableEq

/-- What a pass has decided to write. -/
inductive Write (Cron Zone : Type*)
  | create (schedule : Schedule Cron Zone)
  | resume (nextRunAt : ℕ)
  | pause
  deriving DecidableEq

inductive Actor
  | coverage | person
  deriving DecidableEq, Repr

/-- The rows, what a pass under way is about to write, and who last turned the schedule off. -/
structure SuiteSchedule (Cron Zone : Type*) where
  schedule : Option (Schedule Cron Zone)
  pausedByCoverage : Bool
  pending : Option (Write Cron Zone)
  turnedOffBy : Option Actor

/-- A suite without a schedule. -/
def SuiteSchedule.start : SuiteSchedule Cron Zone := ⟨none, false, none, none⟩

def SuiteSchedule.on (s : SuiteSchedule Cron Zone) : Bool := s.schedule.any Schedule.enabled

/-- The reads and decisions of `_set_schedule`; it raises on an invalid cadence. -/
def setSchedule (clock : Clockwork Cron Zone) (covered : Bool) (now : ℕ)
    (s : SuiteSchedule Cron Zone) : Option (Write Cron Zone) :=
  match s.schedule with
  | none =>
    if covered && clock.valid clock.cronFor clock.utc then
      some (.create
        { cron := clock.cronFor
          timezone := clock.utc
          enabled := true
          nextRunAt := clock.nextFire clock.cronFor clock.utc now })
    else none
  | some schedule =>
    if covered && !schedule.enabled && s.pausedByCoverage then
      if clock.valid schedule.cron schedule.timezone then
        some (.resume (clock.nextFire schedule.cron schedule.timezone now))
      else none
    else if !covered && schedule.enabled then some .pause
    else none

/-- The writes of `_set_schedule`, and its commit. -/
def SuiteSchedule.write (s : SuiteSchedule Cron Zone) : Write Cron Zone → SuiteSchedule Cron Zone
  | .create schedule => { s with schedule := some schedule }
  | .resume nextRunAt =>
    { s with
      schedule := s.schedule.map fun schedule => { schedule with enabled := true, nextRunAt }
      pausedByCoverage := false }
  | .pause =>
    { s with
      schedule := s.schedule.map fun schedule => { schedule with enabled := false }
      pausedByCoverage := true }

/-- What a person asks of `update_schedule`. -/
structure Edit (Cron Zone : Type*) where
  cron : Option Cron
  timezone : Option Zone
  enabled : Option Bool

section Edits
variable [DecidableEq Cron] [DecidableEq Zone]

/-- The cadence has to be valid where it changes or the schedule goes on. -/
def Edit.rebases (edit : Edit Cron Zone) (schedule : Schedule Cron Zone) : Bool :=
  edit.cron.any (· ≠ schedule.cron) || edit.timezone.any (· ≠ schedule.timezone) ||
    (edit.enabled = some true && !schedule.enabled)

def Edit.accepted (edit : Edit Cron Zone) (clock : Clockwork Cron Zone)
    (schedule : Schedule Cron Zone) : Bool :=
  !edit.rebases schedule ||
    clock.valid (edit.cron.getD schedule.cron) (edit.timezone.getD schedule.timezone)

/-- `update_schedule`, or the 422 that changes nothing. -/
def updateSchedule (clock : Clockwork Cron Zone) (edit : Edit Cron Zone) (now : ℕ)
    (schedule : Schedule Cron Zone) : Schedule Cron Zone :=
  let cron := edit.cron.getD schedule.cron
  let timezone := edit.timezone.getD schedule.timezone
  if edit.accepted clock schedule then
    { cron
      timezone
      enabled := edit.enabled.getD schedule.enabled
      nextRunAt :=
        if edit.rebases schedule then clock.nextFire cron timezone now else schedule.nextRunAt }
  else schedule

/-- `load` and `flush` are the two halves of a pass, `abort` is one that raises in between. -/
inductive Event (Cron Zone : Type*)
  | load (covered : Bool) (now : ℕ)
  | flush
  | abort
  | update (edit : Edit Cron Zone) (now : ℕ)

def Event.actor : Event Cron Zone → Actor
  | .update _ _ => .person
  | _ => .coverage

/-- Remembers who has just turned the schedule off. -/
def SuiteSchedule.observe (s t : SuiteSchedule Cron Zone) (actor : Actor) :
    SuiteSchedule Cron Zone :=
  { t with turnedOffBy := if s.on && !t.on then some actor else s.turnedOffBy }

def step (clock : Clockwork Cron Zone) (s : SuiteSchedule Cron Zone) (e : Event Cron Zone) :
    Option (SuiteSchedule Cron Zone) :=
  match e with
  | .load covered now =>
    if s.pending.isNone then some { s with pending := setSchedule clock covered now s } else none
  | .flush => s.pending.map fun write =>
      s.observe { s.write write with pending := none } .coverage
  | .abort => some { s with pending := none }
  | .update edit now =>
    some (s.observe { s with schedule := s.schedule.map (updateSchedule clock edit now) } .person)

end Edits

/-! ## What a pass may not do -/

section Conditions
variable [DecidableEq Cron] [DecidableEq Zone]

/-- Automatic coverage does not turn on what a person turned off. -/
def Respects (clock : Clockwork Cron Zone) (s : SuiteSchedule Cron Zone) (e : Event Cron Zone) :
    Prop :=
  e.actor = .coverage → s.turnedOffBy = some .person → s.on = false →
    ∀ t, step clock s e = some t → t.on = false

/-- A person who switches the schedule off finds no flag of an earlier pause, and no pass about to
set it. -/
def Clear (clock : Clockwork Cron Zone) (s : SuiteSchedule Cron Zone) : Event Cron Zone → Prop
  | .update edit _ => edit.enabled = some false → s.on = true →
      s.schedule.any (edit.accepted clock) = true →
      s.pausedByCoverage = false ∧ s.pending ≠ some .pause
  | _ => True

instance (clock : Clockwork Cron Zone) (s : SuiteSchedule Cron Zone) (e : Event Cron Zone) :
    Decidable (Respects clock s e) :=
  inferInstanceAs (Decidable (e.actor = .coverage → s.turnedOffBy = some .person → s.on = false →
    ∀ t ∈ step clock s e, t.on = false))

end Conditions

/-- What holds of the rows in every run. -/
structure Sound (clock : Clockwork Cron Zone) (s : SuiteSchedule Cron Zone) : Prop where
  valid : ∀ schedule ∈ s.schedule, clock.valid schedule.cron schedule.timezone = true
  creating : ∀ schedule, s.pending = some (.create schedule) →
    s.schedule = none ∧ clock.valid schedule.cron schedule.timezone = true
  fresh : s.schedule = none → s.turnedOffBy = none

/-- The flag stands for a pause that is the last word. -/
structure Remembered (s : SuiteSchedule Cron Zone) : Prop where
  flag : s.pausedByCoverage = true → s.on = false → s.turnedOffBy = some .coverage
  resuming : ∀ nextRunAt, s.pending = some (.resume nextRunAt) → s.pausedByCoverage = true
  pausing : s.pending = some .pause → s.on = true

theorem Sound.start (clock : Clockwork Cron Zone) :
    Sound clock (SuiteSchedule.start : SuiteSchedule Cron Zone) where
  valid := fun _ => nofun
  creating := fun _ => nofun
  fresh := fun _ => rfl

theorem Remembered.start : Remembered (SuiteSchedule.start : SuiteSchedule Cron Zone) where
  flag := nofun
  resuming := fun _ => nofun
  pausing := nofun

section Steps
variable {clock : Clockwork Cron Zone} {s t : SuiteSchedule Cron Zone} {covered : Bool} {now : ℕ}

/-- What a pass decides, and why. -/
theorem setSchedule_cases {write : Write Cron Zone}
    (h : setSchedule clock covered now s = some write) :
    (s.schedule = none ∧ clock.valid clock.cronFor clock.utc = true ∧
      write = .create ⟨clock.cronFor, clock.utc, true,
        clock.nextFire clock.cronFor clock.utc now⟩) ∨
    (s.pausedByCoverage = true ∧ ∃ nextRunAt, write = .resume nextRunAt) ∨
    (s.on = true ∧ write = .pause) := by
  unfold setSchedule at h
  split at h
  · next hnone =>
    split at h
    · next hvalid =>
      cases h
      exact .inl ⟨hnone, (Bool.and_eq_true_iff.mp hvalid).2, rfl⟩
    · cases h
  · next schedule hsome =>
    split at h
    · next hpaused =>
      split at h
      · cases h
        exact .inr (.inl ⟨(Bool.and_eq_true_iff.mp hpaused).2, _, rfl⟩)
      · cases h
    · split at h
      · next hon =>
        cases h
        refine .inr (.inr ⟨?_, rfl⟩)
        rw [SuiteSchedule.on, hsome]
        exact (Bool.and_eq_true_iff.mp hon).2
      · cases h

@[simp] theorem observe_on (actor : Actor) : (s.observe t actor).on = t.on := rfl

theorem observe_turnedOffBy (actor : Actor) (hon : s.on = true) (hoff : t.on = false) :
    (s.observe t actor).turnedOffBy = some actor := by
  simp [SuiteSchedule.observe, hon, hoff]

theorem observe_turnedOffBy_same (actor : Actor) (h : s.on = false ∨ t.on = true) :
    (s.observe t actor).turnedOffBy = s.turnedOffBy := by
  rcases h with h | h <;> simp [SuiteSchedule.observe, h]

variable [DecidableEq Cron] [DecidableEq Zone]

theorem updateSchedule_valid {edit : Edit Cron Zone} {schedule : Schedule Cron Zone}
    (h : clock.valid schedule.cron schedule.timezone = true) :
    clock.valid (updateSchedule clock edit now schedule).cron
      (updateSchedule clock edit now schedule).timezone = true := by
  unfold updateSchedule
  dsimp only
  split
  · next haccepted =>
    simp only [Edit.accepted, Bool.or_eq_true, Bool.not_eq_true'] at haccepted
    rcases haccepted with hsame | hvalid
    · simp only [Edit.rebases, Bool.or_eq_false_iff] at hsame
      obtain ⟨⟨hcron, hzone⟩, -⟩ := hsame
      have hcron' : edit.cron.getD schedule.cron = schedule.cron := by
        cases hc : edit.cron <;> simp_all
      have hzone' : edit.timezone.getD schedule.timezone = schedule.timezone := by
        cases hz : edit.timezone <;> simp_all
      rw [hcron', hzone']
      exact h
    · exact hvalid
  · exact h

/-- An edit turns a schedule off by asking for it, with a cadence that is accepted. -/
theorem updateSchedule_off {edit : Edit Cron Zone} {schedule : Schedule Cron Zone}
    (hon : schedule.enabled = true)
    (hoff : (updateSchedule clock edit now schedule).enabled = false) :
    edit.enabled = some false ∧ edit.accepted clock schedule = true := by
  unfold updateSchedule at hoff
  dsimp only at hoff
  split at hoff
  · next haccepted =>
    refine ⟨?_, haccepted⟩
    cases he : edit.enabled with
    | none => simp [he, hon] at hoff
    | some enabled => simpa [he] using hoff
  · simp [hon] at hoff

theorem Sound.step {e : Event Cron Zone} (h : Sound clock s) (hstep : step clock s e = some t) :
    Sound clock t := by
  cases e with
  | load covered now =>
    simp only [Coverage.step] at hstep
    split at hstep
    · cases hstep
      refine ⟨h.valid, fun schedule hcreate => ?_, h.fresh⟩
      rcases setSchedule_cases hcreate with ⟨hnone, hvalid, hwrite⟩ | ⟨-, _, hwrite⟩ | ⟨-, hwrite⟩
      · cases hwrite
        exact ⟨hnone, hvalid⟩
      · cases hwrite
      · cases hwrite
    · cases hstep
  | abort =>
    cases hstep
    exact ⟨h.valid, fun _ => nofun, h.fresh⟩
  | update edit now =>
    cases hstep
    refine ⟨fun schedule hmem => ?_, fun schedule hcreate => ?_, fun hnone => ?_⟩
    · obtain ⟨old, hold, rfl⟩ := Option.map_eq_some_iff.mp hmem
      exact updateSchedule_valid (h.valid old hold)
    · obtain ⟨hnone, hvalid⟩ := h.creating schedule hcreate
      exact ⟨by simp [SuiteSchedule.observe, hnone], hvalid⟩
    · have hbefore : s.schedule = none := Option.map_eq_none_iff.mp hnone
      rw [observe_turnedOffBy_same _ (.inl (by simp [SuiteSchedule.on, hbefore]))]
      exact h.fresh hbefore
  | flush =>
    obtain ⟨write, hwrite, rfl⟩ := Option.map_eq_some_iff.mp hstep
    have hnothing : ∀ schedule, (s.observe { s.write write with pending := none }
        Actor.coverage).pending ≠ some (.create schedule) := fun _ => nofun
    refine ⟨fun schedule hmem => ?_, fun schedule hcreate => absurd hcreate (hnothing schedule),
      fun hnone => ?_⟩
    · cases write with
      | create created =>
        have hsame : schedule = created := (Option.some.inj hmem).symm
        rw [hsame]
        exact (h.creating created hwrite).2
      | resume | pause =>
        obtain ⟨old, hold, rfl⟩ := Option.map_eq_some_iff.mp hmem
        exact h.valid old hold
    · cases write with
      | create => cases hnone
      | resume | pause =>
        have hbefore : s.schedule = none := Option.map_eq_none_iff.mp hnone
        rw [observe_turnedOffBy_same _ (.inl (by simp [SuiteSchedule.on, hbefore]))]
        exact h.fresh hbefore

theorem Remembered.step {e : Event Cron Zone} (h : Remembered s) (hsound : Sound clock s)
    (hclear : Clear clock s e) (hstep : step clock s e = some t) : Remembered t := by
  cases e with
  | load covered now =>
    simp only [Coverage.step] at hstep
    split at hstep
    · cases hstep
      refine ⟨h.flag, fun nextRunAt hresume => ?_, fun hpause => ?_⟩
      · rcases setSchedule_cases hresume with ⟨-, -, hwrite⟩ | ⟨hflag, -⟩ | ⟨-, hwrite⟩
        · cases hwrite
        · exact hflag
        · cases hwrite
      · rcases setSchedule_cases hpause with ⟨-, -, hwrite⟩ | ⟨-, _, hwrite⟩ | ⟨hon, -⟩
        · cases hwrite
        · cases hwrite
        · exact hon
    · cases hstep
  | abort =>
    cases hstep
    exact ⟨h.flag, fun _ => nofun, nofun⟩
  | update edit now =>
    cases hstep
    -- where the edit turns the schedule off, it is clear
    have hturnedOff : s.on = true →
        (s.schedule.map (updateSchedule clock edit now)).any Schedule.enabled = false →
        s.pausedByCoverage = false ∧ s.pending ≠ some .pause := by
      intro hon hoff
      obtain ⟨schedule, hschedule, henabled⟩ := (Option.any_eq_true _ _).mp hon
      rw [hschedule, Option.map_some, Option.any_some] at hoff
      obtain ⟨hasked, haccepted⟩ := updateSchedule_off henabled hoff
      exact hclear hasked hon (by rw [hschedule]; exact haccepted)
    refine ⟨fun hflag hoff => ?_, h.resuming, fun hpause => ?_⟩
    · cases hon : s.on with
      | true =>
        have hnot := (hturnedOff hon hoff).1
        rw [show s.pausedByCoverage = true from hflag] at hnot
        cases hnot
      | false =>
        rw [observe_turnedOffBy_same _ (.inl hon)]
        exact h.flag hflag hon
    · by_contra hoff
      exact (hturnedOff (h.pausing hpause) (Bool.not_eq_true _ ▸ hoff)).2 hpause
  | flush =>
    obtain ⟨write, hwrite, rfl⟩ := Option.map_eq_some_iff.mp hstep
    refine ⟨fun hflag hoff => ?_, fun _ => nofun, nofun⟩
    cases write with
    | create created =>
      obtain ⟨hnone, -⟩ := hsound.creating created hwrite
      have hpaused := h.flag hflag (by simp [SuiteSchedule.on, hnone])
      rw [hsound.fresh hnone] at hpaused
      cases hpaused
    | resume => cases hflag
    | pause => exact observe_turnedOffBy _ (h.pausing hwrite) hoff

/-- A pass turns on only what it had paused. -/
theorem Remembered.respects {e : Event Cron Zone} (h : Remembered s) (hsound : Sound clock s) :
    Respects clock s e := by
  intro hactor hperson hoff t hstep
  cases e with
  | load covered now =>
    simp only [Coverage.step] at hstep
    split at hstep
    · cases hstep
      exact hoff
    · cases hstep
  | abort =>
    cases hstep
    exact hoff
  | update edit now => cases hactor
  | flush =>
    obtain ⟨write, hwrite, rfl⟩ := Option.map_eq_some_iff.mp hstep
    cases write with
    | create created =>
      rw [hsound.fresh (hsound.creating created hwrite).1] at hperson
      cases hperson
    | resume nextRunAt =>
      rw [h.flag (h.resuming nextRunAt hwrite) hoff] at hperson
      cases hperson
    | pause =>
      rw [observe_on]
      cases hsched : s.schedule <;> simp [SuiteSchedule.on, SuiteSchedule.write, hsched]

/-! ## A stale flag -/

/-- A pass that finds the flag resumes what a person turned off. -/
theorem overridden (hsound : Sound clock s) (hflag : s.pausedByCoverage = true)
    (hsome : s.schedule.isSome = true) (hoff : s.on = false)
    (hperson : s.turnedOffBy = some .person) :
    ¬ Meets (step clock) (Respects clock) s [.abort, .load true 0, .flush] := by
  intro h
  obtain ⟨schedule, hschedule⟩ := Option.isSome_iff_exists.mp hsome
  have henabled : schedule.enabled = false := by
    simpa [SuiteSchedule.on, hschedule] using hoff
  have hvalid := hsound.valid schedule hschedule
  have hdecides : setSchedule clock true 0 { s with pending := none } =
      some (.resume (clock.nextFire schedule.cron schedule.timezone 0)) := by
    simp [setSchedule, hschedule, henabled, hflag, hvalid]
  obtain ⟨hflush, -⟩ := (((h.2 _ rfl).2 _ rfl))
  rw [hdecides] at hflush
  have hstays := hflush rfl hperson hoff _ rfl
  simp [SuiteSchedule.on, SuiteSchedule.observe, SuiteSchedule.write, hschedule] at hstays

/-- So does one that comes after a pass which had decided to pause. -/
theorem overridden_by_pause (hsound : Sound clock s) (hpending : s.pending = some .pause)
    (hsome : s.schedule.isSome = true) (hoff : s.on = false)
    (hperson : s.turnedOffBy = some .person) :
    ¬ Meets (step clock) (Respects clock) s (.flush :: [.abort, .load true 0, .flush]) := by
  intro h
  have hflush : step clock s .flush =
      some (s.observe { s.write .pause with pending := none } .coverage) := by
    rw [step, hpending, Option.map_some]
  obtain ⟨schedule, hschedule⟩ := Option.isSome_iff_exists.mp hsome
  refine overridden (hsound.step hflush) rfl ?_ ?_ ?_ (h.2 _ hflush)
  · simp [SuiteSchedule.observe, SuiteSchedule.write, hschedule]
  · simp [SuiteSchedule.on, SuiteSchedule.observe, SuiteSchedule.write, hschedule]
  · rw [observe_turnedOffBy_same _ (.inl hoff)]
    exact hperson

/-- A switch-off that is not clear lets a later pass override it. -/
theorem overridden_of_not_clear {e : Event Cron Zone} (hsound : Sound clock s)
    (h : ¬ Clear clock s e) : ∃ t, step clock s e = some t ∧
      ∃ passes : List (Event Cron Zone), (∀ p ∈ passes, p.actor = .coverage) ∧
        ¬ Meets (step clock) (Respects clock) t passes := by
  cases e with
  | load | flush | abort => exact absurd trivial h
  | update edit now =>
    simp only [Clear, not_forall] at h
    obtain ⟨hasked, hon, haccepted, hstale⟩ := h
    obtain ⟨schedule, hschedule, henabled⟩ := (Option.any_eq_true _ _).mp hon
    rw [hschedule, Option.any_some] at haccepted
    have hnowOff : (s.schedule.map (updateSchedule clock edit now)).any Schedule.enabled = false := by
      simp [hschedule, updateSchedule, haccepted, hasked]
    have hperson := observe_turnedOffBy (s := s)
      (t := { s with schedule := s.schedule.map (updateSchedule clock edit now) }) .person hon hnowOff
    have hsome : (s.schedule.map (updateSchedule clock edit now)).isSome = true := by
      rw [hschedule]
      rfl
    refine ⟨_, rfl, ?_⟩
    have hsound' : Sound clock (s.observe
        { s with schedule := s.schedule.map (updateSchedule clock edit now) } .person) :=
      hsound.step (e := .update edit now) rfl
    by_cases hflag : s.pausedByCoverage = true
    · exact ⟨[.abort, .load true 0, .flush], by simp [Event.actor],
        overridden hsound' hflag hsome hnowOff hperson⟩
    · -- the pass about to pause sets the flag after the person
      have hpending : s.pending = some .pause := by
        by_contra hne
        exact hstale ⟨by simpa using hflag, hne⟩
      exact ⟨.flush :: [.abort, .load true 0, .flush], by simp [Event.actor],
        overridden_by_pause hsound' hpending hsome hnowOff hperson⟩

end Steps

/-! ## Every history -/

section Histories
variable [DecidableEq Cron] [DecidableEq Zone] {clock : Clockwork Cron Zone}

/-- In every history, at every point, no pass to come turns on what a person turned off, if and
only if no switch-off by a person finds the flag of an earlier pause or a pass about to set it. -/
theorem switchOff_stays_iff (es : List (Event Cron Zone)) :
    (∀ past passes, past <+: es → (∀ p ∈ passes, p.actor = .coverage) →
      Meets (step clock) (Respects clock) SuiteSchedule.start (past ++ passes)) ↔
    Meets (step clock) (Clear clock) SuiteSchedule.start es := by
  constructor
  · intro hstays
    refine meets_of_prefixes fun past e rest s heq hrun => ?_
    by_contra hstale
    have hsound : Sound clock s :=
      run_keeps (fun _ _ _ hs hstep => Sound.step hs hstep) (Sound.start clock) hrun
    obtain ⟨t, hstep, passes, hcoverage, hover⟩ := overridden_of_not_clear hsound hstale
    have hrun' : run (step clock) SuiteSchedule.start (past ++ [e]) = some t :=
      run_append_eq_some.mpr ⟨s, hrun, run_cons_eq_some.mpr ⟨t, hstep, run_nil t⟩⟩
    have hpast : past ++ [e] <+: es := ⟨rest, by rw [heq, List.append_assoc]; rfl⟩
    exact hover ((hstays (past ++ [e]) passes hpast hcoverage).of_append hrun').2
  · rintro hclear past passes ⟨rest, rfl⟩ hcoverage
    have hmeets : Meets (step clock) (Clear clock) SuiteSchedule.start (past ++ passes) := by
      refine hclear.left.append fun s _ => meets_of_forall_mem (fun p hp s => ?_) s
      have hactor := hcoverage p hp
      cases p with
      | load | flush | abort => trivial
      | update => cases hactor
    exact Meets.of_invariant (I := fun s => Sound clock s ∧ Remembered s)
      (fun s e t hs hok hstep => ⟨hs.1.step hstep, hs.2.step hs.1 hok hstep⟩)
      (fun s e hs _ => hs.2.respects hs.1) ⟨Sound.start clock, Remembered.start⟩ hmeets

/-- Every minute is a cadence. -/
def minutes : Clockwork ℕ Unit :=
  { valid := fun _ _ => true
    nextFire := fun cron _ now => now + cron
    utc := ()
    cronFor := 5 }

/-- Paused by a pass, switched on and off again by a person, and resumed by the next pass. -/
theorem switchOff_overridden :
    ¬ ∀ es : List (Event ℕ Unit), Meets (step minutes) (Respects minutes) SuiteSchedule.start es := by
  intro hclaim
  have hover : ¬ Meets (step minutes) (Respects minutes) SuiteSchedule.start
      [.load true 0, .flush, .load false 1, .flush, .update ⟨none, none, some true⟩ 2,
        .update ⟨none, none, some false⟩ 3, .load true 4, .flush] := by decide
  exact hover (hclaim _)

end Histories

end DataQ.Coverage
