import DataQ.Dispatch.FiresOnce
import Mathlib.Data.List.Perm.Subperm

/-! # A tick ends

A full batch moves its schedules past the tick's time and nobody moves one back, so a tick makes no
more batches than there were schedules due, whatever the other dispatchers do meanwhile; and it
waits for nobody. -/

namespace DataQ.Dispatch
open DataQ.Locking DataQ.Interleaving DataQ.Transition
set_option autoImplicit false

variable {ι Zone : Type*} {lib : Croniter Zone} {s t : Store ι} {i j : ι} {a : Act} {pc pc' : Pc ι}

/-! ## The schedules still due -/

def dueCount (s : Store ι) (now : ℕ) : ℕ := s.schedules.countP fun row => row.due now

theorem dueCount_le_length (s : Store ι) (now : ℕ) : dueCount s now ≤ s.schedules.length :=
  List.countP_le_length

theorem length_dueIds (s : Store ι) (now : ℕ) :
    (dueIds s.schedules now).length = dueCount s now := by
  rw [dueIds, List.length_map, dueCount, List.countP_eq_length_filter]

theorem countP_lt_of_imp {α : Type*} {p q : α → Bool} {l : List α} (himp : ∀ x ∈ l, p x → q x)
    {x : α} (hx : x ∈ l) (hq : q x) (hp : ¬ p x) : l.countP p < l.countP q := by
  induction l with
  | nil => cases hx
  | cons y l ih =>
    have hmono : l.countP p ≤ l.countP q :=
      List.countP_mono_left fun z hz => himp z (List.mem_cons_of_mem y hz)
    have hy := himp y List.mem_cons_self
    rw [List.countP_cons, List.countP_cons]
    rcases List.mem_cons.mp hx with rfl | hx
    · rw [if_pos hq, if_neg hp]
      omega
    · have htail := ih (fun z hz => himp z (List.mem_cons_of_mem y hz)) hx
      by_cases hpy : p y = true
      · rw [if_pos hpy, if_pos (hy hpy)]
        omega
      · rw [if_neg hpy]
        omega

variable [DecidableEq ι]

omit [DecidableEq ι] in
/-- A schedule that an advance leaves due was due before. -/
theorem due_of_advance (hbooked : Booked s) {y : Tick} {found : List (ℕ × Verdict ι)}
    {handled : List Handled} (hbatch : Batch lib s i y found handled) {row : Schedule}
    (hrow : row ∈ s.schedules) {now : ℕ} (hdue : (row.advance y.now handled).due now) :
    row.due now := by
  rcases advance_cases hbooked hbatch hrow with ⟨h, hh, rfl, henabled, hnext⟩ | ⟨-, hsame⟩
  · have hwas := (hbatch.rows h hh).2
    simp only [Schedule.due, henabled, hnext, Bool.and_eq_true, decide_eq_true_eq] at hdue hwas ⊢
    obtain ⟨t, ht⟩ := Option.isSome_iff_exists.mp hdue.1
    have hlt := hbatch.next h hh t ht
    rw [ht, Option.getD_some] at hdue
    exact ⟨hwas.1, by omega⟩
  · rwa [hsame] at hdue

omit [DecidableEq ι] in
theorem not_due_of_handled (hbooked : Booked s) {y : Tick} {found : List (ℕ × Verdict ι)}
    {handled : List Handled} (hbatch : Batch lib s i y found handled) {h : Handled}
    (hh : h ∈ handled) : ¬ (h.schedule.advance y.now handled).due y.now := by
  intro hdue
  rcases advance_cases hbooked hbatch (hbatch.rows h hh).1 with
    ⟨g, hg, -, henabled, hnext⟩ | ⟨hnot, -⟩
  · simp only [Schedule.due, henabled, hnext, Bool.and_eq_true, decide_eq_true_eq] at hdue
    obtain ⟨t, ht⟩ := Option.isSome_iff_exists.mp hdue.1
    have hlt := hbatch.next g hg t ht
    rw [ht, Option.getD_some] at hdue
    omega
  · exact hnot h hh rfl

theorem dueCount_commit (hbooked : Booked s) {y : Tick} {found : List (ℕ × Verdict ι)}
    {handled : List Handled} (hbatch : Batch lib s i y found handled) (nextRunId now : ℕ) :
    dueCount (s.commit i y handled nextRunId) now ≤ dueCount s now := by
  rw [dueCount, Store.commit, List.countP_map]
  exact List.countP_mono_left fun row hrow => due_of_advance hbooked hbatch hrow

theorem dueCount_commit_lt (hbooked : Booked s) {y : Tick} {found : List (ℕ × Verdict ι)}
    {handled : List Handled} (hbatch : Batch lib s i y found handled) (nextRunId : ℕ)
    (hsome : claimedIds found ≠ []) :
    dueCount (s.commit i y handled nextRunId) y.now < dueCount s y.now := by
  have hne : handled ≠ [] := by
    intro hnil
    have hids := hbatch.ids
    rw [hnil] at hids
    exact hsome (List.reverse_eq_nil_iff.mp hids.symm)
  obtain ⟨h, hh⟩ := List.exists_mem_of_ne_nil _ hne
  have hrow := hbatch.rows h hh
  rw [dueCount, Store.commit, List.countP_map]
  exact countP_lt_of_imp (fun row hrow => due_of_advance hbooked hbatch hrow) hrow.1 hrow.2
    (not_due_of_handled hbooked hbatch hh)

omit [DecidableEq ι] in
theorem length_handled_le {y : Tick} {found : List (ℕ × Verdict ι)}
    {handled : List Handled} (hbatch : Batch lib s i y found handled) :
    handled.length ≤ s.schedules.length := by
  have hnodup : (handled.map fun h => h.schedule.id).Nodup := by
    rw [hbatch.ids]
    exact List.nodup_reverse.mpr hbatch.nodup
  have hsub : (handled.map fun h => h.schedule.id) ⊆ s.schedules.map Schedule.id := by
    intro id hid
    obtain ⟨h, hh, rfl⟩ := List.mem_map.mp hid
    exact List.mem_map_of_mem (hbatch.rows h hh).1
  simpa using (List.subperm_of_subset hnodup hsub).length_le

/-! ## What a tick has left to do -/

/-- A bound on the statements of one round of the loop. -/
def roundBound (s : Store ι) : ℕ := 2 * s.schedules.length + 4

/-- A bound on the statements a session has left in its tick. -/
def remaining (s : Store ι) : Pc ι → ℕ
  | .idle => 0
  | .counting _ => 1
  | .selecting y => roundBound s * (dueCount s y.now + 1) + 1
  | .scanning y _ todo _ => roundBound s * dueCount s y.now + todo.length + s.schedules.length + 4
  | .publishing y _ _ queued _ _ _ _ =>
    roundBound s * (dueCount s y.now + 1) + 2 + queued.length

omit [DecidableEq ι] in
theorem remaining_congr (h : t.schedules = s.schedules) (pc : Pc ι) :
    remaining t pc = remaining s pc := by
  cases pc <;> simp [remaining, roundBound, dueCount, h]

omit [DecidableEq ι] in
theorem remaining_mono (hlength : t.schedules.length = s.schedules.length)
    (hdue : ∀ now, dueCount t now ≤ dueCount s now) (pc : Pc ι) :
    remaining t pc ≤ remaining s pc := by
  have hround : roundBound t = roundBound s := by rw [roundBound, roundBound, hlength]
  have hmul : ∀ now k, roundBound s * (dueCount t now + k) ≤ roundBound s * (dueCount s now + k) :=
    fun now k => Nat.mul_le_mul_left _ (Nat.add_le_add_right (hdue now) k)
  cases pc with
  | idle => exact Nat.le_refl _
  | counting => exact Nat.le_refl _
  | selecting y =>
    have h := hmul y.now 1
    simp only [remaining, hround]
    omega
  | scanning y snapshot todo found =>
    have h := hmul y.now 0
    simp only [Nat.add_zero] at h
    simp only [remaining, hround, hlength]
    omega
  | publishing y snapshot found queued sent failed streak down =>
    have h := hmul y.now 1
    simp only [remaining, hround]
    omega

theorem Moves.dueCount_le (hlib : lib.Advances) (h : Moves lib i s a pc t pc')
    (hbooked : Booked s) (hstands : Stands lib s i pc) :
    t.schedules.length = s.schedules.length ∧ ∀ now, dueCount t now ≤ dueCount s now := by
  cases h with
  | claim _ _ hhandle =>
    refine ⟨List.length_map _, fun now => ?_⟩
    exact dueCount_commit hbooked (batch_of_handle hlib hbooked hstands hhandle) _ now
  | _ => exact ⟨rfl, fun now => Nat.le_refl _⟩

omit [DecidableEq ι] in
theorem remaining_pos {pc : Pc ι} (h : pc ≠ .idle) : 0 < remaining s pc := by
  cases pc with
  | idle => exact absurd rfl h
  | counting => exact Nat.one_pos
  | selecting => exact Nat.succ_pos _
  | scanning => exact Nat.succ_pos _
  | publishing =>
    simp only [remaining]
    omega

/-- Every statement of a tick, its start apart, brings its end nearer. -/
theorem Moves.remaining_lt (hlib : lib.Advances) (h : Moves lib i s a pc t pc')
    (hbooked : Booked s) (hstands : Stands lib s i pc) (hdie : a ≠ .die)
    (htick : ∀ now batchSize, a ≠ .tick now batchSize) : remaining t pc' < remaining s pc := by
  cases h with
  | tick => exact absurd rfl (htick _ _)
  | @select y order horder =>
    have hlength := (ordered_perm horder).length_eq
    have hcount := dueCount_le_length s y.now
    rw [length_dueIds] at hlength
    simp only [remaining, roundBound, Nat.mul_add, Nat.mul_one]
    omega
  | passLocked =>
    simp only [remaining, List.length_cons]
    omega
  | passMoved =>
    simp only [remaining, List.length_cons]
    omega
  | lock =>
    rw [remaining_congr (s := s)]
    · simp only [remaining, List.length_cons]
      omega
    · rfl
  | empty =>
    exact remaining_pos (by simp)
  | @claim y snapshot todo found runnable handled fires nextRunId hfull hsome hhandle =>
    have hbatch := batch_of_handle hlib hbooked hstands hhandle
    have hround : roundBound (s.commit i y handled nextRunId) = roundBound s := by
      simp [roundBound, Store.commit]
    have hless := dueCount_commit_lt hbooked hbatch nextRunId hsome
    have hmul : roundBound s * (dueCount (s.commit i y handled nextRunId) y.now + 1) ≤
        roundBound s * dueCount s y.now := Nat.mul_le_mul_left _ hless
    have hqueued : (handled.filterMap Handled.runId).length ≤ handled.length :=
      List.length_filterMap_le _ _
    have hhandled := length_handled_le hbatch
    simp only [remaining, hround]
    omega
  | publish =>
    rw [remaining_congr (s := s)]
    · simp only [remaining, List.length_cons]
      omega
    · rfl
  | refuse hqueued =>
    rcases hqueued with rfl | rfl
    · simp only [remaining, List.length_cons]
      omega
    · simp only [remaining, List.length_cons, List.length_nil]
      omega
  | drained => exact remaining_pos (by simp)
  | stop =>
    simp only [remaining]
    omega
  | again hnow =>
    rw [remaining_congr (s := s)]
    · simp only [remaining, hnow, List.length_nil]
      omega
    · rfl
  | count => exact remaining_pos (by simp)
  | die hbusy => exact remaining_pos (hbusy hdie)

/-- No statement starts a tick of the session or ends it by death. -/
def WithinTick (i : ι) (es : List (ι × Act)) : Prop :=
  ∀ e ∈ es, e.1 = i → e.2 ≠ .die ∧ ∀ now batchSize, e.2 ≠ .tick now batchSize

/-- However the others go on, a session has a bounded number of statements left. -/
theorem statements_le (hlib : lib.Advances) {c d : World ι} {es : List (ι × Act)}
    (hc : Orderly lib c) (hes : WithinTick i es) (hrun : run (step lib) c es = some d) :
    es.countP (fun e => e.1 = i) + remaining d.store (d.session i) ≤
      remaining c.store (c.session i) := by
  induction es generalizing c with
  | nil =>
    have hcd : c = d := by simpa using hrun
    subst hcd
    simp
  | cons e es ih =>
    obtain ⟨b, hstep, hrest⟩ := run_cons_eq_some.mp hrun
    have htail := ih (hc.step hlib hstep) (fun f hf => hes f (List.mem_cons_of_mem e hf)) hrest
    obtain ⟨⟨t, pc'⟩, hact, rfl⟩ := step_eq_some.mp hstep
    have hmoves : Moves lib e.1 c.store e.2 (c.session e.1) t pc' := moves_act hact
    rw [List.countP_cons]
    by_cases hi : e.1 = i
    · subst hi
      rw [Config.put_store, Config.put_session_self] at htail
      have hwithin := hes e List.mem_cons_self rfl
      have hlt := hmoves.remaining_lt hlib hc.booked (hc.stands e.1) hwithin.1 hwithin.2
      dsimp only at htail
      simp only [decide_true, if_true]
      omega
    · rw [Config.put_store, Config.put_session_ne _ _ (Ne.symm hi)] at htail
      have hkept := hmoves.dueCount_le hlib hc.booked (hc.stands e.1)
      have hle := remaining_mono hkept.1 hkept.2 (c.session i)
      dsimp only at htail
      simp only [hi, decide_false, Bool.false_eq_true, if_false]
      omega

/-! ## A tick waits for nobody -/

omit [DecidableEq ι] in
theorem exists_ordered (hbooked : Booked s) (now : ℕ) :
    ∃ order, ordered s.schedules now order := by
  let le : Schedule → Schedule → Bool := fun a b => decide (a.nextRunAt ≤ b.nextRunAt)
  let rows := (s.schedules.filter fun row => row.due now).mergeSort le
  refine ⟨rows.map Schedule.id, (Bool.and_eq_true _ _).mpr ⟨?_, decide_eq_true ?_⟩⟩
  · exact List.isPerm_iff.mpr ((List.mergeSort_perm _ le).map Schedule.id)
  · have hsorted : rows.Pairwise fun a b => le a b := by
      apply List.pairwise_mergeSort
      · intro a b c hab hbc
        simp only [le, decide_eq_true_eq] at hab hbc ⊢
        omega
      · intro a b
        simp only [le, Bool.or_eq_true, decide_eq_true_eq]
        omega
    have hmem : ∀ row ∈ rows, row ∈ s.schedules := fun row hrow =>
      (List.mem_filter.mp (List.mem_mergeSort.mp hrow)).1
    rw [List.pairwise_map]
    refine hsorted.imp_of_mem fun {a b} ha hb hle r hr r' hr' hra hrb => ?_
    rw [hbooked.same hr (hmem a ha) hra, hbooked.same hr' (hmem b hb) hrb]
    simpa [le] using hle

theorem exists_act (hbooked : Booked s) {pc : Pc ι} (hpc : pc ≠ .idle) :
    ∃ a, a ≠ .die ∧ (act lib i a s pc).isSome := by
  cases pc with
  | idle => exact absurd rfl hpc
  | selecting y =>
    obtain ⟨order, horder⟩ := exists_ordered hbooked y.now
    exact ⟨.select order, by simp, by simp [act, horder]⟩
  | scanning y snapshot todo found =>
    by_cases hmore : todo ≠ [] ∧ (claimedIds found).length < y.batchSize
    · refine ⟨.scan, by simp, ?_⟩
      obtain ⟨id, todo, rfl⟩ := List.exists_cons_of_ne_nil hmore.1
      have hroom : ¬ (y.batchSize : ℕ) ≤ (claimedIds found).length := Nat.not_le.mpr hmore.2
      simp only [act, scan, hroom, if_false]
      split
      · rfl
      · split <;> rfl
    · refine ⟨.commit [], by simp, ?_⟩
      simp only [act, commit, if_neg hmore]
      split
      · rfl
      · split <;> rfl
  | publishing y snapshot found queued sent failed streak down =>
    cases queued with
    | nil => exact ⟨.record false, by simp, rfl⟩
    | cons id queued => exact ⟨.publish true, by simp, rfl⟩
  | counting y => exact ⟨.count, by simp, rfl⟩

/-! ## The whole -/

/-- Due schedules fire once, as far as the store and its records show. -/
structure FiresOnce (s : Store ι) : Prop where
  occurrences : (s.claims.map Claim.occurrence).Nodup
  future : ∀ c ∈ s.claims, ∀ row ∈ s.schedules, row.id = c.schedule.id →
    row.enabled ∧ c.now < row.nextRunAt ∨ ¬ row.enabled
  disabled : ∀ c ∈ s.claims, match c.next with
    | some t => c.now < t
    | none => ∀ row ∈ s.schedules, row.id = c.schedule.id → ¬ row.enabled
  runs : (s.claims.filterMap fun c => c.runId).Nodup
  published : ∀ id ∈ s.published, ∃ c ∈ s.claims, c.runId = some id ∧
    ∃ run ∈ s.runs, run.id = id ∧ run.triggeredBy = c.schedule.id
  published_once : s.published.Nodup
  ends : ∀ r ∈ s.reports, r.Right s.claims

/-- A tick under way can go on and comes to its end. -/
def Ends (lib : Croniter Zone) (c : World ι) : Prop :=
  ∀ i, c.session i ≠ .idle →
    (∃ a, a ≠ .die ∧ (step lib c (i, a)).isSome) ∧
    ∀ es d, WithinTick i es → run (step lib) c es = some d →
      es.countP (fun e => e.1 = i) ≤ remaining c.store (c.session i)

omit [DecidableEq ι] in
theorem Booked.firesOnce (h : Booked s) : FiresOnce s where
  occurrences := h.occurrences
  future := by
    intro c hc row hrow hid
    by_cases henabled : row.enabled
    · exact .inl ⟨henabled, h.advanced c hc row hrow hid henabled⟩
    · exact .inr henabled
  disabled := by
    intro c hc
    split
    · next t ht => exact h.future c hc t ht
    · next hnone => exact h.disabled c hc hnone
  runs := h.run_ids
  published := by
    intro id hid
    obtain ⟨c, hc, hrun⟩ := h.published id hid
    exact ⟨c, hc, hrun, h.runs c hc id hrun⟩
  published_once := h.published_nodup
  ends := h.reports

theorem Orderly.ends (hlib : lib.Advances) {c : World ι} (h : Orderly lib c) : Ends lib c := by
  intro i hi
  refine ⟨?_, fun es d hes hrun => ?_⟩
  · have hact : ∃ a, a ≠ .die ∧ (act lib i a c.store (c.session i)).isSome :=
      exists_act h.booked hi
    obtain ⟨a, hdie, hact⟩ := hact
    obtain ⟨r, hr⟩ := Option.isSome_iff_exists.mp hact
    exact ⟨a, hdie, Option.isSome_iff_exists.mpr ⟨c.put i r, step_eq_some.mpr ⟨r, hr, rfl⟩⟩⟩
  · have hle := statements_le hlib h hes hrun
    omega

/-- From any schedules, in every state the dispatchers reach. -/
theorem due_schedules_fire_once (hlib : lib.Advances) {schedules : List Schedule}
    (hids : (schedules.map Schedule.id).Nodup) {es : List (ι × Act)} {c : World ι}
    (hrun : run (step lib) (World.initial schedules) es = some c) :
    FiresOnce c.store ∧ Ends lib c := by
  have h := run_keeps (I := Orderly lib) (fun _ _ _ hc hstep => hc.step hlib hstep)
    (orderly_initial hids) hrun
  exact ⟨h.booked.firesOnce, h.ends hlib⟩

/-- `croniter` on an hourly expression in UTC; no other expression has a date. -/
def hourly : Croniter Unit where
  isValid := fun _ => true
  getNext := fun expression _ after =>
    if expression = "0 * * * *" then some ((after / 3600 + 1) * 3600) else none
  zone := fun timezone => if timezone = "UTC" then some () else none
  utc := ()

theorem hourly_advances : hourly.Advances := by
  intro expression tz after t h
  have ht : expression = "0 * * * *" ∧ (after / 3600 + 1) * 3600 = t := by
    simpa [hourly] using h
  omega

def threeSchedules : List Schedule :=
  [⟨1, 7, "0 * * * *", "UTC", true, 3600, none⟩, ⟨2, 7, "0 * * * *", "UTC", true, 7200, none⟩,
    ⟨3, 8, "0 0 30 2 *", "UTC", true, 3600, none⟩]

/-- Dispatcher 0 claims the schedules 1 and 3 under the eyes of dispatcher 1, which then takes 2;
dispatcher 0 dies before it publishes. -/
def twoDispatchers : List (ℕ × Act) :=
  [(0, .tick 7300 ⟨2, Nat.two_pos⟩), (1, .tick 7310 ⟨2, Nat.two_pos⟩), (0, .select [3, 1, 2]), (0, .scan), (0, .scan),
    (1, .select [1, 3, 2]), (1, .scan), (0, .commit [7]), (1, .scan), (1, .scan), (0, .die),
    (1, .commit [7, 8]), (1, .publish true), (1, .record false)]

theorem due_schedules_fire_once_two_dispatchers :
    hourly.Advances ∧ (threeSchedules.map Schedule.id).Nodup ∧
      ∃ c : World ℕ, run (step hourly) (World.initial threeSchedules) twoDispatchers = some c ∧
        c.store.published = [1] ∧ FiresOnce c.store ∧ Ends hourly c := by
  have hids : (threeSchedules.map Schedule.id).Nodup := by decide
  have hrun : (run (step hourly) (World.initial threeSchedules : World ℕ) twoDispatchers).any
      fun c => decide (c.store.published = [1]) := by decide
  obtain ⟨c, hc, hpublished⟩ := (Option.any_eq_true _ _).mp hrun
  exact ⟨hourly_advances, hids, c, hc, of_decide_eq_true hpublished,
    due_schedules_fire_once hourly_advances hids hc⟩

/-- A schedule whose expression never fires is disabled where it stands. -/
theorem claimed_schedule_left_in_the_past :
    ∃ c : World ℕ, run (step hourly) (World.initial threeSchedules) twoDispatchers = some c ∧
      ∃ claim ∈ c.store.claims, ∃ row ∈ c.store.schedules,
        row.id = claim.schedule.id ∧ ¬ claim.now < row.nextRunAt := by
  have hrun : (run (step hourly) (World.initial threeSchedules : World ℕ) twoDispatchers).any
      fun c => c.store.claims.any fun claim => c.store.schedules.any fun row =>
        decide (row.id = claim.schedule.id ∧ ¬ claim.now < row.nextRunAt) := by decide
  obtain ⟨c, hc, hpast⟩ := (Option.any_eq_true _ _).mp hrun
  obtain ⟨claim, hclaim, hrows⟩ := List.any_eq_true.mp hpast
  obtain ⟨row, hrow, hboth⟩ := List.any_eq_true.mp hrows
  exact ⟨c, hc, claim, hclaim, row, hrow, of_decide_eq_true hboth⟩

end DataQ.Dispatch
