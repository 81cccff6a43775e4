import DataQ.Dispatch.Ticks
import Mathlib.Data.List.Nodup
import Mathlib.Data.List.Perm.Basic

/-! # What a statement of a dispatcher does -/

namespace DataQ.Dispatch
open DataQ.Locking DataQ.Interleaving
set_option autoImplicit false

variable {ι Zone : Type*} {lib : Croniter Zone}

/-! ## The loop over the claimed schedules -/

theorem nextFire_advances (hlib : lib.Advances) {expression timezone : String} {after t : ℕ}
    (h : nextFire lib expression timezone after = .next t) : after < t := by
  unfold nextFire at h
  split at h
  · cases h
  · split at h
    · cases h
    · next tz _ =>
      split at h
      · next t' ht =>
        cases h
        exact hlib _ _ _ _ ht
      · cases h

/-- Every answer memoised is one of `next_fire`. -/
def Fires.Sound (lib : Croniter Zone) (now : ℕ) (fires : Fires) : Prop :=
  ∀ key answer, (key, answer) ∈ fires → ∀ t, answer = some t → nextFire lib key.1 key.2 now = .next t

theorem memoFire_sound {now : ℕ} {fires fires' : Fires} {expression timezone : String}
    {answer : Option ℕ} (h : memoFire lib now fires expression timezone = some (fires', answer))
    (hfires : fires.Sound lib now) : fires'.Sound lib now ∧
      ∀ t, answer = some t → nextFire lib expression timezone now = .next t := by
  unfold memoFire at h
  split at h
  · next known hknown =>
    obtain ⟨rfl, rfl⟩ : fires = fires' ∧ known = answer := by simpa using h
    obtain ⟨l, l', hsplit, -⟩ := List.lookup_eq_some_iff.mp hknown
    refine ⟨hfires, fun t ht => hfires (expression, timezone) _ ?_ t ht⟩
    rw [hsplit]
    simp
  · split at h
    · next t hfire =>
      obtain ⟨rfl, rfl⟩ := Prod.mk.inj (Option.some.inj h)
      refine ⟨fun key answer hmem u hu => ?_, fun u hu => Option.some.inj hu ▸ hfire⟩
      rcases List.mem_cons.mp hmem with heq | hmem
      · obtain ⟨rfl, rfl⟩ := Prod.mk.inj heq
        exact Option.some.inj hu ▸ hfire
      · exact hfires key answer hmem u hu
    · obtain ⟨rfl, rfl⟩ := Prod.mk.inj (Option.some.inj h)
      refine ⟨fun key answer hmem u hu => ?_, fun u hu => by cases hu⟩
      rcases List.mem_cons.mp hmem with heq | hmem
      · rw [(Prod.mk.inj heq).2] at hu
        cases hu
      · exact hfires key answer hmem u hu
    · cases h

/-- What the loop makes of the claimed schedules. -/
structure HandledAs (lib : Croniter Zone) (now : ℕ) (rows : List Schedule) (nextRunId : ℕ)
    (handled : List Handled) (fires : Fires) (nextRunId' : ℕ) : Prop where
  schedules : handled.map Handled.schedule = rows
  next : ∀ h ∈ handled, ∀ t, h.next = some t →
    nextFire lib h.schedule.cron h.schedule.timezone now = .next t
  fires : fires.Sound lib now
  later : nextRunId ≤ nextRunId'
  runs : handled.filterMap Handled.runId = List.range' nextRunId (nextRunId' - nextRunId)

theorem handledAs {now : ℕ} {runnable : List ℕ} {rows : List Schedule} {fires fires' : Fires}
    {n n' : ℕ} {handled : List Handled}
    (h : handle lib now runnable rows fires n = some (handled, fires', n'))
    (hfires : fires.Sound lib now) : HandledAs lib now rows n handled fires' n' := by
  induction rows generalizing fires n handled with
  | nil =>
    obtain ⟨rfl, rfl, rfl⟩ : [] = handled ∧ fires = fires' ∧ n = n' := by simpa [handle] using h
    exact ⟨rfl, by simp, hfires, Nat.le_refl _, by simp⟩
  | cons row rows ih =>
    simp only [handle] at h
    split at h
    · cases h
    · next fires₁ next hmemo =>
      obtain ⟨⟨rest, fires₂, n₂⟩, hrest, heq⟩ := Option.map_eq_some_iff.mp h
      obtain ⟨rfl, heq'⟩ := Prod.mk.inj heq
      obtain ⟨rfl, rfl⟩ := Prod.mk.inj heq'
      have hsound := memoFire_sound hmemo hfires
      have htail := ih hrest hsound.1
      refine ⟨by simp [htail.schedules], ?_, htail.fires, ?_, ?_⟩
      · intro g hg t ht
        rcases List.mem_cons.mp hg with rfl | hg
        · exact hsound.2 t ht
        · exact htail.next g hg t ht
      · have hlater := htail.later
        split at hlater <;> omega
      · have hruns := htail.runs
        have hlater := htail.later
        by_cases hrun : (next.isSome && decide (row.suiteId ∈ runnable)) = true
        · simp only [hrun, if_true] at hruns hlater ⊢
          obtain ⟨k, hk⟩ : ∃ k, n₂ = n + 1 + k := ⟨n₂ - (n + 1), by omega⟩
          subst hk
          have hleft : n + 1 + k - (n + 1) = k := by omega
          have hright : n + 1 + k - n = k + 1 := by omega
          rw [hleft] at hruns
          rw [hright, List.range'_succ]
          simp [hruns]
        · simp only [hrun] at hruns hlater ⊢
          simpa using hruns

/-! ## The statements -/

variable [DecidableEq ι]

/-- The claimed rows, as the batch reads them. -/
def claimedRows (s : Store ι) (found : List (ℕ × Verdict ι)) : List Schedule :=
  (claimedIds found).reverse.filterMap fun id => s.schedules.find? fun row => row.id = id

inductive Moves (lib : Croniter Zone) (i : ι) (s : Store ι) : Act → Pc ι → Store ι → Pc ι → Prop
  | tick (now : ℕ) (batchSize : ℕ+) :
      Moves lib i s (.tick now batchSize) .idle s (.selecting ⟨now, batchSize, [], .zero⟩)
  | select {y : Tick} {order : List ℕ} (horder : ordered s.schedules y.now order) :
      Moves lib i s (.select order) (.selecting y) s (.scanning y order order [])
  | passLocked {y : Tick} {snapshot todo : List ℕ} {found : List (ℕ × Verdict ι)} {id : ℕ} {j : ι}
      (hj : s.locks id = some j) :
      Moves lib i s .scan (.scanning y snapshot (id :: todo) found) s
        (.scanning y snapshot todo ((id, .lockedBy j) :: found))
  | passMoved {y : Tick} {snapshot todo : List ℕ} {found : List (ℕ × Verdict ι)} {id : ℕ}
      (hid : ∀ row ∈ s.schedules, row.id = id → ¬ row.due y.now) :
      Moves lib i s .scan (.scanning y snapshot (id :: todo) found) s
        (.scanning y snapshot todo ((id, .moved) :: found))
  | lock {y : Tick} {snapshot todo : List ℕ} {found : List (ℕ × Verdict ι)} {row : Schedule}
      (hfree : s.locks row.id = none) (hrow : row ∈ s.schedules) (hdue : row.due y.now)
      (hroom : (claimedIds found).length < y.batchSize) :
      Moves lib i s .scan (.scanning y snapshot (row.id :: todo) found)
        { s with locks := s.locks.take i row.id }
        (.scanning y snapshot todo ((row.id, .claimed) :: found))
  | empty {y : Tick} {snapshot : List ℕ} {found : List (ℕ × Verdict ι)} {runnable : List ℕ}
      (hnone : claimedIds found = []) :
      Moves lib i s (.commit runnable) (.scanning y snapshot [] found)
        ((s.release i).report i y (.drained snapshot found)) .idle
  | claim {y : Tick} {snapshot todo : List ℕ} {found : List (ℕ × Verdict ι)} {runnable : List ℕ}
      {handled : List Handled} {fires : Fires} {nextRunId : ℕ}
      (hfull : todo = [] ∨ y.batchSize ≤ (claimedIds found).length) (hsome : claimedIds found ≠ [])
      (hhandle : handle lib y.now runnable (claimedRows s found) y.fires s.nextRunId =
        some (handled, fires, nextRunId)) :
      Moves lib i s (.commit runnable) (.scanning y snapshot todo found)
        (s.commit i y handled nextRunId)
        (.publishing { y with fires := fires, summary := y.summary.batch handled } snapshot found
          (handled.filterMap Handled.runId) [] [] 0 false)
  | publish {y : Tick} {snapshot queued sent failed : List ℕ} {found : List (ℕ × Verdict ι)}
      {id streak : ℕ} {down : Bool} :
      Moves lib i s (.publish true) (.publishing y snapshot found (id :: queued) sent failed streak
          down)
        { s with published := id :: s.published }
        (.publishing y snapshot found queued (id :: sent) failed 0 false)
  | refuse {y : Tick} {snapshot queued queued' sent failed failed' : List ℕ}
      {found : List (ℕ × Verdict ι)} {id streak streak' : ℕ} {down down' : Bool}
      (hqueued : queued' = queued ∨ queued' = []) :
      Moves lib i s (.publish false) (.publishing y snapshot found (id :: queued) sent failed streak
          down) s
        (.publishing y snapshot found queued' sent failed' streak' down')
  | drained {y y' : Tick} {snapshot sent failed : List ℕ} {found : List (ℕ × Verdict ι)}
      {streak : ℕ} {down exhausted : Bool} (hshort : (claimedIds found).length < y.batchSize)
      (hnow : y'.now = y.now) :
      Moves lib i s (.record exhausted) (.publishing y snapshot found [] sent failed streak down)
        (Store.report { s with runs := s.runs.map (Run.outcome sent failed) } i y'
          (.drained snapshot found)) .idle
  | stop {y y' : Tick} {snapshot sent failed : List ℕ} {found : List (ℕ × Verdict ι)}
      {streak : ℕ} {down exhausted : Bool} (hnow : y'.now = y.now) :
      Moves lib i s (.record exhausted) (.publishing y snapshot found [] sent failed streak down)
        { s with runs := s.runs.map (Run.outcome sent failed) } (.counting y')
  | again {y y' : Tick} {snapshot sent failed : List ℕ} {found : List (ℕ × Verdict ι)}
      {streak : ℕ} {down exhausted : Bool} (hnow : y'.now = y.now) (hfires : y'.fires = y.fires)
      (hfull : y.batchSize ≤ (claimedIds found).length) :
      Moves lib i s (.record exhausted) (.publishing y snapshot found [] sent failed streak down)
        { s with runs := s.runs.map (Run.outcome sent failed) } (.selecting y')
  | count {y : Tick} :
      Moves lib i s .count (.counting y)
        (s.report i { y with summary := { y.summary with
          residual := (dueIds s.schedules y.now).length } }
          (.stopped (dueIds s.schedules y.now))) .idle
  | die {a : Act} {pc : Pc ι} (hbusy : a ≠ .die → pc ≠ .idle) :
      Moves lib i s a pc (s.release i) .idle

section Cases
variable {i : ι} {s t : Store ι} {y : Tick} {snapshot todo sent failed queued : List ℕ}
  {found : List (ℕ × Verdict ι)} {pc pc' : Pc ι}

theorem moves_scan (h : scan i s y snapshot found todo = some (t, pc')) :
    Moves lib i s .scan (.scanning y snapshot todo found) t pc' := by
  cases todo with
  | nil => cases h
  | cons id todo =>
    simp only [scan] at h
    split at h
    · cases h
    · next hroom =>
      split at h
      · next j hj =>
        obtain ⟨rfl, rfl⟩ := Prod.mk.inj (Option.some.inj h)
        exact .passLocked hj
      · next hfree =>
        split at h
        · next hany =>
          obtain ⟨row, hrow, hmatch⟩ := List.any_eq_true.mp hany
          obtain ⟨rfl, hdue⟩ : row.id = id ∧ row.due y.now := by simpa using hmatch
          obtain ⟨rfl, rfl⟩ := Prod.mk.inj (Option.some.inj h)
          exact .lock hfree hrow hdue (by omega)
        · next hgone =>
          obtain ⟨rfl, rfl⟩ := Prod.mk.inj (Option.some.inj h)
          refine .passMoved fun row hrow hid hdue => hgone ?_
          exact List.any_eq_true.mpr ⟨row, hrow, by simp [hid, hdue]⟩

theorem moves_commit {runnable : List ℕ}
    (h : commit lib i s y snapshot todo found runnable = some (t, pc')) :
    Moves lib i s (.commit runnable) (.scanning y snapshot todo found) t pc' := by
  simp only [commit] at h
  split at h
  · cases h
  · next hover =>
    split at h
    · next hnone =>
      have hnone : claimedIds found = [] := by simpa using hnone
      have htodo : todo = [] := by
        by_contra hne
        exact hover ⟨hne, by simp [hnone]⟩
      subst htodo
      obtain ⟨rfl, rfl⟩ := Prod.mk.inj (Option.some.inj h)
      exact .empty hnone
    · next hsome =>
      split at h
      · obtain ⟨rfl, rfl⟩ := Prod.mk.inj (Option.some.inj h)
        exact .die fun _ => by simp
      · next handled fires nextRunId hhandle =>
        obtain ⟨rfl, rfl⟩ := Prod.mk.inj (Option.some.inj h)
        refine .claim ?_ (by simpa using hsome) hhandle
        by_cases htodo : todo = []
        · exact .inl htodo
        · exact .inr (Nat.not_lt.mp fun hlt => hover ⟨htodo, hlt⟩)

theorem moves_publish {streak : ℕ} {ok down : Bool}
    (h : publish s y snapshot found sent failed streak ok queued = some (t, pc')) :
    Moves lib i s (.publish ok) (.publishing y snapshot found queued sent failed streak down) t
      pc' := by
  cases queued with
  | nil => cases h
  | cons id queued =>
    simp only [publish] at h
    cases ok with
    | true =>
      obtain ⟨rfl, rfl⟩ := Prod.mk.inj (Option.some.inj h)
      exact .publish
    | false =>
      simp only [Bool.false_eq_true, if_false] at h
      split at h
      · obtain ⟨rfl, rfl⟩ := Prod.mk.inj (Option.some.inj h)
        exact .refuse (.inr rfl)
      · obtain ⟨rfl, rfl⟩ := Prod.mk.inj (Option.some.inj h)
        exact .refuse (.inl rfl)

theorem moves_record {streak : ℕ} {exhausted down : Bool} :
    Moves lib i s (.record exhausted) (.publishing y snapshot found [] sent failed streak down)
      (record i s y snapshot found sent failed down exhausted).1
      (record i s y snapshot found sent failed down exhausted).2 := by
  simp only [record]
  split
  · next hshort => exact .drained hshort.1 rfl
  · next hlong =>
    split
    · exact .stop rfl
    · next hgoes =>
      have hdown : down = false := by
        cases down with
        | true => simp at hgoes
        | false => rfl
      exact .again rfl rfl (Nat.not_lt.mp fun hlt => hlong ⟨hlt, by simp [hdown]⟩)

theorem moves_act {a : Act} (h : act lib i a s pc = some (t, pc')) : Moves lib i s a pc t pc' := by
  unfold act at h
  split at h
  · obtain ⟨rfl, rfl⟩ := Prod.mk.inj (Option.some.inj h)
    exact .tick _ _
  · split at h
    · next horder =>
      obtain ⟨rfl, rfl⟩ := Prod.mk.inj (Option.some.inj h)
      exact .select horder
    · cases h
  · exact moves_scan h
  · exact moves_commit h
  · exact moves_publish h
  · obtain ⟨rfl, rfl⟩ := Prod.mk.inj (Option.some.inj h)
    exact moves_record
  · obtain ⟨rfl, rfl⟩ := Prod.mk.inj (Option.some.inj h)
    exact .count
  · obtain ⟨rfl, rfl⟩ := Prod.mk.inj (Option.some.inj h)
    exact .die fun hne => absurd rfl hne
  · cases h

end Cases

end DataQ.Dispatch
