import DataQ.Anomaly.Baselines

/-! # The baseline store is well formed

Over every interleaving of runs, whatever their settings: one point for each period in order, a
stored point kept or cut off as the oldest but never replaced, a history seeded once, and no run
judged by its own period or a later one. -/

namespace DataQ.Anomaly
open DataQ.Series DataQ.Interleaving DataQ.Transition
set_option autoImplicit false

variable (metric : Text) (signature : Signature)

/-- The points that the row holds for this check. -/
abbrev held (row : Option Baseline) : List Observation := loadObservations metric signature row

/-- What a write does to the row: a point is kept or is older than all that is, no other point
stands for its period, and a seeding that was done stays. -/
structure Keeps (before after : Option Baseline) : Prop where
  kept : ∀ o ∈ held metric signature before, o ∈ held metric signature after ∨
    ∀ p ∈ held metric signature after, o.ts < p.ts
  unreplaced : ∀ o ∈ held metric signature before, ∀ p ∈ held metric signature after,
    p.ts = o.ts → p = o
  seed : ∀ seed, storedSeed metric signature before = some seed → seed.isDone = true →
    storedSeed metric signature after = some seed

variable {metric signature}

theorem Keeps.refl {row : Option Baseline}
    (h : Increasing Observation.ts (held metric signature row)) :
    Keeps metric signature row row where
  kept := fun _ ho => .inl ho
  unreplaced := fun _ ho _ hp hts => h.eq_of_date hp ho hts
  seed := fun _ hseed _ => hseed

/-! ## One run -/

theorem increasing_seededPoints {observations : List Observation} {period : Day}
    {attempt : Option Seeding} (h : Increasing Observation.ts observations)
    (hattempt : ∀ a ∈ attempt, Increasing Observation.ts a.points) :
    Increasing Observation.ts (seededPoints observations period attempt) := by
  cases attempt with
  | none => exact h
  | some attempt =>
    apply increasing_byDate
    rw [List.map_append, List.nodup_append]
    refine ⟨h.nodup_dates, ?_, ?_⟩
    · exact Increasing.nodup_dates ((hattempt attempt rfl).sublist List.filter_sublist)
    · intro a ha b hb hab
      obtain ⟨o, ho, rfl⟩ := List.mem_map.mp hb
      have hfresh := (List.mem_filter.mp ho).2
      simp only [decide_eq_true_eq] at hfresh
      rw [hab] at ha
      exact hfresh.1 ha

theorem mem_seededPoints {observations : List Observation} {period : Day}
    {attempt : Option Seeding} {o : Observation} (h : o ∈ observations) :
    o ∈ seededPoints observations period attempt := by
  cases attempt with
  | none => exact h
  | some attempt => exact mem_byDate.mpr (List.mem_append_left _ h)

/-- The points before they are trimmed. -/
theorem increasing_recorded {observations : List Observation}
    (h : Increasing Observation.ts observations) (period : Day) (value : ℚ) :
    Increasing Observation.ts (byDate Observation.ts
      (if observations.any (fun o => o.ts = period) then observations
      else observations ++ [⟨period, value, true⟩])) := by
  apply increasing_byDate
  split
  · exact h.nodup_dates
  · next hnew =>
    rw [List.map_append, List.nodup_append]
    refine ⟨h.nodup_dates, List.nodup_singleton _, ?_⟩
    intro a ha b hb hab
    obtain ⟨o, ho, rfl⟩ := List.mem_map.mp ha
    obtain rfl := List.mem_singleton.mp hb
    exact hnew (List.any_eq_true.mpr ⟨o, ho, by simpa using hab⟩)

theorem wanted_subset {params : Params} {attempt : Option Seeding} {seed : Option Seed}
    {a : Seeding} (h : a ∈ wanted params attempt seed) :
    a ∈ attempt ∧ seedingDue params seed = true := by
  unfold wanted at h
  split at h
  · next hdue => exact ⟨h, hdue⟩
  · cases h

theorem not_due_of_done {params : Params} {seed : Seed} (h : seed.isDone = true) :
    seedingDue params (some seed) = false := by
  cases seed with
  | done points attempts start => exact Bool.and_false _
  | _ => cases h

/-- What a run writes follows the row that it read. -/
theorem judge_write {input : Input} {attempt : Option Seeding} {row : Option Baseline}
    {payload : Baseline} (hrow : Increasing Observation.ts (held metric signature row))
    (hattempt : ∀ a ∈ attempt, Increasing Observation.ts a.points)
    (h : (judge metric signature input attempt row).write = some payload) :
    Increasing Observation.ts (held metric signature (some payload)) ∧
      Keeps metric signature row (some payload) := by
  simp only [judge] at h
  split at h
  · obtain rfl := Option.some.inj h
    have hwanted : ∀ a ∈ wanted input.params attempt (storedSeed metric signature row),
        Increasing Observation.ts a.points := fun a ha => hattempt a (wanted_subset ha).1
    have hseeded : Increasing Observation.ts (seededPoints (held metric signature row)
        (input.period signature)
        (wanted input.params attempt (storedSeed metric signature row))) :=
      increasing_seededPoints hrow hwanted
    have hpoints := increasing_recorded hseeded (input.period signature) input.value
    have hheld := loadObservations_dump metric signature
    refine ⟨by rw [held, hheld]; exact hpoints.newest _, ?_, ?_, ?_⟩
    · intro o ho
      rw [held, hheld]
      apply hpoints.newest_or_older
      rw [mem_byDate]
      split
      · exact mem_seededPoints ho
      · exact List.mem_append_left _ (mem_seededPoints ho)
    · intro o ho p hp hts
      rw [held, hheld] at hp
      refine hpoints.eq_of_date (mem_of_mem_newest hp) ?_ hts
      rw [mem_byDate]
      split
      · exact mem_seededPoints ho
      · exact List.mem_append_left _ (mem_seededPoints ho)
    · intro seed hseed hdone
      rw [storedSeed_dump, hseed]
      have hnone : wanted input.params attempt (some seed) = none := by
        rw [wanted, not_due_of_done hdone, if_neg Bool.false_ne_true]
      rw [hnone]
      simp [seededReport]
  · cases h

theorem judge_before {input : Input} {attempt : Option Seeding} {row : Option Baseline}
    {o : Observation} (h : o ∈ (judge metric signature input attempt row).compared) :
    o.ts < (judge metric signature input attempt row).period := by
  have hearlier : ∀ points : List Observation, ∀ o ∈ points.filter fun o =>
      o.ts < input.period signature, o.ts < input.period signature := by
    intro points o ho
    simpa using (List.mem_filter.mp ho).2
  obtain hprior | hday := List.mem_append.mp h
  · have hmem := mem_of_mem_newest hprior
    split at hmem
    · exact hearlier _ o (List.mem_filter.mp hmem).1
    · exact hearlier _ o hmem
  · simp only [judge] at hday
    split at hday
    · exact hearlier _ o hday
    · cases hday

/-! ## Runs that interleave -/

variable {ι : Type} [DecidableEq ι]

variable (metric signature) in
/-- What is true of every world that runs lead to. A run that holds the lock writes what follows the
row as it is; a first row is written only where none is. -/
structure Sound (w : World ι) : Prop where
  ordered : Increasing Observation.ts (held metric signature w.store.row)
  locked : ∀ i v, w.session i = .judged v true →
    w.store.locked = true ∧ w.store.row.isSome = true
  alone : ∀ i j v v', w.session i = .judged v true → w.session j = .judged v' true → i = j
  attempts : ∀ i input attempt, w.session i = .peeked input attempt →
    ∀ a ∈ attempt, Increasing Observation.ts a.points
  follows : ∀ i v, w.session i = .judged v true → ∀ payload, v.write = some payload →
    Increasing Observation.ts (held metric signature (some payload)) ∧
      Keeps metric signature w.store.row (some payload)
  first : ∀ i v, w.session i = .judged v false → ∀ payload, v.write = some payload →
    Increasing Observation.ts (held metric signature (some payload))
  before : ∀ i v holds, w.session i = .judged v holds → ∀ o ∈ v.compared, o.ts < v.period

variable (metric signature) in
/-- One act, and what it leaves of the row. -/
structure Advances (before after : World ι) : Prop where
  sound : Sound metric signature after
  keeps : Keeps metric signature before.store.row after.store.row

omit [DecidableEq ι] in
theorem Sound.start {row : Option Baseline}
    (h : Increasing Observation.ts (held metric signature row)) :
    Sound metric signature (start row : World ι) where
  ordered := h
  locked := fun _ _ => Stage.noConfusion
  alone := fun _ _ _ _ => Stage.noConfusion
  attempts := fun _ _ _ => Stage.noConfusion
  follows := fun _ _ => Stage.noConfusion
  first := fun _ _ => Stage.noConfusion
  before := fun _ _ _ => Stage.noConfusion

theorem keeps_of_unheld {before after : Option Baseline}
    (hpoints : held metric signature before = [])
    (hseed : storedSeed metric signature before = none) : Keeps metric signature before after where
  kept := fun o ho => by rw [hpoints] at ho; cases ho
  unreplaced := fun o ho => by rw [hpoints] at ho; cases ho
  seed := fun seed h => by rw [hseed] at h; cases h

/-- A session that looks at the row, or leaves it alone, changes nothing of the others. -/
theorem Sound.put_same {w : World ι} (h : Sound metric signature w) {i : ι} {stage : Stage}
    (hjudged : ∀ v holds, stage = .judged v holds → holds = false ∧
      (∀ payload, v.write = some payload →
        Increasing Observation.ts (held metric signature (some payload))) ∧
      ∀ o ∈ v.compared, o.ts < v.period)
    (hpeeked : ∀ input attempt, stage = .peeked input attempt →
      ∀ a ∈ attempt, Increasing Observation.ts a.points) :
    Sound metric signature (w.put i (w.store, stage)) := by
  have hholder : ∀ j v, (w.put i (w.store, stage)).session j = .judged v true →
      w.session j = .judged v true := by
    intro j v hj
    obtain ⟨_, heq⟩ | ⟨_, hother⟩ := Config.put_session_cases hj
    · cases (hjudged v true heq).1
    · exact hother
  refine ⟨h.ordered, fun j v hj => h.locked j v (hholder j v hj), ?_, ?_,
    fun j v hj => h.follows j v (hholder j v hj), ?_, ?_⟩
  · intro j k v v' hj hk
    exact h.alone j k v v' (hholder j v hj) (hholder k v' hk)
  · intro j input attempt hj
    obtain ⟨_, heq⟩ | ⟨_, hother⟩ := Config.put_session_cases hj
    · exact hpeeked input attempt heq
    · exact h.attempts j input attempt hother
  · intro j v hj
    obtain ⟨_, heq⟩ | ⟨_, hother⟩ := Config.put_session_cases hj
    · exact (hjudged v false heq).2.1
    · exact h.first j v hother
  · intro j v holds hj
    obtain ⟨_, heq⟩ | ⟨_, hother⟩ := Config.put_session_cases hj
    · exact (hjudged v holds heq).2.2
    · exact h.before j v holds hother

/-- A session takes the lock with its verdict. -/
theorem Sound.put_locked {w : World ι} (h : Sound metric signature w) {i : ι} {v : Verdict}
    (hfree : w.store.locked = false) (hrow : w.store.row.isSome = true)
    (hfollows : ∀ payload, v.write = some payload →
      Increasing Observation.ts (held metric signature (some payload)) ∧
        Keeps metric signature w.store.row (some payload))
    (hbefore : ∀ o ∈ v.compared, o.ts < v.period) :
    Sound metric signature (w.put i ({ w.store with locked := true }, .judged v true)) := by
  have hnone : ∀ j v', w.session j ≠ .judged v' true := by
    intro j v' hj
    rw [(h.locked j v' hj).1] at hfree
    cases hfree
  refine ⟨h.ordered, fun _ _ _ => ⟨rfl, hrow⟩, ?_, ?_, ?_, ?_, ?_⟩
  · intro j k v₁ v₂ hj hk
    obtain ⟨rfl, _⟩ | ⟨_, hj⟩ := Config.put_session_cases hj
    · obtain ⟨rfl, _⟩ | ⟨_, hk⟩ := Config.put_session_cases hk
      · rfl
      · exact absurd hk (hnone k v₂)
    · exact absurd hj (hnone j v₁)
  · intro j input attempt hj
    obtain ⟨_, heq⟩ | ⟨_, hj⟩ := Config.put_session_cases hj
    · cases heq
    · exact h.attempts j input attempt hj
  · intro j v' hj
    obtain ⟨_, heq⟩ | ⟨_, hj⟩ := Config.put_session_cases hj
    · obtain ⟨rfl, _⟩ := Stage.judged.inj heq
      exact hfollows
    · exact absurd hj (hnone j v')
  · intro j v' hj
    obtain ⟨_, heq⟩ | ⟨_, hj⟩ := Config.put_session_cases hj
    · cases heq
    · exact h.first j v' hj
  · intro j v' holds hj
    obtain ⟨_, heq⟩ | ⟨_, hj⟩ := Config.put_session_cases hj
    · obtain ⟨rfl, _⟩ := Stage.judged.inj heq
      exact hbefore
    · exact h.before j v' holds hj

/-- A transaction ends; a session that holds the lock still has its row. -/
theorem Sound.put_idle {w : World ι} (h : Sound metric signature w) {i : ι} {store : Store}
    (hordered : Increasing Observation.ts (held metric signature store.row))
    (hothers : ∀ j v, j ≠ i → w.session j = .judged v true → store = w.store) :
    Sound metric signature (w.put i (store, .idle)) := by
  refine ⟨hordered, ?_, ?_, ?_, ?_, ?_, ?_⟩
  · intro j v hj
    obtain ⟨_, heq⟩ | ⟨hne, hj⟩ := Config.put_session_cases hj
    · cases heq
    · rw [Config.put_store, hothers j v hne hj]
      exact h.locked j v hj
  · intro j k v v' hj hk
    obtain ⟨_, heq⟩ | ⟨_, hj⟩ := Config.put_session_cases hj
    · cases heq
    · obtain ⟨_, heq⟩ | ⟨_, hk⟩ := Config.put_session_cases hk
      · cases heq
      · exact h.alone j k v v' hj hk
  · intro j input attempt hj
    obtain ⟨_, heq⟩ | ⟨_, hj⟩ := Config.put_session_cases hj
    · cases heq
    · exact h.attempts j input attempt hj
  · intro j v hj
    obtain ⟨_, heq⟩ | ⟨hne, hj⟩ := Config.put_session_cases hj
    · cases heq
    · rw [Config.put_store, hothers j v hne hj]
      exact h.follows j v hj
  · intro j v hj
    obtain ⟨_, heq⟩ | ⟨_, hj⟩ := Config.put_session_cases hj
    · cases heq
    · exact h.first j v hj
  · intro j v holds hj
    obtain ⟨_, heq⟩ | ⟨_, hj⟩ := Config.put_session_cases hj
    · cases heq
    · exact h.before j v holds hj

/-! One lemma for each act. -/

theorem Sound.peek {w w' : World ι} (h : Sound metric signature w) {i : ι} {input : Input}
    (hstep : step (act metric signature) w (i, .peek input) = some w') :
    Advances metric signature w w' := by
  obtain ⟨r, hact, rfl⟩ := step_eq_some.mp hstep
  cases hstage : w.session i with
  | judged v holds => simp [act, hstage] at hact
  | peeked input' attempt => simp [act, hstage] at hact
  | idle =>
    simp only [act, hstage] at hact
    cases hact
    refine ⟨h.put_same (fun _ _ => Stage.noConfusion) ?_, Keeps.refl h.ordered⟩
    intro input' attempt heq a ha
    obtain ⟨rfl, rfl⟩ := Stage.peeked.inj heq
    simp only [attemptOf] at ha
    split at ha
    · obtain rfl := Option.some.inj ha
      exact seeding_increasing _ _ _
    · cases ha

theorem Sound.judge {w w' : World ι} (h : Sound metric signature w) {i : ι}
    (hstep : step (act metric signature) w (i, .judge) = some w') :
    Advances metric signature w w' := by
  obtain ⟨r, hact, rfl⟩ := step_eq_some.mp hstep
  cases hstage : w.session i with
  | idle => simp [act, hstage] at hact
  | judged v holds => simp [act, hstage] at hact
  | peeked input attempt =>
    have hattempt := h.attempts i input attempt hstage
    simp only [act, hstage] at hact
    split at hact
    · next hlocks =>
      split at hact
      · cases hact
      · next hfree =>
        cases hact
        refine ⟨h.put_locked (by simpa using hfree) (Bool.and_eq_true_iff.mp hlocks).2 ?_ ?_,
          Keeps.refl h.ordered⟩
        · exact fun payload hwrite => judge_write h.ordered hattempt hwrite
        · exact fun o ho => judge_before ho
    · cases hact
      refine ⟨h.put_same ?_ fun _ _ => Stage.noConfusion, Keeps.refl h.ordered⟩
      intro v holds heq
      obtain ⟨rfl, rfl⟩ := Stage.judged.inj heq
      exact ⟨rfl, fun payload hwrite => (judge_write h.ordered hattempt hwrite).1,
        fun o ho => judge_before ho⟩

theorem Sound.finish {w w' : World ι} (h : Sound metric signature w) {i : ι} {commit : Bool}
    (hstep : step (act metric signature) w (i, .finish commit) = some w') :
    Advances metric signature w w' := by
  obtain ⟨r, hact, rfl⟩ := step_eq_some.mp hstep
  cases hstage : w.session i with
  | idle => simp [act, hstage] at hact
  | peeked input attempt => simp [act, hstage] at hact
  | judged v holds =>
    simp only [act, hstage] at hact
    split at hact
    · next hholds =>
      obtain rfl : holds = true := hholds
      cases hact
      have hrow : Increasing Observation.ts (held metric signature
            (if commit then v.write.or w.store.row else w.store.row)) ∧
          Keeps metric signature w.store.row
            (if commit then v.write.or w.store.row else w.store.row) := by
        cases commit with
        | false => exact ⟨h.ordered, Keeps.refl h.ordered⟩
        | true =>
          cases hwrite : v.write with
          | none => exact ⟨h.ordered, Keeps.refl h.ordered⟩
          | some payload => exact h.follows i v hstage payload hwrite
      refine ⟨h.put_idle hrow.1 ?_, hrow.2⟩
      intro j v' hne hj
      exact absurd (h.alone j i v' v hj hstage) hne
    · next hholds =>
      obtain rfl : holds = false := by simpa using hholds
      cases hact
      cases commit with
      | false => exact ⟨h.put_idle h.ordered fun _ _ _ _ => rfl, Keeps.refl h.ordered⟩
      | true =>
        cases hrow : w.store.row with
        | some payload =>
          have hsame : ({ w.store with row := w.store.row } : Store) = w.store := rfl
          simp only [if_true, Option.some_or]
          rw [← hrow, hsame]
          exact ⟨h.put_idle h.ordered fun _ _ _ _ => rfl, Keeps.refl h.ordered⟩
        | none =>
          simp only [if_true, Option.none_or]
          have hnone : ∀ j v', w.session j ≠ .judged v' true := by
            intro j v' hj
            have hsome := (h.locked j v' hj).2
            rw [hrow] at hsome
            cases hsome
          have hordered : Increasing Observation.ts (held metric signature v.write) := by
            cases hwrite : v.write with
            | none => exact List.Pairwise.nil
            | some payload => exact h.first i v hstage payload hwrite
          refine ⟨h.put_idle hordered fun j v' _ hj => absurd hj (hnone j v'), ?_⟩
          rw [hrow]
          exact keeps_of_unheld rfl rfl

theorem Sound.step {w w' : World ι} {e : ι × Act} (h : Sound metric signature w)
    (hstep : step (act metric signature) w e = some w') : Advances metric signature w w' := by
  obtain ⟨i, _ | _ | _⟩ := e
  · exact h.peek hstep
  · exact h.judge hstep
  · exact h.finish hstep

/-- For every sequence of steps of any runs, with any settings: each period at most once and in
order; what is recorded stays as it is until it is the oldest and cut off; a seeding that was done
stays; every run is judged by earlier periods only. -/
theorem baseline_well_formed (metric : Text) (signature : Signature) (row : Option Baseline)
    (hrow : Increasing Observation.ts (held metric signature row)) (events : List (ι × Act)) :
    Meets (Interleaving.step (act metric signature)) (fun w e => ∀ w',
      Interleaving.step (act metric signature) w e = some w' →
        Increasing Observation.ts (held metric signature w'.store.row) ∧
        Keeps metric signature w.store.row w'.store.row ∧
        ∀ i v holds, w'.session i = .judged v holds → ∀ o ∈ v.compared, o.ts < v.period)
      (start row : World ι) events := by
  apply Meets.of_invariant (I := Sound metric signature) (G := fun _ _ => True)
  · intro w e w' h _ hstep
    exact (h.step hstep).sound
  · intro w e h _ w' hstep
    obtain ⟨hsound, hkeeps⟩ := h.step hstep
    exact ⟨hsound.ordered, hkeeps, hsound.before⟩
  · exact Sound.start hrow
  · exact meets_of_forall (fun _ _ => trivial) _ _

/-- Two runs of a new check that both scan the past, the second once the first has written. -/
theorem baseline_well_formed_two_runs :
    let signature : Signature := ⟨"day".toList, .day, none⟩
    let metric : Text := "period_rows".toList
    let params : Params := ⟨8, true, false, true, true⟩
    let first : Input := ⟨params, 100, 7, .ok [(96, 1), (98, 5)], true⟩
    let second : Input := ⟨params, 99, 6, .ok [(96, 1), (97, 2), (98, 5)], true⟩
    Increasing Observation.ts (held metric signature none) ∧
    Meets (Interleaving.step (act metric signature)) (fun w e => ∀ w',
      Interleaving.step (act metric signature) w e = some w' →
        Increasing Observation.ts (held metric signature w'.store.row) ∧
        Keeps metric signature w.store.row w'.store.row ∧
        ∀ i v holds, w'.session i = .judged v holds → ∀ o ∈ v.compared, o.ts < v.period)
      (start none : World Bool)
      [(false, .peek first), (true, .peek second), (false, .judge), (false, .finish true),
        (true, .judge), (true, .finish true)] := by
  intro signature metric params first second
  have hnone : Increasing Observation.ts (held metric signature none) := List.Pairwise.nil
  exact ⟨hnone, baseline_well_formed metric signature none hnone _⟩

end DataQ.Anomaly
