import DataQ.Alerts.HealthTasks

/-! # Delivered edges alternate

While every edge is delivered in its turn, and a claim is released only where the connection is
still as the claim left it. -/

namespace DataQ.HealthAlerts
open DataQ.Pool DataQ.Transition
set_option autoImplicit false

/-- The edge that follows that many. -/
def due (n : ℕ) : HealthState := if n % 2 = 0 then .failing else .recovered

def Alternates (delivered : List HealthState) : Prop :=
  ∀ i edge, delivered[i]? = some edge → edge = due i

def Stage.inProgress : Stage → Bool
  | .looked _ => true
  | .claimed _ _ => true
  | _ => false

/-- `health_alerted_at` is set if and only if the last delivered edge is failing. -/
def Agrees (row : Row) : Prop :=
  row.healthAlertedAt ≠ none ↔ row.delivered.getLast? = some .failing

instance (row : Row) : Decidable (Agrees row) := inferInstanceAs (Decidable (_ ↔ _))

structure Alternating (w : World) : Prop where
  alternates : Alternates w.store.delivered
  agrees : (∀ stage ∈ w.tasks, stage.inProgress = false) → Agrees w.store

/-! ## Claims taken back -/

def flag (healthAlertedAt : Option ℕ) : ℤ := if healthAlertedAt = none then 0 else 1

/-- What a claim in progress has changed of the flag. -/
def Stage.claim : Stage → ℤ
  | .claimed .failing _ => 1
  | .claimed .recovered _ => -1
  | _ => 0

/-- The flag with the claims in progress taken back: one if an alert stands. -/
def standing (w : World) : ℤ := flag w.store.healthAlertedAt - tally Stage.claim w.tasks

/-- How the holder of a claim goes on in its turn: a failing edge is delivered when no alert stands,
and a recovered one when one does; the claim is released when the flag is as the claim left it, and
to the state that was before; it is not left behind by an exception. -/
def HolderInTurn (w : World) : HealthState → Option ℕ → Act → Prop
  | .failing, _, .deliver => standing w = 0
  | .recovered, _, .deliver => standing w = 1
  | .failing, _, .release => w.store.healthAlertedAt ≠ none
  | .recovered, previous, .release => w.store.healthAlertedAt = none ∧ previous ≠ none
  | _, _, .raise => False
  | _, _, _ => True

instance (w : World) (edge : HealthState) (previous : Option ℕ) (a : Act) :
    Decidable (HolderInTurn w edge previous a) := by
  cases edge <;> cases a <;> simp only [HolderInTurn] <;> infer_instance

/-- The tasks that hold no claim go on as they like. -/
def InTurn (w : World) : Event → Prop
  | .task i a => ∀ edge previous, w.tasks[i]? = some (.claimed edge previous) →
      HolderInTurn w edge previous a
  | _ => True

/-- The delivered edges alternate, and the last of them says whether an alert stands. -/
structure Sound (w : World) : Prop where
  alternates : Alternates w.store.delivered
  standing : standing w = (w.store.delivered.length % 2 : ℕ)

@[simp] theorem flag_none : flag none = 0 := rfl

@[simp] theorem flag_some (claimedAt : ℕ) : flag (some claimedAt) = 1 := rfl

theorem flag_of_ne_none {healthAlertedAt : Option ℕ} (h : healthAlertedAt ≠ none) :
    flag healthAlertedAt = 1 := if_neg h

theorem flag_eq_one_iff {healthAlertedAt : Option ℕ} :
    flag healthAlertedAt = 1 ↔ healthAlertedAt ≠ none := by
  unfold flag
  split <;> simp_all

theorem due_failing_iff {n : ℕ} : HealthState.failing = due n ↔ n % 2 = 0 := by
  unfold due
  split <;> simp_all

theorem due_recovered_iff {n : ℕ} : HealthState.recovered = due n ↔ n % 2 = 1 := by
  unfold due
  split <;> simp_all

theorem alternates_concat {delivered : List HealthState} {edge : HealthState} :
    Alternates (delivered ++ [edge]) ↔ Alternates delivered ∧ edge = due delivered.length := by
  constructor
  · intro h
    refine ⟨fun i e hi => h i e ?_, h delivered.length edge (by simp)⟩
    have hlt : i < delivered.length := (List.getElem?_eq_some_iff.mp hi).1
    rw [List.getElem?_append_left hlt]
    exact hi
  · rintro ⟨h, hedge⟩ i e hi
    by_cases hlt : i < delivered.length
    · rw [List.getElem?_append_left hlt] at hi
      exact h i e hi
    · have hlen := (List.getElem?_eq_some_iff.mp hi).1
      rw [List.length_append, List.length_singleton] at hlen
      have hi' : i = delivered.length := by omega
      subst hi'
      have he : edge = e := by simpa using hi
      rw [← he, hedge]

theorem getLast?_of_alternates {delivered : List HealthState} (h : Alternates delivered) :
    delivered.getLast? = some .failing ↔ delivered.length % 2 = 1 := by
  obtain rfl | ⟨earlier, edge, rfl⟩ := List.eq_nil_or_concat' delivered
  · simp
  · have hedge := (alternates_concat.mp h).2
    rw [List.getLast?_concat, List.length_append, List.length_singleton, Option.some.injEq, hedge,
      eq_comm, due_failing_iff]
    omega

/-! ## One step -/

theorem standing_add (w : World) (state : Text) :
    standing (w.add (.queued state)) = standing w := by
  simp [standing, Pool.add, Stage.claim]

/-- The flag after a statement of one task, with the claims in progress taken back. -/
theorem standing_set {w : World} {i : ℕ} {stage : Stage} (h : w.tasks[i]? = some stage)
    (row : Row) (stage' : Stage) :
    standing ⟨row, w.tasks.set i stage'⟩ =
      standing w + (flag row.healthAlertedAt - flag w.store.healthAlertedAt) +
        (stage.claim - stage'.claim) := by
  simp only [standing, tally_set Stage.claim h]
  omega

theorem inTurn_iff_of_claimed {w : World} {i : ℕ} {edge : HealthState} {previous : Option ℕ}
    {a : Act} (h : w.tasks[i]? = some (.claimed edge previous)) :
    InTurn w (.task i a) ↔ HolderInTurn w edge previous a := by
  constructor
  · intro hturn
    exact hturn edge previous h
  · intro hturn edge' previous' h'
    rw [h, Option.some.injEq, Stage.claimed.injEq] at h'
    obtain ⟨rfl, rfl⟩ := h'
    exact hturn

theorem inTurn_of_not_claimed {w : World} {i : ℕ} {stage : Stage} {a : Act}
    (h : w.tasks[i]? = some stage) (hstage : ∀ edge previous, stage ≠ .claimed edge previous) :
    InTurn w (.task i a) := by
  intro edge previous hclaimed
  have heq : stage = .claimed edge previous := Option.some.inj (h.symm.trans hclaimed)
  exact absurd heq (hstage edge previous)

instance decidableInTurn (w : World) : ∀ e, Decidable (InTurn w e)
  | .sweep _ _ _ => .isTrue trivial
  | .message _ => .isTrue trivial
  | .task i a =>
    match h : w.tasks[i]? with
    | some (.claimed _ _) => decidable_of_iff _ (inTurn_iff_of_claimed h).symm
    | some (.queued _) => .isTrue fun _ _ hc => by simp [h] at hc
    | some (.looked _) => .isTrue fun _ _ hc => by simp [h] at hc
    | some .done => .isTrue fun _ _ hc => by simp [h] at hc
    | none => .isTrue fun _ _ hc => by simp [h] at hc

theorem claim_of_not_claimed {stage : Stage}
    (h : ∀ edge previous, stage ≠ .claimed edge previous) : stage.claim = 0 := by
  cases stage with
  | claimed edge previous => exact absurd rfl (h edge previous)
  | queued | looked | done => rfl

theorem sound_deliver_iff {w : World} (hw : Sound w) {i : ℕ} {edge : HealthState}
    {previous : Option ℕ} (h : w.tasks[i]? = some (.claimed edge previous)) :
    Sound ⟨{ w.store with delivered := w.store.delivered ++ [edge] }, w.tasks.set i .done⟩ ↔
      InTurn w (.task i .deliver) := by
  have hset := standing_set h { w.store with delivered := w.store.delivered ++ [edge] } .done
  have hlen : (w.store.delivered ++ [edge]).length = w.store.delivered.length + 1 := by simp
  have hnow := hw.standing
  rw [inTurn_iff_of_claimed h]
  cases edge with
  | failing =>
    simp only [HolderInTurn]
    constructor
    · intro hs
      have hturn := due_failing_iff.mp (alternates_concat.mp hs.alternates).2
      omega
    · intro hturn
      have heven : w.store.delivered.length % 2 = 0 := by omega
      refine ⟨alternates_concat.mpr ⟨hw.alternates, due_failing_iff.mpr heven⟩, ?_⟩
      rw [hset, hlen]
      simp only [Stage.claim]
      omega
  | recovered =>
    simp only [HolderInTurn]
    constructor
    · intro hs
      have hturn := due_recovered_iff.mp (alternates_concat.mp hs.alternates).2
      omega
    · intro hturn
      have hodd : w.store.delivered.length % 2 = 1 := by omega
      refine ⟨alternates_concat.mpr ⟨hw.alternates, due_recovered_iff.mpr hodd⟩, ?_⟩
      rw [hset, hlen]
      simp only [Stage.claim]
      omega

theorem sound_release_iff {w : World} (hw : Sound w) {i : ℕ} {edge : HealthState}
    {previous : Option ℕ} (h : w.tasks[i]? = some (.claimed edge previous)) :
    Sound ⟨{ w.store with healthAlertedAt := edge.unclaimed previous }, w.tasks.set i .done⟩ ↔
      InTurn w (.task i .release) := by
  have hset := standing_set h { w.store with healthAlertedAt := edge.unclaimed previous } .done
  have hnow := hw.standing
  have hiff : Sound ⟨{ w.store with healthAlertedAt := edge.unclaimed previous },
      w.tasks.set i .done⟩ ↔
      flag (edge.unclaimed previous) + (Stage.claimed edge previous).claim =
        flag w.store.healthAlertedAt := by
    constructor
    · intro hs
      have hthen := hs.standing
      simp only [Stage.claim] at hset hthen ⊢
      omega
    · intro hflag
      refine ⟨hw.alternates, ?_⟩
      rw [hset]
      simp only [Stage.claim] at hflag ⊢
      omega
  rw [hiff, inTurn_iff_of_claimed h]
  cases edge with
  | failing =>
    simp only [HolderInTurn, HealthState.unclaimed, Stage.claim, flag_none, zero_add]
    rw [eq_comm, flag_eq_one_iff]
  | recovered =>
    simp only [HolderInTurn, HealthState.unclaimed, Stage.claim]
    cases hf : w.store.healthAlertedAt <;> cases previous <;> simp

theorem not_sound_raise {w : World} (hw : Sound w) {i : ℕ} {edge : HealthState}
    {previous : Option ℕ} (h : w.tasks[i]? = some (.claimed edge previous)) :
    ¬Sound ⟨w.store, w.tasks.set i .done⟩ := by
  intro hs
  have hset := standing_set h w.store .done
  have hnow := hw.standing
  have hthen : standing _ = ((w.store.delivered.length % 2 : ℕ) : ℤ) := hs.standing
  cases edge <;> simp only [Stage.claim] at hset <;> omega

/-- A step keeps a sound world sound if and only if it is in its turn. -/
theorem sound_step_iff {threshold : ℤ} {w w' : World} {e : Event} (hw : Sound w)
    (h : step threshold w e = some w') : Sound w' ↔ InTurn w e := by
  have hadd : ∀ state, Sound (w.add (.queued state)) :=
    fun state => ⟨hw.alternates, by rw [standing_add]; exact hw.standing⟩
  cases e with
  | message state =>
    have hw' : w.add (.queued state) = w' := by simpa [step] using h
    subst hw'
    exact iff_of_true (hadd state) trivial
  | sweep streak recovered sent =>
    refine iff_of_true ?_ trivial
    simp only [step] at h
    split at h
    · have hw' := Option.some.inj h
      exact hw' ▸ hadd _
    · have hw' := Option.some.inj h
      exact hw' ▸ hw
  | task i a =>
    obtain ⟨stage, ⟨row', stage'⟩, hstage, hact, rfl⟩ := perform_eq_some.mp h
    have hset := standing_set hstage row' stage'
    have hnow := hw.standing
    simp only at hact ⊢
    obtain ⟨rfl, hfree, hfree'⟩ | ⟨claimedAt, state, rfl, rfl, hflag, rfl, rfl⟩ |
      ⟨claimedAt, previous, rfl, rfl, hflag, rfl, rfl⟩ |
      ⟨edge, previous, rfl, rfl, ⟨rfl, rfl⟩ | ⟨rfl, rfl⟩ | ⟨rfl, rfl⟩⟩ := act_cases hact
    · refine iff_of_true ⟨hw.alternates, ?_⟩ (inTurn_of_not_claimed hstage hfree)
      simp only [hset, claim_of_not_claimed hfree, claim_of_not_claimed hfree']
      omega
    · refine iff_of_true ⟨hw.alternates, ?_⟩ (inTurn_of_not_claimed hstage (by simp))
      rw [hset, hflag]
      simp only [Stage.claim, flag_none, flag_some]
      omega
    · refine iff_of_true ⟨hw.alternates, ?_⟩ (inTurn_of_not_claimed hstage (by simp))
      rw [hset, flag_of_ne_none hflag]
      simp only [Stage.claim, flag_none]
      omega
    · exact sound_deliver_iff hw hstage
    · exact sound_release_iff hw hstage
    · refine iff_of_false (not_sound_raise hw hstage) ?_
      rw [inTurn_iff_of_claimed hstage]
      cases edge <;> exact id

theorem flag_le_one (healthAlertedAt : Option ℕ) :
    0 ≤ flag healthAlertedAt ∧ flag healthAlertedAt ≤ 1 := by
  unfold flag
  split <;> simp

/-- A task that alone holds a claim goes on in its turn, unless it raises or was claimed without
having read the alert. -/
theorem inTurn_of_alone {w : World} (hw : Sound w) {i : ℕ} {edge : HealthState}
    {previous : Option ℕ} (h : w.tasks[i]? = some (.claimed edge previous))
    (halone : ∀ j other, w.tasks[j]? = some other → j ≠ i →
      ∀ edge' previous', other ≠ .claimed edge' previous')
    {a : Act} (hraise : a ≠ .raise) (hread : edge = .recovered → previous ≠ none) :
    InTurn w (.task i a) := by
  have htally : tally Stage.claim w.tasks = (Stage.claimed edge previous).claim :=
    tally_eq_of_alone Stage.claim h fun j other hj hne =>
      claim_of_not_claimed (halone j other hj hne)
  have hnow := hw.standing
  have hflag := flag_le_one w.store.healthAlertedAt
  rw [standing, htally] at hnow
  rw [inTurn_iff_of_claimed h]
  cases edge with
  | failing =>
    simp only [Stage.claim] at htally hnow
    have hset : flag w.store.healthAlertedAt = 1 := by omega
    cases a with
    | deliver =>
      show standing w = 0
      rw [standing, htally]
      omega
    | release => exact flag_eq_one_iff.mp hset
    | raise => exact absurd rfl hraise
    | refuse | look | claim => trivial
  | recovered =>
    simp only [Stage.claim] at htally hnow
    have hclear : flag w.store.healthAlertedAt = 0 := by omega
    cases a with
    | deliver =>
      show standing w = 1
      rw [standing, htally]
      omega
    | release =>
      refine ⟨?_, hread rfl⟩
      by_contra hset
      rw [flag_of_ne_none hset] at hclear
      omega
    | raise => exact absurd rfl hraise
    | refuse | look | claim => trivial

/-! ## Runs -/

theorem sound_start : Sound start := ⟨fun i edge h => by simp [start] at h, rfl⟩

theorem tally_claim_eq_zero {tasks : List Stage}
    (h : ∀ stage ∈ tasks, stage.inProgress = false) : tally Stage.claim tasks = 0 := by
  apply tally_eq_zero
  intro stage hstage
  have hidle := h stage hstage
  cases stage with
  | claimed edge previous => simp [Stage.inProgress] at hidle
  | queued | looked | done => rfl

theorem agrees_iff_of_idle {w : World} (halt : Alternates w.store.delivered)
    (hidle : ∀ stage ∈ w.tasks, stage.inProgress = false) :
    Agrees w.store ↔ standing w = (w.store.delivered.length % 2 : ℕ) := by
  have hstanding : standing w = flag w.store.healthAlertedAt := by
    rw [standing, tally_claim_eq_zero hidle, sub_zero]
  have hset : flag w.store.healthAlertedAt = 1 ↔ w.store.healthAlertedAt ≠ none :=
    flag_eq_one_iff
  rw [hstanding, Agrees, getLast?_of_alternates halt, ← hset]
  have hflag := flag_le_one w.store.healthAlertedAt
  omega

theorem Sound.alternating {w : World} (hw : Sound w) : Alternating w :=
  ⟨hw.alternates, fun hidle => (agrees_iff_of_idle hw.alternates hidle).mpr hw.standing⟩

theorem sound_of_meets {threshold : ℤ} {w w' : World} {es : List Event} (hw : Sound w)
    (hmeets : Meets (step threshold) InTurn w es) (hrun : run (step threshold) w es = some w') :
    Sound w' :=
  run_invariant (fun _ _ _ hs he h => (sound_step_iff hs h).mpr he) hw hmeets hrun

/-- In a run of any number of tasks whose steps are in turn, the delivered edges alternate, and with
no task in progress `health_alerted_at` says which was the last. -/
theorem delivered_edges_alternate (threshold : ℤ) (es : List Event) (w : World)
    (hmeets : Meets (step threshold) InTurn start es)
    (hrun : run (step threshold) start es = some w) : Alternating w :=
  (sound_of_meets sound_start hmeets hrun).alternating

/-- A slow failing task: the recovered edge goes out before it. -/
def overtaken : List Event :=
  [.sweep 3 false true, .task 0 (.claim 1), .sweep 0 true true, .task 1 .look, .task 1 (.claim 2),
    .task 1 .deliver, .task 0 .deliver]

theorem overtaken_run : (run (step 3) start overtaken).map (fun w => (w.store, w.tasks)) =
    some (⟨none, [.recovered, .failing]⟩, [.done, .done]) := by decide

theorem recovered_before_failing :
    ¬∀ threshold es w, run (step threshold) start es = some w → Alternating w := by
  intro h
  obtain ⟨w, hrun, hw⟩ := Option.map_eq_some_iff.mp overtaken_run
  have hfirst := (h 3 overtaken w hrun).alternates 0 .recovered
  rw [(Prod.mk.inj hw).1] at hfirst
  exact absurd (hfirst rfl) (by decide)

/-- Two sweeps queue the same edge, a delivery fails, the edge is tried again, and recovers. -/
def twoSweeps : List Event :=
  [.sweep 3 false true, .sweep 4 false true, .task 0 (.claim 1), .task 1 (.claim 2),
    .task 0 .release, .sweep 5 false true, .task 2 (.claim 3), .task 2 .deliver,
    .sweep 0 true true, .task 3 .look, .task 3 (.claim 4), .task 3 .release, .sweep 0 true true,
    .task 4 .look, .task 4 (.claim 5), .task 4 .deliver]

theorem delivered_edges_alternate_two_sweeps :
    ((run (step 3) start twoSweeps).map fun w => w.store.delivered) =
        some [.failing, .recovered] ∧
      ∀ w, run (step 3) start twoSweeps = some w → Alternating w :=
  ⟨by decide, fun w hrun =>
    delivered_edges_alternate 3 twoSweeps w (by decide) hrun⟩

/-! ## Off turn -/

/-- A delivery that keeps the alternation keeps what is out of balance. -/
theorem sound_of_deliver {w : World} {i : ℕ} {edge : HealthState} {previous : Option ℕ}
    (h : w.tasks[i]? = some (.claimed edge previous))
    (hs : Sound ⟨{ w.store with delivered := w.store.delivered ++ [edge] }, w.tasks.set i .done⟩) :
    Sound w := by
  have hset := standing_set h { w.store with delivered := w.store.delivered ++ [edge] } .done
  have hlen : (w.store.delivered ++ [edge]).length = w.store.delivered.length + 1 := by simp
  obtain ⟨halt, hedge⟩ := alternates_concat.mp hs.alternates
  have hthen := hs.standing
  rw [hset, hlen] at hthen
  refine ⟨halt, ?_⟩
  cases edge with
  | failing =>
    have heven := due_failing_iff.mp hedge
    simp only [Stage.claim] at hthen
    omega
  | recovered =>
    have hodd := due_recovered_iff.mp hedge
    simp only [Stage.claim] at hthen
    omega

theorem sound_of_raise {w : World} {i : ℕ} {previous : Option ℕ}
    (h : w.tasks[i]? = some (.looked previous)) (hs : Sound ⟨w.store, w.tasks.set i .done⟩) :
    Sound w := by
  have hset := standing_set h w.store .done
  have hthen : standing _ = ((w.store.delivered.length % 2 : ℕ) : ℤ) := hs.standing
  simp only [Stage.claim] at hset
  exact ⟨hs.alternates, by omega⟩

theorem countP_done_lt {tasks : List Stage} {i : ℕ} {stage : Stage} (h : tasks[i]? = some stage)
    (hstage : stage.inProgress = true) :
    (tasks.set i .done).countP Stage.inProgress < tasks.countP Stage.inProgress := by
  obtain ⟨hi, rfl⟩ := List.getElem?_eq_some_iff.mp h
  have hpos : 0 < tasks.countP Stage.inProgress :=
    List.countP_pos_iff.mpr ⟨tasks[i], List.getElem_mem hi, hstage⟩
  have hdone : ¬Stage.inProgress .done = true := by decide
  rw [List.countP_set hi, if_pos hstage, if_neg hdone]
  omega

/-- Once unsound, letting the tasks in progress end is enough to break the alternation. -/
theorem exists_not_alternating (threshold : ℤ) {w : World} (hw : ¬Sound w) :
    ∃ es u, run (step threshold) w es = some u ∧ ¬Alternating u := by
  induction hn : w.tasks.countP Stage.inProgress using Nat.strong_induction_on generalizing w with
  | _ n ih =>
    by_cases halt : Alternates w.store.delivered
    · by_cases hidle : ∀ stage ∈ w.tasks, stage.inProgress = false
      · refine ⟨[], w, rfl, fun h => hw ⟨halt, ?_⟩⟩
        exact (agrees_iff_of_idle halt hidle).mp (h.agrees hidle)
      · simp only [not_forall, Bool.not_eq_false] at hidle
        obtain ⟨stage, hmem, hstage⟩ := hidle
        obtain ⟨i, hi⟩ := List.mem_iff_getElem?.mp hmem
        have hlt := countP_done_lt hi hstage
        rw [hn] at hlt
        cases stage with
        | looked previous =>
          obtain ⟨es, u, hrun, hu⟩ :=
            @ih _ hlt ⟨w.store, w.tasks.set i .done⟩ (fun hs => hw (sound_of_raise hi hs)) rfl
          refine ⟨.task i .raise :: es, u, run_cons_eq_some.mpr ⟨_, ?_, hrun⟩, hu⟩
          exact perform_eq_some.mpr ⟨_, _, hi, rfl, rfl⟩
        | claimed edge previous =>
          obtain ⟨es, u, hrun, hu⟩ :=
            @ih _ hlt ⟨{ w.store with delivered := w.store.delivered ++ [edge] },
              w.tasks.set i .done⟩ (fun hs => hw (sound_of_deliver hi hs)) rfl
          refine ⟨.task i .deliver :: es, u, run_cons_eq_some.mpr ⟨_, ?_, hrun⟩, hu⟩
          exact perform_eq_some.mpr ⟨_, _, hi, rfl, rfl⟩
        | queued | done => simp [Stage.inProgress] at hstage
    · exact ⟨[], w, rfl, fun h => halt h.alternates⟩

/-- After a step off turn, a run that meets the claim so far has a continuation that does not. -/
theorem off_turn_breaks {threshold : ℤ} {es : List Event} {w w' : World} {e : Event}
    (hmeets : Meets (step threshold) InTurn start es)
    (hrun : run (step threshold) start es = some w) (h : step threshold w e = some w')
    (hoff : ¬InTurn w e) : ∃ fs u, run (step threshold) w' fs = some u ∧ ¬Alternating u := by
  have hw := sound_of_meets sound_start hmeets hrun
  exact exists_not_alternating threshold fun hs => hoff ((sound_step_iff hw h).mp hs)

end DataQ.HealthAlerts
