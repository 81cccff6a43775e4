import DataQ.Runs.Attribution
import Mathlib.Data.List.Chain

/-! # A result is read as the check that produced it

While no edit that changes how a check is read starts on one side of a result's transaction and
commits on the other side of its read. -/

namespace DataQ.Attribution
open DataQ.Series DataQ.Interleaving DataQ.Transition
set_option autoImplicit false

/-- The snapshot of the result has the column, the type, the engine and the aggregate that its
outcome was computed with. -/
def Attributed (store : Store) (r : Produced) : Prop :=
  (store.snapshotOf r).reading = r.computedWith.reading

instance (store : Store) (r : Produced) : Decidable (Attributed store r) :=
  inferInstanceAs (Decidable (_ = _))

/-! ## Versions in order -/

/-- Versions from the check's creation to its row. -/
structure Chronicle (versions : List CheckVersion) (row : CheckSource) : Prop where
  increasing : Increasing CheckVersion.createdAt versions
  first : ∃ source rest, versions = ⟨0, source⟩ :: rest
  last : ∃ earlier startedAt, versions = earlier ++ [⟨startedAt, row⟩]

theorem inOrder_of_increasing {versions : List CheckVersion}
    (h : Increasing CheckVersion.createdAt versions) : inOrder versions = versions := by
  apply List.Pairwise.insertionSort_eq
  exact h.imp le_of_lt

/-- The versions of the time are those up to one. -/
theorem exists_split {first : CheckVersion} {rest : List CheckVersion}
    (h : Increasing CheckVersion.createdAt (first :: rest)) {at_ : ℕ} (hfirst : first.createdAt ≤ at_) :
    ∃ before v after, first :: rest = before ++ v :: after ∧ v.createdAt ≤ at_ ∧
      ∀ w ∈ after, at_ < w.createdAt := by
  induction rest generalizing first with
  | nil => exact ⟨[], first, [], rfl, hfirst, fun _ hw => absurd hw List.not_mem_nil⟩
  | cons next rest ih =>
    have hrest := (List.pairwise_cons.mp h).2
    by_cases hnext : next.createdAt ≤ at_
    · obtain ⟨before, v, after, hsplit, hv, hafter⟩ := ih hrest hnext
      exact ⟨first :: before, v, after, by rw [hsplit]; rfl, hv, hafter⟩
    · refine ⟨[], first, next :: rest, rfl, hfirst, fun w hw => ?_⟩
      obtain rfl | hw := List.mem_cons.mp hw
      · omega
      · have := (List.pairwise_cons.mp hrest).1 w hw
        omega

theorem Chronicle.split {versions : List CheckVersion} {row : CheckSource}
    (h : Chronicle versions row) (at_ : ℕ) :
    ∃ before v after, versions = before ++ v :: after ∧ v.createdAt ≤ at_ ∧
      ∀ w ∈ after, at_ < w.createdAt := by
  obtain ⟨source, rest, rfl⟩ := h.first
  exact exists_split h.increasing (Nat.zero_le at_)

theorem before_le {before after : List CheckVersion} {v : CheckVersion}
    (h : Increasing CheckVersion.createdAt (before ++ v :: after)) :
    ∀ w ∈ before, w.createdAt < v.createdAt :=
  fun w hw => (List.pairwise_append.mp h).2.2 w hw v List.mem_cons_self

theorem effectiveVersion_of_split {before after : List CheckVersion} {v : CheckVersion} {at_ : ℕ}
    (h : Increasing CheckVersion.createdAt (before ++ v :: after)) (hv : v.createdAt ≤ at_)
    (hafter : ∀ w ∈ after, at_ < w.createdAt) :
    effectiveVersion (before ++ v :: after) at_ = some v := by
  have hbefore : ∀ w ∈ before, decide (w.createdAt ≤ at_) = true := by
    intro w hw
    have := before_le h w hw
    simp only [decide_eq_true_eq]
    omega
  have hstop : after.takeWhile (fun w => w.createdAt ≤ at_) = [] := by
    cases after with
    | nil => rfl
    | cons w after =>
      rw [List.takeWhile_cons_of_neg]
      simpa using hafter w List.mem_cons_self
  rw [effectiveVersion, List.takeWhile_append_of_pos hbefore,
    List.takeWhile_cons_of_pos (by simpa using hv), hstop, List.getLast?_concat]
  rfl

/-- A result is read as the last version up to its time. -/
theorem snapshotAt_reading {before after : List CheckVersion} {v : CheckVersion} {at_ : ℕ}
    {live : Option CheckSource}
    (h : Increasing CheckVersion.createdAt (before ++ v :: after)) (hv : v.createdAt ≤ at_)
    (hafter : ∀ w ∈ after, at_ < w.createdAt) :
    (snapshotAt (before ++ v :: after) live at_).reading = v.source.reading := by
  unfold snapshotAt
  rw [inOrder_of_increasing h, effectiveVersion_of_split h hv hafter]
  rfl

/-- Along a list whose marked steps keep a value, the last has what the last before them has. -/
theorem map_getLast?_of_isChain {α β : Type} {f : α → β} {p : α → Bool} (earlier later : List α)
    (hearlier : earlier ≠ [])
    (h : (earlier ++ later).IsChain fun a b => p b = true → f b = f a)
    (hlater : ∀ b ∈ later, p b = true) :
    (earlier ++ later).getLast?.map f = earlier.getLast?.map f := by
  induction later generalizing earlier with
  | nil => rw [List.append_nil]
  | cons b later ih =>
    obtain rfl | ⟨initial, a, rfl⟩ := List.eq_nil_or_concat' earlier
    · exact absurd rfl hearlier
    · rw [List.append_assoc] at h
      obtain ⟨_, hstep, _⟩ := List.isChain_append_cons_cons.mp h
      have hrest := ih (initial ++ [a] ++ [b]) (by simp) (by simpa using h)
        fun c hc => hlater c (List.mem_cons_of_mem _ hc)
      rw [List.append_assoc, List.singleton_append] at hrest
      rw [hrest, List.getLast?_concat, List.getLast?_concat, Option.map_some, Option.map_some,
        hstep (hlater b List.mem_cons_self)]

/-! ## Which steps disturb -/

/-- An edit that started on one side of the transaction's start, and was committed on the other side
of its read. -/
def crosses (startedAt : ℕ) (seen : List CheckVersion) (v : CheckVersion) : Bool :=
  decide (v.createdAt ≤ startedAt) != decide (v ∈ seen)

/-- What a run of the system is asked for: an edit that commits has loaded the check after every
edit before it committed and started after them, and, if it changes how the check is read, started
after every transaction that has evaluated the check; and when a check is evaluated, it is by the
engine that it has, and no edit that changed how it is read crosses the transaction. -/
def Undisturbed {ι : Type} (w : World ι) (e : ι × Act) : Prop :=
  match e.2, w.session e.1 with
  | .commitEdit edited, .editing checkId startedAt (some loaded) =>
    w.store.check checkId = loaded ∧
      (∀ v ∈ w.store.versions checkId, v.createdAt < startedAt) ∧
      (edited.reading = loaded.reading ∨
        (∀ r ∈ w.store.results, r.checkId = checkId → r.createdAt < startedAt) ∧
        ∀ j engines phase, w.session j = .running engines phase →
          ∀ entry ∈ phase.computed, entry.1 = checkId → phase.startedAt < startedAt)
  | .evaluate checkId, .running engines phase =>
    ∀ read engine, phase.read.lookup checkId = some read → engines.lookup checkId = some engine →
      engine = read.source.engine ∧
      (w.store.versions checkId).IsChain fun a b =>
        crosses phase.startedAt read.seen b = true → b.source.reading = a.source.reading
  | _, _ => True

/-! ## One step -/

/-- A version that is read is the last of those committed then. -/
structure Seen (store : Store) (checkId : ℕ) (read : Read) : Prop where
  committed : read.seen <+: store.versions checkId
  last : ∃ earlier startedAt, read.seen = earlier ++ [⟨startedAt, read.source⟩]

structure Sound {ι : Type} (w : World ι) : Prop where
  chronicle : ∀ checkId, Chronicle (w.store.versions checkId) (w.store.check checkId)
  read : ∀ i engines phase, w.session i = .running engines phase →
    ∀ entry ∈ phase.read, Seen w.store entry.1 entry.2
  computed : ∀ i engines phase, w.session i = .running engines phase →
    ∀ entry ∈ phase.computed, Attributed w.store ⟨entry.1, phase.startedAt, entry.2⟩
  results : ∀ r ∈ w.store.results, Attributed w.store r

/-- The evaluation of a check that no edit crosses is read as it was. -/
theorem attributed_of_chain {store : Store} {checkId startedAt : ℕ} {read : Read}
    (hchronicle : Chronicle (store.versions checkId) (store.check checkId))
    (hseen : Seen store checkId read)
    (hchain : (store.versions checkId).IsChain fun a b =>
      crosses startedAt read.seen b = true → b.source.reading = a.source.reading) :
    Attributed store ⟨checkId, startedAt, read.source⟩ := by
  obtain ⟨before, v, after, hsplit, hv, hafter⟩ := hchronicle.split startedAt
  obtain ⟨rest, hrest⟩ := hseen.committed
  obtain ⟨earlier, readAt, hlast⟩ := hseen.last
  have hincreasing := hchronicle.increasing
  have hboth : read.seen ++ rest = (before ++ [v]) ++ after := by
    rw [hrest, hsplit, List.append_assoc]
    rfl
  have hsame : v.source.reading = read.source.reading := by
    obtain ⟨marked, hmarks⟩ : ∃ marked, marked = crosses startedAt read.seen := ⟨_, rfl⟩
    rw [← hmarks, ← hrest] at hchain
    have hbefore : ∀ b ∈ before ++ [v], b.createdAt ≤ startedAt := by
      intro b hb
      obtain hb | hb := List.mem_append.mp hb
      · have := before_le (hsplit ▸ hincreasing) b hb
        omega
      · rw [List.mem_singleton.mp hb]
        exact hv
    obtain ⟨more, hmore, _⟩ | ⟨more, hmore, hmost⟩ := List.append_eq_append_iff.mp hboth
    · -- What was committed after the read started before the transaction.
      have hmarked : ∀ b ∈ more, marked b = true := by
        intro b hb
        rw [hmarks]
        have hb_mem : b ∈ before ++ [v] := hmore ▸ List.mem_append_right _ hb
        have hunseen : b ∉ read.seen := by
          intro hmem
          have hpairs : Increasing CheckVersion.createdAt (read.seen ++ more) := by
            rw [← hmore]
            rw [← hrest, hboth] at hincreasing
            exact hincreasing.sublist (List.sublist_append_left _ _)
          exact absurd ((List.pairwise_append.mp hpairs).2.2 b hmem b hb) (lt_irrefl _)
        simp [crosses, hbefore b hb_mem, hunseen]
      rw [hboth] at hchain
      have hprior := hchain.left_of_append
      rw [hmore] at hprior
      have hreading := map_getLast?_of_isChain read.seen more (by simp [hlast]) hprior hmarked
      rw [← hmore, hlast, List.getLast?_concat, List.getLast?_concat] at hreading
      exact Option.some.inj hreading
    · -- What was committed before the read started after the transaction.
      have hmarked : ∀ b ∈ more, marked b = true := by
        intro b hb
        rw [hmarks]
        have hseen_mem : b ∈ read.seen := hmore ▸ List.mem_append_right _ hb
        have hlate := hafter b (hmost ▸ List.mem_append_left _ hb)
        simp [crosses, hseen_mem, hlate]
      have hprior := hchain.left_of_append
      rw [hmore] at hprior
      have hreading := map_getLast?_of_isChain (before ++ [v]) more (by simp) hprior hmarked
      rw [← hmore, hlast, List.getLast?_concat, List.getLast?_concat] at hreading
      exact (Option.some.inj hreading).symm
  unfold Attributed Store.snapshotOf
  rw [hsplit] at hincreasing ⊢
  rw [snapshotAt_reading hincreasing hv hafter]
  exact hsame

theorem written_self (loaded edited : CheckSource) : written loaded edited loaded = edited := by
  obtain ⟨name, kind, engine, expectationType, dimension, config⟩ := edited
  have hsame : ∀ {α : Type} [DecidableEq α] (a b : α), (if a = b then b else a) = a := by
    intro α _ a b
    split
    · next h => exact h.symm
    · rfl
  simp only [written, hsame]

theorem Chronicle.edit {versions : List CheckVersion} {row edited : CheckSource} {startedAt : ℕ}
    (h : Chronicle versions row) (holder : ∀ v ∈ versions, v.createdAt < startedAt) :
    Chronicle (versions ++ [⟨startedAt, edited⟩]) edited := by
  obtain ⟨source, rest, rfl⟩ := h.first
  refine ⟨?_, ⟨source, rest ++ [⟨startedAt, edited⟩], rfl⟩, ⟨_, startedAt, rfl⟩⟩
  rw [Increasing, List.pairwise_append]
  refine ⟨h.increasing, List.pairwise_singleton _ _, fun v hv w hw => ?_⟩
  obtain rfl := List.mem_singleton.mp hw
  exact holder v hv

/-- An edit leaves how a result is read, if it keeps that or starts after the result. -/
theorem Attributed.edit {store : Store} {checkId startedAt : ℕ} {loaded edited : CheckSource}
    (hchronicle : Chronicle (store.versions checkId) (store.check checkId))
    (hrow : store.check checkId = loaded)
    (holder : ∀ v ∈ store.versions checkId, v.createdAt < startedAt) {r : Produced}
    (h : Attributed store r)
    (hr : r.checkId = checkId → edited.reading = loaded.reading ∨ r.createdAt < startedAt) :
    Attributed (store.edit checkId startedAt loaded edited) r := by
  by_cases hcheck : r.checkId = checkId
  · obtain ⟨before, v, after, hsplit, hv, hafter⟩ := hchronicle.split r.createdAt
    have hincreasing := hchronicle.increasing
    have hchronicle' : Chronicle (store.versions checkId ++ [⟨startedAt, edited⟩]) edited :=
      hchronicle.edit holder
    have hedited := hchronicle'.increasing
    have hcomputed : v.source.reading = r.computedWith.reading := by
      unfold Attributed Store.snapshotOf at h
      rw [hcheck, hsplit] at h
      rw [hsplit] at hincreasing
      rw [snapshotAt_reading hincreasing hv hafter] at h
      exact h
    have hversions : (store.edit checkId startedAt loaded edited).versions r.checkId =
        store.versions checkId ++ [⟨startedAt, edited⟩] := by
      rw [hcheck]
      exact Function.update_self _ _ _
    unfold Attributed Store.snapshotOf
    rw [hversions]
    by_cases hlate : r.createdAt < startedAt
    · rw [hsplit, List.append_assoc, List.cons_append] at hedited ⊢
      rw [snapshotAt_reading hedited hv ?_]
      · exact hcomputed
      · intro w hw
        obtain hw | hw := List.mem_append.mp hw
        · exact hafter w hw
        · rw [List.mem_singleton.mp hw]
          exact hlate
    · rw [snapshotAt_reading hedited (not_lt.mp hlate) (fun w hw => absurd hw List.not_mem_nil)]
      have hnone : after = [] := by
        rw [List.eq_nil_iff_forall_not_mem]
        intro w hw
        have hw_mem : w ∈ store.versions checkId := by
          rw [hsplit]
          exact List.mem_append_right _ (List.mem_cons_of_mem _ hw)
        have := holder w hw_mem
        have := hafter w hw
        omega
      obtain ⟨earlier, readAt, hlast⟩ := hchronicle.last
      rw [hsplit, hnone] at hlast
      obtain ⟨_, hlast⟩ := List.append_inj' hlast rfl
      obtain rfl := (List.cons.inj hlast).1
      rw [← hcomputed, hrow]
      exact (hr hcheck).resolve_right hlate
  · have hversions : (store.edit checkId startedAt loaded edited).versions r.checkId =
        store.versions r.checkId := Function.update_of_ne hcheck _ _
    have hrows : (store.edit checkId startedAt loaded edited).check r.checkId =
        store.check r.checkId := Function.update_of_ne hcheck _ _
    unfold Attributed Store.snapshotOf at h ⊢
    rw [hversions, hrows]
    exact h

variable {ι : Type} [DecidableEq ι]

/-- A statement that writes no check. -/
theorem Sound.put {w : World ι} (h : Sound w) {i : ι} {store : Store} {stage : Stage}
    (hcheck : store.check = w.store.check) (hversions : store.versions = w.store.versions)
    (hresults : ∀ r ∈ store.results, Attributed w.store r)
    (hread : ∀ engines phase, stage = .running engines phase →
      ∀ entry ∈ phase.read, Seen w.store entry.1 entry.2)
    (hcomputed : ∀ engines phase, stage = .running engines phase →
      ∀ entry ∈ phase.computed, Attributed w.store ⟨entry.1, phase.startedAt, entry.2⟩) :
    Sound (w.put i (store, stage)) := by
  have hattributed : ∀ r, Attributed w.store r → Attributed store r := by
    intro r hr
    unfold Attributed Store.snapshotOf at hr ⊢
    rw [hcheck, hversions]
    exact hr
  have hseen : ∀ checkId read, Seen w.store checkId read → Seen store checkId read := by
    intro checkId read hr
    exact ⟨by rw [hversions]; exact hr.committed, hr.last⟩
  refine ⟨?_, ?_, ?_, fun r hr => hattributed r (hresults r hr)⟩
  · intro checkId
    rw [Config.put_store, hcheck, hversions]
    exact h.chronicle checkId
  · intro j engines phase hj entry hentry
    obtain ⟨_, hstage⟩ | ⟨_, hj⟩ := Config.put_session_cases hj
    · exact hseen _ _ (hread engines phase hstage entry hentry)
    · exact hseen _ _ (h.read j engines phase hj entry hentry)
  · intro j engines phase hj entry hentry
    obtain ⟨_, hstage⟩ | ⟨_, hj⟩ := Config.put_session_cases hj
    · exact hattributed _ (hcomputed engines phase hstage entry hentry)
    · exact hattributed _ (h.computed j engines phase hj entry hentry)

/-- A statement that no transaction of a run makes. -/
theorem Sound.put_aside {w : World ι} (h : Sound w) {i : ι} {stage : Stage}
    (hstage : ∀ engines phase, stage ≠ .running engines phase) :
    Sound (w.put i (w.store, stage)) :=
  h.put rfl rfl h.results (fun engines phase heq => absurd heq (hstage engines phase))
    fun engines phase heq => absurd heq (hstage engines phase)

theorem Sound.commitEdit {w w' : World ι} (h : Sound w) {i : ι} {edited : CheckSource}
    (hcalm : Undisturbed w (i, .commitEdit edited))
    (hstep : step act w (i, .commitEdit edited) = some w') : Sound w' := by
  obtain ⟨r, hact, rfl⟩ := step_eq_some.mp hstep
  cases hstage : w.session i with
  | editing checkId startedAt loaded =>
    cases loaded with
    | none => simp [act, hstage] at hact
    | some loaded =>
      simp only [act, hstage] at hact
      cases hact
      simp only [Undisturbed, hstage] at hcalm
      obtain ⟨hrow, holder, hreading⟩ := hcalm
      have hchronicle := h.chronicle checkId
      have hversions : ∀ other, w.store.versions other <+:
          (w.store.edit checkId startedAt loaded edited).versions other := by
        intro other
        by_cases hother : other = checkId
        · subst hother
          simp only [Store.edit, Function.update_self]
          exact List.prefix_append _ _
        · simp only [Store.edit, Function.update_of_ne hother]
          exact List.prefix_refl _
      refine ⟨?_, ?_, ?_, ?_⟩
      · intro other
        by_cases hother : other = checkId
        · subst hother
          simp only [Config.put_store, Store.edit, Function.update_self]
          rw [hrow, written_self]
          exact hchronicle.edit holder
        · simp only [Config.put_store, Store.edit, Function.update_of_ne hother]
          exact h.chronicle other
      · intro j engines phase hj entry hentry
        obtain ⟨_, heq⟩ | ⟨_, hj⟩ := Config.put_session_cases hj
        · cases heq
        · have hseen := h.read j engines phase hj entry hentry
          exact ⟨hseen.committed.trans (hversions _), hseen.last⟩
      · intro j engines phase hj entry hentry
        obtain ⟨_, heq⟩ | ⟨_, hj⟩ := Config.put_session_cases hj
        · cases heq
        · exact (h.computed j engines phase hj entry hentry).edit hchronicle hrow holder
            fun hcheck => hreading.imp id fun hlate => hlate.2 j engines phase hj entry hentry hcheck
      · intro r hr
        exact (h.results r hr).edit hchronicle hrow holder
          fun hcheck => hreading.imp id fun hlate => hlate.1 r hr hcheck
  | _ => simp [act, hstage] at hact

theorem Sound.readCheck {w w' : World ι} (h : Sound w) {i : ι} {checkId : ℕ}
    (hstep : step act w (i, .readCheck checkId) = some w') : Sound w' := by
  obtain ⟨r, hact, rfl⟩ := step_eq_some.mp hstep
  cases hstage : w.session i with
  | running engines phase =>
    simp only [act, hstage] at hact
    cases hact
    refine h.put rfl rfl h.results ?_ ?_
    · intro _ _ heq entry hentry
      obtain ⟨rfl, rfl⟩ := Stage.running.inj heq
      unfold Phase.readCheck at hentry
      split at hentry
      · exact h.read i engines phase hstage entry hentry
      · obtain rfl | hentry := List.mem_cons.mp hentry
        · exact ⟨List.prefix_refl _, (h.chronicle checkId).last⟩
        · exact h.read i engines phase hstage entry hentry
    · intro _ _ heq entry hentry
      obtain ⟨rfl, rfl⟩ := Stage.running.inj heq
      unfold Phase.readCheck at hentry ⊢
      split at hentry <;> exact h.computed i engines phase hstage entry hentry
  | _ => simp [act, hstage] at hact

theorem Sound.sortCheck {w w' : World ι} (h : Sound w) {i : ι} {checkId : ℕ}
    (hstep : step act w (i, .sortCheck checkId) = some w') : Sound w' := by
  obtain ⟨r, hact, rfl⟩ := step_eq_some.mp hstep
  cases hstage : w.session i with
  | running engines phase =>
    simp only [act, hstage] at hact
    obtain ⟨read, _, rfl⟩ := Option.map_eq_some_iff.mp hact
    refine h.put rfl rfl h.results ?_ ?_
    · intro _ _ heq entry hentry
      obtain ⟨rfl, rfl⟩ := Stage.running.inj heq
      exact h.read i engines phase hstage entry hentry
    · intro _ _ heq entry hentry
      obtain ⟨rfl, rfl⟩ := Stage.running.inj heq
      exact h.computed i engines phase hstage entry hentry
  | _ => simp [act, hstage] at hact

theorem Sound.evaluate {w w' : World ι} (h : Sound w) {i : ι} {checkId : ℕ}
    (hcalm : Undisturbed w (i, .evaluate checkId))
    (hstep : step act w (i, .evaluate checkId) = some w') : Sound w' := by
  obtain ⟨r, hact, rfl⟩ := step_eq_some.mp hstep
  cases hstage : w.session i with
  | running engines phase =>
    simp only [act, hstage] at hact
    simp only [Undisturbed, hstage] at hcalm
    split at hact
    · next read engine hread hengine =>
      cases hact
      obtain ⟨rfl, hchain⟩ := hcalm read engine hread hengine
      have hseen := h.read i engines phase hstage _ (mem_of_lookup hread)
      have hattributed := attributed_of_chain (h.chronicle checkId) hseen hchain
      refine h.put rfl rfl h.results ?_ ?_
      · intro _ _ heq entry hentry
        obtain ⟨rfl, rfl⟩ := Stage.running.inj heq
        exact h.read i engines phase hstage entry hentry
      · intro _ _ heq entry hentry
        obtain ⟨rfl, rfl⟩ := Stage.running.inj heq
        obtain hentry | hentry := List.mem_append.mp hentry
        · exact h.computed i engines phase hstage entry hentry
        · rw [List.mem_singleton.mp hentry]
          exact hattributed
    · cases hact
  | _ => simp [act, hstage] at hact

theorem Sound.commitPhase {w w' : World ι} (h : Sound w) {i : ι}
    (hstep : step act w (i, .commitPhase) = some w') : Sound w' := by
  obtain ⟨r, hact, rfl⟩ := step_eq_some.mp hstep
  cases hstage : w.session i with
  | running engines phase =>
    simp only [act, hstage] at hact
    cases hact
    refine h.put rfl rfl ?_ (fun _ _ => Stage.noConfusion) fun _ _ => Stage.noConfusion
    intro r hr
    obtain hr | hr := List.mem_append.mp hr
    · exact h.results r hr
    · obtain ⟨entry, hentry, rfl⟩ := List.mem_map.mp hr
      exact h.computed i engines phase hstage entry hentry
  | _ => simp [act, hstage] at hact

theorem Sound.beginPhase {w w' : World ι} (h : Sound w) {i : ι}
    (hstep : step act w (i, .beginPhase) = some w') : Sound w' := by
  obtain ⟨r, hact, rfl⟩ := step_eq_some.mp hstep
  cases hstage : w.session i with
  | between engines =>
    simp only [act, hstage] at hact
    cases hact
    refine h.put rfl rfl h.results ?_ ?_
    · intro _ _ heq entry hentry
      obtain ⟨rfl, rfl⟩ := Stage.running.inj heq
      cases hentry
    · intro _ _ heq entry hentry
      obtain ⟨rfl, rfl⟩ := Stage.running.inj heq
      cases hentry
  | _ => simp [act, hstage] at hact

theorem Sound.tick {w w' : World ι} (h : Sound w) {i : ι}
    (hstep : step act w (i, .tick) = some w') : Sound w' := by
  obtain ⟨r, hact, rfl⟩ := step_eq_some.mp hstep
  rw [act_tick] at hact
  cases hact
  exact h.put rfl rfl h.results (fun engines phase => h.read i engines phase)
    fun engines phase => h.computed i engines phase

/-- An editor's load, and what begins or leaves a transaction outside a run's. -/
theorem Sound.aside {w w' : World ι} (h : Sound w) {i : ι} {a : Act}
    (ha : a = .load ∨ a = .beginRun ∨ a = .leave ∨ ∃ checkId, a = .beginEdit checkId)
    (hstep : step act w (i, a) = some w') : Sound w' := by
  obtain ⟨r, hact, rfl⟩ := step_eq_some.mp hstep
  have haside : ∃ stage, r = (w.store, stage) ∧
      ∀ engines phase, stage ≠ Stage.running engines phase := by
    obtain rfl | rfl | rfl | ⟨checkId, rfl⟩ := ha
    · cases hstage : w.session i with
      | editing checkId startedAt loaded =>
        cases loaded with
        | none =>
          simp only [act, hstage] at hact
          cases hact
          exact ⟨_, rfl, fun _ _ => Stage.noConfusion⟩
        | some loaded => simp [act, hstage] at hact
      | _ => simp [act, hstage] at hact
    · cases hstage : w.session i with
      | idle =>
        simp only [act, hstage] at hact
        cases hact
        exact ⟨_, rfl, fun _ _ => Stage.noConfusion⟩
      | _ => simp [act, hstage] at hact
    · cases hstage : w.session i with
      | idle => simp [act, hstage] at hact
      | _ =>
        simp only [act, hstage] at hact
        cases hact
        exact ⟨_, rfl, fun _ _ => Stage.noConfusion⟩
    · cases hstage : w.session i with
      | idle =>
        simp only [act, hstage] at hact
        cases hact
        exact ⟨_, rfl, fun _ _ => Stage.noConfusion⟩
      | _ => simp [act, hstage] at hact
  obtain ⟨stage, rfl, hstage⟩ := haside
  exact h.put_aside hstage

theorem Sound.step {w w' : World ι} {e : ι × Act} (h : Sound w) (hcalm : Undisturbed w e)
    (hstep : step act w e = some w') : Sound w' := by
  obtain ⟨i, a⟩ := e
  cases a with
  | tick => exact h.tick hstep
  | beginEdit _ => exact h.aside (.inr (.inr (.inr ⟨_, rfl⟩))) hstep
  | load => exact h.aside (.inl rfl) hstep
  | commitEdit edited => exact h.commitEdit hcalm hstep
  | beginRun => exact h.aside (.inr (.inl rfl)) hstep
  | beginPhase => exact h.beginPhase hstep
  | readCheck checkId => exact h.readCheck hstep
  | sortCheck checkId => exact h.sortCheck hstep
  | evaluate checkId => exact h.evaluate hcalm hstep
  | commitPhase => exact h.commitPhase hstep
  | leave => exact h.aside (.inr (.inr (.inl rfl))) hstep

omit [DecidableEq ι] in
theorem Sound.start (created : ℕ → CheckSource) : Sound (start created : World ι) where
  chronicle := fun _ => ⟨List.pairwise_singleton _ _, ⟨_, [], rfl⟩, ⟨[], 0, rfl⟩⟩
  read := fun _ _ _ => Stage.noConfusion
  computed := fun _ _ _ => Stage.noConfusion
  results := fun _ hr => absurd hr List.not_mem_nil

/-- Whatever runs and edits do, with no step that disturbs: every result is read as the check that
produced it. -/
theorem read_as_produced (created : ℕ → CheckSource) (events : List (ι × Act)) (w : World ι)
    (hrun : Transition.run (Interleaving.step act) (start created) events = some w)
    (hcalm : Meets (Interleaving.step act) Undisturbed (start created) events) :
    ∀ r ∈ w.store.results, Attributed w.store r := by
  have hsound : Sound w := run_invariant (fun w e w' h hcalm hstep => h.step hcalm hstep)
    (Sound.start created) hcalm hrun
  exact hsound.results

/-- A check of a column, which the witnesses edit. -/
def checkOf (column : Text) : CheckSource :=
  ⟨"c".toList, "expectation".toList, gxEngine, "expect_column_values_to_be_in_set".toList, none,
    [("column".toList, .str column)]⟩

def editBeforeRun : List (Bool × Act) :=
  [(false, .beginEdit 1), (false, .load), (false, .commitEdit (checkOf "city".toList)),
    (true, .tick), (true, .beginRun), (true, .beginPhase), (true, .readCheck 1),
    (true, .sortCheck 1), (true, .evaluate 1), (true, .commitPhase)]

theorem editBeforeRun_undisturbed :
    Meets (Interleaving.step act) Undisturbed
      (start fun _ => checkOf "ssn".toList : World Bool) editBeforeRun := by
  refine ⟨trivial, fun _ h => ?_⟩
  cases h
  refine ⟨trivial, fun _ h => ?_⟩
  cases h
  refine ⟨⟨rfl, by decide, .inr ⟨fun _ h => absurd h List.not_mem_nil, ?_⟩⟩, fun _ h => ?_⟩
  · intro j engines phase hj
    cases j <;> cases hj
  · cases h
    refine ⟨trivial, fun _ h => ?_⟩
    cases h
    refine ⟨trivial, fun _ h => ?_⟩
    cases h
    refine ⟨trivial, fun _ h => ?_⟩
    cases h
    refine ⟨trivial, fun _ h => ?_⟩
    cases h
    refine ⟨trivial, fun _ h => ?_⟩
    cases h
    refine ⟨?_, fun _ h => ⟨trivial, fun _ _ => trivial⟩⟩
    intro read engine hread hengine
    cases hread
    cases hengine
    exact ⟨rfl, by decide⟩

/-- An edit that is committed before the run starts. -/
theorem read_as_produced_after_edit :
    ∃ w : World Bool, Transition.run (Interleaving.step act)
      (start fun _ => checkOf "ssn".toList) editBeforeRun = some w ∧
      ∀ r ∈ w.store.results, Attributed w.store r := by
  obtain ⟨w, hw⟩ : ∃ w : World Bool, Transition.run (Interleaving.step act)
      (start fun _ => checkOf "ssn".toList) editBeforeRun = some w :=
    Option.isSome_iff_exists.mp (by decide)
  exact ⟨w, hw, read_as_produced _ _ w hw editBeforeRun_undisturbed⟩

/-- An edit that starts before the run's transaction and commits after its read. -/
theorem read_under_another_column :
    (Transition.run (Interleaving.step act)
      (start (fun _ => checkOf "ssn".toList) : World Bool)
      [(false, .beginEdit 1), (false, .load), (true, .tick), (true, .beginRun),
        (true, .beginPhase), (true, .readCheck 1), (true, .sortCheck 1), (true, .evaluate 1),
        (false, .commitEdit (checkOf "city".toList)), (true, .commitPhase)]).map
      (fun w => w.store.results.map fun r =>
        (r.computedWith.config.lookup "column".toList, (w.store.snapshotOf r).column,
          decide (Attributed w.store r))) =
    some [(some (.str "ssn".toList), some (.str "city".toList), false)] := by
  decide

end DataQ.Attribution
