import DataQ.Dispatch.Moves

/-! # Each occurrence is claimed once

A claim locks its schedule while it is due and its commit moves the schedule past the tick's time,
or disables it; whoever looks again finds it locked, later or off. -/

namespace DataQ.Dispatch
open DataQ.Locking DataQ.Interleaving
set_option autoImplicit false

variable {ι Zone : Type*} {lib : Croniter Zone} {s t : Store ι} {i j : ι}

/-! ## Findings -/

@[simp] theorem claimedIds_nil : claimedIds ([] : List (ℕ × Verdict ι)) = [] := rfl

@[simp] theorem claimedIds_claimed (id : ℕ) (found : List (ℕ × Verdict ι)) :
    claimedIds ((id, .claimed) :: found) = id :: claimedIds found := rfl

@[simp] theorem claimedIds_lockedBy (id : ℕ) (j : ι) (found : List (ℕ × Verdict ι)) :
    claimedIds ((id, .lockedBy j) :: found) = claimedIds found := rfl

@[simp] theorem claimedIds_moved (id : ℕ) (found : List (ℕ × Verdict ι)) :
    claimedIds ((id, .moved) :: found) = claimedIds found := rfl

theorem claimedIds_sublist (found : List (ℕ × Verdict ι)) :
    (claimedIds found).Sublist (found.map Prod.fst) := by
  induction found with
  | nil => exact .slnil
  | cons p found ih =>
    obtain ⟨id, verdict⟩ := p
    cases verdict with
    | claimed => exact ih.cons_cons id
    | lockedBy => exact ih.cons id
    | moved => exact ih.cons id

theorem mem_claimedIds {found : List (ℕ × Verdict ι)} {id : ℕ} :
    id ∈ claimedIds found ↔ (id, .claimed) ∈ found := by
  induction found with
  | nil => simp
  | cons p found ih =>
    obtain ⟨id', verdict⟩ := p
    cases verdict <;> simp [ih]

/-! ## The books -/

def Claim.occurrence (c : Claim ι) : ℕ × ℕ := (c.schedule.id, c.schedule.nextRunAt)

/-- What the end of a tick says. A schedule of the last snapshot was claimed by the tick, locked by
another dispatcher or no longer due. -/
def Report.Right (claims : List (Claim ι)) (r : Report ι) : Prop :=
  match r.ending with
  | .drained snapshot found => ∀ id ∈ snapshot,
      (∃ c ∈ claims, c.claimant = r.dispatcher ∧ c.now = r.now ∧ c.schedule.id = id) ∨
        (∃ j, j ≠ r.dispatcher ∧ (id, .lockedBy j) ∈ found) ∨ (id, .moved) ∈ found
  | .stopped due => r.summary.residual = due.length

structure Booked (s : Store ι) : Prop where
  ids : (s.schedules.map Schedule.id).Nodup
  occurrences : (s.claims.map Claim.occurrence).Nodup
  claimed : ∀ c ∈ s.claims, c.schedule.nextRunAt ≤ c.now
  future : ∀ c ∈ s.claims, ∀ t, c.next = some t → c.now < t
  advanced : ∀ c ∈ s.claims, ∀ row ∈ s.schedules, row.id = c.schedule.id → row.enabled →
    c.now < row.nextRunAt
  disabled : ∀ c ∈ s.claims, c.next = none → ∀ row ∈ s.schedules, row.id = c.schedule.id →
    ¬ row.enabled
  run_ids : (s.claims.filterMap fun c => c.runId).Nodup
  run_lt : ∀ c ∈ s.claims, ∀ id, c.runId = some id → id < s.nextRunId
  runs : ∀ c ∈ s.claims, ∀ id, c.runId = some id →
    ∃ run ∈ s.runs, run.id = id ∧ run.triggeredBy = c.schedule.id
  published : ∀ id ∈ s.published, ∃ c ∈ s.claims, c.runId = some id
  published_nodup : s.published.Nodup
  reports : ∀ r ∈ s.reports, r.Right s.claims

theorem Report.Right.mono {claims claims' : List (Claim ι)} {r : Report ι} (h : r.Right claims)
    (hsub : ∀ c ∈ claims, c ∈ claims') : r.Right claims' := by
  unfold Report.Right at h ⊢
  split
  · next snapshot found hending =>
    rw [hending] at h
    intro id hid
    rcases h id hid with ⟨c, hc, hright⟩ | hpassed
    · exact .inl ⟨c, hsub c hc, hright⟩
    · exact .inr hpassed
  · next due hending =>
    rw [hending] at h
    exact h

theorem Booked.same (h : Booked s) {r r' : Schedule} (hr : r ∈ s.schedules)
    (hr' : r' ∈ s.schedules) (hid : r.id = r'.id) : r = r' :=
  List.inj_on_of_nodup_map h.ids hr hr' hid

/-! ## Where the dispatchers stand -/

/-- The rows a statement has locked are due and stay so; the locks of the session are these. -/
structure Scanning (lib : Croniter Zone) (s : Store ι) (i : ι) (y : Tick) (snapshot todo : List ℕ)
    (found : List (ℕ × Verdict ι)) : Prop where
  fires : y.fires.Sound lib y.now
  nodup : snapshot.Nodup
  split : (found.map Prod.fst).reverse ++ todo = snapshot
  locked : ∀ id ∈ claimedIds found, s.locks id = some i
  due : ∀ id ∈ claimedIds found, ∃ row ∈ s.schedules, row.id = id ∧ row.due y.now
  others : ∀ id j, (id, .lockedBy j) ∈ found → j ≠ i

/-- What a batch has left to publish is committed, and what it has found is claimed. -/
structure Publishing (lib : Croniter Zone) (s : Store ι) (i : ι) (y : Tick) (snapshot : List ℕ)
    (found : List (ℕ × Verdict ι)) (queued : List ℕ) : Prop where
  fires : y.fires.Sound lib y.now
  nodup : queued.Nodup
  unpublished : ∀ id ∈ queued, id ∉ s.published
  committed : ∀ id ∈ queued, ∃ c ∈ s.claims, c.runId = some id
  exhausted : (claimedIds found).length < y.batchSize → ∀ id ∈ snapshot, id ∈ found.map Prod.fst
  claimed : ∀ id ∈ claimedIds found,
    ∃ c ∈ s.claims, c.claimant = i ∧ c.now = y.now ∧ c.schedule.id = id
  others : ∀ id j, (id, .lockedBy j) ∈ found → j ≠ i

def Stands (lib : Croniter Zone) (s : Store ι) (i : ι) : Pc ι → Prop
  | .idle => True
  | .selecting y => y.fires.Sound lib y.now
  | .scanning y snapshot todo found => Scanning lib s i y snapshot todo found
  | .publishing y snapshot found queued _ _ _ _ => Publishing lib s i y snapshot found queued
  | .counting _ => True

/-- The runs a session has committed and not yet tried to publish. -/
def Pc.queued : Pc ι → List ℕ
  | .publishing _ _ _ queued _ _ _ _ => queued
  | _ => []

/-- The rows a session holds. -/
def Pc.held : Pc ι → List ℕ
  | .scanning _ _ _ found => claimedIds found
  | _ => []

/-- What a statement of session `i` leaves to the others. -/
structure Frame (i : ι) (s t : Store ι) : Prop where
  locks : ∀ j, j ≠ i → ∀ k, s.locks k = some j ↔ t.locks k = some j
  rows : ∀ row ∈ s.schedules, s.locks row.id ≠ some i → row ∈ t.schedules
  claims : ∀ c ∈ s.claims, c ∈ t.claims

theorem Stands.frame {pc : Pc ι} (h : Stands lib s j pc) (hframe : Frame i s t) (hij : j ≠ i)
    (hpublished : ∀ id ∈ pc.queued, id ∈ t.published → id ∈ s.published) : Stands lib t j pc := by
  cases pc with
  | scanning y snapshot todo found =>
    refine ⟨h.fires, h.nodup, h.split, fun id hid => ?_, fun id hid => ?_, h.others⟩
    · exact (hframe.locks j hij id).mp (h.locked id hid)
    · obtain ⟨row, hrow, hrowid, hdue⟩ := h.due id hid
      refine ⟨row, hframe.rows row hrow ?_, hrowid, hdue⟩
      rw [hrowid, h.locked id hid]
      exact fun heq => hij (Option.some.inj heq)
  | publishing y snapshot found queued sent failed streak down =>
    refine ⟨h.fires, h.nodup, fun id hid hmem => ?_, fun id hid => ?_, h.exhausted,
      fun id hid => ?_, h.others⟩
    · exact h.unpublished id hid (hpublished id hid hmem)
    · obtain ⟨c, hc, hrun⟩ := h.committed id hid
      exact ⟨c, hframe.claims c hc, hrun⟩
    · obtain ⟨c, hc, hright⟩ := h.claimed id hid
      exact ⟨c, hframe.claims c hc, hright⟩
  | idle => trivial
  | selecting => exact h
  | counting => trivial

variable [DecidableEq ι]

/-! ## One batch -/

theorem advance_id (now : ℕ) (handled : List Handled) (row : Schedule) :
    (row.advance now handled).id = row.id := by
  unfold Schedule.advance
  split <;> rfl

theorem advance_ids (now : ℕ) (handled : List Handled) (rows : List Schedule) :
    (rows.map (Schedule.advance now handled)).map Schedule.id = rows.map Schedule.id := by
  rw [List.map_map]
  exact List.map_congr_left fun row _ => advance_id now handled row

/-- What the claimed rows of a batch are. -/
structure Batch (lib : Croniter Zone) (s : Store ι) (i : ι) (y : Tick)
    (found : List (ℕ × Verdict ι)) (handled : List Handled) : Prop where
  ids : (handled.map fun h => h.schedule.id) = (claimedIds found).reverse
  nodup : (claimedIds found).Nodup
  rows : ∀ h ∈ handled, h.schedule ∈ s.schedules ∧ h.schedule.due y.now
  locked : ∀ h ∈ handled, s.locks h.schedule.id = some i
  next : ∀ h ∈ handled, ∀ t, h.next = some t → y.now < t

omit [DecidableEq ι] in
theorem claimedRows_ids {snapshot todo : List ℕ} {found : List (ℕ × Verdict ι)} {y : Tick}
    (h : Scanning lib s i y snapshot todo found) :
    (claimedRows s found).map Schedule.id = (claimedIds found).reverse := by
  have hfind : ∀ id ∈ (claimedIds found).reverse,
      (s.schedules.find? fun row => row.id = id).map Schedule.id = some id := by
    intro id hid
    obtain ⟨row, hrow, hrowid, -⟩ := h.due id (List.mem_reverse.mp hid)
    cases hfound : s.schedules.find? fun row => row.id = id with
    | none => exact absurd hrowid (by simpa using List.find?_eq_none.mp hfound row hrow)
    | some row' => simpa using List.find?_some hfound
  unfold claimedRows
  generalize (claimedIds found).reverse = ids at hfind
  induction ids with
  | nil => rfl
  | cons id ids ih =>
    obtain ⟨row, hrow, hid⟩ := Option.map_eq_some_iff.mp (hfind id List.mem_cons_self)
    have htail := ih fun id' hid' => hfind id' (List.mem_cons_of_mem id hid')
    simp [hrow, hid, htail]

omit [DecidableEq ι] in
theorem batch_of_handle (hlib : lib.Advances) (hbooked : Booked s) {y : Tick}
    {snapshot todo runnable : List ℕ} {found : List (ℕ × Verdict ι)} {handled : List Handled}
    {fires : Fires} {nextRunId : ℕ} (hscanning : Scanning lib s i y snapshot todo found)
    (hhandle : handle lib y.now runnable (claimedRows s found) y.fires s.nextRunId =
      some (handled, fires, nextRunId)) : Batch lib s i y found handled := by
  have hspec := handledAs hhandle hscanning.fires
  have hnodup : (claimedIds found).Nodup := by
    have hall : ((found.map Prod.fst).reverse ++ todo).Nodup := hscanning.split ▸ hscanning.nodup
    have hfound := List.nodup_reverse.mp (List.nodup_append.mp hall).1
    exact (claimedIds_sublist found).nodup hfound
  have hids : (handled.map fun h => h.schedule.id) = (claimedIds found).reverse := by
    rw [← claimedRows_ids hscanning, ← hspec.schedules, List.map_map]
    rfl
  have hclaimed : ∀ h ∈ handled, h.schedule.id ∈ claimedIds found := by
    intro h hh
    have hmem : h.schedule.id ∈ handled.map fun h => h.schedule.id :=
      List.mem_map_of_mem (f := fun h : Handled => h.schedule.id) hh
    rw [hids] at hmem
    exact List.mem_reverse.mp hmem
  refine ⟨hids, hnodup, fun h hh => ?_, fun h hh => hscanning.locked _ (hclaimed h hh),
    fun h hh t ht => nextFire_advances hlib (hspec.next h hh t ht)⟩
  have hrow : h.schedule ∈ s.schedules := by
    have hmem : h.schedule ∈ claimedRows s found := by
      rw [← hspec.schedules]
      exact List.mem_map_of_mem hh
    obtain ⟨id, -, hfind⟩ := List.mem_filterMap.mp hmem
    exact List.mem_of_find?_eq_some hfind
  obtain ⟨row, hrow', hid, hdue⟩ := hscanning.due _ (hclaimed h hh)
  exact ⟨hrow, hbooked.same hrow' hrow hid ▸ hdue⟩

omit [DecidableEq ι] in
theorem advance_cases (hbooked : Booked s) {y : Tick} {found : List (ℕ × Verdict ι)}
    {handled : List Handled} (hbatch : Batch lib s i y found handled) {row : Schedule}
    (hrow : row ∈ s.schedules) :
    (∃ h ∈ handled, h.schedule = row ∧ (row.advance y.now handled).enabled = h.next.isSome ∧
      (row.advance y.now handled).nextRunAt = h.next.getD row.nextRunAt) ∨
    (∀ h ∈ handled, h.schedule.id ≠ row.id) ∧ row.advance y.now handled = row := by
  cases hfind : handled.find? fun h => h.schedule.id = row.id with
  | some h =>
    have hmem := List.mem_of_find?_eq_some hfind
    have hid : h.schedule.id = row.id := by simpa using List.find?_some hfind
    refine .inl ⟨h, hmem, hbooked.same (hbatch.rows h hmem).1 hrow hid, ?_, ?_⟩
    · simp [Schedule.advance, hfind]
    · simp [Schedule.advance, hfind]
  | none =>
    refine .inr ⟨fun h hh => by simpa using List.find?_eq_none.mp hfind h hh, ?_⟩
    simp [Schedule.advance, hfind]

omit [DecidableEq ι] in
/-- The schedule of an earlier claim, where it is due again, is at a later occurrence. -/
theorem Booked.later (h : Booked s) {c : Claim ι} {row : Schedule} {now : ℕ} (hc : c ∈ s.claims)
    (hrow : row ∈ s.schedules) (hid : row.id = c.schedule.id) (hdue : row.due now) :
    c.schedule.nextRunAt < row.nextRunAt ∧ c.now < now ∧ c.next ≠ none := by
  obtain ⟨henabled, hle⟩ : row.enabled ∧ row.nextRunAt ≤ now := by
    simpa [Schedule.due] using hdue
  have hclaimed := h.claimed c hc
  have hadvanced := h.advanced c hc row hrow hid henabled
  refine ⟨by omega, by omega, fun hnone => ?_⟩
  exact h.disabled c hc hnone row hrow hid henabled

theorem Booked.advanced_commit (hbooked : Booked s) {y : Tick} {n : ℕ} {found : List (ℕ × Verdict ι)}
    {handled : List Handled} (hbatch : Batch lib s i y found handled) {c : Claim ι}
    (hc : c ∈ (s.commit i y handled n).claims) {row : Schedule}
    (hrow : row ∈ (s.commit i y handled n).schedules) (hid : row.id = c.schedule.id) :
    (row.enabled → c.now < row.nextRunAt) ∧ (c.next = none → ¬ row.enabled) := by
  obtain ⟨row, hwas, rfl⟩ := List.mem_map.mp hrow
  rw [advance_id] at hid
  rcases advance_cases hbooked hbatch hwas with ⟨h, hh, rfl, henabled, hnext⟩ | ⟨hnot, hsame⟩
  · rw [henabled, hnext]
    have hdue := (hbatch.rows h hh).2
    rcases List.mem_append.mp hc with hnew | hold
    · obtain ⟨h', hh', rfl⟩ := List.mem_map.mp hnew
      have hsame : h' = h := by
        have hnodup : (handled.map fun h => h.schedule.id).Nodup := by
          rw [hbatch.ids]
          exact List.nodup_reverse.mpr hbatch.nodup
        exact List.inj_on_of_nodup_map hnodup hh' hh hid.symm
      subst hsame
      refine ⟨fun hsome => ?_, fun hnone => ?_⟩
      swap
      · have hnone : h'.next = none := hnone
        simp [hnone]
      obtain ⟨t, ht⟩ := Option.isSome_iff_exists.mp hsome
      have hlt := hbatch.next h' hh' t ht
      simpa [ht] using hlt
    · have hlater := hbooked.later hold hwas hid hdue
      refine ⟨fun hsome => ?_, fun hnone => absurd hnone hlater.2.2⟩
      obtain ⟨t, ht⟩ := Option.isSome_iff_exists.mp hsome
      have hlt := hbatch.next h hh t ht
      simp only [ht, Option.getD_some]
      omega
  · rw [hsame]
    rcases List.mem_append.mp hc with hnew | hold
    · obtain ⟨h, hh, rfl⟩ := List.mem_map.mp hnew
      exact absurd hid.symm (hnot h hh)
    · exact ⟨hbooked.advanced c hold row hwas hid, fun hnone =>
        hbooked.disabled c hold hnone row hwas hid⟩

theorem Booked.commit (hbooked : Booked s) {y : Tick} {found : List (ℕ × Verdict ι)}
    {handled : List Handled} {fires : Fires} {nextRunId : ℕ}
    (hbatch : Batch lib s i y found handled)
    (hspec : HandledAs lib y.now (claimedRows s found) s.nextRunId handled fires nextRunId) :
    Booked (s.commit i y handled nextRunId) where
  ids := by
    rw [Store.commit, advance_ids]
    exact hbooked.ids
  occurrences := by
    rw [Store.commit, List.map_append, List.nodup_append, List.map_map]
    refine ⟨?_, hbooked.occurrences, fun o ho o' ho' heq => ?_⟩
    · have hnodup : (handled.map fun h => h.schedule.id).Nodup := by
        rw [hbatch.ids]
        exact List.nodup_reverse.mpr hbatch.nodup
      refine List.Nodup.of_map Prod.fst ?_
      rw [List.map_map]
      exact hnodup
    · obtain ⟨h, hh, rfl⟩ := List.mem_map.mp ho
      obtain ⟨c, hc, rfl⟩ := List.mem_map.mp ho'
      obtain ⟨hid, hat⟩ := Prod.mk.inj heq
      have hrow := hbatch.rows h hh
      have hlater := (hbooked.later hc hrow.1 hid hrow.2).1
      have hat : h.schedule.nextRunAt = c.schedule.nextRunAt := hat
      omega
  claimed := by
    intro c hc
    rcases List.mem_append.mp hc with hnew | hold
    · obtain ⟨h, hh, rfl⟩ := List.mem_map.mp hnew
      have hdue := (hbatch.rows h hh).2
      exact (by simpa [Schedule.due] using hdue : h.schedule.enabled ∧ _).2
    · exact hbooked.claimed c hold
  future := by
    intro c hc t ht
    rcases List.mem_append.mp hc with hnew | hold
    · obtain ⟨h, hh, rfl⟩ := List.mem_map.mp hnew
      exact hbatch.next h hh t ht
    · exact hbooked.future c hold t ht
  advanced := fun c hc row hrow hid => (hbooked.advanced_commit hbatch hc hrow hid).1
  disabled := fun c hc hnone row hrow hid =>
    (hbooked.advanced_commit hbatch hc hrow hid).2 hnone
  run_ids := by
    rw [Store.commit, List.filterMap_append, List.filterMap_map]
    have hnew : handled.filterMap ((fun c : Claim ι => c.runId) ∘ fun h => ⟨h, i, y.now⟩) =
        List.range' s.nextRunId (nextRunId - s.nextRunId) := hspec.runs
    rw [hnew, List.nodup_append]
    refine ⟨List.nodup_range', hbooked.run_ids, fun id hid id' hid' heq => ?_⟩
    obtain ⟨c, hc, hrun⟩ := List.mem_filterMap.mp hid'
    have hlt := hbooked.run_lt c hc id' hrun
    have hge := (List.mem_range'_1.mp hid).1
    omega
  run_lt := by
    intro c hc id hrun
    show id < nextRunId
    rcases List.mem_append.mp hc with hnew | hold
    · obtain ⟨h, hh, rfl⟩ := List.mem_map.mp hnew
      have hmem : id ∈ handled.filterMap Handled.runId := List.mem_filterMap.mpr ⟨h, hh, hrun⟩
      rw [hspec.runs] at hmem
      have hlt := (List.mem_range'_1.mp hmem).2
      have hlater := hspec.later
      omega
    · have hlt := hbooked.run_lt c hold id hrun
      have hlater := hspec.later
      omega
  runs := by
    intro c hc id hrun
    rcases List.mem_append.mp hc with hnew | hold
    · obtain ⟨h, hh, rfl⟩ := List.mem_map.mp hnew
      have hrun : h.runId = some id := hrun
      refine ⟨⟨id, h.schedule.suiteId, h.schedule.id, .queued, false⟩, ?_, rfl, rfl⟩
      refine List.mem_append_right _ (List.mem_filterMap.mpr ⟨h, hh, ?_⟩)
      simp [Handled.run, hrun]
    · obtain ⟨run, hrun', hright⟩ := hbooked.runs c hold id hrun
      exact ⟨run, List.mem_append_left _ hrun', hright⟩
  published := by
    intro id hid
    obtain ⟨c, hc, hrun⟩ := hbooked.published id hid
    exact ⟨c, List.mem_append_right _ hc, hrun⟩
  published_nodup := hbooked.published_nodup
  reports := fun r hr => (hbooked.reports r hr).mono fun c hc => List.mem_append_right _ hc

end DataQ.Dispatch
