import DataQ.Dispatch.Claims

/-! # Due schedules fire once

The books and what every dispatcher knows of the store hold in every state the dispatchers reach,
whatever order their statements come in and wherever one of them dies. -/

namespace DataQ.Dispatch
open DataQ.Locking DataQ.Interleaving DataQ.Transition
set_option autoImplicit false

variable {ι Zone : Type*} {lib : Croniter Zone} {s t : Store ι} {i j : ι}

/-! ## A statement that leaves the schedules and the claims alone -/

/-- Only locks, reports and what the publishing writes differ. -/
structure Quiet (s t : Store ι) : Prop where
  schedules : t.schedules = s.schedules
  claims : t.claims = s.claims
  nextRunId : t.nextRunId = s.nextRunId
  published : t.published = s.published
  runs : ∀ run ∈ s.runs, ∃ run' ∈ t.runs, run'.id = run.id ∧ run'.triggeredBy = run.triggeredBy

theorem Quiet.of_eq (hschedules : t.schedules = s.schedules) (hclaims : t.claims = s.claims)
    (hnext : t.nextRunId = s.nextRunId) (hpublished : t.published = s.published)
    (hruns : t.runs = s.runs) : Quiet s t :=
  ⟨hschedules, hclaims, hnext, hpublished, fun run hrun => ⟨run, hruns ▸ hrun, rfl, rfl⟩⟩

theorem Quiet.of_outcome {sent failed : List ℕ} (hschedules : t.schedules = s.schedules)
    (hclaims : t.claims = s.claims) (hnext : t.nextRunId = s.nextRunId)
    (hpublished : t.published = s.published)
    (hruns : t.runs = s.runs.map (Run.outcome sent failed)) : Quiet s t := by
  refine ⟨hschedules, hclaims, hnext, hpublished, fun run hrun => ?_⟩
  refine ⟨run.outcome sent failed, hruns ▸ List.mem_map_of_mem hrun, ?_⟩
  unfold Run.outcome
  split
  · exact ⟨rfl, rfl⟩
  · split <;> exact ⟨rfl, rfl⟩

theorem Booked.quiet (h : Booked s) (hquiet : Quiet s t)
    (hreports : ∀ r ∈ t.reports, r ∈ s.reports ∨ r.Right t.claims) : Booked t where
  ids := hquiet.schedules ▸ h.ids
  occurrences := hquiet.claims ▸ h.occurrences
  claimed := hquiet.claims ▸ h.claimed
  future := hquiet.claims ▸ h.future
  advanced := by
    rw [hquiet.claims, hquiet.schedules]
    exact h.advanced
  disabled := by
    rw [hquiet.claims, hquiet.schedules]
    exact h.disabled
  run_ids := hquiet.claims ▸ h.run_ids
  run_lt := by
    rw [hquiet.claims, hquiet.nextRunId]
    exact h.run_lt
  runs := by
    intro c hc id hid
    obtain ⟨run, hrun, hrunid, hby⟩ := h.runs c (hquiet.claims ▸ hc) id hid
    obtain ⟨run', hrun', hsame, hsameBy⟩ := hquiet.runs run hrun
    exact ⟨run', hrun', hsame.trans hrunid, hsameBy.trans hby⟩
  published := by
    rw [hquiet.claims, hquiet.published]
    exact h.published
  published_nodup := hquiet.published ▸ h.published_nodup
  reports := by
    intro r hr
    rcases hreports r hr with hold | hright
    · rw [hquiet.claims]
      exact h.reports r hold
    · exact hright

/-- The report of a short batch whose findings reach over its whole snapshot. -/
theorem right_drained {claims : List (Claim ι)} {now : ℕ} {summary : Summary}
    {snapshot : List ℕ} {found : List (ℕ × Verdict ι)} (hall : ∀ id ∈ snapshot, id ∈ found.map Prod.fst)
    (hclaimed : ∀ id ∈ claimedIds found,
      ∃ c ∈ claims, c.claimant = i ∧ c.now = now ∧ c.schedule.id = id)
    (hothers : ∀ id j, (id, .lockedBy j) ∈ found → j ≠ i) :
    Report.Right claims ⟨i, now, summary, .drained snapshot found⟩ := by
  intro id hid
  obtain ⟨⟨id', verdict⟩, hmem, rfl⟩ := List.mem_map.mp (hall id hid)
  cases verdict with
  | claimed => exact .inl (hclaimed id' (mem_claimedIds.mpr hmem))
  | lockedBy j => exact .inr (.inl ⟨j, hothers id' j hmem, hmem⟩)
  | moved => exact .inr (.inr hmem)

variable [DecidableEq ι] {a : Act} {pc pc' : Pc ι}

/-! ## The step -/

/-- A session has locked what its statement has claimed so far and nothing else. -/
def Owns (s : Store ι) (i : ι) (pc : Pc ι) : Prop := ∀ k, s.locks k = some i → k ∈ pc.held

theorem Moves.booked (hlib : lib.Advances) (h : Moves lib i s a pc t pc') (hbooked : Booked s)
    (hstands : Stands lib s i pc) : Booked t := by
  cases h with
  | tick => exact hbooked
  | select => exact hbooked
  | passLocked => exact hbooked
  | passMoved => exact hbooked
  | lock => exact hbooked.quiet (.of_eq rfl rfl rfl rfl rfl) fun r hr => .inl hr
  | empty hnone =>
    refine hbooked.quiet (.of_eq rfl rfl rfl rfl rfl) fun r hr => ?_
    rcases List.mem_cons.mp hr with rfl | hr
    · refine .inr (right_drained (fun id hid => ?_) (fun id hid => ?_) hstands.others)
      · rw [← hstands.split] at hid
        simpa using hid
      · rw [hnone] at hid
        cases hid
    · exact .inl hr
  | claim _ _ hhandle =>
    exact hbooked.commit (batch_of_handle hlib hbooked hstands hhandle)
      (handledAs hhandle hstands.fires)
  | @publish y snapshot queued sent failed found id streak down =>
    have hqueued : id ∈ id :: queued := List.mem_cons_self
    exact { hbooked with
      published := by
        intro id' hid'
        rcases List.mem_cons.mp hid' with rfl | hid'
        · exact hstands.committed id' hqueued
        · exact hbooked.published id' hid'
      published_nodup :=
        List.nodup_cons.mpr ⟨hstands.unpublished id hqueued, hbooked.published_nodup⟩ }
  | refuse => exact hbooked
  | drained hshort hnow =>
    refine hbooked.quiet (.of_outcome rfl rfl rfl rfl rfl) fun r hr => ?_
    rcases List.mem_cons.mp hr with rfl | hr
    · rw [hnow]
      exact .inr (right_drained (hstands.exhausted hshort) hstands.claimed hstands.others)
    · exact .inl hr
  | stop => exact hbooked.quiet (.of_outcome rfl rfl rfl rfl rfl) fun r hr => .inl hr
  | again => exact hbooked.quiet (.of_outcome rfl rfl rfl rfl rfl) fun r hr => .inl hr
  | count =>
    refine hbooked.quiet (.of_eq rfl rfl rfl rfl rfl) fun r hr => ?_
    rcases List.mem_cons.mp hr with rfl | hr
    · exact .inr rfl
    · exact .inl hr
  | die => exact hbooked.quiet (.of_eq rfl rfl rfl rfl rfl) fun r hr => .inl hr

/-- Only what a session has locked changes under its hands. -/
theorem Moves.frame (hlib : lib.Advances) (h : Moves lib i s a pc t pc') (hbooked : Booked s)
    (hstands : Stands lib s i pc) : Frame i s t := by
  have hsame : ∀ {u : Store ι}, u.locks = s.locks → u.schedules = s.schedules →
      u.claims = s.claims → Frame i s u := fun hlocks hschedules hclaims =>
    ⟨fun _ _ _ => by rw [hlocks], fun _ hrow _ => hschedules ▸ hrow, fun _ hc => hclaims ▸ hc⟩
  have hrelease : ∀ j, j ≠ i → ∀ k, s.locks k = some j ↔ s.locks.release i k = some j :=
    fun j hj k => ⟨Locks.release_keeps hj, fun hk => (Locks.release_other hk).1⟩
  cases h with
  | tick => exact hsame rfl rfl rfl
  | select => exact hsame rfl rfl rfl
  | passLocked => exact hsame rfl rfl rfl
  | passMoved => exact hsame rfl rfl rfl
  | lock hfree =>
    refine ⟨fun j hj k => ⟨Locks.take_keeps (.inl hfree), Locks.take_other hj⟩,
      fun _ hrow _ => hrow, fun _ hc => hc⟩
  | empty => exact ⟨hrelease, fun _ hrow _ => hrow, fun _ hc => hc⟩
  | claim _ _ hhandle =>
    have hbatch := batch_of_handle hlib hbooked hstands hhandle
    refine ⟨hrelease, fun row hrow hlock => ?_, fun c hc => List.mem_append_right _ hc⟩
    refine List.mem_map.mpr ⟨row, hrow, ?_⟩
    rcases advance_cases hbooked hbatch hrow with ⟨g, hg, rfl, -⟩ | ⟨-, hkept⟩
    · exact absurd (hbatch.locked g hg) hlock
    · exact hkept
  | publish => exact hsame rfl rfl rfl
  | refuse => exact hsame rfl rfl rfl
  | drained => exact hsame rfl rfl rfl
  | stop => exact hsame rfl rfl rfl
  | again => exact hsame rfl rfl rfl
  | count => exact hsame rfl rfl rfl
  | die => exact ⟨hrelease, fun _ hrow _ => hrow, fun _ hc => hc⟩

theorem Moves.published (h : Moves lib i s a pc t pc') {id : ℕ} (hid : id ∈ t.published) :
    id ∈ s.published ∨ id ∈ pc.queued := by
  cases h with
  | publish =>
    rcases List.mem_cons.mp hid with rfl | hid
    · exact .inr List.mem_cons_self
    · exact .inl hid
  | _ => exact .inl hid

/-- A run is queued for publishing when its batch is committed, under an id not used before. -/
theorem Moves.queued (h : Moves lib i s a pc t pc')
    (hstands : Stands lib s i pc) {id : ℕ} (hid : id ∈ pc'.queued) :
    id ∈ pc.queued ∨ s.nextRunId ≤ id := by
  cases h with
  | claim _ _ hhandle =>
    have hspec := handledAs hhandle hstands.fires
    have hmem : id ∈ List.range' s.nextRunId (_ - s.nextRunId) := hspec.runs ▸ hid
    exact .inr (List.mem_range'_1.mp hmem).1
  | publish => exact .inl (List.mem_cons_of_mem _ hid)
  | refuse hqueued =>
    rcases hqueued with rfl | rfl
    · exact .inl (List.mem_cons_of_mem _ hid)
    · cases hid
  | _ => cases hid

theorem Moves.owns (h : Moves lib i s a pc t pc') (howns : Owns s i pc) : Owns t i pc' := by
  have hfreed : ∀ k, s.locks.release i k ≠ some i := fun k hk => (Locks.release_other hk).2 rfl
  cases h with
  | tick => exact howns
  | select => exact howns
  | passLocked => exact howns
  | passMoved => exact howns
  | @lock _ _ _ _ row =>
    intro k hk
    by_cases hrow : k = row.id
    · exact hrow ▸ List.mem_cons_self
    · have hwas : s.locks k = some i := by simpa [Locks.take, hrow] using hk
      exact List.mem_cons_of_mem _ (howns k hwas)
  | empty => exact fun k hk => absurd hk (hfreed k)
  | claim => exact fun k hk => absurd hk (hfreed k)
  | publish => exact howns
  | refuse => exact howns
  | drained => exact howns
  | stop => exact howns
  | again => exact howns
  | count => exact howns
  | die => exact fun k hk => absurd hk (hfreed k)

omit [DecidableEq ι] in
theorem dueIds_nodup (hbooked : Booked s) (now : ℕ) : (dueIds s.schedules now).Nodup :=
  List.Nodup.sublist ((List.filter_sublist).map Schedule.id) hbooked.ids

omit [DecidableEq ι] in
theorem ordered_perm {schedules : List Schedule} {now : ℕ} {order : List ℕ}
    (h : ordered schedules now order) : order.Perm (dueIds schedules now) := by
  have hboth : order.isPerm (dueIds schedules now) = true ∧ _ := (Bool.and_eq_true _ _).mp h
  exact List.isPerm_iff.mp hboth.1

theorem Moves.stands (hlib : lib.Advances) (h : Moves lib i s a pc t pc') (hbooked : Booked s)
    (howns : Owns s i pc) (hstands : Stands lib s i pc) : Stands lib t i pc' := by
  cases h with
  | tick => exact fun _ _ hmem => by cases hmem
  | select horder =>
    have hnodup := (ordered_perm horder).nodup_iff.mpr (dueIds_nodup hbooked _)
    exact ⟨hstands, hnodup, rfl, fun _ hid => (by cases hid), fun _ hid => (by cases hid),
      fun _ _ hmem => (by cases hmem)⟩
  | @passLocked y snapshot todo found id j hj =>
    refine ⟨hstands.fires, hstands.nodup, ?_, hstands.locked, hstands.due, fun id' j' hmem => ?_⟩
    · simpa using hstands.split
    · rcases List.mem_cons.mp hmem with heq | hmem
      · obtain ⟨rfl, hverdict⟩ := Prod.mk.inj heq
        cases hverdict
        -- the row at hand is not one the session has claimed before
        rintro rfl
        have hfound : id' ∈ found.map Prod.fst :=
          (claimedIds_sublist found).subset (howns id' hj)
        have hall : ((found.map Prod.fst).reverse ++ id' :: todo).Nodup :=
          hstands.split ▸ hstands.nodup
        exact (List.nodup_append.mp hall).2.2 id' (List.mem_reverse.mpr hfound) id'
          List.mem_cons_self rfl
      · exact hstands.others id' j' hmem
  | passMoved =>
    refine ⟨hstands.fires, hstands.nodup, ?_, hstands.locked, hstands.due, fun id' j' hmem => ?_⟩
    · simpa using hstands.split
    · exact hstands.others id' j' (by simpa using hmem)
  | @lock y snapshot todo found row hfree hrow hdue hroom =>
    refine ⟨hstands.fires, hstands.nodup, ?_, fun id hid => ?_, fun id hid => ?_,
      fun id' j' hmem => hstands.others id' j' (by simpa using hmem)⟩
    · simpa using hstands.split
    · rcases List.mem_cons.mp hid with rfl | hid
      · exact Locks.take_self _ _ _
      · exact Locks.take_keeps (.inl hfree) (hstands.locked id hid)
    · rcases List.mem_cons.mp hid with rfl | hid
      · exact ⟨row, hrow, rfl, hdue⟩
      · exact hstands.due id hid
  | empty => trivial
  | @claim y snapshot todo found runnable handled fires nextRunId hfull _ hhandle =>
    have hspec := handledAs hhandle hstands.fires
    have hbatch := batch_of_handle hlib hbooked hstands hhandle
    refine ⟨hspec.fires, ?_, fun id hid hmem => ?_, fun id hid => ?_, fun hshort id hid => ?_,
      fun id hid => ?_, hstands.others⟩
    · rw [hspec.runs]
      exact List.nodup_range'
    · rw [hspec.runs] at hid
      obtain ⟨c, hc, hrun⟩ := hbooked.published id hmem
      have hlt := hbooked.run_lt c hc id hrun
      have hge := (List.mem_range'_1.mp hid).1
      omega
    · obtain ⟨g, hg, hrun⟩ := List.mem_filterMap.mp hid
      exact ⟨⟨g, i, y.now⟩, List.mem_append_left _ (List.mem_map_of_mem hg), hrun⟩
    · have htodo : todo = [] := hfull.resolve_right fun hle => absurd hshort (by
        show ¬ (claimedIds found).length < y.batchSize
        omega)
      have hsplit := hstands.split
      rw [htodo, List.append_nil] at hsplit
      rw [← hsplit] at hid
      exact List.mem_reverse.mp hid
    · have hmem : id ∈ handled.map fun h => h.schedule.id := by
        rw [hbatch.ids]
        exact List.mem_reverse.mpr hid
      obtain ⟨g, hg, rfl⟩ := List.mem_map.mp hmem
      exact ⟨⟨g, i, y.now⟩, List.mem_append_left _ (List.mem_map_of_mem hg), rfl, rfl, rfl⟩
  | publish =>
    have hnodup := List.nodup_cons.mp hstands.nodup
    refine ⟨hstands.fires, hnodup.2, fun id hid hmem => ?_,
      fun id hid => hstands.committed id (List.mem_cons_of_mem _ hid), hstands.exhausted,
      hstands.claimed, hstands.others⟩
    rcases List.mem_cons.mp hmem with rfl | hmem
    · exact hnodup.1 hid
    · exact hstands.unpublished id (List.mem_cons_of_mem _ hid) hmem
  | refuse hqueued =>
    have hnodup := List.nodup_cons.mp hstands.nodup
    rcases hqueued with rfl | rfl
    · exact ⟨hstands.fires, hnodup.2,
        fun id hid => hstands.unpublished id (List.mem_cons_of_mem _ hid),
        fun id hid => hstands.committed id (List.mem_cons_of_mem _ hid), hstands.exhausted,
        hstands.claimed, hstands.others⟩
    · exact ⟨hstands.fires, List.nodup_nil, fun _ hid => (by cases hid),
        fun _ hid => (by cases hid), hstands.exhausted, hstands.claimed, hstands.others⟩
  | drained => trivial
  | stop => trivial
  | again hnow hfires =>
    show Fires.Sound lib _ _
    rw [hnow, hfires]
    exact hstands.fires
  | count => trivial
  | die => trivial

/-- The books are kept, every dispatcher stands where they say, and no run is in two hands. -/
structure Orderly (lib : Croniter Zone) (c : World ι) : Prop where
  booked : Booked c.store
  owns : ∀ j, Owns c.store j (c.session j)
  stands : ∀ j, Stands lib c.store j (c.session j)
  apart : ∀ j k, j ≠ k → ∀ id ∈ (c.session j).queued, id ∉ (c.session k).queued

omit [DecidableEq ι] in
theorem orderly_initial {schedules : List Schedule} (hids : (schedules.map Schedule.id).Nodup) :
    Orderly lib (World.initial schedules : World ι) where
  booked := by constructor <;> simp [World.initial, hids]
  owns := fun _ _ hk => by cases hk
  stands := fun _ => trivial
  apart := fun _ _ _ _ hid => by cases hid

omit [DecidableEq ι] in
theorem Stands.queued_lt {pc : Pc ι} (h : Stands lib s i pc) (hbooked : Booked s) {id : ℕ}
    (hid : id ∈ pc.queued) : id < s.nextRunId := by
  cases pc with
  | publishing =>
    obtain ⟨c, hc, hrun⟩ := h.committed id hid
    exact hbooked.run_lt c hc id hrun
  | _ => cases hid

theorem Orderly.step (hlib : lib.Advances) {c d : World ι} {e : ι × Act} (h : Orderly lib c)
    (hstep : step lib c e = some d) : Orderly lib d := by
  obtain ⟨⟨t, pc'⟩, hact, rfl⟩ := step_eq_some.mp hstep
  have hmoves : Moves lib e.1 c.store e.2 (c.session e.1) t pc' := moves_act hact
  have hstands := h.stands e.1
  have hframe := hmoves.frame hlib h.booked hstands
  have hnew : ∀ k, k ≠ e.1 → ∀ id ∈ pc'.queued, id ∉ (c.session k).queued := by
    intro k hk id hid hother
    rcases hmoves.queued hstands hid with hold | hge
    · exact h.apart e.1 k hk.symm id hold hother
    · have hlt := (h.stands k).queued_lt h.booked hother
      omega
  refine ⟨hmoves.booked hlib h.booked hstands, fun j => ?_, fun j => ?_, fun j k hjk id hj => ?_⟩
  · by_cases hj : j = e.1
    · subst hj
      rw [Config.put_session_self]
      exact hmoves.owns (h.owns e.1)
    · rw [Config.put_session_ne _ _ hj]
      exact fun k hk => h.owns j k ((hframe.locks j hj k).mpr hk)
  · by_cases hj : j = e.1
    · subst hj
      rw [Config.put_session_self]
      exact hmoves.stands hlib h.booked (h.owns e.1) hstands
    · rw [Config.put_session_ne _ _ hj]
      refine (h.stands j).frame hframe hj fun id hid hmem => ?_
      exact (hmoves.published hmem).resolve_right fun hqueued =>
        h.apart e.1 j (Ne.symm hj) id hqueued hid
  · by_cases hji : j = e.1
    · rw [hji, Config.put_session_self] at hj
      rw [Config.put_session_ne _ _ (hji ▸ hjk.symm)]
      exact hnew k (hji ▸ hjk.symm) id hj
    · rw [Config.put_session_ne _ _ hji] at hj
      by_cases hki : k = e.1
      · rw [hki, Config.put_session_self]
        exact fun hk => hnew j hji id hk hj
      · rw [Config.put_session_ne _ _ hki]
        exact h.apart j k hjk id hj

end DataQ.Dispatch
