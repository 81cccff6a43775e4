import DataQ.Incidents.Occurrences
import Mathlib.Data.List.Nodup

/-! # The incident lifecycle is sound

Every statement of every session keeps the invariant, whatever the others do in between. -/

namespace DataQ.Incidents
open DataQ.Locking DataQ.Interleaving
open DataQ.Runs (ResultStatus)
set_option autoImplicit false

variable {ι : Type*}

/-- What a statement of session `i` keeps. -/
structure Kept (s : Store ι) (i : ι) (t : Store ι) (next : Pc) : Prop where
  store : t.Sound
  pc : next.Sound t i
  others : ∀ k, k ≠ i → Advances s t k
  final : ∀ r ∈ s.incidents, r.active = false →
    ∃ r' ∈ t.incidents, r'.id = r.id ∧ r'.active = false

section Rows
variable {s : Store ι} {i : ι} {y : Sync}

theorem Store.Sound.eq_of_id (h : s.Sound) {a b : Incident} (ha : a ∈ s.incidents)
    (hb : b ∈ s.incidents) (hid : a.id = b.id) : a = b :=
  List.inj_on_of_nodup_map h.ids ha hb hid

theorem mem_ids {incidents : List Incident} {r : Incident} (hr : r ∈ incidents) :
    r.id ∈ incidents.map Incident.id := List.mem_map.mpr ⟨r, hr, rfl⟩

theorem Kept.of_same {next : Pc} (hs : s.Sound) (hpc : next.Sound s i) : Kept s i s next :=
  ⟨hs, hpc, fun _ _ => Advances.of_locks rfl rfl (fun _ h => h) (fun _ h => h),
    fun r hr hinactive => ⟨r, hr, rfl, hinactive⟩⟩

/-- An object of a row that is committed is that row's. -/
theorem Sync.Owns.row {o r : Incident} (hs : s.Sound) (h : y.Owns s i o) (hr : r ∈ s.incidents)
    (hid : o.id = r.id) :
    r.pair = o.pair ∧ r.priorIncidentId = o.priorIncidentId ∧ r.active = true := by
  obtain ⟨r', hr', hid', hpair, hprior, hactive⟩ | ⟨hnew, _⟩ := h.kind
  · have heq : r' = r := hs.eq_of_id hr' hr (hid'.trans hid)
    rw [← heq]
    exact ⟨hpair, hprior, hactive⟩
  · exact absurd (hid ▸ mem_ids hr) hnew

/-- A session that has an object of the pair has the pair's active row. -/
theorem Sync.Owns.eq_row {o r : Incident} (hs : s.Sound) (h : y.Owns s i o) (hr : r ∈ s.incidents)
    (hactive : r.active = true) (hpair : o.pair = r.pair) : o.id = r.id := by
  obtain ⟨r', hr', hid', hpair', _, hactive'⟩ | ⟨_, hinserting, _⟩ := h.kind
  · have heq : r' = r := hs.one r' hr' r hr hactive' hactive (hpair'.trans hpair)
    rw [← hid', heq]
  · have hinactive := hs.inserting o.pair i hinserting r hr hpair.symm
    rw [hactive] at hinactive
    cases hinactive

theorem Sync.Sound.eq_of_pair (h : y.Sound s i) {a b : Incident} (ha : a ∈ y.own) (hb : b ∈ y.own)
    (hpair : a.pair = b.pair) : a = b :=
  List.inj_on_of_nodup_map h.pairs ha hb hpair

/-- What a session has recorded is not about a row that it does not have. -/
theorem Sync.Sound.not_about (hs : s.Sound) (h : y.Sound s i) {r : Incident}
    (hr : r ∈ s.incidents) (hactive : r.active = true) (hother : ∀ o ∈ y.own, o.id ≠ r.id) :
    .failing r.pair ∉ y.facts ∧ ∀ p, .opened r.id p ∉ y.facts := by
  constructor
  · intro hmem
    obtain ⟨o, ho, hpair⟩ := h.failing r.pair hmem
    exact hother o ho ((h.own o ho).eq_row hs hr hactive hpair)
  · intro p hmem
    exact (h.opened r.id p hmem).2.1 (mem_ids hr)

theorem Sync.Sound.count_row (hs : s.Sound) (h : y.Sound s i) {r : Incident}
    (hr : r ∈ s.incidents) (hactive : r.active = true) (hother : ∀ o ∈ y.own, o.id ≠ r.id) :
    r.occurrenceCount = since r.pair r.id (y.facts ++ s.history) + 1 := by
  obtain ⟨hfailing, hopened⟩ := h.not_about hs hr hactive hother
  have hsame := since_insert [] s.history hfailing hopened
  rw [List.nil_append, List.nil_append] at hsame
  rw [hsame]
  exact hs.count r hr hactive

end Rows

/-! ## What a synchronisation does to an object -/

section Writing
variable {s : Store ι} {i : ι} {y : Sync}

@[simp] theorem attach_pair (inc : Incident) (now : ℕ) : (inc.attach now).pair = inc.pair := rfl
@[simp] theorem autoResolve_pair (inc : Incident) (now : ℕ) :
    (inc.autoResolve now).pair = inc.pair := rfl

theorem mem_others {o inc : Incident} :
    o ∈ y.own.filter (fun o => o.id ≠ inc.id) ↔ o ∈ y.own ∧ o.id ≠ inc.id := by
  rw [List.mem_filter, decide_eq_true_iff]

/-- The session's objects after one of them was replaced: `w` has the new object first. -/
theorem Sync.Sound.replace {inc : Incident} (new : Incident) {w : Sync} (h : y.Sound s i)
    (hpairs : ∀ o ∈ y.own, o.id = inc.id ↔ o.pair = inc.pair)
    (hnew : w.Owns s i new) (hid : new.id = inc.id) (hpair : new.pair = inc.pair)
    (hown : w.own = new :: y.own.filter fun o => o.id ≠ inc.id)
    (hcounts : ∀ o ∈ y.own, o.id ≠ inc.id →
      since o.pair o.id (w.facts ++ s.history) = since o.pair o.id (y.facts ++ s.history))
    (hopened : ∀ id p, .opened id p ∈ w.facts ↔ .opened id p ∈ y.facts)
    (hfailing : ∀ p, .failing p ∈ w.facts → p = inc.pair ∨ .failing p ∈ y.facts) :
    w.Sound s i := by
  refine ⟨?_, ?_, ?_, ?_, ?_⟩
  · intro o ho
    rw [hown] at ho
    obtain heq | ho := List.mem_cons.mp ho
    · rw [heq]
      exact hnew
    · obtain ⟨ho, hne⟩ := mem_others.mp ho
      have hold := h.own o ho
      refine ⟨hold.locked, by rw [hcounts o ho hne]; exact hold.count, ?_⟩
      obtain hrow | ⟨hfresh, hinserting, hfact, hprior⟩ := hold.kind
      · exact .inl hrow
      · exact .inr ⟨hfresh, hinserting, (hopened o.id o.pair).mpr hfact, hprior⟩
  · rw [hown, List.map_cons, List.nodup_cons]
    refine ⟨fun hmem => ?_, h.pairs.sublist (List.filter_sublist.map _)⟩
    obtain ⟨o, ho, heq⟩ := List.mem_map.mp hmem
    obtain ⟨ho, hne⟩ := mem_others.mp ho
    exact hne ((hpairs o ho).mpr (heq.trans hpair))
  · rw [hown, List.map_cons, List.nodup_cons]
    refine ⟨fun hmem => ?_, h.ids.sublist (List.filter_sublist.map _)⟩
    obtain ⟨o, ho, heq⟩ := List.mem_map.mp hmem
    exact (mem_others.mp ho).2 (heq.trans hid)
  · intro p hmem
    rw [hown]
    obtain heq | hmem := hfailing p hmem
    · exact ⟨new, List.mem_cons_self, hpair.trans heq.symm⟩
    · obtain ⟨o, ho, hop⟩ := h.failing p hmem
      by_cases hoid : o.id = inc.id
      · have hsame := (hpairs o ho).mp hoid
        exact ⟨new, List.mem_cons_self, hpair.trans (hsame.symm.trans hop)⟩
      · exact ⟨o, List.mem_cons_of_mem _ (mem_others.mpr ⟨ho, hoid⟩), hop⟩
  · intro id p hmem
    exact h.opened id p ((hopened id p).mp hmem)

theorem Sync.Owns.write {inc : Incident} (h : y.Owns s i inc) (hy : y.Sound s i)
    (hpairs : ∀ o ∈ y.own, o.id = inc.id ↔ o.pair = inc.pair) (purpose : Purpose) (now : ℕ) :
    (y.write purpose inc now).Sound s i := by
  cases purpose with
  | attach attempt =>
    refine hy.replace (inc.attach now) hpairs ?_ rfl rfl rfl ?_ ?_ ?_
    · refine ⟨h.locked, ?_, ?_⟩
      · show inc.occurrenceCount + 1 =
          since inc.pair inc.id (.failing inc.pair :: (y.facts ++ s.history)) + 1
        rw [since_failing_self, h.count]
      · obtain hrow | ⟨hfresh, hinserting, hfact, hprior⟩ := h.kind
        · exact .inl hrow
        · exact .inr ⟨hfresh, hinserting, List.mem_cons_of_mem _ hfact, hprior⟩
    · intro o ho hne
      have hpair : inc.pair ≠ o.pair := fun heq => hne ((hpairs o ho).mpr heq.symm)
      exact since_failing_ne hpair
    · intro id p
      simp [Sync.write]
    · intro p hmem
      simpa [Sync.write] using hmem
  | autoResolve =>
    refine hy.replace (inc.autoResolve now) hpairs ⟨h.locked, h.count, h.kind⟩ rfl rfl rfl
      (fun _ _ _ => rfl) (fun _ _ => Iff.rfl) (fun p hmem => .inr hmem)

/-- On an object that the session has already. -/
theorem Sync.Sound.write_own {o : Incident} (h : y.Sound s i) (ho : o ∈ y.own) (purpose : Purpose)
    (now : ℕ) : (y.write purpose o now).Sound s i := by
  refine (h.own o ho).write h (fun o' ho' => ⟨fun hid => ?_, fun hpair => ?_⟩) purpose now
  · rw [List.inj_on_of_nodup_map h.ids ho' ho hid]
  · rw [h.eq_of_pair ho' ho hpair]

/-- On a row that the session has just locked. -/
theorem Sync.Sound.write_row {r : Incident} (hs : s.Sound) (h : y.Sound s i)
    (hr : r ∈ s.incidents) (hactive : r.active = true) (hlocked : s.locks r.id = some i)
    (hnone : ∀ o ∈ y.own, o.pair ≠ r.pair) (purpose : Purpose) (now : ℕ) :
    (y.write purpose r now).Sound s i := by
  have hother : ∀ o ∈ y.own, o.id ≠ r.id := fun o ho hid =>
    hnone o ho ((h.own o ho).row hs hr hid).1.symm
  have howns : y.Owns s i r :=
    ⟨hlocked, h.count_row hs hr hactive hother, .inl ⟨r, hr, rfl, rfl, rfl, hactive⟩⟩
  refine howns.write h (fun o ho => ⟨fun hid => ?_, fun hpair => ?_⟩) purpose now
  · exact absurd hid (hother o ho)
  · exact absurd hpair (hnone o ho)

end Writing

/-! ## Locks -/

section Locking
variable {s : Store ι} {i : ι} {y : Sync}

/-- A session locks a row that is free. -/
theorem lockRow_advances {id : ℕ} (hfree : s.locks.Free i id) (k : ι) :
    Advances s { s with locks := s.locks.take i id } k :=
  Advances.of_locks rfl rfl (fun _ h => Locks.take_keeps hfree h) (fun _ h => h)

theorem lockRow_sound {id : ℕ} (hs : s.Sound) (hid : id < s.nextId) :
    ({ s with locks := s.locks.take i id } : Store ι).Sound := by
  refine ⟨hs.ids, hs.below, fun id' k hk => ?_, hs.one, hs.count, hs.opened, hs.prior,
    hs.inserting⟩
  by_cases heq : id' = id
  · exact heq ▸ hid
  · exact hs.locksBelow id' k (by simpa [Locks.take, heq] using hk)

/-- The store with a row that session `i` has inserted for the pair. -/
def Store.withInserted (s : Store ι) (i : ι) (pair : Pair) : Store ι :=
  { s with
    nextId := s.nextId + 1
    locks := s.locks.take i s.nextId
    inserting := s.inserting.take i pair }

theorem withInserted_advances {pair : Pair} (hs : s.Sound) (hfree : s.inserting.Free i pair)
    (k : ι) : Advances s (s.withInserted i pair) k := by
  have hnew : s.locks.Free i s.nextId := by
    cases hlock : s.locks s.nextId with
    | none => exact .inl hlock
    | some k => exact absurd (hs.locksBelow _ _ hlock) (Nat.lt_irrefl _)
  exact Advances.of_locks rfl rfl (fun _ h => Locks.take_keeps hnew h)
    (fun _ h => Locks.take_keeps hfree h)

theorem withInserted_sound {pair : Pair} (hs : s.Sound)
    (hrows : ∀ r ∈ s.incidents, r.pair = pair → r.active = false) :
    (s.withInserted i pair).Sound := by
  refine ⟨hs.ids, fun r hr => Nat.lt_succ_of_lt (hs.below r hr), fun id k hk => ?_, hs.one,
    hs.count, hs.opened, hs.prior, fun p k hk => ?_⟩
  · by_cases heq : id = s.nextId
    · show id < s.nextId + 1
      omega
    · have hold : s.locks id = some k := by simpa [Store.withInserted, Locks.take, heq] using hk
      exact Nat.lt_succ_of_lt (hs.locksBelow id k hold)
  · by_cases heq : p = pair
    · exact fun r hr hp => hrows r hr (hp.trans heq)
    · exact hs.inserting p k (by simpa [Store.withInserted, Locks.take, heq] using hk)

theorem Sync.Sound.insert {checkId : ℕ} {priorId : Option ℕ} (hs : s.Sound) (hy : y.Sound s i)
    (hown : ∀ o ∈ y.own, o.pair ≠ y.pair checkId) (hfree : s.inserting.Free i (y.pair checkId))
    (hprior : ∀ p, priorId = some p → Resolved s (y.pair checkId) p) :
    (y.inserted (y.newIncident checkId s.nextId priorId)).Sound
      (s.withInserted i (y.pair checkId)) i := by
  have hadvances := withInserted_advances hs hfree i
  have hmoved := hy.advance hadvances
  have hnew : s.nextId ∉ s.incidents.map Incident.id := by
    intro hmem
    obtain ⟨r, hr, hid⟩ := List.mem_map.mp hmem
    exact absurd (hid ▸ hs.below r hr) (Nat.lt_irrefl _)
  have hids : ∀ o ∈ y.own, o.id ≠ s.nextId := by
    intro o ho heq
    exact absurd (heq ▸ hs.locksBelow o.id i (hy.own o ho).locked) (Nat.lt_irrefl _)
  set inc := y.newIncident checkId s.nextId priorId with hinc
  have hpair : inc.pair = y.pair checkId := rfl
  have hfacts : (y.inserted inc).facts = .opened s.nextId inc.pair :: .failing inc.pair :: y.facts :=
    rfl
  have howns : (y.inserted inc).Owns (s.withInserted i (y.pair checkId)) i inc := by
    refine ⟨Locks.take_self _ _ _, ?_, .inr ⟨hnew, Locks.take_self _ _ _, ?_, ?_⟩⟩
    · show 1 = since inc.pair s.nextId (.opened s.nextId inc.pair :: _) + 1
      rw [since_opened_self]
    · rw [hfacts]
      exact List.mem_cons_self
    · exact fun p hp => (hprior p hp).advance hadvances
  refine ⟨?_, ?_, ?_, ?_, ?_⟩
  · intro o ho
    obtain heq | ho := List.mem_cons.mp ho
    · rw [heq]
      exact howns
    · have hold := hmoved.own o ho
      refine ⟨hold.locked, ?_, ?_⟩
      · rw [hfacts, List.cons_append, List.cons_append, since_opened_ne (hids o ho).symm,
          since_failing_ne (fun heq => hown o ho (heq.symm.trans hpair))]
        exact hold.count
      · obtain hrow | ⟨hfresh, hinserting, hfact, hp⟩ := hold.kind
        · exact .inl hrow
        · refine .inr ⟨hfresh, hinserting, ?_, hp⟩
          rw [hfacts]
          exact List.mem_cons_of_mem _ (List.mem_cons_of_mem _ hfact)
  · refine List.nodup_cons.mpr ⟨fun hmem => ?_, hy.pairs⟩
    obtain ⟨o, ho, heq⟩ := List.mem_map.mp hmem
    exact hown o ho (heq.trans hpair)
  · refine List.nodup_cons.mpr ⟨fun hmem => ?_, hy.ids⟩
    obtain ⟨o, ho, heq⟩ := List.mem_map.mp hmem
    exact hids o ho heq
  · intro p hmem
    rw [hfacts] at hmem
    have hcase : p = inc.pair ∨ .failing p ∈ y.facts := by simpa using hmem
    obtain heq | hmem := hcase
    · exact ⟨inc, List.mem_cons_self, heq.symm⟩
    · obtain ⟨o, ho, hop⟩ := hy.failing p hmem
      exact ⟨o, List.mem_cons_of_mem _ ho, hop⟩
  · intro id p hmem
    rw [hfacts] at hmem
    have hcase : id = s.nextId ∧ p = inc.pair ∨ .opened id p ∈ y.facts := by simpa using hmem
    obtain ⟨rfl, rfl⟩ | hmem := hcase
    · exact ⟨Locks.take_self _ _ _, hnew, Locks.take_self _ _ _⟩
    · exact hmoved.opened id p hmem

variable [DecidableEq ι]

theorem release_kept (hs : s.Sound) : Kept s i (s.release i) .idle := by
  refine ⟨⟨hs.ids, hs.below, fun id k hk => ?_, hs.one, hs.count, hs.opened, hs.prior,
    fun p k hk => ?_⟩, trivial, fun k hk => ?_, fun r hr hinactive => ⟨r, hr, rfl, hinactive⟩⟩
  · exact hs.locksBelow id k (Locks.release_other hk).1
  · exact hs.inserting p k (Locks.release_other hk).1
  · exact Advances.of_locks rfl rfl (fun _ h => Locks.release_keeps hk h)
      (fun _ h => Locks.release_keeps hk h)

theorem missed_kept {checkId : ℕ} {purpose : Purpose} {t : Store ι} {next : Pc} (hs : s.Sound)
    (hy : y.Sound s i) (h : missed i s y checkId purpose = (t, next)) : Kept s i t next := by
  cases purpose with
  | attach attempt =>
    simp only [missed] at h
    split at h
    · obtain ⟨rfl, rfl⟩ := Prod.mk.inj h
      exact Kept.of_same hs hy
    · obtain ⟨rfl, rfl⟩ := Prod.mk.inj h
      exact release_kept hs
  | autoResolve =>
    obtain ⟨rfl, rfl⟩ := Prod.mk.inj h
    exact Kept.of_same hs hy

theorem selectActive_kept {checkId : ℕ} {purpose : Purpose} {t : Store ι} {next : Pc}
    (hs : s.Sound) (hy : y.Sound s i) (h : selectActive i s y checkId purpose = (t, next)) :
    Kept s i t next := by
  unfold selectActive at h
  split at h
  · next o hfind =>
    obtain ⟨rfl, rfl⟩ := Prod.mk.inj h
    exact Kept.of_same hs (hy.write_own (List.mem_of_find?_eq_some hfind) purpose s.now)
  · next hnone =>
    have hown : ∀ o ∈ y.own, o.pair ≠ y.pair checkId := by
      simpa using List.find?_eq_none.mp hnone
    split at h
    · next row hfind =>
      obtain ⟨rfl, rfl⟩ := Prod.mk.inj h
      have hrow := List.find?_some hfind
      simp only [decide_eq_true_eq] at hrow
      exact Kept.of_same hs ⟨hy, hown, row, List.mem_of_find?_eq_some hfind, rfl, hrow.1⟩
    · exact missed_kept hs hy h

theorem lockActive_kept {checkId id : ℕ} {purpose : Purpose} {t : Store ι} {next : Pc}
    (hs : s.Sound) (hy : Pc.Sound s i (.lockActive y checkId purpose id))
    (h : lockActive i s y checkId purpose id = some (t, next)) : Kept s i t next := by
  obtain ⟨hsync, hnone, r, hr, hid, hpair⟩ := hy
  unfold lockActive at h
  split at h
  · next hfree =>
    split at h
    · next row hfind =>
      obtain ⟨rfl, rfl⟩ := Prod.mk.inj (Option.some.inj h)
      have hmem : row ∈ s.incidents := List.mem_of_find?_eq_some hfind
      have hrow := List.find?_some hfind
      simp only [decide_eq_true_eq] at hrow
      have heq : row = r := hs.eq_of_id hmem hr (hrow.1.trans hid.symm)
      subst heq
      subst hid
      have hsound := lockRow_sound (i := i) hs (hs.below row hmem)
      refine ⟨hsound, ?_, fun k _ => lockRow_advances hfree k,
        fun r hr hinactive => ⟨r, hr, rfl, hinactive⟩⟩
      refine (hsync.advance (lockRow_advances hfree i)).write_row hsound hmem hrow.2
        (Locks.take_self _ _ _) (fun o ho => ?_) purpose s.now
      rw [hpair]
      exact hnone o ho
    · exact missed_kept hs hsync (Option.some.inj h)
  · cases h

theorem insertOpen_kept {checkId attempt : ℕ} {priorId : Option ℕ} {t : Store ι} {next : Pc}
    (hs : s.Sound) (hy : Pc.Sound s i (.insertOpen y checkId attempt priorId))
    (h : insertOpen i s y checkId attempt priorId = some (t, next)) : Kept s i t next := by
  obtain ⟨hsync, hprior⟩ := hy
  unfold insertOpen at h
  simp only at h
  split at h
  · obtain ⟨rfl, rfl⟩ := Prod.mk.inj (Option.some.inj h)
    exact Kept.of_same hs hsync
  · next hnone =>
    split at h
    · next hfree =>
      obtain ⟨rfl, rfl⟩ := Prod.mk.inj (Option.some.inj h)
      simp only [Bool.or_eq_true, List.any_eq_true, decide_eq_true_eq, not_or, not_exists,
        not_and] at hnone
      obtain ⟨hown, hrows⟩ := hnone
      have hinactive : ∀ r ∈ s.incidents, r.pair = y.pair checkId → r.active = false := by
        intro r hr hp
        exact eq_false_of_ne_true (hrows r hr hp)
      exact ⟨withInserted_sound hs hinactive, hsync.insert hs hown hfree hprior,
        fun k _ => withInserted_advances hs hfree k, fun r hr hr' => ⟨r, hr, rfl, hr'⟩⟩
    · cases h

end Locking

/-! ## The commit of a synchronisation -/

section Committing
variable {s : Store ι} {i : ι} {y : Sync}

/-- A row after the flush is as it was, or it is the object that the session held of it. -/
structure Flushed (s : Store ι) (i : ι) (y : Sync) (r r' : Incident) : Prop where
  id : r'.id = r.id
  pair : r'.pair = r.pair
  prior : r'.priorIncidentId = r.priorIncidentId
  cases : (r' = r ∧ ∀ o ∈ y.own, o.id ≠ r.id) ∨
    (r' ∈ y.own ∧ r.active = true ∧ s.locks r.id = some i)

theorem flushed_spec (hs : s.Sound) (hy : y.Sound s i) {r : Incident} (hr : r ∈ s.incidents) :
    Flushed s i y r (flushed y.own r) := by
  unfold flushed
  cases hfind : y.own.find? fun o => o.id = r.id with
  | none =>
    refine ⟨rfl, rfl, rfl, .inl ⟨rfl, fun o ho hid => ?_⟩⟩
    exact absurd (decide_eq_true hid) (List.find?_eq_none.mp hfind o ho)
  | some o =>
    have ho : o ∈ y.own := List.mem_of_find?_eq_some hfind
    have hid : o.id = r.id := by simpa using List.find?_some hfind
    obtain ⟨hpair, hprior, hactive⟩ := (hy.own o ho).row hs hr hid
    exact ⟨hid, hpair.symm, hprior.symm, .inr ⟨ho, hactive, hid ▸ (hy.own o ho).locked⟩⟩

theorem Flushed.inactive {r r' : Incident} (h : Flushed s i y r r') (hr : r.active = false) :
    r' = r := by
  obtain ⟨heq, _⟩ | ⟨_, hactive, _⟩ := h.cases
  · exact heq
  · rw [hr] at hactive
    cases hactive

theorem Flushed.active {r r' : Incident} (h : Flushed s i y r r') (hr : r'.active = true) :
    r.active = true := by
  obtain ⟨heq, _⟩ | ⟨_, hactive, _⟩ := h.cases
  · rw [← heq]
    exact hr
  · exact hactive

theorem mem_insertedRows {a : Incident} :
    a ∈ insertedRows y.own s.incidents ↔ a ∈ y.own ∧ a.id ∉ s.incidents.map Incident.id := by
  rw [insertedRows, List.mem_filter, List.mem_reverse, decide_eq_true_iff]

/-- What a row of the session's own insertion is. -/
theorem Sync.Sound.inserted_row (hy : y.Sound s i) {a : Incident}
    (ha : a ∈ insertedRows y.own s.incidents) :
    a ∈ y.own ∧ y.Owns s i a ∧ HasInserted s i y a := by
  obtain ⟨hown, hnew⟩ := mem_insertedRows.mp ha
  have howns := hy.own a hown
  obtain ⟨r, hr, hid, _⟩ | hinserted := howns.kind
  · exact absurd (hid ▸ mem_ids hr) hnew
  · exact ⟨hown, howns, hinserted⟩

variable [DecidableEq ι]

theorem mem_commit {a : Incident} : a ∈ (s.commit i y).incidents ↔
    (∃ r ∈ s.incidents, flushed y.own r = a) ∨ a ∈ insertedRows y.own s.incidents := by
  rw [Store.commit, List.mem_append, List.mem_map]

theorem commit_ids (hs : s.Sound) (hy : y.Sound s i) :
    ((s.commit i y).incidents.map Incident.id).Nodup := by
  have hsame : (s.incidents.map (flushed y.own)).map Incident.id = s.incidents.map Incident.id := by
    rw [List.map_map]
    exact List.map_congr_left fun r hr => (flushed_spec hs hy hr).id
  show ((s.incidents.map (flushed y.own) ++ insertedRows y.own s.incidents).map Incident.id).Nodup
  rw [List.map_append, hsame]
  refine List.nodup_append.mpr ⟨hs.ids, ?_, ?_⟩
  · have hrev : (y.own.reverse.map Incident.id).Nodup := by
      rw [List.map_reverse]
      exact List.nodup_reverse.mpr hy.ids
    exact hrev.sublist (List.filter_sublist.map _)
  · intro a ha b hb heq
    obtain ⟨o, ho, hid⟩ := List.mem_map.mp hb
    exact (mem_insertedRows.mp ho).2 (hid.trans heq.symm ▸ ha)

theorem commit_one (hs : s.Sound) (hy : y.Sound s i) {a b : Incident}
    (ha : a ∈ (s.commit i y).incidents) (hb : b ∈ (s.commit i y).incidents)
    (haa : a.active = true) (hba : b.active = true) (hpair : a.pair = b.pair) : a = b := by
  -- an active row of before and one that the session has inserted are not of one pair
  have hmixed : ∀ r ∈ s.incidents, ∀ o ∈ insertedRows y.own s.incidents,
      (flushed y.own r).active = true → (flushed y.own r).pair = o.pair → False := by
    intro r hr o ho hactive hp
    have hspec := flushed_spec hs hy hr
    obtain ⟨_, _, _, hinserting, _⟩ := hy.inserted_row ho
    have hinactive := hs.inserting _ _ hinserting r hr (hspec.pair.symm.trans hp)
    rw [hspec.active hactive] at hinactive
    cases hinactive
  obtain ⟨r, hr, rfl⟩ | ha := mem_commit.mp ha
  · obtain ⟨r', hr', rfl⟩ | hb := mem_commit.mp hb
    · have hspec := flushed_spec hs hy hr
      have hspec' := flushed_spec hs hy hr'
      rw [hs.one r hr r' hr' (hspec.active haa) (hspec'.active hba)
        (hspec.pair.symm.trans (hpair.trans hspec'.pair))]
    · exact (hmixed r hr b hb haa hpair).elim
  · obtain ⟨r', hr', rfl⟩ | hb := mem_commit.mp hb
    · exact (hmixed r' hr' a ha hba hpair.symm).elim
    · exact hy.eq_of_pair (mem_insertedRows.mp ha).1 (mem_insertedRows.mp hb).1 hpair

theorem commit_count (hs : s.Sound) (hy : y.Sound s i) {a : Incident}
    (ha : a ∈ (s.commit i y).incidents) (hactive : a.active = true) :
    a.occurrenceCount = since a.pair a.id (s.commit i y).history + 1 := by
  obtain ⟨r, hr, rfl⟩ | ha := mem_commit.mp ha
  · have hspec := flushed_spec hs hy hr
    obtain ⟨hsame, hother⟩ | ⟨hown, _, _⟩ := hspec.cases
    · rw [hsame] at hactive ⊢
      exact hy.count_row hs hr hactive hother
    · exact (hy.own _ hown).count
  · exact (hy.inserted_row ha).2.1.count

theorem Resolved.commit (hs : s.Sound) (hy : y.Sound s i) {pair : Pair} {p : ℕ}
    (h : Resolved s pair p) : Resolved (s.commit i y) pair p := by
  obtain ⟨r, hr, hid, hp, hinactive⟩ := h
  have hsame := (flushed_spec hs hy hr).inactive hinactive
  exact ⟨r, mem_commit.mpr (.inl ⟨r, hr, hsame⟩), hid, hp, hinactive⟩

theorem commit_prior (hs : s.Sound) (hy : y.Sound s i) {a : Incident}
    (ha : a ∈ (s.commit i y).incidents) {p : ℕ} (hp : a.priorIncidentId = some p) :
    Resolved (s.commit i y) a.pair p ∧ OpenedBefore (s.commit i y).history p a.id := by
  obtain ⟨r, hr, rfl⟩ | ha := mem_commit.mp ha
  · have hspec := flushed_spec hs hy hr
    rw [hspec.prior] at hp
    obtain ⟨hresolved, hbefore⟩ := hs.prior r hr p hp
    rw [hspec.pair, hspec.id]
    exact ⟨hresolved.commit hs hy, hbefore.append y.facts⟩
  · obtain ⟨_, _, _, _, hfact, hprior⟩ := hy.inserted_row ha
    have hresolved := hprior p hp
    obtain ⟨r, hr, hid, _⟩ := hresolved
    refine ⟨Resolved.commit hs hy (hprior p hp), .of_facts hfact (q := r.pair) ?_⟩
    rw [← hid]
    exact hs.opened r hr

theorem commit_sound (hs : s.Sound) (hy : y.Sound s i) : (s.commit i y).Sound := by
  refine ⟨commit_ids hs hy, fun a ha => ?_, fun id k hk => ?_,
    fun a ha b hb => commit_one hs hy ha hb, fun a ha => commit_count hs hy ha, fun a ha => ?_,
    fun a ha p hp => commit_prior hs hy ha hp, fun p k hk a ha hap => ?_⟩
  · obtain ⟨r, hr, rfl⟩ | ha := mem_commit.mp ha
    · rw [(flushed_spec hs hy hr).id]
      exact hs.below r hr
    · exact hs.locksBelow a.id i (hy.inserted_row ha).2.1.locked
  · exact hs.locksBelow id k (Locks.release_other hk).1
  · obtain ⟨r, hr, rfl⟩ | ha := mem_commit.mp ha
    · have hspec := flushed_spec hs hy hr
      rw [hspec.id, hspec.pair]
      exact List.mem_append_right _ (hs.opened r hr)
    · exact List.mem_append_left _ (hy.inserted_row ha).2.2.2.2.1
  · obtain ⟨hk, hki⟩ := Locks.release_other hk
    obtain ⟨r, hr, rfl⟩ | ha := mem_commit.mp ha
    · have hspec := flushed_spec hs hy hr
      have hinactive := hs.inserting p k hk r hr (hspec.pair.symm.trans hap)
      rw [hspec.inactive hinactive]
      exact hinactive
    · have hinserting := (hy.inserted_row ha).2.2.2.1
      rw [hap, hk] at hinserting
      exact absurd (Option.some.inj hinserting) hki

theorem commit_advances (hs : s.Sound) (hy : y.Sound s i) {k : ι} (hki : k ≠ i) :
    Advances s (s.commit i y) k := by
  refine ⟨fun _ h => Locks.release_keeps hki h, fun _ h => Locks.release_keeps hki h,
    fun r hr => ?_, fun a ha => ?_, y.facts, rfl, fun p hmem hclaims => ?_, fun id p hmem => ?_⟩
  · have hspec := flushed_spec hs hy hr
    refine ⟨_, mem_commit.mpr (.inl ⟨r, hr, rfl⟩), hspec.id, hspec.pair, hspec.prior,
      fun hinactive => by rw [hspec.inactive hinactive]; exact hinactive, fun hlocked => ?_⟩
    obtain ⟨hsame, _⟩ | ⟨_, _, hmine⟩ := hspec.cases
    · rw [hsame]
    · exact absurd (Option.some.inj (hlocked.symm.trans hmine)) hki
  · obtain ⟨r, hr, rfl⟩ | ha := mem_commit.mp ha
    · exact .inl ⟨r, hr, (flushed_spec hs hy hr).id.symm⟩
    · refine .inr fun hlocked => hki ?_
      exact Option.some.inj (hlocked.symm.trans (hy.inserted_row ha).2.1.locked)
  · obtain ⟨o, ho, hop⟩ := hy.failing p hmem
    have howns := hy.own o ho
    obtain hinserting | ⟨r, hr, hrp, hactive, hlocked⟩ := hclaims
    · obtain ⟨r, hr, _, hrp, _, hactive⟩ | ⟨_, hmine, _⟩ := howns.kind
      · have hinactive := hs.inserting p k hinserting r hr (hrp.trans hop)
        rw [hactive] at hinactive
        cases hinactive
      · rw [hop, hinserting] at hmine
        exact hki (Option.some.inj hmine)
    · have hid := howns.eq_row hs hr hactive (hop.trans hrp.symm)
      rw [← hid, howns.locked] at hlocked
      exact hki (Option.some.inj hlocked).symm
  · rw [(hy.opened id p hmem).1]
    intro heq
    exact hki (Option.some.inj heq).symm

theorem commit_kept (hs : s.Sound) (hy : y.Sound s i) : Kept s i (s.commit i y) .idle := by
  refine ⟨commit_sound hs hy, trivial, fun k hk => commit_advances hs hy hk,
    fun r hr hinactive => ?_⟩
  have hsame := (flushed_spec hs hy hr).inactive hinactive
  exact ⟨r, mem_commit.mpr (.inl ⟨r, hr, hsame⟩), rfl, hinactive⟩

theorem nextResult_kept {t : Store ι} {next : Pc} (hs : s.Sound) (hy : y.Sound s i)
    (h : nextResult i s y = (t, next)) : Kept s i t next := by
  unfold nextResult at h
  have hrest : ∀ todo, ({ y with todo := todo } : Sync).Sound s i := fun _ =>
    ⟨fun o ho => ⟨(hy.own o ho).locked, (hy.own o ho).count, (hy.own o ho).kind⟩, hy.pairs, hy.ids,
      hy.failing, hy.opened⟩
  split at h
  · obtain ⟨rfl, rfl⟩ := Prod.mk.inj h
    exact commit_kept hs hy
  · simp only at h
    split at h
    · obtain ⟨rfl, rfl⟩ := Prod.mk.inj h
      exact Kept.of_same hs (hrest _)
    · split at h
      · obtain ⟨rfl, rfl⟩ := Prod.mk.inj h
        exact Kept.of_same hs (hrest _)
      · obtain ⟨rfl, rfl⟩ := Prod.mk.inj h
        exact Kept.of_same hs (hrest _)

end Committing

/-! ## Acknowledge and resolve -/

/-- What a manual transition may change of an active incident. -/
structure Transitions (change : Incident → Incident) : Prop where
  id : ∀ r, (change r).id = r.id
  pair : ∀ r, (change r).pair = r.pair
  prior : ∀ r, (change r).priorIncidentId = r.priorIncidentId
  count : ∀ r, (change r).occurrenceCount = r.occurrenceCount

theorem transitions_acknowledge (userId now : ℕ) :
    Transitions fun r => r.acknowledge userId now :=
  ⟨fun _ => rfl, fun _ => rfl, fun _ => rfl, fun _ => rfl⟩

theorem transitions_resolve (userId : ℕ) (resolution : Option Resolution) (now : ℕ) :
    Transitions fun r => r.resolve userId resolution now :=
  ⟨fun _ => rfl, fun _ => rfl, fun _ => rfl, fun _ => rfl⟩

section Manual
variable {s : Store ι} {i : ι} {change : Incident → Incident}

/-- A row after a transition of the incident `id`. -/
def changed (change : Incident → Incident) (id : ℕ) (r : Incident) : Incident :=
  if r.id = id ∧ r.active then change r else r

theorem changed_spec (h : Transitions change) (id : ℕ) (r : Incident) :
    (changed change id r).id = r.id ∧ (changed change id r).pair = r.pair ∧
      (changed change id r).priorIncidentId = r.priorIncidentId ∧
      (changed change id r).occurrenceCount = r.occurrenceCount := by
  unfold changed
  split
  · exact ⟨h.id r, h.pair r, h.prior r, h.count r⟩
  · exact ⟨rfl, rfl, rfl, rfl⟩

theorem changed_active {id : ℕ} {r : Incident} (h : (changed change id r).active = true) :
    r.active = true := by
  unfold changed at h
  split at h
  · next hcond => exact hcond.2
  · exact h

theorem changed_inactive {id : ℕ} {r : Incident} (h : r.active = false) :
    changed change id r = r := by
  rw [changed, if_neg (by simp [h])]

theorem changed_kept {id : ℕ} (hs : s.Sound) (hchange : Transitions change)
    (hfree : s.locks.Free i id) :
    Kept s i { s with incidents := s.incidents.map (changed change id) } .idle := by
  set t : Store ι := { s with incidents := s.incidents.map (changed change id) } with ht
  have hmem : ∀ a ∈ t.incidents, ∃ r ∈ s.incidents, changed change id r = a := fun a ha =>
    List.mem_map.mp ha
  have hinto : ∀ r ∈ s.incidents, changed change id r ∈ t.incidents := fun r hr =>
    List.mem_map.mpr ⟨r, hr, rfl⟩
  have hresolved : ∀ pair p, Resolved s pair p → Resolved t pair p := by
    rintro pair p ⟨r, hr, hid, hpair, hinactive⟩
    refine ⟨r, ?_, hid, hpair, hinactive⟩
    have hin := hinto r hr
    rwa [changed_inactive hinactive] at hin
  have hids : t.incidents.map Incident.id = s.incidents.map Incident.id := by
    show (s.incidents.map (changed change id)).map Incident.id = _
    rw [List.map_map]
    exact List.map_congr_left fun r _ => (changed_spec hchange id r).1
  refine ⟨⟨by rw [hids]; exact hs.ids, fun a ha => ?_, hs.locksBelow, fun a ha b hb haa hba hp => ?_,
    fun a ha hactive => ?_, fun a ha => ?_, fun a ha p hp => ?_, fun p k hk a ha hap => ?_⟩,
    trivial, fun k hk => ?_, fun r hr hinactive => ?_⟩
  · obtain ⟨r, hr, rfl⟩ := hmem a ha
    rw [(changed_spec hchange id r).1]
    exact hs.below r hr
  · obtain ⟨r, hr, rfl⟩ := hmem a ha
    obtain ⟨r', hr', rfl⟩ := hmem b hb
    rw [(changed_spec hchange id r).2.1, (changed_spec hchange id r').2.1] at hp
    rw [hs.one r hr r' hr' (changed_active haa) (changed_active hba) hp]
  · obtain ⟨r, hr, rfl⟩ := hmem a ha
    obtain ⟨hid, hpair, _, hcount⟩ := changed_spec hchange id r
    rw [hid, hpair, hcount]
    exact hs.count r hr (changed_active hactive)
  · obtain ⟨r, hr, rfl⟩ := hmem a ha
    obtain ⟨hid, hpair, _, _⟩ := changed_spec hchange id r
    rw [hid, hpair]
    exact hs.opened r hr
  · obtain ⟨r, hr, rfl⟩ := hmem a ha
    obtain ⟨hid, hpair, hprior, _⟩ := changed_spec hchange id r
    rw [hprior] at hp
    obtain ⟨hres, hbefore⟩ := hs.prior r hr p hp
    rw [hid, hpair]
    exact ⟨hresolved _ _ hres, hbefore⟩
  · obtain ⟨r, hr, rfl⟩ := hmem a ha
    rw [(changed_spec hchange id r).2.1] at hap
    have hinactive := hs.inserting p k hk r hr hap
    rw [changed_inactive hinactive]
    exact hinactive
  · refine ⟨fun _ h => h, fun _ h => h, fun r hr => ?_, fun a ha => ?_, [], rfl, by simp, by simp⟩
    · obtain ⟨hid, hpair, hprior, _⟩ := changed_spec hchange id r
      refine ⟨_, hinto r hr, hid, hpair, hprior, fun h => by rw [changed_inactive h]; exact h,
        fun hlocked => ?_⟩
      have hother : r.id ≠ id := by
        intro heq
        rw [heq] at hlocked
        have hki : k = i := by simpa [Locks.Free, hlocked] using hfree
        exact hk hki
      rw [changed, if_neg (by simp [hother])]
    · obtain ⟨r, hr, rfl⟩ := hmem a ha
      exact .inl ⟨r, hr, (changed_spec hchange id r).1.symm⟩
  · have hin := hinto r hr
    rw [changed_inactive hinactive] at hin
    exact ⟨r, hin, rfl, hinactive⟩

variable [DecidableEq ι]

theorem transition_kept {id : ℕ} {t : Store ι} {next : Pc} (hs : s.Sound)
    (hchange : Transitions change) (h : transition i s id change = some (t, next)) :
    Kept s i t next := by
  unfold transition at h
  split at h
  · next hfree =>
    obtain ⟨rfl, rfl⟩ := Prod.mk.inj (Option.some.inj h)
    exact changed_kept hs hchange hfree
  · cases h

end Manual

/-! ## Every interleaving -/

section Statements
variable {s t : Store ι} {i : ι} {pc next : Pc}

theorem mostRecentResolved_spec {pair : Pair} {p : ℕ}
    (h : (mostRecentResolved s.incidents pair).map Incident.id = some p) : Resolved s pair p := by
  obtain ⟨r, hr, hid⟩ := Option.map_eq_some_iff.mp h
  have hmem := List.mem_filter.mp (List.argmax_mem hr)
  obtain ⟨hpair, hstatus⟩ := of_decide_eq_true hmem.2
  exact ⟨r, hmem.1, hid, hpair, by rw [Incident.active, hstatus]; rfl⟩

variable [DecidableEq ι]

omit [DecidableEq ι] in
/-- A synchronisation that has done nothing yet. -/
theorem started_sound (y : Sync) (hown : y.own = []) (hfacts : y.facts = []) : y.Sound s i := by
  refine ⟨?_, ?_, ?_, ?_, ?_⟩
  · simp [hown]
  · simp [hown]
  · simp [hown]
  · simp [hfacts]
  · simp [hfacts]

theorem proceed_kept (hs : s.Sound) (hpc : pc.Sound s i) (h : proceed i s pc = some (t, next)) :
    Kept s i t next := by
  cases pc with
  | idle => cases h
  | next y => exact nextResult_kept hs hpc (Option.some.inj h)
  | readPrior y checkId attempt =>
    obtain ⟨rfl, rfl⟩ := Prod.mk.inj (Option.some.inj h)
    exact Kept.of_same hs ⟨hpc, fun p hp => mostRecentResolved_spec hp⟩
  | insertOpen y checkId attempt priorId => exact insertOpen_kept hs hpc h
  | selectActive y checkId purpose => exact selectActive_kept hs hpc (Option.some.inj h)
  | lockActive y checkId purpose id => exact lockActive_kept hs hpc h

theorem act_kept {a : Act} (hs : s.Sound) (hpc : pc.Sound s i) (h : act i a s pc = some (t, next)) :
    Kept s i t next := by
  unfold act at h
  split at h
  · obtain ⟨rfl, rfl⟩ := Prod.mk.inj (Option.some.inj h)
    exact Kept.of_same hs (started_sound _ rfl rfl)
  · exact transition_kept hs (transitions_acknowledge _ _) h
  · exact transition_kept hs (transitions_resolve _ _ _) h
  · exact proceed_kept hs hpc h
  · obtain ⟨rfl, rfl⟩ := Prod.mk.inj (Option.some.inj h)
    exact release_kept hs
  · obtain ⟨rfl, rfl⟩ := Prod.mk.inj (Option.some.inj h)
    have htick : ∀ k, Advances s { s with now := s.now + 1 } k := fun _ =>
      Advances.of_locks rfl rfl (fun _ h => h) (fun _ h => h)
    exact ⟨⟨hs.ids, hs.below, hs.locksBelow, hs.one, hs.count, hs.opened, hs.prior, hs.inserting⟩,
      hpc.advance (htick i), fun k _ => htick k, fun r hr hr' => ⟨r, hr, rfl, hr'⟩⟩
  · cases h

end Statements

section Runs
variable [DecidableEq ι]

structure World.Sound (c : World ι) : Prop where
  store : c.store.Sound
  session : ∀ i, (c.session i).Sound c.store i

omit [DecidableEq ι] in
theorem initial_sound : (World.initial : World ι).Sound := by
  have hnone : ∀ r : Incident, r ∉ (World.initial : World ι).store.incidents := fun r => by
    simp [World.initial]
  refine ⟨⟨List.nodup_nil, ?_, ?_, ?_, ?_, ?_, ?_, ?_⟩, fun _ => trivial⟩
  · exact fun r hr => absurd hr (hnone r)
  · exact fun _ _ hk => absurd hk (by simp [World.initial])
  · exact fun r hr => absurd hr (hnone r)
  · exact fun r hr => absurd hr (hnone r)
  · exact fun r hr => absurd hr (hnone r)
  · exact fun r hr => absurd hr (hnone r)
  · exact fun _ _ hk => absurd hk (by simp [World.initial])

theorem step_sound {c d : World ι} {e : ι × Act} (hc : c.Sound) (h : step c e = some d) :
    d.Sound ∧ ∀ r ∈ c.store.incidents, r.active = false →
      ∃ r' ∈ d.store.incidents, r'.id = r.id ∧ r'.active = false := by
  obtain ⟨⟨t, next⟩, hact, hput⟩ := step_eq_some.mp h
  subst hput
  have hkept := act_kept hc.store (hc.session e.1) hact
  refine ⟨⟨hkept.store, fun k => ?_⟩, hkept.final⟩
  by_cases hk : k = e.1
  · rw [hk, Config.put_session_self]
    exact hkept.pc
  · rw [Config.put_session_ne _ _ hk]
    exact (hc.session k).advance (hkept.others k hk)

theorem sound_of_run {events : List (ι × Act)} {c d : World ι} (hc : c.Sound)
    (hrun : Transition.run step c events = some d) : d.Sound :=
  Transition.run_keeps (fun _ _ _ hs hstep => (step_sound hs hstep).1) hc hrun

theorem stays_resolved {events : List (ι × Act)} {c d : World ι} (hc : c.Sound)
    (hrun : Transition.run step c events = some d) : ∀ r ∈ c.store.incidents, r.active = false →
      ∃ r' ∈ d.store.incidents, r'.id = r.id ∧ r'.active = false := by
  refine Transition.run_relates (G := fun _ _ => True) (I := World.Sound)
    (R := fun c d => ∀ r ∈ c.store.incidents, r.active = false →
      ∃ r' ∈ d.store.incidents, r'.id = r.id ∧ r'.active = false)
    (fun _ r hr hinactive => ⟨r, hr, rfl, hinactive⟩) (fun h h' r hr hinactive => ?_)
    (fun _ _ _ hs _ hstep => step_sound hs hstep) hc (Transition.meets_of_forall (fun _ _ => trivial)
      _ _) hrun
  obtain ⟨r', hr', hid, hinactive'⟩ := h r hr hinactive
  obtain ⟨r'', hr'', hid', hinactive''⟩ := h' r' hr' hinactive'
  exact ⟨r'', hr'', hid'.trans hid, hinactive''⟩

end Runs

end DataQ.Incidents
