import DataQ.Foundations.Partition
import DataQ.Foundations.Transition
import DataQ.Audit.ChainLaws

/-! # When the chain raises no false alarm

Runs of commits and purges from the empty tables. A commit chains its events in the order they were
added; a purge names its boundary by `(occurred_at, id)`. The two orders part on rows of one
transaction, and `BoundaryLinked` says that at this purge they do not. -/

namespace DataQ.Audit
open DataQ.HashChain DataQ.Transition DataQ.Partition
set_option autoImplicit false

inductive Op (γ : Type)
  | commit (now : ℕ) (new recorded : List (Draft γ))
  | purge (cutoff : ℕ)

variable {γ η : Type} {digest : Option η → ℕ × ℕ × γ → η}

def Op.commitTime : Op γ → Option ℕ
  | .commit now _ _ => some now
  | .purge _ => none

def Op.drafts : Op γ → List (Draft γ)
  | .commit _ new recorded => new ++ recorded
  | .purge _ => []

/-- Later commits have later timestamps, and no id occurs in two commits. -/
structure WellTimed (ops : List (Op γ)) : Prop where
  times : (ops.filterMap Op.commitTime).Pairwise (· < ·)
  ids : ops.Pairwise fun a b => ∀ d ∈ a.drafts, ∀ e ∈ b.drafts, d.id ≠ e.id

def step (digest : Option η → ℕ × ℕ × γ → η) (db : AuditDb γ η) : Op γ → Option (AuditDb γ η)
  | .commit now new recorded => some (commitEvents digest db now new recorded)
  | .purge cutoff => purgeExpiredEvents db cutoff

/-- The row a purge names first surviving is chained onto the row it names last deleted. -/
def BoundaryLinked (db : AuditDb γ η) : Op γ → Prop
  | .commit _ _ _ => True
  | .purge cutoff => ∀ l ∈ db.lastDeleted cutoff, ∀ f ∈ db.firstSurviving cutoff,
      f.prevHash = l.rowHash

instance [DecidableEq η] (db : AuditDb γ η) : (op : Op γ) → Decidable (BoundaryLinked db op)
  | .commit _ _ _ => .isTrue trivial
  | .purge cutoff => inferInstanceAs (Decidable (∀ l ∈ db.lastDeleted cutoff,
      ∀ f ∈ db.firstSurviving cutoff, f.prevHash = l.rowHash))

/-- What `verify_chain` reports of a chain that nobody touched. -/
def NoFalseAlarm [DecidableEq η] (digest : Option η → ℕ × ℕ × γ → η) (db : AuditDb γ η) : Prop :=
  ∀ fuel, db.events.length ≤ fuel → verifyChain digest fuel db =
    some
      { verifiedCount := db.hashed.length
        unverifiableLegacyCount := 0
        chainHeadHash := db.headHash
        firstBreak := none }

/-- The live rows form one chain from a row the walk may stop at up to the head. -/
structure Intact [DecidableEq η] (digest : Option η → ℕ × ℕ × γ → η) (db : AuditDb γ η) :
    Prop where
  isSealed : ∀ e ∈ db.events, e.Sealed digest
  sorted : db.events.Pairwise fun a b => a.occurredAt ≤ b.occurredAt
  ids : (db.events.map (·.id)).Nodup
  linked : ∃ base, Linked AuditEvent.prevHash AuditEvent.rowHash base db.events ∧
    db.headHash = tip AuditEvent.rowHash base db.events ∧ (db.events = [] → base = none)
  first : ∀ e ∈ db.events.head?, db.stopsAt e = true
  rest : ∀ e ∈ db.events.tail, ∀ cp ∈ db.checkpoints, cp.firstSurvivingEventId ≠ some e.id

/-- An operation still to come does not reuse an id, and a commit is later than every row. -/
structure Ahead (db : AuditDb γ η) (op : Op γ) : Prop where
  later : ∀ now ∈ op.commitTime, ∀ e ∈ db.events, e.occurredAt < now
  fresh : ∀ d ∈ op.drafts, (∀ e ∈ db.events, e.id ≠ d.id) ∧
    ∀ cp ∈ db.checkpoints, cp.firstSurvivingEventId ≠ some d.id

/-! ## Commits -/

theorem commit_intact [DecidableEq η] {db : AuditDb γ η} {now : ℕ} {new recorded : List (Draft γ)}
    (h : Intact digest db) (hahead : Ahead db (.commit now new recorded)) :
    Intact digest (commitEvents digest db now new recorded) := by
  obtain ⟨base, hlinked, hhead, hbase⟩ := h.linked
  have hfresh : ∀ r ∈ commitRows digest db now new recorded,
      (∀ e ∈ db.events, e.id ≠ r.id) ∧
        ∀ cp ∈ db.checkpoints, cp.firstSurvivingEventId ≠ some r.id := by
    intro r hr
    obtain ⟨d, hd, hid⟩ := commitRows_id_mem hr
    rw [← hid]
    exact hahead.fresh d hd
  rw [commitEvents_eq]
  refine ⟨?_, ?_, ?_, ⟨base, ?_, ?_, ?_⟩, ?_, ?_⟩
  · intro e he
    rcases List.mem_append.mp he with he | he
    · exact h.isSealed e he
    · exact commitRows_sealed he
  · rw [List.pairwise_append]
    refine ⟨h.sorted, List.pairwise_of_forall_mem_list fun a ha b hb => ?_, fun a ha b hb => ?_⟩
    · rw [commitRows_occurredAt ha, commitRows_occurredAt hb]
    · rw [commitRows_occurredAt hb]
      exact (hahead.later now rfl a ha).le
  · rw [List.map_append, List.nodup_append]
    refine ⟨h.ids, ?_, fun i hi j hj => ?_⟩
    · rw [commitRows_map_id]
      exact (pendingEvents_spec new recorded).1
    · obtain ⟨a, ha, rfl⟩ := List.mem_map.mp hi
      obtain ⟨b, hb, rfl⟩ := List.mem_map.mp hj
      exact (hfresh b hb).1 a ha
  · rw [linked_append, ← hhead]
    exact ⟨hlinked, chainOnto_linked _ _ _⟩
  · rw [tip_append, ← hhead]
  · intro hnil
    exact hbase (List.append_eq_nil_iff.mp hnil).1
  · intro e he
    rw [stopsAt_congr rfl]
    cases hev : db.events with
    | nil =>
      -- The first row of an empty chain names no predecessor.
      have hgenesis := chainOnto_linked digest db.headHash
        (flushPending now (pendingEvents new recorded))
      simp only [hev, List.nil_append] at he
      obtain ⟨rows, hrows⟩ := List.head?_eq_some_iff.mp he
      rw [hhead, hev, tip_nil, hbase hev] at hgenesis
      rw [commitRows, hhead, hev, tip_nil, hbase hev] at hrows
      rw [hrows] at hgenesis
      simp [AuditDb.stopsAt, hgenesis.1]
    | cons first rest =>
      simp only [hev, List.cons_append, List.head?_cons] at he
      exact h.first e (by rw [hev]; exact he)
  · intro e he cp hcp
    have hmem : e ∈ db.events.tail ∨ e ∈ commitRows digest db now new recorded := by
      cases hev : db.events with
      | nil =>
        simp only [hev, List.nil_append] at he
        exact .inr (List.mem_of_mem_tail he)
      | cons first rest =>
        simp only [hev, List.cons_append, List.tail_cons] at he
        exact List.mem_append.mp he
    rcases hmem with hmem | hmem
    · exact h.rest e hmem cp hcp
    · exact (hfresh e hmem).2 cp hcp

/-! ## Purges -/

theorem writePurgeCheckpoint_events (db : AuditDb γ η) (cutoff : ℕ) :
    (db.writePurgeCheckpoint cutoff).events = db.events := by
  unfold AuditDb.writePurgeCheckpoint
  split <;> rfl

theorem purgeExpiredEvents_eq (db : AuditDb γ η) (cutoff : ℕ) :
    purgeExpiredEvents db cutoff = some { db.writePurgeCheckpoint cutoff with
      events := db.events.filter (!·.expired cutoff) } := by
  have hcount : (db.writePurgeCheckpoint cutoff).events.countP (·.expired cutoff) <
      db.events.length + 1 := by
    rw [writePurgeCheckpoint_events]
    have := List.countP_le_length (p := fun e : AuditEvent γ η => e.expired cutoff) (l := db.events)
    omega
  rw [purgeExpiredEvents, deleteExpired_eq hcount, writePurgeCheckpoint_events]

theorem expired_prefix {rows : List (AuditEvent γ η)} (cutoff : ℕ)
    (h : rows.Pairwise fun a b => a.occurredAt ≤ b.occurredAt) :
    rows = rows.filter (·.expired cutoff) ++ rows.filter (!·.expired cutoff) := by
  refine (filter_append_filter_not (h.imp fun {a b} hab hb => ?_)).symm
  simp only [AuditEvent.expired, decide_eq_true_eq] at hb ⊢
  omega

theorem lastDeleted_spec {db : AuditDb γ η} {cutoff : ℕ} {l : AuditEvent γ η}
    (h : db.lastDeleted cutoff = some l) : l ∈ db.events ∧ l.expired cutoff = true :=
  List.mem_filter.mp (List.argmax_mem h)

theorem firstSurviving_spec {db : AuditDb γ η} {cutoff : ℕ} {f : AuditEvent γ η}
    (h : db.firstSurviving cutoff = some f) : f ∈ db.events ∧ f.expired cutoff = false := by
  have hmem := List.mem_filter.mp (List.argmin_mem h)
  exact ⟨hmem.1, by simpa using hmem.2⟩

theorem boundary_insertCheckpoint [DecidableEq η] (db : AuditDb γ η) (cutoff n : ℕ)
    {l f : AuditEvent γ η} {h : η} (hl : l.rowHash = some h) :
    (db.insertCheckpoint cutoff l n (some f)).boundary f.id = some h := by
  simp [AuditDb.boundary, AuditDb.insertCheckpoint, hl]

theorem purge_intact [DecidableEq η] (hdigest : Function.Injective2 digest) {db db' : AuditDb γ η}
    {cutoff : ℕ} (h : Intact digest db) (hb : BoundaryLinked db (.purge cutoff))
    (hpurge : purgeExpiredEvents db cutoff = some db') : Intact digest db' := by
  rw [purgeExpiredEvents_eq] at hpurge
  obtain ⟨base, hlinked, hhead, -⟩ := h.linked
  have hsplit := expired_prefix cutoff h.sorted
  have hsub : (db.events.filter (!·.expired cutoff)).Sublist db.events := List.filter_sublist
  cases hl : db.lastDeleted cutoff with
  | none =>
    have hexp : db.events.filter (·.expired cutoff) = [] := List.argmax_eq_none.mp hl
    have hwrite : db.writePurgeCheckpoint cutoff = db := by
      rw [AuditDb.writePurgeCheckpoint, hl]
    rw [hexp, List.nil_append] at hsplit
    rw [hwrite, ← hsplit] at hpurge
    cases hpurge
    exact h
  | some l =>
    obtain ⟨hlmem, hlexp⟩ := lastDeleted_spec hl
    have hwrite : db.writePurgeCheckpoint cutoff =
        db.insertCheckpoint cutoff l (db.deletedCount cutoff) (db.firstSurviving cutoff) := by
      rw [AuditDb.writePurgeCheckpoint, hl]
    rw [hwrite] at hpurge
    cases hpurge
    cases hf : db.firstSurviving cutoff with
    | none =>
      have hnone : db.events.filter (!·.expired cutoff) = [] := List.argmin_eq_none.mp hf
      rw [hnone]
      refine ⟨?_, ?_, ?_, ⟨none, ?_, ?_, ?_⟩, ?_, ?_⟩ <;> simp [AuditDb.insertCheckpoint]
    | some f =>
      obtain ⟨hfmem, hfexp⟩ := firstSurviving_spec hf
      have hflink : f.prevHash = l.rowHash := hb l hl f hf
      rw [hsplit] at hlinked
      obtain ⟨-, hsurvive⟩ := linked_append.mp hlinked
      have hfS : f ∈ db.events.filter (!·.expired cutoff) :=
        List.mem_filter.mpr ⟨hfmem, by simp [hfexp]⟩
      -- A survivor in between would carry the hash of the deleted `l`.
      have hnottail : f ∉ (db.events.filter (!·.expired cutoff)).tail := by
        intro htail
        obtain ⟨q, hq, hprev⟩ := hsurvive.prev_of_mem_tail htail
        obtain ⟨hqmem, hqexp⟩ := List.mem_filter.mp hq
        have hql : q = l := (h.isSealed q hqmem).eq_of_rowHash hdigest (h.isSealed l hlmem)
          (hprev.symm.trans hflink)
        rw [hql, hlexp] at hqexp
        cases hqexp
      refine ⟨fun e he => h.isSealed e (hsub.subset he), h.sorted.sublist hsub,
        h.ids.sublist (hsub.map _), ⟨_, hsurvive, ?_, ?_⟩, ?_, ?_⟩
      · rw [← tip_append, ← hsplit]
        simp [AuditDb.insertCheckpoint, hhead]
      · intro hnil
        exact absurd hnil (List.ne_nil_of_mem hfS)
      · intro e he
        obtain ⟨rest, hrest⟩ : ∃ rest, db.events.filter (!·.expired cutoff) = e :: rest :=
          List.head?_eq_some_iff.mp he
        have hef : f = e := by
          rw [hrest] at hfS hnottail
          exact (List.mem_cons.mp hfS).resolve_right hnottail
        subst hef
        have hrow := h.isSealed l hlmem
        have hstop : (db.insertCheckpoint cutoff l (db.deletedCount cutoff) (some f)).stopsAt f =
            true := by
          rw [AuditDb.stopsAt, boundary_insertCheckpoint db cutoff _ hrow, hflink, hrow]
          simp
        exact (stopsAt_congr rfl f).trans hstop
      · intro e he cp hcp
        rcases List.mem_append.mp hcp with hcp | hcp
        · refine h.rest e ?_ cp hcp
          rw [hsplit]
          cases hE : db.events.filter (·.expired cutoff) with
          | nil => exact he
          | cons x xs => exact List.mem_append_right _ (List.mem_of_mem_tail he)
        · rw [List.mem_singleton.mp hcp]
          intro hid
          have hids := h.ids.sublist (hsub.map (·.id))
          have hfe : f = e :=
            List.inj_on_of_nodup_map hids hfS (List.mem_of_mem_tail he) (by simpa using hid)
          exact hnottail (hfe ▸ he)

/-! ## Runs -/

theorem commit_ahead {db : AuditDb γ η} {now : ℕ} {new recorded : List (Draft γ)} {op : Op γ}
    (h : Ahead db op) (htime : ∀ t ∈ op.commitTime, now < t)
    (hids : ∀ d ∈ new ++ recorded, ∀ e ∈ op.drafts, d.id ≠ e.id) :
    Ahead (commitEvents digest db now new recorded) op := by
  rw [commitEvents_eq]
  refine ⟨fun t ht e he => ?_, fun d hd => ⟨fun e he => ?_, (h.fresh d hd).2⟩⟩
  · rcases List.mem_append.mp he with he | he
    · exact h.later t ht e he
    · rw [commitRows_occurredAt he]
      exact htime t ht
  · rcases List.mem_append.mp he with he | he
    · exact (h.fresh d hd).1 e he
    · obtain ⟨x, hx, hid⟩ := commitRows_id_mem he
      rw [← hid]
      exact hids x hx d hd

theorem purge_ahead {db db' : AuditDb γ η} {cutoff : ℕ} {op : Op γ} (h : Ahead db op)
    (hpurge : purgeExpiredEvents db cutoff = some db') : Ahead db' op := by
  rw [purgeExpiredEvents_eq] at hpurge
  cases hpurge
  refine ⟨fun t ht e he => h.later t ht e (List.mem_of_mem_filter he), fun d hd =>
    ⟨fun e he => (h.fresh d hd).1 e (List.mem_of_mem_filter he), fun cp hcp => ?_⟩⟩
  cases hl : db.lastDeleted cutoff with
  | none =>
    simp only [AuditDb.writePurgeCheckpoint, hl] at hcp
    exact (h.fresh d hd).2 cp hcp
  | some l =>
    simp only [AuditDb.writePurgeCheckpoint, hl, AuditDb.insertCheckpoint, List.mem_append,
      List.mem_singleton] at hcp
    rcases hcp with hcp | rfl
    · exact (h.fresh d hd).2 cp hcp
    · cases hf : db.firstSurviving cutoff with
      | none => simp
      | some f => simpa using (h.fresh d hd).1 f (firstSurviving_spec hf).1

theorem WellTimed.tail {op : Op γ} {ops : List (Op γ)} (h : WellTimed (op :: ops)) :
    WellTimed ops := by
  refine ⟨?_, h.ids.tail⟩
  have htimes := h.times
  rw [List.filterMap_cons] at htimes
  cases hop : op.commitTime <;> rw [hop] at htimes
  · exact htimes
  · exact htimes.tail

/-- A chain that is intact, with operations to come that are well timed and ahead of it. -/
structure OnTime [DecidableEq η] (digest : Option η → ℕ × ℕ × γ → η) (db : AuditDb γ η)
    (ops : List (Op γ)) : Prop where
  intact : Intact digest db
  ahead : ∀ op ∈ ops, Ahead db op
  wellTimed : WellTimed ops

theorem step_onTime [DecidableEq η] (hdigest : Function.Injective2 digest) {db db' : AuditDb γ η}
    {op : Op γ} {ops : List (Op γ)} (h : OnTime digest db (op :: ops))
    (hb : BoundaryLinked db op) (hstep : step digest db op = some db') :
    OnTime digest db' ops := by
  have hahead := h.ahead op List.mem_cons_self
  cases op with
  | commit now new recorded =>
    cases hstep
    refine ⟨commit_intact h.intact hahead, fun next hnext => ?_, h.wellTimed.tail⟩
    refine commit_ahead (h.ahead next (List.mem_cons_of_mem _ hnext)) (fun t ht => ?_)
      ((List.pairwise_cons.mp h.wellTimed.ids).1 next hnext)
    have htimes := h.wellTimed.times
    rw [List.filterMap_cons] at htimes
    exact (List.pairwise_cons.mp htimes).1 t (List.mem_filterMap.mpr ⟨next, hnext, ht⟩)
  | purge cutoff =>
    exact ⟨purge_intact hdigest h.intact hb hstep,
      fun next hnext => purge_ahead (h.ahead next (List.mem_cons_of_mem _ hnext)) hstep,
      h.wellTimed.tail⟩

theorem empty_onTime [DecidableEq η] {ops : List (Op γ)} (h : WellTimed ops) :
    OnTime digest AuditDb.empty ops := by
  refine ⟨⟨?_, ?_, ?_, ⟨none, ?_, ?_, ?_⟩, ?_, ?_⟩, fun op _ => ⟨?_, ?_⟩, h⟩ <;>
    simp [AuditDb.empty]

theorem intact_noFalseAlarm [DecidableEq η] (hdigest : Function.Injective2 digest)
    {db : AuditDb γ η} (h : Intact digest db) : NoFalseAlarm digest db := by
  have hhashed : db.hashed = db.events := by
    rw [AuditDb.hashed, List.filter_eq_self]
    exact fun e he => (h.isSealed e he).hashed
  have hlegacy : db.events.countP (!·.hashed) = 0 := by
    rw [List.countP_eq_zero]
    intro e he
    simp [(h.isSealed e he).hashed]
  have hsealed : ∀ e ∈ db.hashed, e.Sealed digest := by
    rw [hhashed]
    exact h.isSealed
  obtain ⟨base, hlinked, hhead, hbase⟩ := h.linked
  intro fuel hfuel
  cases hev : db.events with
  | nil =>
    rw [hev, tip_nil, hbase hev] at hhead
    simp [verifyChain, hhead, AuditDb.walk, hhashed, hev]
  | cons first rest =>
    rw [hev] at hlinked hhead
    have hgoes : ∀ r ∈ rest, db.stopsAt r = false := by
      intro r hr
      have htail : r ∈ db.events.tail := by
        rw [hev]
        exact hr
      have hprev := prevHash_ne_none_of_linked hlinked (fun e he => h.isSealed e (hev ▸ he)) hr
      exact not_stopsAt hprev (h.rest r htail)
    have hstops : db.stopsAt first = true := h.first first (by rw [hev]; rfl)
    have hfuel' : rest.length < fuel := by
      rw [hev, List.length_cons] at hfuel
      omega
    have hwalk := walk_complete hdigest hsealed hlinked.2
      (fun r hr => by rw [hhashed, hev]; exact hr) hgoes hstops hfuel' db.headEventId
    rw [tip_cons] at hhead
    rw [verifyChain, hhead, hwalk, hlegacy, hhashed, hev]
    simp

theorem step_total (db : AuditDb γ η) (op : Op γ) : ∃ db', step digest db op = some db' := by
  cases op with
  | commit now new recorded => exact ⟨_, rfl⟩
  | purge cutoff => exact ⟨_, purgeExpiredEvents_eq db cutoff⟩

/-- A digest that spells out what it hashes. -/
def plainDigest (prev : Option (List ℕ)) (content : ℕ × ℕ × ℕ) : List ℕ :=
  content.1 :: content.2.1 :: content.2.2 :: prev.elim [] (1 :: ·)

theorem plainDigest_injective : Function.Injective2 plainDigest := by
  rintro p q ⟨i, t, b⟩ ⟨j, u, c⟩ h
  cases p <;> cases q <;> simp_all [plainDigest]

/-- Two events in one transaction, the one with the greater id added first, behind an older one. -/
def tiedOps (cutoff : ℕ) (first second : ℕ) : List (Op ℕ) :=
  [.commit 10 [⟨5, 0⟩] [], .commit 20 [⟨first, 0⟩, ⟨second, 0⟩] [], .purge cutoff]

theorem tiedOps_wellTimed : WellTimed (tiedOps 15 7 9) ∧ WellTimed (tiedOps 15 9 7) :=
  ⟨⟨by decide, by simp [tiedOps, Op.drafts]⟩, ⟨by decide, by simp [tiedOps, Op.drafts]⟩⟩

end DataQ.Audit
