import Mathlib
import DataQ.Foundations.Transition
import DataQ.Audit.NoFalseAlarm

/-! # Commits against one purge

The statements of a retention purge interleaved with commits. A commit holds the lock on the head
from before it hashes until it ends, so it is one statement here; so is the purge's reset of the
head with the insert of the checkpoint and its commit, which hold the same lock. The two boundary
queries and the count are statements of their own, each reading what is committed by then. -/

namespace DataQ.Audit
open DataQ.HashChain DataQ.Transition DataQ.Partition DataQ.Interleaving
set_option autoImplicit false

inductive Pc (γ η : Type)
  | commit (now : ℕ) (new recorded : List (Draft γ))
  | purge (cutoff : ℕ)
  | count (cutoff : ℕ) (lastDeleted : AuditEvent γ η)
  | readFirstSurviving (cutoff : ℕ) (lastDeleted : AuditEvent γ η) (deletedCount : ℕ)
  | checkpoint (cutoff : ℕ) (lastDeleted : AuditEvent γ η) (deletedCount : ℕ)
      (firstSurviving : Option (AuditEvent γ η))
  | delete (cutoff : ℕ)
  | done

variable {γ η : Type}

/-- The next statement of a session. -/
def act (digest : Option η → ℕ × ℕ × γ → η) (_ : Unit) (db : AuditDb γ η) :
    Pc γ η → Option (AuditDb γ η × Pc γ η)
  | .commit now new recorded => some (commitEvents digest db now new recorded, .done)
  | .purge cutoff =>
    match db.lastDeleted cutoff with
    | none => some (db, .delete cutoff)
    | some l => some (db, .count cutoff l)
  | .count cutoff l => some (db, .readFirstSurviving cutoff l (db.deletedCount cutoff))
  | .readFirstSurviving cutoff l n => some (db, .checkpoint cutoff l n (db.firstSurviving cutoff))
  | .checkpoint cutoff l n f => some (db.insertCheckpoint cutoff l n f, .delete cutoff)
  | .delete cutoff =>
    let after := db.deleteChunk cutoff
    some (after, if after.events.length = db.events.length then .done else .delete cutoff)
  | .done => none

def Pc.commitsOnly : Pc γ η → Bool
  | .commit _ _ _ | .done => true
  | _ => false

variable {ι : Type}

/-- A commit's ids occur in no live row and no checkpoint: ids are never generated twice. -/
def freshIds (c : Config ι (AuditDb γ η) (Pc γ η)) (e : ι × Unit) : Bool :=
  match c.session e.1 with
  | .commit _ new recorded => (new ++ recorded).all fun d =>
      c.store.events.all (·.id ≠ d.id) &&
        c.store.checkpoints.all (·.firstSurvivingEventId ≠ some d.id)
  | _ => true

/-- The head is reset only when every hashed row is about to be deleted, and rows are deleted only
while no row to be deleted is chained after one that survives. -/
def keepsReachable (c : Config ι (AuditDb γ η) (Pc γ η)) (e : ι × Unit) : Bool :=
  match c.session e.1 with
  | .checkpoint cutoff _ _ none => c.store.hashed.all (·.expired cutoff)
  | .delete cutoff => decide (c.store.hashed.Pairwise fun a b =>
      b.expired cutoff = true → a.expired cutoff = true)
  | _ => true

abbrev Careful (c : Config ι (AuditDb γ η) (Pc γ η)) (e : ι × Unit) : Prop :=
  freshIds c e = true ∧ keepsReachable c e = true

variable [DecidableEq η]

/-- Every hashed row is on the chain that ends in the head, and no walk stops before it. -/
structure Whole (digest : Option η → ℕ × ℕ × γ → η) (db : AuditDb γ η) : Prop where
  isSealed : ∀ e ∈ db.hashed, e.Sealed digest
  linked : ∃ base, Linked AuditEvent.prevHash AuditEvent.rowHash base db.hashed ∧
    db.headHash = tip AuditEvent.rowHash base db.hashed
  goes : ∀ e ∈ db.hashed.tail, db.stopsAt e = false

/-- While a purge is under way: rows that are expired, and behind them a chain that ends in the
head, on which a walk stops early only at the boundary the purge recorded. -/
structure Purging (digest : Option η → ℕ × ℕ × γ → η) (cutoff : ℕ) (db : AuditDb γ η)
    (old new : List (AuditEvent γ η)) (base : Option η) : Prop where
  isSealed : ∀ e ∈ db.hashed, e.Sealed digest
  split : db.hashed = old ++ new
  expired : ∀ e ∈ old, e.expired cutoff = true
  linked : Linked AuditEvent.prevHash AuditEvent.rowHash base new
  head : db.headHash = tip AuditEvent.rowHash base new
  stops : ∀ r ∈ new.tail, db.stopsAt r = true →
    ∀ q ∈ new, q.rowHash = r.prevHash → q.expired cutoff = true

variable {digest : Option η → ℕ × ℕ × γ → η}

/-- A purge at this cutoff is under way. -/
def Ongoing (digest : Option η → ℕ × ℕ × γ → η) (cutoff : ℕ) (db : AuditDb γ η) : Prop :=
  ∃ old new base, Purging digest cutoff db old new base

theorem Whole.ongoing {db : AuditDb γ η} (h : Whole digest db) (cutoff : ℕ) :
    Ongoing digest cutoff db := by
  obtain ⟨base, hlinked, hhead⟩ := h.linked
  refine ⟨[], db.hashed, base, h.isSealed, rfl, fun e he => (by cases he), hlinked, hhead, ?_⟩
  intro r hr hstop
  rw [h.goes r hr] at hstop
  cases hstop

/-! ## Commits -/

theorem commit_purging (hdigest : Function.Injective2 digest) {db : AuditDb γ η} {cutoff now : ℕ}
    {drafts recorded : List (Draft γ)} {old new : List (AuditEvent γ η)} {base : Option η}
    (h : Purging digest cutoff db old new base)
    (hfresh : ∀ r ∈ commitRows digest db now drafts recorded,
      ∀ cp ∈ db.checkpoints, cp.firstSurvivingEventId ≠ some r.id) :
    Purging digest cutoff (commitEvents digest db now drafts recorded) old
      (new ++ commitRows digest db now drafts recorded) base := by
  have hsealed : ∀ e ∈ new ++ commitRows digest db now drafts recorded, e.Sealed digest := by
    intro e he
    rcases List.mem_append.mp he with he | he
    · exact h.isSealed e (by rw [h.split]; exact List.mem_append_right _ he)
    · exact commitRows_sealed he
  have hlinked : Linked AuditEvent.prevHash AuditEvent.rowHash base
      (new ++ commitRows digest db now drafts recorded) := by
    rw [linked_append, ← h.head]
    exact ⟨h.linked, chainOnto_linked _ _ _⟩
  have hcheckpoints : (commitEvents digest db now drafts recorded).checkpoints = db.checkpoints := by
    rw [commitEvents_eq]
  refine ⟨?_, ?_, h.expired, hlinked, ?_, ?_⟩
  · intro e he
    rw [commit_hashed] at he
    rcases List.mem_append.mp he with he | he
    · exact h.isSealed e he
    · exact commitRows_sealed he
  · rw [commit_hashed, h.split, List.append_assoc]
  · rw [commitEvents_eq, tip_append, ← h.head]
  · intro r hr hstop q hq hlink
    rw [stopsAt_congr hcheckpoints] at hstop
    have hprev := prevHash_ne_none_of_linked hlinked hsealed hr
    have hmem : r ∈ new.tail ∨ r ∈ commitRows digest db now drafts recorded := by
      cases new with
      | nil => exact .inr (List.mem_of_mem_tail hr)
      | cons first rest => exact List.mem_append.mp hr
    rcases hmem with hmem | hmem
    · -- The predecessor was there before the commit, and a hash names one row.
      obtain ⟨p, hp, hplink⟩ := h.linked.prev_of_mem_tail hmem
      have hpq : q = p := (hsealed q hq).eq_of_rowHash hdigest
        (hsealed p (List.mem_append_left _ hp)) (hlink.trans hplink)
      rw [hpq]
      exact h.stops r hmem hstop p hp hplink.symm
    · rw [not_stopsAt hprev (hfresh r hmem)] at hstop
      cases hstop

theorem commit_whole {db : AuditDb γ η} {now : ℕ} {drafts recorded : List (Draft γ)}
    (h : Whole digest db) (hfresh : ∀ r ∈ commitRows digest db now drafts recorded,
      ∀ cp ∈ db.checkpoints, cp.firstSurvivingEventId ≠ some r.id) :
    Whole digest (commitEvents digest db now drafts recorded) := by
  obtain ⟨base, hlinked, hhead⟩ := h.linked
  have hsealed : ∀ e ∈ (commitEvents digest db now drafts recorded).hashed, e.Sealed digest := by
    intro e he
    rw [commit_hashed] at he
    rcases List.mem_append.mp he with he | he
    · exact h.isSealed e he
    · exact commitRows_sealed he
  have hchain : Linked AuditEvent.prevHash AuditEvent.rowHash base
      (commitEvents digest db now drafts recorded).hashed := by
    rw [commit_hashed, linked_append, ← hhead]
    exact ⟨hlinked, chainOnto_linked _ _ _⟩
  refine ⟨hsealed, ⟨base, hchain, ?_⟩, fun r hr => ?_⟩
  · rw [commit_hashed, tip_append, ← hhead, commitEvents_eq]
  · have hprev := prevHash_ne_none_of_linked hchain hsealed hr
    rw [stopsAt_congr (by rw [commitEvents_eq] : _ = db.checkpoints)]
    rw [commit_hashed] at hr
    have hmem : r ∈ db.hashed.tail ∨ r ∈ commitRows digest db now drafts recorded := by
      cases hdb : db.hashed with
      | nil =>
        rw [hdb, List.nil_append] at hr
        exact .inr (List.mem_of_mem_tail hr)
      | cons first rest =>
        rw [hdb, List.cons_append, List.tail_cons] at hr
        exact List.mem_append.mp hr
    rcases hmem with hmem | hmem
    · exact h.goes r hmem
    · exact not_stopsAt hprev (hfresh r hmem)

/-! ## The purge's statements -/

theorem stopsAt_insertCheckpoint {db : AuditDb γ η} {cutoff n : ℕ} {l r : AuditEvent γ η}
    {f : Option (AuditEvent γ η)} (h : (db.insertCheckpoint cutoff l n f).stopsAt r = true) :
    db.stopsAt r = true ∨ (l.rowHash.isSome = true ∧ l.rowHash = r.prevHash) := by
  simp only [AuditDb.stopsAt, AuditDb.boundary, AuditDb.insertCheckpoint, List.reverse_append,
    List.reverse_singleton, List.singleton_append, List.find?_cons, Bool.or_eq_true] at h ⊢
  rcases h with h | h
  · exact .inl (.inl h)
  · have h := of_decide_eq_true h
    split at h
    · rename_i hnamed
      simp only [Option.bind_some] at h
      rw [Bool.and_eq_true] at hnamed
      exact .inr ⟨hnamed.2, h⟩
    · exact .inl (.inr (decide_eq_true h))

/-- What the purge remembers of the row it read as the last one to be deleted. -/
structure ReadExpired (digest : Option η → ℕ × ℕ × γ → η) (cutoff : ℕ) (l : AuditEvent γ η) :
    Prop where
  expired : l.expired cutoff = true
  isSealed : l.hashed = true → l.Sealed digest

omit [DecidableEq η] in
theorem lastDeleted_readExpired {db : AuditDb γ η} {cutoff : ℕ} {l : AuditEvent γ η}
    (hsealed : ∀ e ∈ db.hashed, e.Sealed digest) (h : db.lastDeleted cutoff = some l) :
    ReadExpired digest cutoff l := by
  obtain ⟨hmem, hexp⟩ := lastDeleted_spec h
  exact ⟨hexp, fun hhashed => hsealed l (List.mem_filter.mpr ⟨hmem, hhashed⟩)⟩

theorem checkpoint_purging (hdigest : Function.Injective2 digest) {db : AuditDb γ η} {cutoff n : ℕ}
    {l : AuditEvent γ η} {f : Option (AuditEvent γ η)} {old new : List (AuditEvent γ η)}
    {base : Option η} (h : Purging digest cutoff db old new base)
    (hl : ReadExpired digest cutoff l)
    (hreset : f = none → ∀ e ∈ db.hashed, e.expired cutoff = true) :
    Ongoing digest cutoff (db.insertCheckpoint cutoff l n f) := by
  cases f with
  | none =>
    exact ⟨db.hashed, [], none, h.isSealed, (List.append_nil _).symm, hreset rfl, trivial, rfl,
      fun r hr => by cases hr⟩
  | some f =>
    refine ⟨old, new, base, h.isSealed, h.split, h.expired, h.linked, h.head, ?_⟩
    intro r hr hstop q hq hlink
    rcases stopsAt_insertCheckpoint hstop with hstop | ⟨hsome, hboundary⟩
    · exact h.stops r hr hstop q hq hlink
    · -- The walk would stop behind the row the purge read as last deleted.
      have hqsealed := h.isSealed q (by rw [h.split]; exact List.mem_append_right _ hq)
      rw [hqsealed.eq_of_rowHash hdigest (hl.isSealed hsome) (hlink.trans hboundary.symm)]
      exact hl.expired

omit [DecidableEq η] in
theorem deleteChunk_hashed (db : AuditDb γ η) (cutoff : ℕ) : (db.deleteChunk cutoff).hashed =
    db.hashed.filter fun e => !(e.expired cutoff && (db.chunk cutoff).contains e.id) := by
  rw [AuditDb.hashed, AuditDb.hashed, AuditDb.deleteChunk, List.filter_filter, List.filter_filter]
  apply List.filter_congr
  intro e _
  exact Bool.and_comm _ _

theorem delete_purging {db : AuditDb γ η} {cutoff : ℕ} {old new : List (AuditEvent γ η)}
    {base : Option η} (h : Purging digest cutoff db old new base)
    (hordered : db.hashed.Pairwise fun a b => b.expired cutoff = true → a.expired cutoff = true) :
    Ongoing digest cutoff (db.deleteChunk cutoff) := by
  obtain ⟨gone, kept, rfl, hgone, hkept⟩ : ∃ gone kept, new = gone ++ kept ∧
      (∀ e ∈ gone, e.expired cutoff = true) ∧ ∀ e ∈ kept, e.expired cutoff = false := by
    rw [h.split, List.pairwise_append] at hordered
    exact ⟨_, _, (filter_append_filter_not hordered.2.1).symm, fun e he => (List.mem_filter.mp he).2,
      fun e he => by simpa using (List.mem_filter.mp he).2⟩
  obtain ⟨-, hlinked⟩ := linked_append.mp h.linked
  refine ⟨(old ++ gone).filter fun e => !(e.expired cutoff && (db.chunk cutoff).contains e.id),
    kept, _, ?_, ?_, ?_, hlinked, ?_, ?_⟩
  · intro e he
    rw [deleteChunk_hashed] at he
    exact h.isSealed e (List.mem_of_mem_filter he)
  · have hstay : kept.filter (fun e => !(e.expired cutoff && (db.chunk cutoff).contains e.id)) =
        kept := by
      rw [List.filter_eq_self]
      intro e he
      simp [hkept e he]
    rw [deleteChunk_hashed, h.split, ← List.append_assoc, List.filter_append, hstay]
  · intro e he
    rcases List.mem_append.mp (List.mem_of_mem_filter he) with he | he
    · exact h.expired e he
    · exact hgone e he
  · rw [← tip_append]
    exact h.head
  · intro r hr hstop q hq hlink
    refine h.stops r ?_ hstop q (List.mem_append_right _ hq) hlink
    cases gone with
    | nil => exact hr
    | cons x xs => exact List.mem_append_right _ (List.mem_of_mem_tail hr)

theorem Purging.whole {db : AuditDb γ η} {cutoff : ℕ} {old new : List (AuditEvent γ η)}
    {base : Option η} (h : Purging digest cutoff db old new base)
    (hnone : ∀ e ∈ db.events, e.expired cutoff = false) : Whole digest db := by
  have hlive : ∀ e ∈ db.hashed, e.expired cutoff = false :=
    fun e he => hnone e (List.mem_of_mem_filter he)
  have hold : old = [] := by
    rw [List.eq_nil_iff_forall_not_mem]
    intro e he
    have hexp := h.expired e he
    rw [hlive e (by rw [h.split]; exact List.mem_append_left _ he)] at hexp
    cases hexp
  have hhashed : db.hashed = new := by rw [h.split, hold, List.nil_append]
  refine ⟨h.isSealed, ⟨base, ?_, ?_⟩, fun r hr => ?_⟩
  · rw [hhashed]
    exact h.linked
  · rw [hhashed]
    exact h.head
  · by_contra hstop
    rw [hhashed] at hr hlive
    obtain ⟨q, hq, hlink⟩ := h.linked.prev_of_mem_tail hr
    have hexp := h.stops r hr (by simpa using hstop) q hq hlink.symm
    rw [hlive q hq] at hexp
    cases hexp

/-! ## Runs -/

/-- The invariant of the tables beside a purge that stands at this statement. -/
def PurgeInv (digest : Option η → ℕ × ℕ × γ → η) (db : AuditDb γ η) : Pc γ η → Prop
  | .purge cutoff | .delete cutoff => Ongoing digest cutoff db
  | .count cutoff l | .readFirstSurviving cutoff l _ | .checkpoint cutoff l _ _ =>
    Ongoing digest cutoff db ∧ ReadExpired digest cutoff l
  | .done => Whole digest db
  | .commit _ _ _ => False

theorem purge_step (hdigest : Function.Injective2 digest) {c : Config ι (AuditDb γ η) (Pc γ η)}
    {p : ι} {db' : AuditDb γ η} {pc' : Pc γ η} (hinv : PurgeInv digest c.store (c.session p))
    (hcare : keepsReachable c (p, ()) = true)
    (h : act digest () c.store (c.session p) = some (db', pc')) : PurgeInv digest db' pc' := by
  simp only [keepsReachable] at hcare
  cases hpc : c.session p <;> rw [hpc] at hinv h hcare <;> simp only [act] at h
  case commit => exact hinv.elim
  case purge cutoff =>
    split at h
    · cases h
      exact hinv
    · rename_i l hl
      cases h
      obtain ⟨old, new, base, hp⟩ := hinv
      exact ⟨⟨old, new, base, hp⟩, lastDeleted_readExpired hp.isSealed hl⟩
  case count cutoff l =>
    cases h
    exact hinv
  case readFirstSurviving cutoff l n =>
    cases h
    exact hinv
  case checkpoint cutoff l n f =>
    cases h
    obtain ⟨⟨old, new, base, hp⟩, hl⟩ := hinv
    refine checkpoint_purging hdigest hp hl fun hf => ?_
    subst hf
    simpa using hcare
  case delete cutoff =>
    cases h
    obtain ⟨old, new, base, hp⟩ := hinv
    have hnext := delete_purging hp (of_decide_eq_true hcare)
    split
    · rename_i hlen
      obtain ⟨old', new', base', hp'⟩ := hnext
      refine hp'.whole fun e he => ?_
      exact deleteChunk_length_eq hlen e (List.mem_of_mem_filter he)
    · exact hnext
  case done => cases h

theorem commit_step (hdigest : Function.Injective2 digest) {db : AuditDb γ η} {pc : Pc γ η}
    {now : ℕ} {drafts recorded : List (Draft γ)} (hinv : PurgeInv digest db pc)
    (hfresh : ∀ r ∈ commitRows digest db now drafts recorded,
      ∀ cp ∈ db.checkpoints, cp.firstSurvivingEventId ≠ some r.id) :
    PurgeInv digest (commitEvents digest db now drafts recorded) pc := by
  have hongoing : ∀ cutoff, Ongoing digest cutoff db →
      Ongoing digest cutoff (commitEvents digest db now drafts recorded) := by
    rintro cutoff ⟨old, new, base, hp⟩
    exact ⟨old, _, base, commit_purging hdigest hp hfresh⟩
  cases pc with
  | commit => exact hinv
  | purge cutoff | delete cutoff => exact hongoing cutoff hinv
  | count cutoff l | readFirstSurviving cutoff l n | checkpoint cutoff l n f =>
    exact ⟨hongoing cutoff hinv.1, hinv.2⟩
  | done => exact commit_whole hinv hfresh

variable [DecidableEq ι]

structure Inv (digest : Option η → ℕ × ℕ × γ → η) (p : ι)
    (c : Config ι (AuditDb γ η) (Pc γ η)) : Prop where
  purge : PurgeInv digest c.store (c.session p)
  others : ∀ i, i ≠ p → (c.session i).commitsOnly = true

theorem step_inv (hdigest : Function.Injective2 digest) {p : ι}
    {c d : Config ι (AuditDb γ η) (Pc γ η)} {e : ι × Unit} (hc : Inv digest p c)
    (he : Careful c e) (h : Interleaving.step (act digest) c e = some d) : Inv digest p d := by
  obtain ⟨⟨db', pc'⟩, hact, rfl⟩ := step_eq_some.mp h
  obtain ⟨i, u⟩ := e
  by_cases hi : i = p
  · subst hi
    refine ⟨?_, fun j hj => ?_⟩
    · rw [Config.put_session_self]
      exact purge_step hdigest hc.purge he.2 hact
    · rw [Config.put_session_ne _ _ hj]
      exact hc.others j hj
  · have hcommits := hc.others i hi
    have hfresh := he.1
    simp only [freshIds] at hfresh
    cases hpc : c.session i with
    | commit now drafts recorded =>
      rw [hpc] at hact hfresh
      simp only [List.all_eq_true, Bool.and_eq_true, decide_eq_true_eq] at hfresh
      cases hact
      refine ⟨?_, fun j hj => ?_⟩
      · rw [Config.put_session_ne c _ (Ne.symm hi)]
        refine commit_step hdigest hc.purge fun r hr cp hcp => ?_
        obtain ⟨d, hd, hid⟩ := commitRows_id_mem hr
        rw [← hid]
        exact (hfresh d hd).2 cp hcp
      · by_cases hji : j = i
        · rw [hji, Config.put_session_self]
          rfl
        · rw [Config.put_session_ne _ _ hji]
          exact hc.others j hj
    | done =>
      rw [hpc] at hact
      cases hact
    | purge | count | readFirstSurviving | checkpoint | delete =>
      rw [hpc] at hcommits
      cases hcommits

/-- **A purge loses no live row** along every interleaving whose statements are careful: once all
sessions have finished, `verify_chain` visits every live hashed row. -/
theorem purge_loses_no_live_row (hdigest : Function.Injective2 digest) (p : ι) (cutoff : ℕ)
    {c d : Config ι (AuditDb γ η) (Pc γ η)} (es : List (ι × Unit)) (hstart : Whole digest c.store)
    (hpurge : c.session p = .purge cutoff)
    (hothers : ∀ i, i ≠ p → (c.session i).commitsOnly = true)
    (hmeets : Meets (Interleaving.step (act digest)) Careful c es)
    (hrun : run (Interleaving.step (act digest)) c es = some d) (hdone : d.session p = .done)
    {fuel : ℕ} (hfuel : d.store.hashed.length ≤ fuel) :
    ∀ r ∈ d.store.hashed,
      r ∈ (d.store.walk digest fuel d.store.headHash d.store.headEventId).visited := by
  have hinit : Inv digest p c := by
    refine ⟨?_, hothers⟩
    rw [hpurge]
    exact hstart.ongoing cutoff
  have hend : Inv digest p d := run_invariant (fun _ _ _ => step_inv hdigest) hinit hmeets hrun
  have hwhole := hend.purge
  rw [hdone] at hwhole
  obtain ⟨base, hlinked, hhead⟩ := hwhole.linked
  rw [hhead]
  exact walk_visits hdigest hwhole.isSealed hlinked (fun r hr => hr) hwhole.goes hfuel _

/-! ## A purge between commits, and one that a commit cuts in two -/

/-- Session `true` purges at 10, beside one commit at 20, over one row of time 1. -/
def purgeBesideCommit : Config Bool (AuditDb ℕ (List ℕ)) (Pc ℕ (List ℕ)) :=
  { store := commitEvents plainDigest AuditDb.empty 1 [⟨5, 0⟩] []
    session := fun i => if i then .purge 10 else .commit 20 [⟨7, 0⟩] [] }

theorem purgeBesideCommit_whole : Whole plainDigest purgeBesideCommit.store := by
  refine commit_whole ⟨?_, ⟨none, trivial, rfl⟩, ?_⟩ ?_ <;> simp [AuditDb.empty, AuditDb.hashed]

theorem purge_loses_no_live_row_commitFirst :
    ∃ d, run (Interleaving.step (act plainDigest)) purgeBesideCommit
        ((false, ()) :: List.replicate 6 (true, ())) = some d ∧
      ∀ r ∈ d.store.hashed, r ∈
        (d.store.walk plainDigest 1 d.store.headHash d.store.headEventId).visited :=
  ⟨_, rfl, purge_loses_no_live_row plainDigest_injective true 10 (c := purgeBesideCommit)
    ((false, ()) :: List.replicate 6 (true, ())) purgeBesideCommit_whole rfl (by decide)
    (by decide) rfl rfl (by decide)⟩

/-- A commit after the purge has read that nothing survives is cut off by the reset of the head. -/
theorem reset_strands_committed_row :
    ¬ ∀ (c d : Config Bool (AuditDb ℕ (List ℕ)) (Pc ℕ (List ℕ))) (es : List (Bool × Unit))
        (cutoff fuel : ℕ), Whole plainDigest c.store → c.session true = .purge cutoff →
      (∀ i, i ≠ true → (c.session i).commitsOnly = true) →
      run (Interleaving.step (act plainDigest)) c es = some d → (∀ i, d.session i = .done) →
      d.store.hashed.length ≤ fuel → ∀ r ∈ d.store.hashed,
        r ∈ (d.store.walk plainDigest fuel d.store.headHash d.store.headEventId).visited := by
  intro h
  have hlost := h purgeBesideCommit _
    (List.replicate 3 (true, ()) ++ (false, ()) :: List.replicate 3 (true, ())) 10 1
    purgeBesideCommit_whole rfl (by decide) rfl (by intro i; cases i <;> rfl) (by decide)
    ⟨7, 20, 0, some [5, 1, 0], some [7, 20, 0, 1, 5, 1, 0]⟩ (by decide)
  revert hlost
  decide

end DataQ.Audit
