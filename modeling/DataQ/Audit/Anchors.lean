import DataQ.Audit.Tampering

/-! # Anchors

Chain heads are published to a store outside the database: once a day (`anchor_audit_chain_head`)
and by every purge (`purge_expired_events`). `audit_anchor_service.verify_anchors` reads them back
and says of each whether the database still knows it. Times are in microseconds. -/

namespace DataQ.Audit
open DataQ.HashChain DataQ.Transition
set_option autoImplicit false

/-- An anchor as `_parse_record` reads it back. -/
structure AnchorRecord (η : Type) where
  key : String
  label : String
  headHash : Option η
  eventCount : Option ℕ
  asOf : Option ℕ
  malformed : Bool
  deriving DecidableEq, Repr

structure AnchoredDb (γ η : Type) where
  db : AuditDb γ η
  store : List (AnchorRecord η)

inductive AnchorOp (γ : Type)
  | commit (now : ℕ) (new recorded : List (Draft γ))
  | anchorHead (now : ℕ) (stored : Bool)
  | purge (now retentionDays : ℕ) (stored : Bool)

variable {γ η : Type}

def day : ℕ := 86400000000

def retentionCutoff (now retentionDays : ℕ) : ℕ := now - retentionDays * day

/-- `ObjectLockAnchor.publish`; it stores nothing where the store refuses the object. -/
def publish (objectKey : ℕ → η → String) (now : ℕ) (stored : Bool) (label : String) (headHash : η)
    (eventCount asOf : ℕ) (store : List (AnchorRecord η)) : List (AnchorRecord η) :=
  if stored then
    store ++ [⟨objectKey now headHash, label, some headHash, some eventCount, some asOf, false⟩]
  else store

variable [DecidableEq η]

/-- `anchor_audit_chain_head`; a walk that does not end in one step for each row does not end. -/
def anchorChainHead (digest : Option η → ℕ × ℕ × γ → η) (objectKey : ℕ → η → String) (now : ℕ)
    (stored : Bool) (s : AnchoredDb γ η) : List (AnchorRecord η) :=
  match verifyChain digest (s.db.events.length + 1) s.db with
  | none => s.store
  | some result =>
    match result.chainHeadHash with
    | none => s.store
    | some head =>
      publish objectKey now stored "audit_chain_daily" head result.verifiedCount now s.store

omit [DecidableEq η] in
/-- The anchor that a purge publishes between its checkpoint and its deletes. -/
def anchorPurge (objectKey : ℕ → η → String) (now cutoff : ℕ) (stored : Bool)
    (s : AnchoredDb γ η) : List (AnchorRecord η) :=
  match (s.db.lastDeleted cutoff).bind AuditEvent.rowHash with
  | none => s.store
  | some hash =>
    publish objectKey now stored "audit_events_purge" hash (s.db.deletedCount cutoff) cutoff s.store

def anchorStep (digest : Option η → ℕ × ℕ × γ → η) (objectKey : ℕ → η → String)
    (s : AnchoredDb γ η) : AnchorOp γ → Option (AnchoredDb γ η)
  | .commit now new recorded => some { s with db := commitEvents digest s.db now new recorded }
  | .anchorHead now stored => some { s with store := anchorChainHead digest objectKey now stored s }
  | .purge now retentionDays stored =>
    if retentionDays = 0 then some s
    else
      let cutoff := retentionCutoff now retentionDays
      (purgeExpiredEvents s.db cutoff).map fun db =>
        ⟨db, anchorPurge objectKey now cutoff stored s⟩

/-! ## Verifying the anchors -/

inductive AnchorMatch
  | present | purged | missing | malformed
  deriving DecidableEq, Repr

inductive AnchorStatus
  | ok | mismatch | empty | unavailable
  deriving DecidableEq, Repr

structure AnchorCheck (η : Type) where
  key : String
  label : String
  headHash : Option η
  asOf : Option ℕ
  result : AnchorMatch
  deriving DecidableEq, Repr

structure AnchorVerification (η : Type) where
  status : AnchorStatus
  checkedCount : ℕ
  presentCount : ℕ
  purgedCount : ℕ
  missingCount : ℕ
  malformedCount : ℕ
  findings : List (AnchorCheck η)
  truncated : Bool
  deriving DecidableEq, Repr

/-- `known`: a live row has the hash, or a purge names it as its last deleted row's. -/
def AuditDb.knows (db : AuditDb γ η) (hash : η) : Bool :=
  db.events.any (·.rowHash = some hash) || db.checkpoints.any (·.lastDeletedRowHash = some hash)

def AuditDb.legitimatePurgeCutoff (db : AuditDb γ η) (now retentionDays : ℕ) : Option ℕ :=
  if retentionDays = 0 then none
  else ((db.checkpoints.map (·.cutoff)).filter (· ≤ retentionCutoff now retentionDays)).max?

omit [DecidableEq η] in
/-- `record.as_of < purge_cutoff`. -/
def AnchorRecord.olderThan (record : AnchorRecord η) (cutoff : ℕ) : Bool :=
  record.asOf.any (· < cutoff)

/-- `_match`. -/
def AuditDb.matchAnchor (db : AuditDb γ η) (now retentionDays : ℕ) (record : AnchorRecord η) :
    AnchorMatch :=
  match record.headHash with
  | none => .malformed
  | some hash =>
    if record.malformed then .malformed
    else if db.knows hash then .present
    else if (db.legitimatePurgeCutoff now retentionDays).any record.olderThan then .purged
    else .missing

def maxReported : ℕ := 20

def defaultReadLimit : ℕ := 200

/-- The newest anchors: the keys begin with the time of publication. -/
def readAnchors (store : List (AnchorRecord η)) : List (AnchorRecord η) :=
  (store.insertionSort fun a b => b.key ≤ a.key).take defaultReadLimit

/-- `verify_anchors`; the store is `none` where it cannot be read. -/
def verifyAnchors (db : AuditDb γ η) (now retentionDays : ℕ) :
    Option (List (AnchorRecord η)) → AnchorVerification η
  | none => ⟨.unavailable, 0, 0, 0, 0, 0, [], false⟩
  | some store =>
    let records := readAnchors store
    let truncated := decide (defaultReadLimit < store.length)
    if records = [] then ⟨.empty, 0, 0, 0, 0, 0, [], truncated⟩
    else
      let checks := records.map fun r =>
        ⟨r.key, r.label, r.headHash, r.asOf, db.matchAnchor now retentionDays r⟩
      let count := fun m => checks.countP fun c : AnchorCheck η => c.result = m
      let findings := checks.filter fun c => c.result = .missing || c.result = .malformed
      { status := if findings ≠ [] then .mismatch else .ok
        checkedCount := checks.length
        presentCount := count .present
        purgedCount := count .purged
        missingCount := count .missing
        malformedCount := count .malformed
        findings := findings.take maxReported
        truncated := truncated }

/-! ## What explains an anchor -/

/-- A purge at the cutoff explains every hashed row that it deletes: it names the row as its last
deleted, or every anchor of the row is older than the cutoff; and where it deletes the row of the
head without naming it, it starts the chain again. -/
def DeletesExplained (s : AnchoredDb γ η) (cutoff : ℕ) : Prop :=
  ∀ e ∈ s.db.events, e.expired cutoff = true → ∀ hash ∈ e.rowHash,
    s.db.lastDeleted cutoff = some e ∨
      ((∀ a ∈ s.store, a.headHash = some hash → a.olderThan cutoff = true) ∧
        (s.db.headHash = some hash → s.db.firstSurviving cutoff = none))

def PurgeExplains (s : AnchoredDb γ η) : AnchorOp γ → Prop
  | .purge now retentionDays _ =>
    retentionDays = 0 ∨ DeletesExplained s (retentionCutoff now retentionDays)
  | .commit _ _ _ | .anchorHead _ _ => True

instance [DecidableEq γ] (s : AnchoredDb γ η) (cutoff : ℕ) : Decidable (DeletesExplained s cutoff) :=
  inferInstanceAs (Decidable (∀ e ∈ s.db.events, e.expired cutoff = true → ∀ hash ∈ e.rowHash,
    s.db.lastDeleted cutoff = some e ∨
      ((∀ a ∈ s.store, a.headHash = some hash → a.olderThan cutoff = true) ∧
        (s.db.headHash = some hash → s.db.firstSurviving cutoff = none))))

instance [DecidableEq γ] (s : AnchoredDb γ η) : (op : AnchorOp γ) → Decidable (PurgeExplains s op)
  | .purge now retentionDays _ => inferInstanceAs (Decidable (retentionDays = 0 ∨
      DeletesExplained s (retentionCutoff now retentionDays)))
  | .commit _ _ _ | .anchorHead _ _ => .isTrue trivial

/-- Where a purge explains an anchor whose hash is gone, one does whose cutoff the retention of today
allows. -/
def RetentionCovers (s : AnchoredDb γ η) (now retentionDays : ℕ) : Prop :=
  ∀ a ∈ s.store, (∀ hash ∈ a.headHash, s.db.knows hash = false) →
    (∃ cp ∈ s.db.checkpoints, a.olderThan cp.cutoff = true) →
    retentionDays ≠ 0 ∧ ∃ cp ∈ s.db.checkpoints,
      cp.cutoff ≤ retentionCutoff now retentionDays ∧ a.olderThan cp.cutoff = true

instance (s : AnchoredDb γ η) (now retentionDays : ℕ) :
    Decidable (RetentionCovers s now retentionDays) :=
  inferInstanceAs (Decidable (∀ a ∈ s.store, (∀ hash ∈ a.headHash, s.db.knows hash = false) →
    (∃ cp ∈ s.db.checkpoints, a.olderThan cp.cutoff = true) →
    retentionDays ≠ 0 ∧ ∃ cp ∈ s.db.checkpoints,
      cp.cutoff ≤ retentionCutoff now retentionDays ∧ a.olderThan cp.cutoff = true))

/-- A hash is known, or an anchor of it is older than the cutoff of a purge. -/
def Explained (db : AuditDb γ η) (a : AnchorRecord η) : Prop :=
  ∃ hash, a.headHash = some hash ∧ a.malformed = false ∧
    (db.knows hash = true ∨ ∃ cp ∈ db.checkpoints, a.olderThan cp.cutoff = true)

structure AllExplained (s : AnchoredDb γ η) : Prop where
  head : ∀ hash, s.db.headHash = some hash → s.db.knows hash = true
  anchors : ∀ a ∈ s.store, Explained s.db a

theorem knows_iff {db : AuditDb γ η} {hash : η} :
    db.knows hash = true ↔ (∃ e ∈ db.events, e.rowHash = some hash) ∨
      ∃ cp ∈ db.checkpoints, cp.lastDeletedRowHash = some hash := by
  simp [AuditDb.knows]

omit [DecidableEq η] in
theorem olderThan_mono {a : AnchorRecord η} {c d : ℕ} (hcd : c ≤ d) (h : a.olderThan c = true) :
    a.olderThan d = true := by
  cases hasOf : a.asOf with
  | none => simp [AnchorRecord.olderThan, hasOf] at h
  | some t =>
    simp only [AnchorRecord.olderThan, hasOf, Option.any_some, decide_eq_true_eq] at h ⊢
    omega

omit [DecidableEq η] in
theorem legitimatePurgeCutoff_olderThan {db : AuditDb γ η} {now retentionDays : ℕ}
    {a : AnchorRecord η} :
    (db.legitimatePurgeCutoff now retentionDays).any a.olderThan = true ↔
      retentionDays ≠ 0 ∧ ∃ cp ∈ db.checkpoints,
        cp.cutoff ≤ retentionCutoff now retentionDays ∧ a.olderThan cp.cutoff = true := by
  unfold AuditDb.legitimatePurgeCutoff
  by_cases hoff : retentionDays = 0
  · simp [hoff]
  · rw [if_neg hoff]
    have hmem : ∀ c, c ∈ (db.checkpoints.map (·.cutoff)).filter
        (· ≤ retentionCutoff now retentionDays) ↔
        ∃ cp ∈ db.checkpoints, cp.cutoff = c ∧ c ≤ retentionCutoff now retentionDays := by
      intro c
      simp only [List.mem_filter, List.mem_map, decide_eq_true_eq]
      constructor
      · rintro ⟨⟨cp, hcp, hcut⟩, hle⟩
        exact ⟨cp, hcp, hcut, hle⟩
      · rintro ⟨cp, hcp, hcut, hle⟩
        exact ⟨⟨cp, hcp, hcut⟩, hle⟩
    rw [Option.any_eq_true]
    constructor
    · rintro ⟨c, hmax, holder⟩
      obtain ⟨cp, hcp, rfl, hle⟩ := (hmem c).mp (List.max?_mem hmax)
      exact ⟨hoff, cp, hcp, hle, holder⟩
    · rintro ⟨-, cp, hcp, hle, holder⟩
      have hin := (hmem cp.cutoff).mpr ⟨cp, hcp, rfl, hle⟩
      obtain ⟨c, hmax⟩ := Option.isSome_iff_exists.mp
        (List.isSome_max?_of_mem hin)
      exact ⟨c, hmax, olderThan_mono ((List.max?_eq_some_iff.mp hmax).2 _ hin) holder⟩

/-- Of the anchors that are explained, `verify_anchors` finds every one exactly where the retention
of today covers the purges that explain them. -/
theorem no_anchor_missing_iff {s : AnchoredDb γ η} (h : AllExplained s) (now retentionDays : ℕ) :
    (∀ a ∈ s.store, s.db.matchAnchor now retentionDays a ≠ .missing) ↔
      RetentionCovers s now retentionDays := by
  have hmatch : ∀ a ∈ s.store, ∃ hash, a.headHash = some hash ∧
      (s.db.matchAnchor now retentionDays a = .missing ↔ s.db.knows hash = false ∧
        ¬ (retentionDays ≠ 0 ∧ ∃ cp ∈ s.db.checkpoints,
          cp.cutoff ≤ retentionCutoff now retentionDays ∧ a.olderThan cp.cutoff = true)) := by
    intro a ha
    obtain ⟨hash, hhash, hgood, -⟩ := h.anchors a ha
    refine ⟨hash, hhash, ?_⟩
    rw [AuditDb.matchAnchor, hhash, ← legitimatePurgeCutoff_olderThan]
    simp only [hgood, Bool.false_eq_true, if_false]
    cases hknown : s.db.knows hash with
    | true => simp
    | false =>
      cases (s.db.legitimatePurgeCutoff now retentionDays).any a.olderThan <;> simp
  constructor
  · intro hno a ha hunknown _
    obtain ⟨hash, hhash, hiff⟩ := hmatch a ha
    by_contra hnot
    exact hno a ha (hiff.mpr ⟨hunknown hash hhash, hnot⟩)
  · intro hcovers a ha hmissing
    obtain ⟨hash, hhash, hiff⟩ := hmatch a ha
    obtain ⟨hunknown, hnot⟩ := hiff.mp hmissing
    obtain ⟨hash', hhash', -, hexplained⟩ := h.anchors a ha
    obtain rfl : hash = hash' := Option.some.inj (hhash.symm.trans hhash')
    have holder := hexplained.resolve_left (by simp [hunknown])
    refine hnot (hcovers a ha (fun hash' hhash' => ?_) holder)
    rw [Option.mem_def, hhash, Option.some.injEq] at hhash'
    rw [← hhash']
    exact hunknown

/-! ## Runs -/

theorem publish_explained {objectKey : ℕ → η → String} {now eventCount asOf : ℕ} {stored : Bool}
    {label : String} {hash : η} {s : AnchoredDb γ η} (h : ∀ a ∈ s.store, Explained s.db a)
    (hknown : s.db.knows hash = true) :
    ∀ a ∈ publish objectKey now stored label hash eventCount asOf s.store, Explained s.db a := by
  intro a ha
  unfold publish at ha
  split at ha
  · rcases List.mem_append.mp ha with hold | hnew
    · exact h a hold
    · rw [List.mem_singleton.mp hnew]
      exact ⟨hash, rfl, rfl, .inl hknown⟩
  · exact h a ha

theorem commit_explained {digest : Option η → ℕ × ℕ × γ → η} {s : AnchoredDb γ η}
    (h : AllExplained s) (now : ℕ) (new recorded : List (Draft γ)) :
    AllExplained { s with db := commitEvents digest s.db now new recorded } := by
  have hknows : ∀ hash, s.db.knows hash = true →
      (commitEvents digest s.db now new recorded).knows hash = true := by
    intro hash hknown
    rw [commitEvents_eq, knows_iff]
    exact (knows_iff.mp hknown).imp_left fun ⟨e, he, hhash⟩ =>
      ⟨e, List.mem_append_left _ he, hhash⟩
  refine ⟨fun hash hhead => ?_, fun a ha => ?_⟩
  · rw [commitEvents_eq] at hhead
    simp only at hhead
    cases hrows : commitRows digest s.db now new recorded using List.reverseRecOn with
    | nil =>
      rw [hrows] at hhead
      exact hknows hash (h.head hash hhead)
    | append_singleton rows last =>
      rw [hrows, tip_concat] at hhead
      refine knows_iff.mpr (.inl ⟨last, ?_, hhead⟩)
      rw [commitEvents_eq]
      exact List.mem_append_right _ (by rw [hrows]; simp)
  · obtain ⟨hash, hhash, hgood, hexplained⟩ := h.anchors a ha
    refine ⟨hash, hhash, hgood, hexplained.imp (hknows hash) fun ⟨cp, hcp, holder⟩ => ?_⟩
    rw [commitEvents_eq]
    exact ⟨cp, hcp, holder⟩

omit [DecidableEq η] in
/-- What a purge that deletes something leaves. -/
def AuditDb.purged (db : AuditDb γ η) (cutoff : ℕ) (l : AuditEvent γ η) : AuditDb γ η :=
  { db.insertCheckpoint cutoff l (db.deletedCount cutoff) (db.firstSurviving cutoff) with
    events := db.events.filter (!·.expired cutoff) }

omit [DecidableEq η] in
theorem purgeExpiredEvents_cases {db db' : AuditDb γ η} {cutoff : ℕ}
    (h : purgeExpiredEvents db cutoff = some db') :
    (db.lastDeleted cutoff = none ∧ db' = db) ∨
      ∃ l, db.lastDeleted cutoff = some l ∧ db' = db.purged cutoff l := by
  rw [purgeExpiredEvents_eq] at h
  cases h
  cases hl : db.lastDeleted cutoff with
  | none =>
    have hnone : db.events.filter (·.expired cutoff) = [] := List.argmax_eq_none.mp hl
    have hall : db.events.filter (!·.expired cutoff) = db.events := by
      rw [List.filter_eq_self]
      intro e he
      have hlive := List.filter_eq_nil_iff.mp hnone e he
      simpa using hlive
    refine .inl ⟨rfl, ?_⟩
    rw [hall, AuditDb.writePurgeCheckpoint, hl]
  | some l =>
    refine .inr ⟨l, rfl, ?_⟩
    rw [AuditDb.writePurgeCheckpoint, hl]
    rfl

/-- A hash that is known stays known after a purge, unless a row of it is deleted that the purge
does not name. -/
theorem knows_purged {db : AuditDb γ η} {cutoff : ℕ} {l : AuditEvent γ η} {hash : η}
    (hknown : db.knows hash = true) :
    (db.purged cutoff l).knows hash = true ∨
      ∃ e ∈ db.events, e.expired cutoff = true ∧ e.rowHash = some hash ∧ e ≠ l := by
  rcases knows_iff.mp hknown with ⟨e, he, hhash⟩ | ⟨cp, hcp, hhash⟩
  · by_cases hexp : e.expired cutoff = true
    · by_cases hlast : e = l
      · subst hlast
        refine .inl (knows_iff.mpr (.inr ⟨_, List.mem_append_right _ (List.mem_singleton_self _), ?_⟩))
        exact hhash
      · exact .inr ⟨e, he, hexp, hhash, hlast⟩
    · exact .inl (knows_iff.mpr (.inl ⟨e, List.mem_filter.mpr ⟨he, by simpa using hexp⟩, hhash⟩))
  · exact .inl (knows_iff.mpr (.inr ⟨cp, List.mem_append_left _ hcp, hhash⟩))

theorem purge_explained {objectKey : ℕ → η → String} {s : AnchoredDb γ η} (h : AllExplained s)
    {now retentionDays : ℕ} {stored : Bool} (hne : retentionDays ≠ 0)
    (hexplains : PurgeExplains s (.purge now retentionDays stored)) {db' : AuditDb γ η}
    (hpurge : purgeExpiredEvents s.db (retentionCutoff now retentionDays) = some db') :
    AllExplained
      ⟨db', anchorPurge objectKey now (retentionCutoff now retentionDays) stored s⟩ := by
  have hexplains := hexplains.resolve_left hne
  generalize retentionCutoff now retentionDays = cutoff at hexplains hpurge
  rcases purgeExpiredEvents_cases hpurge with ⟨hl, rfl⟩ | ⟨l, hl, rfl⟩
  · rw [anchorPurge, hl]
    exact h
  · rw [DeletesExplained, hl] at hexplains
    have hold : ∀ a ∈ s.store, Explained (s.db.purged cutoff l) a := by
      intro a ha
      obtain ⟨hash, hhash, hgood, hexplained⟩ := h.anchors a ha
      refine ⟨hash, hhash, hgood, ?_⟩
      rcases hexplained with hknown | ⟨cp, hcp, holder⟩
      · rcases knows_purged hknown with hknown' | ⟨e, he, hexp, hrow, hnot⟩
        · exact .inl hknown'
        · rcases hexplains e he hexp hash hrow with hlast | ⟨holder, -⟩
          · exact absurd (Option.some.inj hlast).symm hnot
          · exact .inr ⟨_, List.mem_append_right _ (List.mem_singleton_self _), holder a ha hhash⟩
      · exact .inr ⟨cp, List.mem_append_left _ hcp, holder⟩
    refine ⟨fun hash hhead => ?_, fun a ha => ?_⟩
    · cases hsurvives : s.db.firstSurviving cutoff with
      | none =>
        simp only [AuditDb.purged, AuditDb.insertCheckpoint, hsurvives] at hhead
        cases hhead
      | some f =>
        simp only [AuditDb.purged, AuditDb.insertCheckpoint, hsurvives] at hhead
        rcases knows_purged (h.head hash hhead) with hknown | ⟨e, he, hexp, hrow, hnot⟩
        · exact hknown
        · rcases hexplains e he hexp hash hrow with hlast | ⟨-, hreset⟩
          · exact absurd (Option.some.inj hlast).symm hnot
          · rw [hreset hhead] at hsurvives
            cases hsurvives
    · unfold anchorPurge at ha
      rw [hl, Option.bind_some] at ha
      cases hhash : l.rowHash with
      | none =>
        rw [hhash] at ha
        exact hold a ha
      | some hash =>
        rw [hhash] at ha
        have hknown : (s.db.purged cutoff l).knows hash = true :=
          knows_iff.mpr (.inr ⟨_, List.mem_append_right _ (List.mem_singleton_self _), hhash⟩)
        exact publish_explained (s := ⟨s.db.purged cutoff l, s.store⟩) hold hknown a ha

theorem step_explained {digest : Option η → ℕ × ℕ × γ → η} {objectKey : ℕ → η → String}
    {s s' : AnchoredDb γ η} {op : AnchorOp γ} (h : AllExplained s) (hexplains : PurgeExplains s op)
    (hstep : anchorStep digest objectKey s op = some s') : AllExplained s' := by
  cases op with
  | commit now new recorded =>
    cases hstep
    exact commit_explained h now new recorded
  | anchorHead now stored =>
    cases hstep
    refine ⟨h.head, ?_⟩
    unfold anchorChainHead
    split
    · exact h.anchors
    · next result hverify =>
      have hhead : result.chainHeadHash = s.db.headHash := by
        unfold verifyChain at hverify
        simp only at hverify
        split at hverify
        · cases hverify
          rfl
        · cases hverify
      split
      · exact h.anchors
      · next head hresult => exact publish_explained h.anchors (h.head head (hhead ▸ hresult))
  | purge now retentionDays stored =>
    simp only [anchorStep] at hstep
    split at hstep
    · cases hstep
      exact h
    · next hne =>
      obtain ⟨db', hpurge, rfl⟩ := Option.map_eq_some_iff.mp hstep
      exact purge_explained h hne hexplains hpurge

theorem run_explained {digest : Option η → ℕ × ℕ × γ → η} {objectKey : ℕ → η → String}
    {legacy : List (AuditEvent γ η)} {ops : List (AnchorOp γ)} {s : AnchoredDb γ η}
    (hmeets : Meets (anchorStep digest objectKey) PurgeExplains ⟨AuditDb.legacy legacy, []⟩ ops)
    (hrun : run (anchorStep digest objectKey) ⟨AuditDb.legacy legacy, []⟩ ops = some s) :
    AllExplained s := by
  refine run_invariant (fun _ _ _ h hexplains hstep => step_explained h hexplains hstep)
    ⟨fun hash hhead => ?_, fun a ha => ?_⟩ hmeets hrun
  · cases hhead
  · cases ha

/-- **No anchor is called missing**: where every purge explains the anchored rows it deletes, and the
retention of the day covers them, `verify_anchors` counts no published anchor as missing. -/
theorem verifyAnchors_none_missing (digest : Option η → ℕ × ℕ × γ → η)
    (objectKey : ℕ → η → String) (legacy : List (AuditEvent γ η)) (ops : List (AnchorOp γ))
    (s : AnchoredDb γ η)
    (hmeets : Meets (anchorStep digest objectKey) PurgeExplains ⟨AuditDb.legacy legacy, []⟩ ops)
    (hrun : run (anchorStep digest objectKey) ⟨AuditDb.legacy legacy, []⟩ ops = some s)
    (now retentionDays : ℕ) (hcovers : RetentionCovers s now retentionDays) :
    (verifyAnchors s.db now retentionDays (some s.store)).missingCount = 0 := by
  have hnone := (no_anchor_missing_iff (run_explained hmeets hrun) now retentionDays).mpr hcovers
  unfold verifyAnchors
  simp only
  split
  · rfl
  · rw [List.countP_eq_zero]
    intro c hc
    obtain ⟨a, ha, rfl⟩ := List.mem_map.mp hc
    have hmem : a ∈ s.store :=
      (List.mem_insertionSort _).mp (List.mem_of_mem_take ha)
    simpa using hnone a hmem

/-- Two events of one transaction, the anchor of the later one an hour after them, and a year later
a purge whose cutoff lies in between; the greater id was added first or last. -/
def anchoredOps (first second : ℕ) : List (AnchorOp ℕ) :=
  [.commit (10 * day) [⟨first, 0⟩, ⟨second, 0⟩] [], .anchorHead (10 * day + 3600000000) true,
    .commit (300 * day) [⟨11, 0⟩] [], .purge (375 * day + 1800000000) 365 true]

def anchorKey (_ : ℕ) (_ : List ℕ) : String := "audit"

theorem verifyAnchors_none_missing_anchored :
    ∃ s, run (anchorStep plainDigest anchorKey) ⟨AuditDb.legacy [], []⟩ (anchoredOps 7 9) = some s ∧
      (verifyAnchors s.db (376 * day) 365 (some s.store)).missingCount = 0 :=
  ⟨_, rfl, verifyAnchors_none_missing plainDigest anchorKey [] (anchoredOps 7 9) _
    (by decide) rfl (376 * day) 365 (by decide)⟩

/-- The purge names the row with the greater id, and the anchored head is called missing. -/
theorem tied_anchor_called_missing :
    ∃ s, run (anchorStep plainDigest anchorKey) ⟨AuditDb.legacy [], []⟩ (anchoredOps 9 7) = some s ∧
      (verifyAnchors s.db (376 * day) 365 (some s.store)).missingCount = 1 := by
  refine ⟨_, rfl, ?_⟩
  decide

end DataQ.Audit
