import DataQ.Audit.NoFalseAlarm

/-! # Tampering

What `verify_chain` finds when somebody writes to a table that commits and checkpointed purges have
left. The rows chained since the head was last reset form one list from no predecessor, live or
not; no two of them have one hash, and no two name one predecessor. -/

namespace DataQ.Audit
open DataQ.HashChain DataQ.Transition
set_option autoImplicit false

variable {γ η : Type} {digest : Option η → ℕ × ℕ × γ → η}

/-- The tables before the first chained event: rows that were written before there was a chain. -/
def AuditDb.legacy (rows : List (AuditEvent γ η)) : AuditDb γ η := ⟨rows, [], none, none⟩

/-- The live hashed rows are some of the rows chained since the last reset of the head. -/
structure Recorded (digest : Option η → ℕ × ℕ × γ → η) (db : AuditDb γ η)
    (rows : List (AuditEvent γ η)) : Prop where
  linked : Linked AuditEvent.prevHash AuditEvent.rowHash none rows
  isSealed : ∀ e ∈ rows, e.Sealed digest
  headHash : db.headHash = tip AuditEvent.rowHash none rows
  headEventId : db.headEventId = tip (fun e => some e.id) none rows
  live : db.hashed.Sublist rows

def Chained (digest : Option η → ℕ × ℕ × γ → η) (db : AuditDb γ η) : Prop :=
  ∃ rows, Recorded digest db rows

theorem legacy_chained {rows : List (AuditEvent γ η)} (h : ∀ e ∈ rows, e.rowHash = none) :
    Chained digest (AuditDb.legacy rows) := by
  have hhashed : (AuditDb.legacy rows).hashed = [] := by
    rw [AuditDb.hashed, List.filter_eq_nil_iff]
    intro e he
    simp [AuditEvent.hashed, h e he]
  refine ⟨[], trivial, ?_, rfl, rfl, ?_⟩
  · intro e he
    cases he
  · rw [hhashed]

theorem commit_chained {db : AuditDb γ η} (h : Chained digest db) (now : ℕ)
    (new recorded : List (Draft γ)) : Chained digest (commitEvents digest db now new recorded) := by
  obtain ⟨rows, h⟩ := h
  refine ⟨rows ++ commitRows digest db now new recorded, ?_, ?_, ?_, ?_, ?_⟩
  · rw [linked_append, ← h.headHash]
    exact ⟨h.linked, chainOnto_linked _ _ _⟩
  · intro e he
    rcases List.mem_append.mp he with he | he
    · exact h.isSealed e he
    · exact commitRows_sealed he
  · rw [commitEvents_eq, tip_append, ← h.headHash]
  · rw [commitEvents_eq, tip_append, ← h.headEventId]
  · rw [commit_hashed]
    exact h.live.append (List.Sublist.refl _)

theorem purge_chained {db db' : AuditDb γ η} (h : Chained digest db) {cutoff : ℕ}
    (hpurge : purgeExpiredEvents db cutoff = some db') : Chained digest db' := by
  obtain ⟨rows, h⟩ := h
  rw [purgeExpiredEvents_eq] at hpurge
  cases hpurge
  have hsub : (db.events.filter (!·.expired cutoff)).Sublist db.events := List.filter_sublist
  have hlive : ((db.events.filter (!·.expired cutoff)).filter (·.hashed)).Sublist rows :=
    (hsub.filter _).trans h.live
  unfold AuditDb.writePurgeCheckpoint
  split
  · exact ⟨rows, h.linked, h.isSealed, h.headHash, h.headEventId, hlive⟩
  · cases hsurvives : db.firstSurviving cutoff with
    | some f => exact ⟨rows, h.linked, h.isSealed, h.headHash, h.headEventId, hlive⟩
    | none =>
      have hnone : db.events.filter (!·.expired cutoff) = [] := List.argmin_eq_none.mp hsurvives
      refine ⟨[], trivial, fun e he => ?_, rfl, rfl, ?_⟩
      · cases he
      · simp [AuditDb.hashed, hnone]

theorem step_chained {db db' : AuditDb γ η} {op : Op γ} (h : Chained digest db)
    (hstep : step digest db op = some db') : Chained digest db' := by
  cases op with
  | commit now new recorded =>
    cases hstep
    exact commit_chained h now new recorded
  | purge cutoff => exact purge_chained h hstep

theorem run_chained {legacy : List (AuditEvent γ η)} (hlegacy : ∀ e ∈ legacy, e.rowHash = none)
    {ops : List (Op γ)} {db : AuditDb γ η}
    (hrun : run (step digest) (AuditDb.legacy legacy) ops = some db) : Chained digest db := by
  exact run_keeps (fun _ _ _ h hstep => step_chained h hstep) (legacy_chained hlegacy) hrun

/-! ## Rows of one chain -/

theorem Recorded.nodup (hdigest : Function.Injective2 digest) {db : AuditDb γ η}
    {rows : List (AuditEvent γ η)} (h : Recorded digest db rows) :
    (none :: rows.map AuditEvent.rowHash).Nodup := by
  refine h.linked.nodup (fun e he hnone => ?_) fun e he f hf hhash => ?_
  · rw [h.isSealed e he] at hnone
    cases hnone
  · rw [(h.isSealed e he).eq_of_rowHash hdigest (h.isSealed f hf) hhash]

theorem Chained.rowHash_inj (hdigest : Function.Injective2 digest) {db : AuditDb γ η}
    (h : Chained digest db) {e f : AuditEvent γ η} (he : e ∈ db.hashed) (hf : f ∈ db.hashed)
    (hhash : e.rowHash = f.rowHash) : e = f := by
  obtain ⟨rows, h⟩ := h
  exact (h.isSealed e (h.live.subset he)).eq_of_rowHash hdigest (h.isSealed f (h.live.subset hf))
    hhash

theorem Chained.prevHash_inj (hdigest : Function.Injective2 digest) {db : AuditDb γ η}
    (h : Chained digest db) {e f : AuditEvent γ η} (he : e ∈ db.hashed) (hf : f ∈ db.hashed)
    (hprev : e.prevHash = f.prevHash) : e = f := by
  obtain ⟨rows, h⟩ := h
  have hnodup := h.linked.nodup_prev (h.nodup hdigest)
  exact List.inj_on_of_nodup_map hnodup (h.live.subset he) (h.live.subset hf) hprev

/-! ## Writing to the rows behind the chain's back -/

/-- What becomes of each row when somebody writes to the table; the stored hashes stay. -/
structure Edit (γ η : Type) where
  apply : AuditEvent γ η → Option (AuditEvent γ η)
  keeps : ∀ e e', apply e = some e' → e'.rowHash = e.rowHash

def AuditDb.edited (db : AuditDb γ η) (edit : Edit γ η) : AuditDb γ η :=
  { db with events := db.events.filterMap edit.apply }

theorem mem_edited_hashed {db : AuditDb γ η} {edit : Edit γ η} {e' : AuditEvent γ η} :
    e' ∈ (db.edited edit).hashed ↔ ∃ e ∈ db.hashed, edit.apply e = some e' := by
  have hsame : ∀ e, edit.apply e = some e' → e'.hashed = e.hashed := by
    intro e he
    rw [AuditEvent.hashed, AuditEvent.hashed, edit.keeps e e' he]
  simp only [AuditDb.hashed, AuditDb.edited, List.mem_filter, List.mem_filterMap]
  constructor
  · rintro ⟨⟨e, he, happly⟩, hhashed⟩
    exact ⟨e, ⟨he, hsame e happly ▸ hhashed⟩, happly⟩
  · rintro ⟨e, ⟨he, hhashed⟩, happly⟩
    exact ⟨⟨e, he, happly⟩, (hsame e happly).trans hhashed⟩

variable [DecidableEq η]

/-- Somewhere on its way from the head, the loop of `verify_chain` verifies the row. -/
def AuditDb.Reaches (digest : Option η → ℕ × ℕ × γ → η) (db : AuditDb γ η) (r : AuditEvent γ η) :
    Prop := ∃ fuel, r ∈ (db.walk digest fuel db.headHash db.headEventId).visited

/-- `verify_chain` ends, and reports a break. -/
def ReportsBreak (digest : Option η → ℕ × ℕ × γ → η) (db : AuditDb γ η) : Prop :=
  ∃ fuel, ∀ more, ∃ v, verifyChain digest (fuel + more) db = some v ∧ v.firstBreak.isSome

theorem byHash_some {db : AuditDb γ η} {h : η} {r : AuditEvent γ η} (hr : db.byHash h = some r) :
    r ∈ db.hashed ∧ r.rowHash = some h :=
  ⟨List.mem_reverse.mp (List.mem_of_find?_eq_some hr), by simpa using List.find?_some hr⟩

theorem byHash_edited {db : AuditDb γ η} {edit : Edit γ η}
    (hinj : ∀ e ∈ db.hashed, ∀ f ∈ db.hashed, e.rowHash = f.rowHash → e = f) {h : η}
    {r : AuditEvent γ η} (hr : db.byHash h = some r) :
    (db.edited edit).byHash h = edit.apply r := by
  obtain ⟨hmem, hhash⟩ := byHash_some hr
  have honly : ∀ e', e' ∈ (db.edited edit).hashed → e'.rowHash = some h → edit.apply r = some e' := by
    intro e' he' hhash'
    obtain ⟨e, he, happly⟩ := mem_edited_hashed.mp he'
    have heq : e = r := hinj e he r hmem
      ((edit.keeps e e' happly).symm.trans (hhash'.trans hhash.symm))
    rw [← heq]
    exact happly
  cases hfind : (db.edited edit).byHash h with
  | some e' =>
    obtain ⟨he', hhash'⟩ := byHash_some hfind
    exact (honly e' he' hhash').symm
  | none =>
    cases happly : edit.apply r with
    | none => rfl
    | some e' =>
      have he' : e' ∈ (db.edited edit).hashed := mem_edited_hashed.mpr ⟨r, hmem, happly⟩
      rw [AuditDb.byHash, List.find?_eq_none] at hfind
      exact absurd (hfind e' (List.mem_reverse.mpr he'))
        (by simp [edit.keeps r e' happly, hhash])

/-- On its way to a row that an edit has touched, the loop meets a break. -/
theorem walk_breaks (hdigest : Function.Injective2 digest) {db : AuditDb γ η}
    (h : Chained digest db) {edit : Edit γ η} {r : AuditEvent γ η} (hr : edit.apply r ≠ some r)
    {fuel : ℕ} {current : Option η} {blame : ℕ}
    (hreach : r ∈ (db.walk digest fuel current (some blame)).visited) (more : ℕ) :
    ((db.edited edit).walk digest (fuel + more) current (some blame)).finished = true ∧
      ((db.edited edit).walk digest (fuel + more) current (some blame)).firstBreak.isSome := by
  have hinj : ∀ e ∈ db.hashed, ∀ f ∈ db.hashed, e.rowHash = f.rowHash → e = f :=
    fun e he f hf => h.rowHash_inj hdigest he hf
  induction fuel generalizing current blame with
  | zero => cases current <;> cases hreach
  | succ fuel ih =>
    cases current with
    | none => cases hreach
    | some hash =>
      have hmore : fuel + 1 + more = fuel + more + 1 := by omega
      rw [AuditDb.walk] at hreach
      rw [hmore, AuditDb.walk]
      cases hfind : db.byHash hash with
      | none =>
        rw [hfind] at hreach
        cases hreach
      | some row =>
        obtain ⟨hmem, hhash⟩ := byHash_some hfind
        rw [hfind] at hreach
        rw [byHash_edited hinj hfind]
        cases happly : edit.apply row with
        | none => exact ⟨rfl, rfl⟩
        | some row' =>
          by_cases hsame : row' = row
          · -- the edit leaves this row, so the walk goes on to the touched one
            subst hsame
            simp only at hreach ⊢
            split at hreach
            · cases hreach
            · next hok =>
              rw [if_neg hok]
              have hstop : (db.edited edit).stopsAt row' = db.stopsAt row' := stopsAt_congr rfl row'
              rw [hstop]
              split at hreach
              · rw [List.mem_singleton.mp hreach] at hr
                exact absurd happly hr
              · next hgoes =>
                rw [if_neg hgoes]
                rcases List.mem_cons.mp hreach with heq | hrest
                · rw [heq] at hr
                  exact absurd happly hr
                · exact ih hrest
          · -- the row has its stored hash but not the columns that gave it
            have hkeeps := edit.keeps row row' happly
            obtain ⟨rows, hrows⟩ := h
            have hrow := hrows.isSealed row (hrows.live.subset hmem)
            have hbroken : some (computeRowHash digest row' row'.prevHash) ≠ row'.rowHash := by
              intro hcontra
              exact hsame (AuditEvent.Sealed.eq_of_rowHash hdigest hcontra.symm hrow hkeeps)
            simp only
            rw [if_pos hbroken]
            exact ⟨rfl, rfl⟩

theorem visited_hashed {db : AuditDb γ η} {r : AuditEvent γ η} {fuel : ℕ} {current : Option η}
    {blame : Option ℕ} (hr : r ∈ (db.walk digest fuel current blame).visited) : r ∈ db.hashed := by
  induction fuel generalizing current blame with
  | zero => cases current <;> cases hr
  | succ fuel ih =>
    cases current with
    | none => cases hr
    | some hash =>
      rw [AuditDb.walk] at hr
      split at hr
      · cases hr
      · next row hfind =>
        have hrow := (byHash_some hfind).1
        split at hr
        · cases hr
        · split at hr
          · rw [List.mem_singleton.mp hr]
            exact hrow
          · rcases List.mem_cons.mp hr with rfl | hrest
            · exact hrow
            · exact ih hrest

theorem Chained.headEventId_of_reaches {db : AuditDb γ η} (h : Chained digest db)
    {r : AuditEvent γ η} (hr : db.Reaches digest r) : ∃ id, db.headEventId = some id := by
  obtain ⟨rows, h⟩ := h
  obtain ⟨fuel, hr⟩ := hr
  cases rows using List.reverseRecOn with
  | nil =>
    have hhead : db.headHash = none := h.headHash
    rw [hhead] at hr
    cases fuel <;> cases hr
  | append_singleton rows last => exact ⟨last.id, h.headEventId.trans (tip_concat rows last)⟩

/-- An edit that touches a row of the walk makes `verify_chain` report a break. -/
theorem touched_reportsBreak (hdigest : Function.Injective2 digest) {db : AuditDb γ η}
    (h : Chained digest db) {edit : Edit γ η} {r : AuditEvent γ η} (hr : db.Reaches digest r)
    (htouched : edit.apply r ≠ some r) : ReportsBreak digest (db.edited edit) := by
  obtain ⟨id, hid⟩ := h.headEventId_of_reaches hr
  obtain ⟨fuel, hreach⟩ := hr
  rw [hid] at hreach
  refine ⟨fuel, fun more => ?_⟩
  obtain ⟨hfinished, hbreak⟩ := walk_breaks hdigest h htouched hreach more
  have hhead : (db.edited edit).headEventId = some id := hid
  unfold verifyChain
  rw [hhead]
  exact ⟨_, if_pos hfinished, hbreak⟩

section Tampering
variable [DecidableEq γ]

/-- The row, with other values in its hashed columns or its link. -/
def alter (r r' : AuditEvent γ η) (h : r'.rowHash = r.rowHash) : Edit γ η where
  apply e := if e = r then some r' else some e
  keeps e e' he := by
    split at he <;> cases he
    · next heq => rw [h, heq]
    · rfl

def remove (r : AuditEvent γ η) : Edit γ η where
  apply e := if e = r then none else some e
  keeps e e' he := by
    split at he <;> cases he
    rfl

/-- Two rows exchange their links. -/
def exchangeLinks (r q : AuditEvent γ η) : Edit γ η where
  apply e :=
    if e = r then some { r with prevHash := q.prevHash }
    else if e = q then some { q with prevHash := r.prevHash }
    else some e
  keeps e e' he := by
    split at he
    · next heq =>
      cases he
      rw [heq]
    · split at he <;> cases he
      · next heq => rw [heq]
      · rfl

/-- **Tampering is detected**: in every state that commits and purges lead to, altering a hashed
column or the link of a row that `verify_chain` reaches, deleting it, or exchanging the links of two
of them makes `verify_chain` report a break. -/
theorem verifyChain_detects_tampering (hdigest : Function.Injective2 digest)
    (legacy : List (AuditEvent γ η)) (hlegacy : ∀ e ∈ legacy, e.rowHash = none)
    (ops : List (Op γ)) (db : AuditDb γ η)
    (hrun : run (step digest) (AuditDb.legacy legacy) ops = some db) :
    (∀ r r' h, db.Reaches digest r → r' ≠ r → ReportsBreak digest (db.edited (alter r r' h))) ∧
    (∀ r, db.Reaches digest r → ReportsBreak digest (db.edited (remove r))) ∧
    (∀ r q, db.Reaches digest r → db.Reaches digest q → r ≠ q →
      ReportsBreak digest (db.edited (exchangeLinks r q))) := by
  have hchained := run_chained hlegacy hrun
  refine ⟨fun r r' h hr hne => ?_, fun r hr => ?_, fun r q hr hq hne => ?_⟩
  · apply touched_reportsBreak hdigest hchained hr
    simpa [alter] using hne
  · apply touched_reportsBreak hdigest hchained hr
    simp [remove]
  · apply touched_reportsBreak hdigest hchained hr
    intro hsame
    have hprev : q.prevHash = r.prevHash := by
      have heq : ({ r with prevHash := q.prevHash } : AuditEvent γ η) = r := by
        simpa [exchangeLinks] using hsame
      have hfield := congrArg AuditEvent.prevHash heq
      exact hfield
    obtain ⟨fuel, hr⟩ := hr
    obtain ⟨fuel', hq⟩ := hq
    exact hne (hchained.prevHash_inj hdigest (visited_hashed hr) (visited_hashed hq) hprev.symm)

end Tampering

/-- A table with one row from before the chain and two commits behind it. -/
def unchained : AuditEvent ℕ (List ℕ) := ⟨3, 5, 0, none, none⟩

def chainedOps : List (Op ℕ) := [.commit 10 [⟨5, 0⟩] [], .commit 20 [⟨7, 0⟩, ⟨9, 0⟩] []]

def firstRow : AuditEvent ℕ (List ℕ) := ⟨5, 10, 0, none, some [5, 10, 0]⟩

def secondRow : AuditEvent ℕ (List ℕ) := ⟨7, 20, 0, some [5, 10, 0], some [7, 20, 0, 1, 5, 10, 0]⟩

def chainedTables : AuditDb ℕ (List ℕ) where
  events := [unchained, firstRow, secondRow,
    ⟨9, 20, 0, some [7, 20, 0, 1, 5, 10, 0], some [9, 20, 0, 1, 7, 20, 0, 1, 5, 10, 0]⟩]
  checkpoints := []
  headHash := some [9, 20, 0, 1, 7, 20, 0, 1, 5, 10, 0]
  headEventId := some 9

theorem verifyChain_detects_tampering_chained :
    ReportsBreak plainDigest
        (chainedTables.edited (alter firstRow { firstRow with body := 1 } rfl)) ∧
      ReportsBreak plainDigest (chainedTables.edited (remove firstRow)) ∧
      ReportsBreak plainDigest (chainedTables.edited (exchangeLinks firstRow secondRow)) := by
  have hdetects := verifyChain_detects_tampering plainDigest_injective [unchained] (by decide)
    chainedOps chainedTables (by decide)
  have hfirst : chainedTables.Reaches plainDigest firstRow := ⟨3, by decide⟩
  have hsecond : chainedTables.Reaches plainDigest secondRow := ⟨3, by decide⟩
  exact ⟨hdetects.1 firstRow { firstRow with body := 1 } rfl hfirst (by decide),
    hdetects.2.1 _ hfirst, hdetects.2.2 _ _ hfirst hsecond (by decide)⟩

end DataQ.Audit
