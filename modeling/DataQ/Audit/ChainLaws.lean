import DataQ.Audit.Chain

/-! # Laws of the audit chain

What one commit appends, what a walk along links visits, and what the purge loop leaves. Row hashes
are taken not to collide: `digest` is injective in the previous hash and in the hashed columns. -/

namespace DataQ.Audit
open DataQ.HashChain
set_option autoImplicit false

variable {γ η : Type} {digest : Option η → ℕ × ℕ × γ → η}

/-! ## Commits -/

/-- The stored hash is the one computed from what is stored. -/
def AuditEvent.Sealed (digest : Option η → ℕ × ℕ × γ → η) (e : AuditEvent γ η) : Prop :=
  e.rowHash = some (computeRowHash digest e e.prevHash)

theorem AuditEvent.Sealed.hashed {e : AuditEvent γ η} (h : e.Sealed digest) : e.hashed = true := by
  rw [AuditEvent.hashed, h]
  rfl

theorem AuditEvent.Sealed.eq_of_rowHash (hdigest : Function.Injective2 digest)
    {e f : AuditEvent γ η} (he : e.Sealed digest) (hf : f.Sealed digest)
    (h : e.rowHash = f.rowHash) : e = f := by
  have hhash := h
  rw [he, hf] at hhash
  obtain ⟨hprev, hcanonical⟩ := hdigest (Option.some.inj hhash)
  cases e
  cases f
  simp only [AuditEvent.canonical, Prod.mk.injEq] at hcanonical hprev h
  simp [hprev, hcanonical, h]

theorem chainOnto_linked (digest : Option η → ℕ × ℕ × γ → η) (head : Option η)
    (es : List (AuditEvent γ η)) :
    Linked AuditEvent.prevHash AuditEvent.rowHash head (chainOnto digest head es) := by
  induction es generalizing head with
  | nil => trivial
  | cons e es ih => exact ⟨rfl, ih _⟩

theorem chainOnto_sealed {head : Option η} {es : List (AuditEvent γ η)} {r : AuditEvent γ η}
    (hr : r ∈ chainOnto digest head es) : r.Sealed digest := by
  induction es generalizing head with
  | nil => cases hr
  | cons e es ih =>
    rcases List.mem_cons.mp hr with rfl | hr
    · rfl
    · exact ih hr

theorem chainOnto_map_id (head : Option η) (es : List (AuditEvent γ η)) :
    (chainOnto digest head es).map (·.id) = es.map (·.id) := by
  induction es generalizing head with
  | nil => rfl
  | cons e es ih => rw [chainOnto, List.map_cons, List.map_cons, ih]

theorem chainOnto_map_occurredAt (head : Option η) (es : List (AuditEvent γ η)) :
    (chainOnto digest head es).map (·.occurredAt) = es.map (·.occurredAt) := by
  induction es generalizing head with
  | nil => rfl
  | cons e es ih => rw [chainOnto, List.map_cons, List.map_cons, ih]

/-- The rows of one commit share its timestamp, so sorting them by it moves none of them. -/
theorem flushPending_sorted (now : ℕ) (pending : List (Draft γ)) :
    (flushPending now pending : List (AuditEvent γ η)).insertionSort
      (fun a b => a.occurredAt ≤ b.occurredAt) = flushPending now pending := by
  apply List.Pairwise.insertionSort_eq
  rw [flushPending, List.pairwise_map]
  exact List.pairwise_of_forall fun _ _ => le_refl now

/-- The rows a commit appends. -/
def commitRows (digest : Option η → ℕ × ℕ × γ → η) (db : AuditDb γ η) (now : ℕ)
    (new recorded : List (Draft γ)) : List (AuditEvent γ η) :=
  chainOnto digest db.headHash (flushPending now (pendingEvents new recorded))

theorem commitEvents_eq (db : AuditDb γ η) (now : ℕ) (new recorded : List (Draft γ)) :
    commitEvents digest db now new recorded =
      { db with
        events := db.events ++ commitRows digest db now new recorded
        headHash := tip AuditEvent.rowHash db.headHash (commitRows digest db now new recorded)
        headEventId := tip (fun e => some e.id) db.headEventId
          (commitRows digest db now new recorded) } := by
  rw [commitEvents, flushPending_sorted]
  rfl

theorem pendingEvents_spec (new recorded : List (Draft γ)) :
    ((pendingEvents new recorded).map (·.id)).Nodup ∧
      ∀ d ∈ pendingEvents new recorded, d ∈ new ++ recorded := by
  have hfold : ∀ (ds pending : List (Draft γ)), (pending.map (·.id)).Nodup →
      ((ds.foldl (fun p d => if p.any (·.id = d.id) then p else p ++ [d]) pending).map
        (·.id)).Nodup ∧
      ∀ d ∈ ds.foldl (fun p d => if p.any (·.id = d.id) then p else p ++ [d]) pending,
        d ∈ pending ∨ d ∈ ds := by
    intro ds
    induction ds with
    | nil => exact fun pending h => ⟨h, fun d hd => .inl hd⟩
    | cons d ds ih =>
      intro pending hnodup
      rw [List.foldl_cons]
      by_cases hseen : pending.any (·.id = d.id) = true
      · rw [if_pos hseen]
        obtain ⟨h1, h2⟩ := ih pending hnodup
        refine ⟨h1, fun x hx => ?_⟩
        rcases h2 x hx with h | h
        · exact .inl h
        · exact .inr (List.mem_cons_of_mem _ h)
      · rw [if_neg hseen]
        have hnodup' : ((pending ++ [d]).map (·.id)).Nodup := by
          rw [List.map_append, List.nodup_append]
          refine ⟨hnodup, by simp, fun i hi j hj hij => ?_⟩
          obtain ⟨x, hx, rfl⟩ := List.mem_map.mp hi
          have hd : j = d.id := by simpa using hj
          exact hseen (List.any_eq_true.mpr ⟨x, hx, by simp [hij, hd]⟩)
        obtain ⟨h1, h2⟩ := ih _ hnodup'
        refine ⟨h1, fun x hx => ?_⟩
        rcases h2 x hx with h | h
        · rcases List.mem_append.mp h with h | h
          · exact .inl h
          · rw [List.mem_singleton.mp h]
            exact .inr List.mem_cons_self
        · exact .inr (List.mem_cons_of_mem _ h)
  obtain ⟨h1, h2⟩ := hfold (new ++ recorded) [] (by simp)
  exact ⟨h1, fun d hd => (h2 d hd).resolve_left (by simp)⟩

theorem commitRows_sealed {db : AuditDb γ η} {now : ℕ} {new recorded : List (Draft γ)}
    {r : AuditEvent γ η} (hr : r ∈ commitRows digest db now new recorded) : r.Sealed digest :=
  chainOnto_sealed hr

theorem commitRows_map_id (db : AuditDb γ η) (now : ℕ) (new recorded : List (Draft γ)) :
    (commitRows digest db now new recorded).map (·.id) = (pendingEvents new recorded).map (·.id) := by
  rw [commitRows, chainOnto_map_id, flushPending, List.map_map]
  rfl

theorem commitRows_occurredAt {db : AuditDb γ η} {now : ℕ} {new recorded : List (Draft γ)}
    {r : AuditEvent γ η} (hr : r ∈ commitRows digest db now new recorded) : r.occurredAt = now := by
  have hmem : r.occurredAt ∈ (commitRows digest db now new recorded).map (·.occurredAt) :=
    List.mem_map_of_mem hr
  rw [commitRows, chainOnto_map_occurredAt, flushPending, List.map_map] at hmem
  obtain ⟨d, -, hd⟩ := List.mem_map.mp hmem
  exact hd.symm

theorem commitRows_id_mem {db : AuditDb γ η} {now : ℕ} {new recorded : List (Draft γ)}
    {r : AuditEvent γ η} (hr : r ∈ commitRows digest db now new recorded) :
    ∃ d ∈ new ++ recorded, d.id = r.id := by
  have hmem : r.id ∈ (commitRows digest db now new recorded).map (·.id) := List.mem_map_of_mem hr
  rw [commitRows_map_id] at hmem
  obtain ⟨d, hd, hid⟩ := List.mem_map.mp hmem
  exact ⟨d, (pendingEvents_spec new recorded).2 d hd, hid⟩

theorem commit_hashed (db : AuditDb γ η) (now : ℕ) (new recorded : List (Draft γ)) :
    (commitEvents digest db now new recorded).hashed =
      db.hashed ++ commitRows digest db now new recorded := by
  rw [commitEvents_eq, AuditDb.hashed, List.filter_append]
  congr 1
  rw [List.filter_eq_self]
  exact fun r hr => (commitRows_sealed hr).hashed

theorem prevHash_ne_none_of_linked {base : Option η} {rows : List (AuditEvent γ η)}
    (h : Linked AuditEvent.prevHash AuditEvent.rowHash base rows)
    (hsealed : ∀ e ∈ rows, e.Sealed digest) {r : AuditEvent γ η} (hr : r ∈ rows.tail) :
    r.prevHash ≠ none := by
  obtain ⟨q, hq, hprev⟩ := h.prev_of_mem_tail hr
  rw [hprev, hsealed q hq]
  simp

/-! ## Walks -/

section Walks
variable [DecidableEq η]

theorem stopsAt_congr {db db' : AuditDb γ η} (h : db'.checkpoints = db.checkpoints)
    (e : AuditEvent γ η) : db'.stopsAt e = db.stopsAt e := by
  rw [AuditDb.stopsAt, AuditDb.stopsAt, AuditDb.boundary, AuditDb.boundary, h]

/-- A walk goes on past a row that names a predecessor and that no checkpoint names. -/
theorem not_stopsAt {db : AuditDb γ η} {r : AuditEvent γ η} (hprev : r.prevHash ≠ none)
    (hfresh : ∀ cp ∈ db.checkpoints, cp.firstSurvivingEventId ≠ some r.id) :
    db.stopsAt r = false := by
  have hboundary : db.boundary r.id = none := by
    rw [AuditDb.boundary, Option.bind_eq_none_iff]
    intro cp hcp
    have hnamed := List.find?_some hcp
    have hne := hfresh cp (List.mem_reverse.mp (List.mem_of_find?_eq_some hcp))
    simp [hne] at hnamed
  rw [AuditDb.stopsAt, hboundary]
  simp [hprev, hprev.symm]

theorem byHash_sealed (hdigest : Function.Injective2 digest) {db : AuditDb γ η}
    (hsealed : ∀ e ∈ db.hashed, e.Sealed digest) {r : AuditEvent γ η} (hr : r ∈ db.hashed) :
    db.byHash (computeRowHash digest r r.prevHash) = some r := by
  have hhash := hsealed r hr
  have hsome : (db.byHash (computeRowHash digest r r.prevHash)).isSome := by
    rw [AuditDb.byHash, List.find?_isSome]
    exact ⟨r, List.mem_reverse.mpr hr, decide_eq_true hhash⟩
  obtain ⟨e, he⟩ := Option.isSome_iff_exists.mp hsome
  have hmem : e ∈ db.hashed := List.mem_reverse.mp (List.mem_of_find?_eq_some he)
  have hrow : e.rowHash = some (computeRowHash digest r r.prevHash) := by
    simpa using List.find?_some he
  rw [he, (hsealed e hmem).eq_of_rowHash hdigest hhash (hrow.trans hhash.symm)]

/-- Prepends the rows visited before a walk. -/
def Walk.after (w : Walk γ η) (es : List (AuditEvent γ η)) : Walk γ η :=
  { w with visited := es ++ w.visited }

variable {db : AuditDb γ η} (hdigest : Function.Injective2 digest)
  (hsealed : ∀ e ∈ db.hashed, e.Sealed digest)
include hdigest hsealed

theorem walk_row {r : AuditEvent γ η} (hr : r ∈ db.hashed) (fuel : ℕ) (blameId : Option ℕ) :
    db.walk digest (fuel + 1) r.rowHash blameId =
      if db.stopsAt r then ⟨[r], none, true⟩
      else (db.walk digest fuel r.prevHash (some r.id)).visit r := by
  have hhash := hsealed r hr
  rw [hhash, AuditDb.walk, byHash_sealed hdigest hsealed hr]
  simp [hhash.symm]

/-- A walk that starts at the end of a linked stretch visits the stretch and goes on before it. -/
theorem walk_linked {base : Option η} {rows : List (AuditEvent γ η)}
    (hlinked : Linked AuditEvent.prevHash AuditEvent.rowHash base rows)
    (hlive : ∀ r ∈ rows, r ∈ db.hashed) (hgoes : ∀ r ∈ rows, db.stopsAt r = false) (n : ℕ)
    (blameId : Option ℕ) :
    ∃ blameId', db.walk digest (rows.length + n) (tip AuditEvent.rowHash base rows) blameId =
      (db.walk digest n base blameId').after rows.reverse := by
  induction rows using List.reverseRecOn generalizing blameId with
  | nil => exact ⟨blameId, by simp [Walk.after]⟩
  | append_singleton rows r ih =>
    obtain ⟨hinit, hlast⟩ := linked_append.mp hlinked
    have hmem : r ∈ rows ++ [r] := by simp
    have hfuel : (rows ++ [r]).length + n = rows.length + n + 1 := by
      simp only [List.length_append, List.length_singleton]
      omega
    obtain ⟨blameId', hwalk⟩ := ih hinit (fun x hx => hlive x (List.mem_append_left _ hx))
      (fun x hx => hgoes x (List.mem_append_left _ hx)) (some r.id)
    refine ⟨blameId', ?_⟩
    rw [tip_concat, hfuel, walk_row hdigest hsealed (hlive r hmem), hgoes r hmem, hlast.1, hwalk]
    simp [Walk.after, Walk.visit]

theorem walk_visits {base : Option η} {rows : List (AuditEvent γ η)}
    (hlinked : Linked AuditEvent.prevHash AuditEvent.rowHash base rows)
    (hlive : ∀ r ∈ rows, r ∈ db.hashed) (hgoes : ∀ r ∈ rows.tail, db.stopsAt r = false)
    {fuel : ℕ} (hfuel : rows.length ≤ fuel) (blameId : Option ℕ) :
    ∀ r ∈ rows, r ∈ (db.walk digest fuel (tip AuditEvent.rowHash base rows) blameId).visited := by
  cases rows with
  | nil => intro r hr; cases hr
  | cons first rest =>
    obtain ⟨-, hrest⟩ := hlinked
    have hlen : fuel = rest.length + (fuel - rest.length - 1 + 1) := by
      rw [List.length_cons] at hfuel
      omega
    obtain ⟨blameId', hwalk⟩ := walk_linked hdigest hsealed hrest
      (fun x hx => hlive x (List.mem_cons_of_mem _ hx)) hgoes (fuel - rest.length - 1 + 1) blameId
    rw [tip_cons, hlen, hwalk, walk_row hdigest hsealed (hlive first List.mem_cons_self)]
    intro r hr
    rcases List.mem_cons.mp hr with rfl | hr
    · split <;> simp [Walk.after, Walk.visit]
    · simp [Walk.after, hr]

/-- Where the walk may stop at the oldest row, it visits exactly the linked rows. -/
theorem walk_complete {first : AuditEvent γ η} {rest : List (AuditEvent γ η)}
    (hrest : Linked AuditEvent.prevHash AuditEvent.rowHash first.rowHash rest)
    (hlive : ∀ r ∈ first :: rest, r ∈ db.hashed) (hgoes : ∀ r ∈ rest, db.stopsAt r = false)
    (hstops : db.stopsAt first = true) {fuel : ℕ} (hfuel : rest.length < fuel)
    (blameId : Option ℕ) :
    db.walk digest fuel (tip AuditEvent.rowHash first.rowHash rest) blameId =
      ⟨(first :: rest).reverse, none, true⟩ := by
  have hlen : fuel = rest.length + (fuel - rest.length - 1 + 1) := by omega
  obtain ⟨blameId', hwalk⟩ := walk_linked hdigest hsealed hrest
    (fun x hx => hlive x (List.mem_cons_of_mem _ hx)) hgoes (fuel - rest.length - 1 + 1) blameId
  rw [hlen, hwalk, walk_row hdigest hsealed (hlive first List.mem_cons_self), if_pos hstops]
  simp [Walk.after]

end Walks

/-! ## The purge loop -/

theorem deleteChunk_survivors (db : AuditDb γ η) (cutoff : ℕ) :
    (db.deleteChunk cutoff).events.filter (!·.expired cutoff) =
      db.events.filter (!·.expired cutoff) := by
  rw [AuditDb.deleteChunk, List.filter_filter]
  apply List.filter_congr
  intro e _
  cases e.expired cutoff <;> simp

theorem deleteChunk_progress {db : AuditDb γ η} {cutoff : ℕ} {e : AuditEvent γ η}
    (he : e ∈ db.events) (hexp : e.expired cutoff = true) :
    (db.deleteChunk cutoff).events.countP (·.expired cutoff) <
      db.events.countP (·.expired cutoff) := by
  have hne : (db.events.filter (·.expired cutoff)).insertionSort
      (fun a b => a.occurredAt ≤ b.occurredAt) ≠ [] := by
    intro hnil
    have hmem : e ∈ db.events.filter (·.expired cutoff) := List.mem_filter.mpr ⟨he, hexp⟩
    rw [← List.mem_insertionSort (fun a b => a.occurredAt ≤ b.occurredAt), hnil] at hmem
    cases hmem
  obtain ⟨x, xs, hsorted⟩ := List.exists_cons_of_ne_nil hne
  have hx : x ∈ db.events.filter (·.expired cutoff) := by
    rw [← List.mem_insertionSort (fun a b => a.occurredAt ≤ b.occurredAt), hsorted]
    exact List.mem_cons_self
  obtain ⟨hxmem, hxexp⟩ := List.mem_filter.mp hx
  have hchunk : x.id ∈ db.chunk cutoff := by
    rw [AuditDb.chunk, hsorted, chunkSize, List.take_succ_cons, List.map_cons]
    exact List.mem_cons_self
  rw [AuditDb.deleteChunk, List.countP_eq_length_filter, List.countP_eq_length_filter,
    List.filter_filter]
  have hsub : (db.events.filter fun a =>
      a.expired cutoff && !(a.expired cutoff && (db.chunk cutoff).contains a.id)) =
      (db.events.filter (·.expired cutoff)).filter fun a => !(db.chunk cutoff).contains a.id := by
    rw [List.filter_filter]
    apply List.filter_congr
    intro a _
    cases a.expired cutoff <;> simp
  rw [hsub]
  refine List.length_filter_lt_length_iff_exists.mpr ⟨x, hx, ?_⟩
  simpa using hchunk

theorem deleteChunk_length_eq {db : AuditDb γ η} {cutoff : ℕ}
    (h : (db.deleteChunk cutoff).events.length = db.events.length) :
    ∀ e ∈ db.events, e.expired cutoff = false := by
  intro e he
  by_contra hexp
  have hlt := deleteChunk_progress he (by simpa using hexp)
  rw [AuditDb.deleteChunk, List.length_filter_eq_length_iff] at h
  have hsame : (db.deleteChunk cutoff).events = db.events := by
    rw [AuditDb.deleteChunk, List.filter_eq_self]
    exact h
  rw [hsame] at hlt
  exact absurd hlt (lt_irrefl _)

/-- The purge loop ends, with every expired row deleted and no other. -/
theorem deleteExpired_eq {db : AuditDb γ η} {cutoff fuel : ℕ}
    (h : db.events.countP (·.expired cutoff) < fuel) :
    db.deleteExpired cutoff fuel =
      some { db with events := db.events.filter (!·.expired cutoff) } := by
  induction fuel generalizing db with
  | zero => cases h
  | succ fuel ih =>
    rw [AuditDb.deleteExpired]
    split
    · rename_i hlen
      have hnone := deleteChunk_length_eq hlen
      have hafter : (db.deleteChunk cutoff).events = db.events := by
        rw [AuditDb.deleteChunk, List.filter_eq_self]
        intro e he
        simp [hnone e he]
      have hkeep : db.events.filter (!·.expired cutoff) = db.events := by
        rw [List.filter_eq_self]
        intro e he
        simp [hnone e he]
      rw [hkeep, ← hafter]
      rfl
    · rename_i hlen
      have hsome : ∃ e ∈ db.events, e.expired cutoff = true := by
        by_contra hnone
        apply hlen
        rw [AuditDb.deleteChunk, List.length_filter_eq_length_iff]
        intro e he
        have hexp : e.expired cutoff = false := by
          by_contra hc
          exact hnone ⟨e, he, by simpa using hc⟩
        simp [hexp]
      obtain ⟨e, he, hexp⟩ := hsome
      have hlt := deleteChunk_progress he hexp
      rw [ih (by omega), deleteChunk_survivors]
      rfl

end DataQ.Audit
