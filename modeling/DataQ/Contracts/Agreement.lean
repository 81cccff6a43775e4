import DataQ.Contracts.Reconcile
import DataQ.Foundations.Reconciliation

/-! # What a reconciliation leaves

The loops of `_reconcile` are the policy's pass over the clauses where no clause is named twice, and
an unedited check of a clause agrees with the clause's draft after them. -/

namespace DataQ.Contracts
open Runs (CheckKind)
open Reconciliation
set_option autoImplicit false

variable {Digest : Type} [DecidableEq Digest] (sha256 : Canonical → Digest) (odcsId : Text)

/-- What becomes of the check of one clause. -/
def clausePolicy : Policy (Check Digest) CheckDraft where
  Creates d c := ∃ n, c = seedDeclaredBaseline (newCheck sha256 odcsId d n) d
  revise c d := (revise sha256 odcsId c d).1
  retire c := if c.enabled then retire c else c

/-- The draft of a clause. -/
def wanted (drafts : List CheckDraft) (k : ClauseRef) : Option CheckDraft :=
  drafts.find? (·.ref = k)

/-- What the loop over the drafts makes of a check. -/
def revised (drafts : List CheckDraft) (c : Check Digest) : Check Digest :=
  match c.clause?.bind (wanted drafts) with
  | none => c
  | some d => (revise sha256 odcsId c d).1

omit [DecidableEq Digest] in
theorem lookup_byClause {checks : List (Check Digest)} (h : KeysUnique Check.clause? checks)
    {k : ClauseRef} {i : ℕ} :
    (byClause checks).lookup k = some i ↔ ∃ c, checks[i]? = some c ∧ c.clause? = some k := by
  rw [byClause, lookup_places]
  constructor
  · rintro ⟨hi, -⟩
    rw [List.getElem?_map, Option.map_eq_some_iff] at hi
    exact hi
  · rintro ⟨c, hi, hk⟩
    refine ⟨by rw [List.getElem?_map, hi, Option.map_some, hk], fun j hj hjk => ?_⟩
    rw [List.getElem?_map, Option.map_eq_some_iff] at hjk
    obtain ⟨e, hje, hke⟩ := hjk
    -- two places of one clause would make the clauses repeat
    have hdrop : KeysUnique Check.clause? (checks.drop i) := by
      rw [← List.take_append_drop i checks] at h
      exact (keysUnique_append.mp h).2.1
    obtain ⟨hlt, hget⟩ := List.getElem?_eq_some_iff.mp hi
    rw [List.drop_eq_getElem_cons hlt, hget] at hdrop
    refine hdrop.head_notMem hk e ?_ hke
    apply List.mem_of_getElem? (i := j - (i + 1))
    rw [List.getElem?_drop]
    have hindex : i + 1 + (j - (i + 1)) = j := by omega
    rw [hindex, hje]

omit [DecidableEq Digest] in
theorem lookup_byClause_eq_none {checks : List (Check Digest)} (h : KeysUnique Check.clause? checks)
    {k : ClauseRef} : (byClause checks).lookup k = none ↔ ∀ c ∈ checks, c.clause? ≠ some k := by
  constructor
  · intro hnone c hc hk
    obtain ⟨i, hi⟩ := List.mem_iff_getElem?.mp hc
    have hsome := (lookup_byClause h).mpr ⟨c, hi, hk⟩
    rw [hnone] at hsome
    cases hsome
  · intro hno
    cases hlookup : (byClause checks).lookup k with
    | none => rfl
    | some i =>
      obtain ⟨c, hi, hk⟩ := (lookup_byClause h).mp hlookup
      exact absurd hk (hno c (List.mem_of_getElem? hi))

omit [DecidableEq Digest] in
theorem byClause_map {checks : List (Check Digest)} {f : Check Digest → Check Digest}
    (hf : ∀ c ∈ checks, (f c).clause? = c.clause?) : byClause (checks.map f) = byClause checks := by
  have hsame : (checks.map f).map Check.clause? = checks.map Check.clause? := by
    rw [List.map_map]
    exact List.map_congr_left hf
  rw [byClause, byClause, hsame]

theorem wanted_cons (d : CheckDraft) (drafts : List CheckDraft) (k : ClauseRef) :
    wanted (d :: drafts) k = if d.ref = k then some d else wanted drafts k := by
  rw [wanted, List.find?_cons]
  by_cases h : d.ref = k <;> simp [h, wanted]

theorem wanted_eq_none {drafts : List CheckDraft} {k : ClauseRef} :
    wanted drafts k = none ↔ k ∉ drafts.map CheckDraft.ref := by
  rw [wanted, List.find?_eq_none, List.mem_map]
  simp

theorem wanted_eq_some {drafts : List CheckDraft} (h : (drafts.map CheckDraft.ref).Nodup)
    {k : ClauseRef} {d : CheckDraft} : wanted drafts k = some d ↔ d ∈ drafts ∧ d.ref = k := by
  have hunique : KeysUnique (fun d : CheckDraft => some d.ref) drafts := by
    rw [KeysUnique, List.filterMap_eq_map']
    exact h
  have hkeyed := keyed_eq_some hunique (k := k) (c := d)
  simpa [keyed, wanted] using hkeyed

theorem revised_eq_self {drafts : List CheckDraft} {c : Check Digest}
    (h : ∀ d ∈ drafts, c.clause? ≠ some d.ref) : revised sha256 odcsId drafts c = c := by
  unfold revised
  cases hk : c.clause? with
  | none => rfl
  | some k =>
    have hnone : wanted drafts k = none := by
      rw [wanted_eq_none, List.mem_map]
      rintro ⟨d, hd, rfl⟩
      exact h d hd hk
    rw [Option.bind_some, hnone]

theorem revised_cons_self {d : CheckDraft} {drafts : List CheckDraft} {c : Check Digest}
    (h : c.clause? = some d.ref) :
    revised sha256 odcsId (d :: drafts) c = (revise sha256 odcsId c d).1 := by
  unfold revised
  rw [h, Option.bind_some, wanted_cons, if_pos rfl]

theorem revised_cons_ne {d : CheckDraft} {drafts : List CheckDraft} {c : Check Digest}
    (h : c.clause? ≠ some d.ref) :
    revised sha256 odcsId (d :: drafts) c = revised sha256 odcsId drafts c := by
  unfold revised
  cases hk : c.clause? with
  | none => rfl
  | some k =>
    have hne : d.ref ≠ k := fun he => h (by rw [hk, he])
    rw [Option.bind_some, Option.bind_some, wanted_cons, if_neg hne]

theorem clause?_revised (drafts : List CheckDraft) (c : Check Digest) :
    (revised sha256 odcsId drafts c).clause? = c.clause? := by
  unfold revised
  split
  · rfl
  · next d hd =>
    obtain ⟨k, hk, hwant⟩ := Option.bind_eq_some_iff.mp hd
    have href : d.ref = k := by simpa using List.find?_some hwant
    exact clause?_revise sha256 odcsId (hk.trans (by rw [href]))

/-! ## The loop over the drafts -/

/-- The drafts whose clause has no check. -/
def unheld (checks : List (Check Digest)) (drafts : List CheckDraft) : List CheckDraft :=
  drafts.filter fun d => ((byClause checks).lookup d.ref).isNone

theorem visit_new {p : Progress Digest} {clauses : List (ClauseRef × ℕ)} {d : CheckDraft}
    (h : clauses.lookup d.ref = none) :
    visit sha256 odcsId clauses p d =
      { p with
        seen := d.ref :: p.seen
        created := p.created ++ [(newCheck sha256 odcsId d p.nextOrdinal, d)]
        nextOrdinal := p.nextOrdinal + 1
        added := p.added + 1 } := by
  simp only [visit, h, Option.bind_none]

theorem visit_held {p : Progress Digest} {clauses : List (ClauseRef × ℕ)} {d : CheckDraft} {i : ℕ}
    {c : Check Digest} (h : clauses.lookup d.ref = some i) (hi : p.checks[i]? = some c) :
    visit sha256 odcsId clauses p d =
      { p with
        seen := d.ref :: p.seen
        checks := p.checks.set i (revise sha256 odcsId c d).1
        updated := if (revise sha256 odcsId c d).2 then p.updated + 1 else p.updated } := by
  simp only [visit, h, Option.bind_some, hi, Option.map_some]

theorem clause?_written (d : CheckDraft) (c : Check Digest) :
    (if c.clause? = some d.ref then (revise sha256 odcsId c d).1 else c).clause? = c.clause? := by
  by_cases hc : c.clause? = some d.ref
  · rw [if_pos hc]
    exact clause?_revise sha256 odcsId hc
  · rw [if_neg hc]

/-- The drafts that are left revise no check that the first one has been written to. -/
theorem revised_written {d : CheckDraft} {drafts : List CheckDraft}
    (hnot : d.ref ∉ drafts.map CheckDraft.ref) (c : Check Digest) :
    revised sha256 odcsId drafts
        (if c.clause? = some d.ref then (revise sha256 odcsId c d).1 else c) =
      revised sha256 odcsId (d :: drafts) c := by
  by_cases hc : c.clause? = some d.ref
  · rw [revised_cons_self sha256 odcsId hc, if_pos hc]
    refine revised_eq_self sha256 odcsId fun d' hd' hclause => ?_
    rw [clause?_revise sha256 odcsId hc, hc, Option.some.injEq] at hclause
    exact hnot (hclause ▸ List.mem_map_of_mem hd')
  · rw [revised_cons_ne sha256 odcsId hc, if_neg hc]

theorem foldl_visit {drafts : List CheckDraft} (hdrafts : (drafts.map CheckDraft.ref).Nodup)
    (p : Progress Digest) (hunique : KeysUnique Check.clause? p.checks) :
    let q := drafts.foldl (visit sha256 odcsId (byClause p.checks)) p
    q.checks = p.checks.map (revised sha256 odcsId drafts) ∧
      q.created = p.created ++ creations sha256 odcsId p.nextOrdinal (unheld p.checks drafts) ∧
      ∀ k, k ∈ q.seen ↔ k ∈ p.seen ∨ k ∈ drafts.map CheckDraft.ref := by
  induction drafts generalizing p with
  | nil =>
    refine ⟨?_, ?_, by simp⟩
    · rw [List.map_congr_left fun c _ => revised_eq_self sha256 odcsId (by simp), List.map_id']
      rfl
    · simp [creations, unheld]
  | cons d drafts ih =>
    obtain ⟨hnot, hrest⟩ := List.nodup_cons.mp hdrafts
    rw [List.foldl_cons]
    cases hlookup : (byClause p.checks).lookup d.ref with
    | none =>
      obtain ⟨hchecks, hcreated, hseen⟩ := ih hrest (visit sha256 odcsId (byClause p.checks) p d)
        (by rw [visit_new sha256 odcsId hlookup]; exact hunique)
      have hno := (lookup_byClause_eq_none hunique).mp hlookup
      have hp : (visit sha256 odcsId (byClause p.checks) p d).checks = p.checks := by
        rw [visit_new sha256 odcsId hlookup]
      rw [hp] at hchecks hcreated hseen
      refine ⟨?_, ?_, ?_⟩
      · rw [hchecks]
        exact List.map_congr_left fun c hc => (revised_cons_ne sha256 odcsId (hno c hc)).symm
      · rw [hcreated, visit_new sha256 odcsId hlookup, unheld, unheld, List.filter_cons_of_pos
          (by rw [hlookup]; rfl)]
        simp [creations]
      · intro k
        rw [hseen, visit_new sha256 odcsId hlookup]
        simp only [List.mem_cons, List.map_cons]
        tauto
    | some i =>
      obtain ⟨c, hi, hk⟩ := (lookup_byClause hunique).mp hlookup
      let write := fun e : Check Digest =>
        if e.clause? = some d.ref then (revise sha256 odcsId e d).1 else e
      have hwrite : ∀ e : Check Digest, (write e).clause? = e.clause? :=
        clause?_written sha256 odcsId d
      have hp : (visit sha256 odcsId (byClause p.checks) p d).checks = p.checks.map write := by
        rw [visit_held sha256 odcsId hlookup hi]
        exact set_eq_map hunique hi hk fun e => (revise sha256 odcsId e d).1
      have hsame : byClause (p.checks.map write) = byClause p.checks :=
        byClause_map fun e _ => hwrite e
      obtain ⟨hchecks, hcreated, hseen⟩ := ih hrest (visit sha256 odcsId (byClause p.checks) p d)
        (by rw [hp]; exact (keysUnique_map fun e _ => hwrite e).mpr hunique)
      rw [hp, hsame] at hchecks hcreated hseen
      refine ⟨?_, ?_, ?_⟩
      · rw [hchecks, List.map_map]
        exact List.map_congr_left fun e _ => revised_written sha256 odcsId hnot e
      · rw [hcreated, visit_held sha256 odcsId hlookup hi]
        simp only [unheld, hsame]
        rw [List.filter_cons_of_neg (by rw [hlookup]; simp)]
      · intro k
        rw [hseen, visit_held sha256 odcsId hlookup hi]
        simp only [List.mem_cons, List.map_cons]
        tauto

/-! ## The loop over the clauses -/

/-- What the loop over `by_clause` makes of a check. -/
def swept (seen : List ClauseRef) (c : Check Digest) : Check Digest :=
  match c.clause? with
  | none => c
  | some k => if k ∉ seen ∧ c.enabled = true then retire c else c

omit [DecidableEq Digest] in
@[simp] theorem clause?_swept (seen : List ClauseRef) (c : Check Digest) :
    (swept seen c).clause? = c.clause? := by
  unfold swept
  split
  · rfl
  · split
    · exact clause?_retire c
    · rfl

/-- What is done at a list of entries of the dict. -/
def sweptAt (entries : List (ClauseRef × ℕ)) (seen : List ClauseRef) (c : Check Digest) :
    Check Digest :=
  if c.clause?.any (· ∈ entries.map Prod.fst) then swept seen c else c

omit [DecidableEq Digest] in
theorem retireUnseen_fst {seen : List ClauseRef} {p : List (Check Digest) × ℕ} {k : ClauseRef}
    {i : ℕ} {c : Check Digest} (hunique : KeysUnique Check.clause? p.1) (hi : p.1[i]? = some c)
    (hk : c.clause? = some k) :
    (retireUnseen seen p (k, i)).1 =
      p.1.map fun e => if e.clause? = some k then swept seen e else e := by
  rw [← set_eq_map hunique hi hk (swept seen)]
  simp only [retireUnseen, hi, swept, hk]
  split
  · rfl
  · obtain ⟨hlt, hget⟩ := List.getElem?_eq_some_iff.mp hi
    rw [← hget, List.set_getElem_self]

omit [DecidableEq Digest] in
theorem foldl_retireUnseen {seen : List ClauseRef} {entries : List (ClauseRef × ℕ)}
    (hentries : (entries.map Prod.fst).Nodup) (p : List (Check Digest) × ℕ)
    (hunique : KeysUnique Check.clause? p.1)
    (hheld : ∀ e ∈ entries, ∃ c, p.1[e.2]? = some c ∧ c.clause? = some e.1) :
    (entries.foldl (retireUnseen seen) p).1 = p.1.map (sweptAt entries seen) := by
  induction entries generalizing p with
  | nil =>
    have hid : ∀ c ∈ p.1, sweptAt [] seen c = c := fun c _ => by
      unfold sweptAt
      cases c.clause? <;> simp
    rw [List.map_congr_left hid, List.map_id']
    rfl
  | cons entry entries ih =>
    obtain ⟨hnot, hrest⟩ := List.nodup_cons.mp hentries
    obtain ⟨c, hi, hk⟩ := hheld entry List.mem_cons_self
    have hp : (retireUnseen seen p entry).1 =
        p.1.map fun e => if e.clause? = some entry.1 then swept seen e else e :=
      retireUnseen_fst hunique hi hk
    have hclause : ∀ e : Check Digest,
        (if e.clause? = some entry.1 then swept seen e else e).clause? = e.clause? := by
      intro e
      split
      · exact clause?_swept seen e
      · rfl
    rw [List.foldl_cons, ih hrest, hp, List.map_map]
    · refine List.map_congr_left fun e _ => ?_
      rw [Function.comp_apply, sweptAt, sweptAt, hclause]
      by_cases he : e.clause? = some entry.1
      · have hno : ¬ (some entry.1).any (· ∈ entries.map Prod.fst) = true := by simpa using hnot
        rw [he, if_pos rfl, if_neg hno]
        simp
      · rw [if_neg he]
        cases hck : e.clause? with
        | none => simp
        | some k =>
          have hne : k ≠ entry.1 := fun heq => he (by rw [hck, heq])
          have hmem : k ∈ (entry :: entries).map Prod.fst ↔ k ∈ entries.map Prod.fst := by
            rw [List.map_cons, List.mem_cons, or_iff_right hne]
          simp only [Option.any_some, hmem]
    · rw [hp]
      exact (keysUnique_map fun e _ => hclause e).mpr hunique
    · intro e he
      obtain ⟨a, ha, hka⟩ := hheld e (List.mem_cons_of_mem _ he)
      rw [hp, List.getElem?_map, ha]
      exact ⟨_, rfl, (hclause a).trans hka⟩

omit [DecidableEq Digest] in
theorem foldl_retireUnseen_byClause {checks : List (Check Digest)}
    (hunique : KeysUnique Check.clause? checks) (seen : List ClauseRef) (n : ℕ) :
    ((byClause checks).foldl (retireUnseen seen) (checks, n)).1 = checks.map (swept seen) := by
  have hkeys : ((byClause checks).map Prod.fst).Nodup := nodup_places _
  have hheld : ∀ e ∈ byClause checks, ∃ c, checks[e.2]? = some c ∧ c.clause? = some e.1 :=
    fun e he => (lookup_byClause hunique).mp ((mem_iff_lookup hkeys).mp he)
  rw [foldl_retireUnseen hkeys (checks, n) hunique hheld]
  refine List.map_congr_left fun c hc => ?_
  unfold sweptAt
  cases hk : c.clause? with
  | none =>
    unfold swept
    rw [hk]
    rfl
  | some k =>
    obtain ⟨i, hi⟩ := List.mem_iff_getElem?.mp hc
    have hmem := (mem_iff_lookup hkeys).mpr ((lookup_byClause hunique).mpr ⟨c, hi, hk⟩)
    rw [if_pos]
    simpa using ⟨i, hmem⟩

/-! ## The whole pass -/

omit [DecidableEq Digest] in
theorem swept_congr {seen other : List ClauseRef} (h : ∀ k, k ∈ seen ↔ k ∈ other)
    (c : Check Digest) : swept seen c = swept other c := by
  unfold swept
  cases c.clause? with
  | none => rfl
  | some k => simp only [h k]

/-- What a reconciliation makes of a check that was there. -/
def reconciled (drafts : List CheckDraft) (c : Check Digest) : Check Digest :=
  swept (drafts.map CheckDraft.ref) (revised sha256 odcsId drafts c)

theorem clause?_reconciled (drafts : List CheckDraft) (c : Check Digest) :
    (reconciled sha256 odcsId drafts c).clause? = c.clause? := by
  rw [reconciled, clause?_swept, clause?_revised]

theorem reconcile_checks {checks : List (Check Digest)} {drafts : List CheckDraft}
    (hunique : KeysUnique Check.clause? checks) (hdrafts : (drafts.map CheckDraft.ref).Nodup) :
    (reconcile sha256 odcsId checks drafts).1 =
      checks.map (reconciled sha256 odcsId drafts) ++
        seeded sha256 odcsId (nextOrdinal checks) (unheld checks drafts) := by
  obtain ⟨hchecks, hcreated, hseen⟩ := foldl_visit sha256 odcsId hdrafts
    ⟨checks, [], nextOrdinal checks, [], 0, 0⟩ hunique
  simp only at hchecks hcreated hseen
  have hbyClause : byClause (checks.map (revised sha256 odcsId drafts)) = byClause checks :=
    byClause_map fun c _ => clause?_revised sha256 odcsId drafts c
  have hrevised : KeysUnique Check.clause? (checks.map (revised sha256 odcsId drafts)) :=
    (keysUnique_map fun c _ => clause?_revised sha256 odcsId drafts c).mpr hunique
  unfold reconcile
  simp only [hchecks, hcreated, List.nil_append]
  rw [← hbyClause, foldl_retireUnseen_byClause hrevised, List.map_map, hbyClause]
  congr 1
  refine List.map_congr_left fun c _ => swept_congr (fun k => ?_) _
  rw [hseen k]
  simp

theorem entry_seeded (n : ℕ) (drafts : List CheckDraft) (k : ClauseRef) :
    (clausePolicy sha256 odcsId).Entry none (wanted drafts k)
      (keyed Check.clause? (seeded sha256 odcsId n drafts) k) := by
  induction drafts generalizing n with
  | nil => exact .absent
  | cons d drafts ih =>
    have hcons : seeded sha256 odcsId n (d :: drafts) =
        seedDeclaredBaseline (newCheck sha256 odcsId d n) d ::
          seeded sha256 odcsId (n + 1) drafts := by
      simp [seeded, creations]
    rw [hcons, wanted_cons, keyed, List.find?_cons]
    by_cases h : d.ref = k
    · rw [if_pos h, clause?_seedDeclaredBaseline, clause?_newCheck, h]
      simp only [decide_true]
      exact .created ⟨n, rfl⟩
    · rw [if_neg h, clause?_seedDeclaredBaseline, clause?_newCheck]
      have hne : ¬ some d.ref = some k := by simpa using h
      simp only [hne, decide_false]
      exact ih (n + 1)

omit [DecidableEq Digest] in
theorem wanted_unheld {checks : List (Check Digest)} {drafts : List CheckDraft} {k : ClauseRef}
    (h : (byClause checks).lookup k = none) :
    wanted (unheld checks drafts) k = wanted drafts k := by
  rw [wanted, unheld, List.find?_filter, wanted]
  congr 1
  funext d
  by_cases hd : d.ref = k
  · simp [hd, h]
  · simp [hd]

/-- The loops of `_reconcile` do at each clause what the policy says. -/
theorem reconcile_reconciles {checks : List (Check Digest)} {drafts : List CheckDraft}
    (hunique : KeysUnique Check.clause? checks) (hdrafts : (drafts.map CheckDraft.ref).Nodup) :
    (clausePolicy sha256 odcsId).Reconciles (keyed Check.clause? checks) (wanted drafts)
      (keyed Check.clause? (reconcile sha256 odcsId checks drafts).1) := by
  rw [reconcile_checks sha256 odcsId hunique hdrafts]
  refine reconciles_of_lists (fun c _ => clause?_reconciled sha256 odcsId drafts c) ?_ ?_ ?_
  · intro c _ k d hk hwant
    have hmem : k ∈ drafts.map CheckDraft.ref := by
      by_contra hnot
      rw [wanted_eq_none.mpr hnot] at hwant
      cases hwant
    have hclause := clause?_revised sha256 odcsId drafts c
    have hrevised : revised sha256 odcsId drafts c = (revise sha256 odcsId c d).1 := by
      unfold revised
      rw [hk, Option.bind_some, hwant]
    rw [reconciled, swept, hclause, hk]
    simp only [hmem, not_true_eq_false, false_and, if_false]
    exact hrevised
  · intro c _ k hk hwant
    have hnot := wanted_eq_none.mp hwant
    have hrevised : revised sha256 odcsId drafts c = c := by
      unfold revised
      rw [hk, Option.bind_some, hwant]
    rw [reconciled, hrevised, swept, hk]
    simp only [hnot, not_false_eq_true, true_and]
    rfl
  · intro k hnone
    have hlookup : (byClause checks).lookup k = none :=
      (lookup_byClause_eq_none hunique).mpr (keyed_eq_none.mp hnone)
    rw [← wanted_unheld hlookup]
    exact entry_seeded sha256 odcsId _ _ k

omit [DecidableEq Digest] in
theorem filterMap_seeded (n : ℕ) (drafts : List CheckDraft) :
    (seeded sha256 odcsId n drafts).filterMap Check.clause? = drafts.map CheckDraft.ref := by
  induction drafts generalizing n with
  | nil => rfl
  | cons d drafts ih =>
    have hcons : seeded sha256 odcsId n (d :: drafts) =
        seedDeclaredBaseline (newCheck sha256 odcsId d n) d ::
          seeded sha256 odcsId (n + 1) drafts := by
      simp [seeded, creations]
    rw [hcons, List.filterMap_cons, clause?_seedDeclaredBaseline, clause?_newCheck, ih,
      List.map_cons]

theorem keysUnique_reconcile {checks : List (Check Digest)} {drafts : List CheckDraft}
    (hunique : KeysUnique Check.clause? checks) (hdrafts : (drafts.map CheckDraft.ref).Nodup) :
    KeysUnique Check.clause? (reconcile sha256 odcsId checks drafts).1 := by
  rw [reconcile_checks sha256 odcsId hunique hdrafts, keysUnique_append]
  refine ⟨(keysUnique_map fun c _ => clause?_reconciled sha256 odcsId drafts c).mpr hunique, ?_, ?_⟩
  · rw [KeysUnique, filterMap_seeded]
    exact hdrafts.sublist (List.filter_sublist.map _)
  · rintro k ⟨c, hc, hk⟩ e he hke
    obtain ⟨old, hold, rfl⟩ := List.mem_map.mp hc
    rw [clause?_reconciled] at hk
    have hmem : k ∈ (unheld checks drafts).map CheckDraft.ref := by
      rw [← filterMap_seeded sha256 odcsId (nextOrdinal checks)]
      exact List.mem_filterMap.mpr ⟨e, he, hke⟩
    obtain ⟨d, hd, rfl⟩ := List.mem_map.mp hmem
    have hlookup : (byClause checks).lookup d.ref = none := by
      simpa using (List.mem_filter.mp hd).2
    exact (lookup_byClause_eq_none hunique).mp hlookup old hold hk

omit [DecidableEq Digest] in
theorem mem_seeded {n : ℕ} {drafts : List CheckDraft} {c : Check Digest}
    (h : c ∈ seeded sha256 odcsId n drafts) : c.clause? ≠ none := by
  obtain ⟨created, hcreated, rfl⟩ := List.mem_map.mp h
  obtain ⟨entry, -, rfl⟩ := List.mem_map.mp hcreated
  rw [clause?_seedDeclaredBaseline, clause?_newCheck]
  exact Option.some_ne_none _

theorem clause?_reconcile {checks : List (Check Digest)} {drafts : List CheckDraft}
    (hunique : KeysUnique Check.clause? checks) (hdrafts : (drafts.map CheckDraft.ref).Nodup)
    (h : ∀ c ∈ checks, c.origin = .contract → c.clause? ≠ none) :
    ∀ c ∈ (reconcile sha256 odcsId checks drafts).1, c.origin = .contract → c.clause? ≠ none := by
  rw [reconcile_checks sha256 odcsId hunique hdrafts]
  intro c hc horigin
  rcases List.mem_append.mp hc with hold | hnew
  · obtain ⟨old, hmem, rfl⟩ := List.mem_map.mp hold
    rw [clause?_reconciled]
    intro hnone
    have hself : reconciled sha256 odcsId drafts old = old := by
      unfold reconciled revised swept
      simp only [hnone, Option.bind_none]
    rw [hself] at horigin
    exact h old hmem horigin hnone
  · exact mem_seeded sha256 odcsId hnew

theorem reconcile_nil {drafts : List CheckDraft} (hdrafts : (drafts.map CheckDraft.ref).Nodup) :
    (reconcile sha256 odcsId [] drafts).1 = seeded sha256 odcsId 1 drafts := by
  have hunheld : unheld ([] : List (Check Digest)) drafts = drafts :=
    List.filter_eq_self.mpr fun _ _ => rfl
  have hunique : KeysUnique Check.clause? ([] : List (Check Digest)) := List.nodup_nil
  rw [reconcile_checks sha256 odcsId hunique hdrafts, hunheld]
  rfl

/-! ## A check and its draft -/

/-- There is nothing to change in the check for its draft. -/
structure Settles (c : Check Digest) (d : CheckDraft) : Prop where
  unedited : c.unedited sha256 = true
  rule : c.toRule.canonical = d.toRule.canonical
  opened : c.reopened = false
  baseline : (refreshDeclaredBaseline c d).2 = false

theorem unedited_iff {c : Check Digest} :
    c.unedited sha256 = true ↔
      ∃ ref, c.contractRef = some ref ∧ ref.fingerprint = fingerprint sha256 c.toRule := by
  unfold Check.unedited
  cases c.contractRef <;> simp

omit [DecidableEq Digest] in
theorem refreshDeclaredBaseline_eq_self {c : Check Digest} {d : CheckDraft}
    (h : (refreshDeclaredBaseline c d).2 = false) : refreshDeclaredBaseline c d = (c, false) := by
  unfold refreshDeclaredBaseline at h ⊢
  split
  · next columns hkind hbaseline =>
    simp only [hkind, hbaseline] at h
    split
    · next hnone =>
      rw [hnone] at h
      cases h
    · next row hrow =>
      rw [hrow] at h
      by_cases hsame : (!row.declared || decide (row.columns = columns)) = true
      · rw [if_pos hsame]
      · simp only [if_neg hsame] at h
        cases h
  · rfl

theorem revise_of_settles {c : Check Digest} {d : CheckDraft} (h : Settles sha256 c d) :
    revise sha256 odcsId c d = (c, false) := by
  obtain ⟨ref, href, hfp⟩ := (unedited_iff sha256).mp h.unedited
  have hcurrent : ref.fingerprint = fingerprint sha256 d.toRule := by
    rw [hfp, fingerprint, fingerprint, h.rule]
  have hstale : (c.contractRef.any fun ref => ref.fingerprint ≠ fingerprint sha256 d.toRule) =
      false := by
    rw [href]
    simp [hcurrent]
  unfold revise
  simp only [h.unedited, hstale, h.opened, Bool.and_false, Bool.false_eq_true, if_false, if_true,
    refreshDeclaredBaseline_eq_self h.baseline, Bool.or_false]

omit [DecidableEq Digest] in
theorem refresh_twice (c : Check Digest) (d : CheckDraft) :
    (refreshDeclaredBaseline (refreshDeclaredBaseline c d).1 d).2 = false := by
  unfold refreshDeclaredBaseline
  split
  · next columns hkind hbaseline =>
    cases hrow : c.baseline with
    | none => simp [seedDeclaredBaseline, hkind, hbaseline, hrow]
    | some row =>
      by_cases hsame : (!row.declared || decide (row.columns = columns)) = true
      · simp [hsame, hrow]
      · simp [hsame]
  · rfl

omit [DecidableEq Digest] in
theorem refreshDeclaredBaseline_keeps (c : Check Digest) (d : CheckDraft) :
    (refreshDeclaredBaseline c d).1.toRule = c.toRule ∧
      (refreshDeclaredBaseline c d).1.contractRef = c.contractRef ∧
      (refreshDeclaredBaseline c d).1.enabled = c.enabled ∧
      (refreshDeclaredBaseline c d).1.kind = c.kind := by
  unfold refreshDeclaredBaseline seedDeclaredBaseline
  split
  · split
    · split <;> exact ⟨rfl, rfl, rfl, rfl⟩
    · split <;> exact ⟨rfl, rfl, rfl, rfl⟩
  · exact ⟨rfl, rfl, rfl, rfl⟩

/-- The check before its baseline is refreshed. -/
def opened (c : Check Digest) (d : CheckDraft) : Check Digest :=
  let applied := if c.contractRef.any fun ref => ref.fingerprint ≠ fingerprint sha256 d.toRule
    then apply sha256 odcsId c d false else c
  if c.reopened then applied.reopen else applied

theorem revise_eq_refresh {c : Check Digest} {d : CheckDraft} (h : c.unedited sha256 = true) :
    (revise sha256 odcsId c d).1 =
      (refreshDeclaredBaseline (opened sha256 odcsId c d) d).1 := by
  unfold revise opened
  simp only [h, Bool.true_and, if_true]

theorem opened_keeps (c : Check Digest) (d : CheckDraft) :
    (opened sha256 odcsId c d).kind = c.kind ∧
      (opened sha256 odcsId c d).enabled = (c.enabled || c.reopened) := by
  unfold opened
  cases hopen : c.reopened with
  | true =>
    refine ⟨?_, by simp [Check.reopen]⟩
    split <;> rfl
  | false =>
    refine ⟨?_, ?_⟩
    · split <;> rfl
    · rw [Bool.or_false]
      split <;> rfl

/-- With an injective hash an unedited check carries its draft's rule once it is opened. -/
theorem opened_rule (hsha : Function.Injective sha256) {c : Check Digest} {d : CheckDraft}
    (h : c.unedited sha256 = true) :
    ∃ ref, (opened sha256 odcsId c d).contractRef = some ref ∧
      ref.fingerprint = fingerprint sha256 (opened sha256 odcsId c d).toRule ∧
      (opened sha256 odcsId c d).toRule.canonical = d.toRule.canonical ∧
      (ref.disabledByContract = true → (opened sha256 odcsId c d).enabled = true) := by
  obtain ⟨ref, href, hfp⟩ := (unedited_iff sha256).mp h
  have hreopened : c.reopened = (ref.disabledByContract && !c.enabled) := by
    rw [Check.reopened, href, Option.any_some]
  unfold opened
  rw [href, Option.any_some]
  by_cases hstale : ref.fingerprint = fingerprint sha256 d.toRule
  · have hrule : c.toRule.canonical = d.toRule.canonical := by
      apply hsha
      exact hfp.symm.trans hstale
    simp only [hstale, ne_eq, not_true_eq_false, decide_false, Bool.false_eq_true, if_false]
    cases hopen : c.reopened with
    | true =>
      simp only [Check.reopen, href, if_true, Option.map_some]
      exact ⟨_, rfl, hfp, hrule, fun _ => trivial⟩
    | false =>
      simp only [Bool.false_eq_true, if_false]
      refine ⟨ref, href, hfp, hrule, fun hmark => ?_⟩
      rw [hreopened, hmark] at hopen
      simpa using hopen
  · simp only [ne_eq, hstale, not_false_eq_true, decide_true, if_true]
    cases hopen : c.reopened with
    | true => exact ⟨_, rfl, rfl, rfl, fun _ => rfl⟩
    | false => exact ⟨_, rfl, rfl, rfl, fun hmark => by cases hmark⟩

theorem settles_revise (hsha : Function.Injective sha256) {c : Check Digest} {d : CheckDraft}
    (h : c.unedited sha256 = true) : Settles sha256 (revise sha256 odcsId c d).1 d := by
  obtain ⟨ref, href, hfp, hrule, hmark⟩ := opened_rule sha256 odcsId hsha (d := d) h
  obtain ⟨hkeepRule, hkeepRef, hkeepEnabled, -⟩ :=
    refreshDeclaredBaseline_keeps (opened sha256 odcsId c d) d
  rw [revise_eq_refresh sha256 odcsId h]
  refine ⟨?_, by rw [hkeepRule, hrule], ?_, refresh_twice _ d⟩
  · rw [unedited_iff, hkeepRef, hkeepRule]
    exact ⟨ref, href, hfp⟩
  · rw [Check.reopened, hkeepRef, hkeepEnabled, href, Option.any_some]
    cases hdisabled : ref.disabledByContract with
    | false => rfl
    | true => rw [hmark hdisabled]; rfl

theorem revise_keeps {c : Check Digest} {d : CheckDraft} (h : c.unedited sha256 = true) :
    (revise sha256 odcsId c d).1.kind = c.kind ∧
      (revise sha256 odcsId c d).1.enabled = (c.enabled || c.reopened) ∧
      ((revise sha256 odcsId c d).1.toRule = c.toRule ∨
        (revise sha256 odcsId c d).1.toRule = d.toRule) := by
  obtain ⟨hkeepRule, -, hkeepEnabled, hkeepKind⟩ :=
    refreshDeclaredBaseline_keeps (opened sha256 odcsId c d) d
  obtain ⟨hkind, henabled⟩ := opened_keeps sha256 odcsId c d
  rw [revise_eq_refresh sha256 odcsId h]
  refine ⟨hkeepKind.trans hkind, hkeepEnabled.trans henabled, ?_⟩
  rw [hkeepRule]
  unfold opened
  split <;> split
  · exact .inr rfl
  · exact .inr rfl
  · exact .inl rfl
  · exact .inl rfl

theorem settles_seeded (d : CheckDraft) (n : ℕ) :
    Settles sha256 (seedDeclaredBaseline (newCheck sha256 odcsId d n) d) d := by
  have hkeeps : ∀ c : Check Digest, (seedDeclaredBaseline c d).toRule = c.toRule ∧
      (seedDeclaredBaseline c d).contractRef = c.contractRef ∧
      (seedDeclaredBaseline c d).enabled = c.enabled := by
    intro c
    unfold seedDeclaredBaseline
    split <;> exact ⟨rfl, rfl, rfl⟩
  obtain ⟨hrule, href, henabled⟩ := hkeeps (newCheck sha256 odcsId d n)
  refine ⟨?_, by rw [hrule]; rfl, ?_, ?_⟩
  · rw [unedited_iff, href, hrule]
    exact ⟨_, rfl, rfl⟩
  · rw [Check.reopened, href, henabled]
    rfl
  · unfold refreshDeclaredBaseline
    split
    · next columns hkind hbaseline =>
      have hrow : (seedDeclaredBaseline (newCheck sha256 odcsId d n) d).baseline =
          some ⟨columns, true⟩ := by
        unfold seedDeclaredBaseline
        rw [hkind, hbaseline]
        rfl
      rw [hrow]
      simp
    · rfl

/-! ## Where nothing is left to do -/

theorem foldl_visit_settled {clauses : List (ClauseRef × ℕ)} {drafts : List CheckDraft}
    {p : Progress Digest}
    (h : ∀ d ∈ drafts, ∃ i c, clauses.lookup d.ref = some i ∧ p.checks[i]? = some c ∧
      Settles sha256 c d) :
    (drafts.foldl (visit sha256 odcsId clauses) p).checks = p.checks ∧
      (drafts.foldl (visit sha256 odcsId clauses) p).added = p.added ∧
      (drafts.foldl (visit sha256 odcsId clauses) p).updated = p.updated := by
  induction drafts generalizing p with
  | nil => exact ⟨rfl, rfl, rfl⟩
  | cons d drafts ih =>
    obtain ⟨i, c, hlookup, hi, hsettles⟩ := h d List.mem_cons_self
    obtain ⟨hlt, hget⟩ := List.getElem?_eq_some_iff.mp hi
    have hvisit : visit sha256 odcsId clauses p d = { p with seen := d.ref :: p.seen } := by
      rw [visit_held sha256 odcsId hlookup hi, revise_of_settles sha256 odcsId hsettles]
      simp only [← hget, List.set_getElem_self, Bool.false_eq_true, if_false]
    rw [List.foldl_cons, hvisit]
    exact ih fun d' hd' => h d' (List.mem_cons_of_mem _ hd')

omit [DecidableEq Digest] in
theorem foldl_retireUnseen_settled {seen : List ClauseRef} {entries : List (ClauseRef × ℕ)}
    {p : List (Check Digest) × ℕ}
    (h : ∀ e ∈ entries, ∀ c, p.1[e.2]? = some c → e.1 ∈ seen ∨ c.enabled = false) :
    entries.foldl (retireUnseen seen) p = p := by
  induction entries with
  | nil => rfl
  | cons e entries ih =>
    have hstep : retireUnseen seen p e = p := by
      unfold retireUnseen
      split
      · rfl
      · next c hc =>
        rw [if_neg]
        rintro ⟨hnot, henabled⟩
        rcases h e List.mem_cons_self c hc with hin | hoff
        · exact hnot hin
        · rw [henabled] at hoff
          cases hoff
    rw [List.foldl_cons, hstep]
    exact ih fun e' he' => h e' (List.mem_cons_of_mem _ he')

/-- Where each draft's clause has a settled check and every other contract check is off, a
reconciliation counts nothing. -/
theorem reconcile_counts_eq_zero {checks : List (Check Digest)} {drafts : List CheckDraft}
    (hunique : KeysUnique Check.clause? checks) (hdrafts : (drafts.map CheckDraft.ref).Nodup)
    (hsettled : ∀ d ∈ drafts, ∃ c, keyed Check.clause? checks d.ref = some c ∧ Settles sha256 c d)
    (hoff : ∀ c ∈ checks, ∀ k, c.clause? = some k → k ∉ drafts.map CheckDraft.ref →
      c.enabled = false) :
    (reconcile sha256 odcsId checks drafts).2 = ⟨0, 0, 0⟩ := by
  have hplaced : ∀ d ∈ drafts, ∃ i c, (byClause checks).lookup d.ref = some i ∧
      checks[i]? = some c ∧ Settles sha256 c d := by
    intro d hd
    obtain ⟨c, hc, hs⟩ := hsettled d hd
    obtain ⟨hmem, hk⟩ := key_of_keyed hc
    obtain ⟨i, hi⟩ := List.mem_iff_getElem?.mp hmem
    exact ⟨i, c, (lookup_byClause hunique).mpr ⟨c, hi, hk⟩, hi, hs⟩
  let start : Progress Digest := ⟨checks, [], nextOrdinal checks, [], 0, 0⟩
  obtain ⟨hchecks, hadded, hupdated⟩ := foldl_visit_settled sha256 odcsId (p := start) hplaced
  obtain ⟨-, -, hseen⟩ := foldl_visit sha256 odcsId hdrafts start hunique
  have hretire : (byClause checks).foldl (retireUnseen
      (drafts.foldl (visit sha256 odcsId (byClause checks)) start).seen) (checks, 0) =
      (checks, 0) := foldl_retireUnseen_settled fun e he c hc => by
      obtain ⟨c', hc', hk⟩ := (lookup_byClause hunique).mp
        ((mem_iff_lookup (nodup_places _)).mp he)
      obtain rfl : c' = c := Option.some.inj (hc'.symm.trans hc)
      by_cases hin : e.1 ∈ drafts.map CheckDraft.ref
      · exact .inl ((hseen e.1).mpr (.inr hin))
      · exact .inr (hoff c' (List.mem_of_getElem? hc') e.1 hk hin)
  unfold reconcile
  simp only [start] at hchecks hadded hupdated hretire
  simp only [hchecks, hadded, hupdated, hretire]

end DataQ.Contracts
