import DataQ.Foundations.Exploration
import DataQ.Lineage.Ephemera

/-! # Stitching over scratch tables

The chains of scratch tables between two physical ones, as a relation, and what the walk of
`_EphemeralStitch` gives of them. A table that is being resolved has an empty entry, and a table
that is resolved meanwhile keeps what it got out of that: a chain is lost where it steps to a table
from which the walk may have come. -/

namespace DataQ.Lineage.Ephemera
open DataQ.Lineage.Warehouse (ColumnPair maxColumnPairsPerEdge)
set_option autoImplicit false

/-- Which tables were written from which, and which of their columns. -/
structure Flow where
  joined : Text → Text → Prop
  maps : Text → Text → ColumnPair → Prop

def flow (rows : List Row) : Flow := ⟨Joined rows, Maps rows⟩

theorem flow_perm {rows rows' : List Row} (h : rows.Perm rows') : flow rows = flow rows' := by
  have hjoined : Joined rows = Joined rows' := by
    funext a b
    simp only [Joined, h.mem_iff]
  have hmaps : Maps rows = Maps rows' := by
    funext a b p
    simp only [Maps, h.mem_iff]
  rw [flow, flow, hjoined, hmaps]

section Chains
variable (F : Flow)

/-- Each table was written from the one before it, through scratch tables. -/
def Joins : Text → List Text → Text → Prop
  | a, [], b => F.joined a b
  | a, t :: ts, b => F.joined a t ∧ isEphemeral t = true ∧ Joins t ts b

/-- The composition of the column pairs along a chain. -/
def Carries : Text → List Text → Text → ColumnPair → Prop
  | a, [], b, p => F.maps a b p
  | a, t :: ts, b, p =>
    ∃ y, F.maps a t (toLex ((ofLex p).1, y)) ∧ Carries t ts b (toLex (y, (ofLex p).2))

/-- The scratch tables of a chain that starts at a table. -/
def scratch (a : Text) (ts : List Text) : List Text := if isEphemeral a then a :: ts else ts

/-- A chain to a physical table, over distinct scratch tables and no more than the stitch takes. -/
structure Chain (a : Text) (ts : List Text) (b : Text) : Prop where
  joins : Joins F a ts b
  physical : isEphemeral b = false
  distinct : (scratch a ts).Nodup
  short : (scratch a ts).length ≤ ephemeralStitchMaxDepth

/-- Some chain carries a column of `a` into one of `b`. -/
def Fed (a b : Text) (p : ColumnPair) : Prop := ∃ ts, Chain F a ts b ∧ Carries F a ts b p

/-- No set of column pairs that the stitch builds gets fuller than the cap. -/
structure BelowCap : Prop where
  rows : ∀ a b, AtMost maxColumnPairsPerEdge (F.maps a b)
  chains : ∀ a b, AtMost maxColumnPairsPerEdge (Fed F a b)

/-- Scratch tables in the order in which a walk from a physical table gets to them, last first. -/
inductive Way : List Text → Prop
  | start {a t : Text} (physical : isEphemeral a = false) (joined : F.joined a t)
      (scratch : isEphemeral t = true) : Way [t]
  | step {u v : Text} {ts : List Text} (way : Way (u :: ts)) (joined : F.joined u v)
      (scratch : isEphemeral v = true) (new : v ∉ u :: ts) : Way (v :: u :: ts)

/-- Some way into `u` has come through `v`. -/
def Reenters (u v : Text) : Prop := ∃ ts, Way F (u :: ts) ∧ v ∈ u :: ts

/-- No step of a chain goes to a table that a way into its start has come through. -/
def Steady (ts : List Text) : Prop := ts.IsChain fun u v => ¬ Reenters F u v

/-- Two physical tables that are joined are so by a steady chain, and the same for each column pair
that is carried. -/
structure Settled : Prop where
  edges : ∀ a b, isEphemeral a = false → a ≠ b → ∀ ts, Chain F a ts b →
    ∃ ts, Chain F a ts b ∧ Steady F ts
  pairs : ∀ a b, isEphemeral a = false → a ≠ b → ∀ p, Fed F a b p →
    ∃ ts, Chain F a ts b ∧ Carries F a ts b p ∧ Steady F ts

end Chains

section Walk
variable {F : Flow} {raw : EdgeSet}

theorem scratch_of_ephemeral {a : Text} (h : isEphemeral a = true) (ts : List Text) :
    scratch a ts = a :: ts := if_pos h

theorem scratch_of_physical {a : Text} (h : isEphemeral a = false) (ts : List Text) :
    scratch a ts = ts := if_neg (by rw [h]; exact Bool.false_ne_true)

theorem subset_scratch (a : Text) (ts : List Text) : ts.Sublist (scratch a ts) := by
  cases h : isEphemeral a with
  | true =>
    rw [scratch_of_ephemeral h]
    exact List.sublist_cons_self a ts
  | false =>
    rw [scratch_of_physical h]

theorem Chain.tail {a t b : Text} {ts : List Text} (h : Chain F a (t :: ts) b) :
    Chain F t ts b := by
  have hsub := subset_scratch a (t :: ts)
  have heq := scratch_of_ephemeral h.joins.2.1 ts
  refine ⟨h.joins.2.2, h.physical, ?_, ?_⟩
  · rw [heq]
    exact h.distinct.sublist hsub
  · rw [heq]
    exact hsub.length_le.trans h.short

/-- A chain begins with a row. -/
theorem Chain.first {a b : Text} {ts : List Text} (h : Chain F a ts b) :
    ∃ c, (ts ++ [b]).head? = some c ∧ F.joined a c := by
  cases ts with
  | nil => exact ⟨b, rfl, h.joins⟩
  | cons t ts => exact ⟨t, rfl, h.joins.1⟩

/-! ## Entries of the memo -/

/-- An entry tells of a chain, with all that it carries. -/
structure Tells (F : Flow) (n : Text) (ts : List Text) (entry : Entry) : Prop where
  chain : Chain F n ts entry.ident
  hops : entry.hops = ts.length + 1
  pairs : ∀ p, p ∈ entry.pairs ↔ Carries F n ts entry.ident p

theorem AtMost.mono {n : ℕ} {S S' : ColumnPair → Prop} (h : AtMost n S) (hsub : ∀ p, S' p → S p) :
    AtMost n S' := by
  obtain ⟨all, hlength, hall⟩ := h
  exact ⟨all, hlength, fun p hp => hall p (hsub p hp)⟩

/-- One step before a chain, the composed pairs are those that the longer chain carries. -/
theorem composePairs_chain (hcap : BelowCap F) {a t : Text} {ts : List Text}
    {pairs : List ColumnPair} {entry : Entry} (hpairs : ∀ p, p ∈ pairs ↔ F.maps a t p)
    (h : Tells F t ts entry) (hchain : Chain F a (t :: ts) entry.ident) (p : ColumnPair) :
    p ∈ composePairs pairs entry.pairs ↔ Carries F a (t :: ts) entry.ident p := by
  have hiff : ∀ q : ColumnPair, (∃ y, toLex ((ofLex q).1, y) ∈ pairs ∧
      toLex (y, (ofLex q).2) ∈ entry.pairs) ↔ Carries F a (t :: ts) entry.ident q := by
    intro q
    simp only [hpairs, h.pairs, Carries]
  constructor
  · intro hp
    exact (hiff p).mp (composePairs_sound hp)
  · intro hp
    apply composePairs_complete _ ((hiff p).mpr hp)
    apply (hcap.chains a entry.ident).mono
    intro q hq
    exact ⟨t :: ts, hchain, (hiff q).mp hq⟩

/-- What the edges of a pull are, of its rows. -/
structure Recorded (F : Flow) (raw : EdgeSet) : Prop where
  keys : ∀ a b, (a, b) ∈ raw.map Prod.fst ↔ F.joined a b
  pairs : ∀ a b pairs, ((a, b), pairs) ∈ raw → ∀ p, p ∈ pairs ↔ F.maps a b p

theorem recorded_collect {rows : List Row} (hcap : BelowCap (flow rows)) :
    Recorded (flow rows) (collect rows) where
  keys _ _ := mem_keys_collect
  pairs := by
    intro a b pairs hedge p
    have hlookup := (mem_iff_lookup (nodup_collect rows)).mp hedge
    have hget : ((collect rows).lookup (a, b)).getD [] = pairs := by
      rw [hlookup, Option.getD_some]
    rw [← hget]
    exact ⟨(collect_sound rows a b).2 p, collect_complete (hcap.rows a b)⟩

theorem mem_outOf {node child : Text} {pairs : List ColumnPair} (hnode : isEphemeral node = true) :
    (child, pairs) ∈ outOf raw node ↔ ((node, child), pairs) ∈ raw := by
  simp only [outOf, List.mem_filterMap]
  constructor
  · rintro ⟨⟨⟨a, b⟩, ps⟩, hedge, hsome⟩
    split at hsome
    · next hkey =>
      simp only [Bool.and_eq_true, decide_eq_true_eq] at hkey
      obtain ⟨-, rfl⟩ := hkey
      obtain ⟨rfl, rfl⟩ := Prod.mk.inj (Option.some.inj hsome)
      exact hedge
    · cases hsome
  · intro hedge
    exact ⟨_, hedge, by simp [hnode]⟩

/-! ## The walk -/

/-- It is resolved: it has an entry, and it is not on the stack. -/
def Finished (stack : List Text) (memo : Memo) (n : Text) : Prop :=
  n ∉ stack ∧ (memo.lookup n).isSome = true

def Extends (memo memo' : Memo) : Prop :=
  ∀ n, (memo.lookup n).isSome = true → (memo'.lookup n).isSome = true

/-- Each entry tells of a chain over resolved tables, and every steady chain has its entry. -/
structure Exact (F : Flow) (done : Text → Prop) (n : Text) (entries : List Entry) : Prop where
  sound : ∀ entry ∈ entries, ∃ ts, Tells F n ts entry ∧ ∀ t ∈ ts, done t
  complete : ∀ ts b, Chain F n ts b → Steady F (n :: ts) →
    ∃ entry ∈ entries, entry.ident = b ∧ Tells F n ts entry

structure Kept (F : Flow) (stack : List Text) (memo : Memo) : Prop where
  active : ∀ n ∈ stack, memo.lookup n = some []
  resolved : ∀ n entries, n ∉ stack → memo.lookup n = some entries →
    Exact F (Finished stack memo) n entries

/-- What a resolution gives, and what it leaves in the memo. -/
structure Outcome (F : Flow) (stack : List Text) (memo : Memo) (n : Text)
    (result : List Entry × Memo) : Prop where
  kept : Kept F stack result.2
  grown : Extends memo result.2
  sound : ∀ entry ∈ result.1, ∃ ts, Tells F n ts entry ∧ ∀ t ∈ n :: ts, Finished stack result.2 t
  complete : n ∉ stack → ∀ ts b, Chain F n ts b → Steady F (n :: ts) →
    ∃ entry ∈ result.1, entry.ident = b ∧ Tells F n ts entry

/-- The same, of a table of which these children were gone through. -/
structure Resolving (F : Flow) (stack : List Text) (memo : Memo) (n : Text)
    (children : List (Text × List ColumnPair)) (acc : List Entry × Memo) : Prop where
  kept : Kept F (n :: stack) acc.2
  grown : Extends memo acc.2
  sound : ∀ entry ∈ acc.1, ∃ ts, Tells F n ts entry ∧ ∀ t ∈ ts, Finished (n :: stack) acc.2 t
  complete : ∀ child ∈ children, ∀ ts b, Chain F n ts b → Steady F (n :: ts) →
    (ts ++ [b]).head? = some child.1 → ∃ entry ∈ acc.1, entry.ident = b ∧ Tells F n ts entry

theorem Exact.mono {done done' : Text → Prop} {n : Text} {entries : List Entry}
    (h : Exact F done n entries) (hdone : ∀ t, done t → done' t) : Exact F done' n entries where
  sound := by
    intro entry hentry
    obtain ⟨ts, htells, hts⟩ := h.sound entry hentry
    exact ⟨ts, htells, fun t ht => hdone t (hts t ht)⟩
  complete := h.complete

theorem Extends.finished {stack : List Text} {memo memo' : Memo} (h : Extends memo memo') {t : Text}
    (ht : Finished stack memo t) : Finished stack memo' t := ⟨ht.1, h t ht.2⟩

theorem extends_setField (n : Text) (entries : List Entry) (memo : Memo) :
    Extends memo (setField n entries memo) := by
  intro t ht
  by_cases h : t = n
  · rw [h, lookup_setField_self]
    rfl
  · rw [lookup_setField_ne h]
    exact ht

theorem prolonged_sound (hcap : BelowCap F) {n c : Text} {pairs : List ColumnPair}
    {entries : List Entry} {done : Text → Prop} (hn : isEphemeral n = true)
    (hc : isEphemeral c = true) (hjoined : F.joined n c) (hpairs : ∀ p, p ∈ pairs ↔ F.maps n c p)
    (hnew : ¬ done n) (h : ∀ entry ∈ entries, ∃ ts, Tells F c ts entry ∧ ∀ t ∈ c :: ts, done t) :
    ∀ entry ∈ prolonged pairs entries, ∃ ts, Tells F n ts entry ∧ ∀ t ∈ ts, done t := by
  intro entry hentry
  obtain ⟨e, he, hsome⟩ := List.mem_filterMap.mp hentry
  obtain ⟨ts, htells, hdone⟩ := h e he
  split at hsome
  · cases hsome
  · next hshort =>
    obtain rfl := Option.some.inj hsome
    have hdistinct := htells.chain.distinct
    rw [scratch_of_ephemeral hc] at hdistinct
    have hhops := htells.hops
    have hchain : Chain F n (c :: ts) e.ident := by
      refine ⟨⟨hjoined, hc, htells.chain.joins⟩, htells.chain.physical, ?_, ?_⟩
      · rw [scratch_of_ephemeral hn]
        exact List.nodup_cons.mpr ⟨fun hmem => hnew (hdone n hmem), hdistinct⟩
      · rw [scratch_of_ephemeral hn]
        simp only [List.length_cons]
        omega
    refine ⟨c :: ts, ⟨hchain, ?_, composePairs_chain hcap hpairs htells hchain⟩, hdone⟩
    simp only [List.length_cons]
    omega

theorem prolonged_complete (hcap : BelowCap F) {n c b : Text} {ts : List Text}
    {pairs : List ColumnPair} {entries : List Entry} {entry : Entry} (hn : isEphemeral n = true)
    (hpairs : ∀ p, p ∈ pairs ↔ F.maps n c p) (hchain : Chain F n (c :: ts) b)
    (hentry : entry ∈ entries) (hident : entry.ident = b) (htells : Tells F c ts entry) :
    ∃ entry ∈ prolonged pairs entries, entry.ident = b ∧ Tells F n (c :: ts) entry := by
  subst hident
  have hshort := hchain.short
  rw [scratch_of_ephemeral hn] at hshort
  simp only [List.length_cons] at hshort
  have hhops := htells.hops
  refine ⟨⟨entry.ident, composePairs pairs entry.pairs, entry.hops + 1⟩, ?_, rfl, hchain, ?_,
    composePairs_chain hcap hpairs htells hchain⟩
  · apply List.mem_filterMap.mpr
    refine ⟨entry, hentry, if_neg ?_⟩
    omega
  · simp only [List.length_cons]
    omega

/-- A physical child is an entry of its own. -/
theorem tells_child {n c : Text} {pairs : List ColumnPair} (hn : isEphemeral n = true)
    (hc : isEphemeral c = false) (hjoined : F.joined n c) (hpairs : ∀ p, p ∈ pairs ↔ F.maps n c p) :
    Tells F n [] ⟨c, pairs, 1⟩ where
  chain := by
    refine ⟨hjoined, hc, ?_, ?_⟩
    · rw [scratch_of_ephemeral hn]
      exact List.nodup_singleton n
    · rw [scratch_of_ephemeral hn]
      simp [ephemeralStitchMaxDepth]
  hops := rfl
  pairs := hpairs

theorem resolveChild_spec (hcap : BelowCap F) {stack : List Text} {memo : Memo} {n c : Text}
    {pairs : List ColumnPair} {children : List (Text × List ColumnPair)} {acc : List Entry × Memo}
    {resolve : Text → Memo → List Entry × Memo} (hway : Way F (n :: stack))
    (hn : isEphemeral n = true) (hjoined : F.joined n c) (hpairs : ∀ p, p ∈ pairs ↔ F.maps n c p)
    (hresolve : isEphemeral c = true → Outcome F (n :: stack) acc.2 c (resolve c acc.2))
    (h : Resolving F stack memo n children acc) :
    Resolving F stack memo n (children ++ [(c, pairs)]) (resolveChild resolve acc (c, pairs)) := by
  have hchildren : ∀ {child : Text × List ColumnPair}, child ∈ children ++ [(c, pairs)] →
      child ∈ children ∨ child = (c, pairs) := fun hchild =>
    (List.mem_append.mp hchild).imp id List.mem_singleton.mp
  rw [resolveChild]
  cases hc : isEphemeral c with
  | false =>
    have htells := tells_child hn hc hjoined hpairs
    refine ⟨h.kept, h.grown, ?_, ?_⟩
    · intro entry hentry
      obtain hentry | hentry := List.mem_append.mp hentry
      · exact h.sound entry hentry
      · obtain rfl := List.mem_singleton.mp hentry
        exact ⟨[], htells, fun t ht => absurd ht List.not_mem_nil⟩
    · intro child hchild ts b hchain hsteady hhead
      obtain hchild | rfl := hchildren hchild
      · obtain ⟨entry, hentry, hfound⟩ := h.complete child hchild ts b hchain hsteady hhead
        exact ⟨entry, List.mem_append_left _ hentry, hfound⟩
      · cases ts with
        | nil =>
          obtain rfl := Option.some.inj hhead
          exact ⟨_, List.mem_append_right _ List.mem_cons_self, rfl, htells⟩
        | cons t ts =>
          obtain rfl := Option.some.inj hhead
          rw [hchain.joins.2.1] at hc
          cases hc
  | true =>
    have hout := hresolve hc
    refine ⟨hout.kept, fun t ht => hout.grown t (h.grown t ht), ?_, ?_⟩
    · intro entry hentry
      obtain hentry | hentry := List.mem_append.mp hentry
      · obtain ⟨ts, htells, hdone⟩ := h.sound entry hentry
        exact ⟨ts, htells, fun t ht => hout.grown.finished (hdone t ht)⟩
      · apply prolonged_sound hcap hn hc hjoined hpairs _ hout.sound entry hentry
        exact fun hdone => hdone.1 List.mem_cons_self
    · intro child hchild ts b hchain hsteady hhead
      obtain hchild | rfl := hchildren hchild
      · obtain ⟨entry, hentry, hfound⟩ := h.complete child hchild ts b hchain hsteady hhead
        exact ⟨entry, List.mem_append_left _ hentry, hfound⟩
      · cases ts with
        | nil =>
          obtain rfl := Option.some.inj hhead
          rw [hchain.physical] at hc
          cases hc
        | cons t ts =>
          obtain rfl := Option.some.inj hhead
          obtain ⟨hstep, hrest⟩ := List.isChain_cons_cons.mp hsteady
          -- A table on the stack is one that the way to `n` has come through.
          have hoff : t ∉ n :: stack := fun hon => hstep ⟨stack, hway, hon⟩
          obtain ⟨entry, hentry, hident, htells⟩ := hout.complete hoff ts b hchain.tail hrest
          obtain ⟨entry, hentry, hfound⟩ :=
            prolonged_complete hcap hn hpairs hchain hentry hident htells
          exact ⟨entry, List.mem_append_right _ hentry, hfound⟩

/-- Downstream tables that have no entry yet. -/
def unmarked (raw : EdgeSet) (memo : Memo) : List Text :=
  (raw.map fun edge => edge.1.2).filter fun n => memo.lookup n = none

theorem unmarked_length_le {memo memo' : Memo} (h : Extends memo memo') :
    (unmarked raw memo').length ≤ (unmarked raw memo).length := by
  apply List.Sublist.length_le
  apply List.monotone_filter_right
  intro n hn
  simp only [decide_eq_true_eq, ← Option.not_isSome_iff_eq_none] at hn ⊢
  exact mt (h n) hn

theorem unmarked_length_lt {memo : Memo} {n : Text} (hmem : n ∈ raw.map fun edge => edge.1.2)
    (hnew : memo.lookup n = none) (entries : List Entry) :
    (unmarked raw (setField n entries memo)).length < (unmarked raw memo).length := by
  have hsplit : unmarked raw (setField n entries memo) = (unmarked raw memo).filter (· ≠ n) := by
    rw [unmarked, unmarked, List.filter_filter]
    apply List.filter_congr
    intro t _
    by_cases h : t = n
    · simp [h]
    · simp [lookup_setField_ne h, h]
  rw [hsplit]
  apply List.length_filter_lt_length_iff_exists.mpr
  exact ⟨n, List.mem_filter.mpr ⟨hmem, by simp [hnew]⟩, by simp⟩

theorem resolve_of_lookup {fuel : ℕ} {n : Text} {memo : Memo} {cached : List Entry}
    (h : memo.lookup n = some cached) : resolve raw fuel n memo = (cached, memo) := by
  cases fuel <;> simp [resolve, h]

theorem resolve_of_new {fuel : ℕ} {n : Text} {memo : Memo} (h : memo.lookup n = none) :
    resolve raw (fuel + 1) n memo =
      let r := (outOf raw n).foldl (resolveChild (resolve raw fuel)) ([], setField n [] memo)
      (r.1, setField n r.1 r.2) := by
  simp [resolve, h]

theorem outcome_of_lookup {stack : List Text} {memo : Memo} {n : Text} {cached : List Entry}
    (hkept : Kept F stack memo) (h : memo.lookup n = some cached) :
    Outcome F stack memo n (cached, memo) where
  kept := hkept
  grown := fun _ ht => ht
  sound := by
    intro entry hentry
    by_cases hon : n ∈ stack
    · obtain rfl := Option.some.inj (h.symm.trans (hkept.active n hon))
      cases hentry
    · obtain ⟨ts, htells, hdone⟩ := (hkept.resolved n cached hon h).sound entry hentry
      refine ⟨ts, htells, ?_⟩
      intro t ht
      obtain rfl | ht := List.mem_cons.mp ht
      · exact ⟨hon, by rw [h]; rfl⟩
      · exact hdone t ht
  complete := fun hoff => (hkept.resolved n cached hoff h).complete

/-- A table that is begun goes onto the stack. -/
theorem Kept.begin {stack : List Text} {memo : Memo} {n : Text} (h : Kept F stack memo)
    (hnew : memo.lookup n = none) : Kept F (n :: stack) (setField n [] memo) where
  active := by
    intro t ht
    by_cases heq : t = n
    · rw [heq]
      exact lookup_setField_self n [] memo
    · rw [lookup_setField_ne heq]
      exact h.active t (List.mem_of_ne_of_mem heq ht)
  resolved := by
    intro t entries hoff hlookup
    rw [lookup_setField_ne (List.ne_of_not_mem_cons hoff)] at hlookup
    apply (h.resolved t entries (List.not_mem_of_not_mem_cons hoff) hlookup).mono
    intro s hs
    refine ⟨?_, extends_setField n [] memo s hs.2⟩
    rw [List.mem_cons, not_or]
    refine ⟨?_, hs.1⟩
    rintro rfl
    have hsome := hs.2
    rw [hnew] at hsome
    cases hsome

/-- And once its children are gone through, it is off the stack again. -/
theorem Resolving.finish {stack : List Text} {memo : Memo} {n : Text} {acc : List Entry × Memo}
    (hraw : Recorded F raw) (hn : isEphemeral n = true) (hoff : n ∉ stack)
    (h : Resolving F stack (setField n [] memo) n (outOf raw n) acc) :
    Outcome F stack memo n (acc.1, setField n acc.1 acc.2) := by
  have hdone : ∀ t, Finished (n :: stack) acc.2 t → Finished stack (setField n acc.1 acc.2) t :=
    fun t ht => ⟨List.not_mem_of_not_mem_cons ht.1, extends_setField _ _ _ t ht.2⟩
  have hexact : Exact F (Finished stack (setField n acc.1 acc.2)) n acc.1 := by
    refine ⟨?_, ?_⟩
    · intro entry hentry
      obtain ⟨ts, htells, hts⟩ := h.sound entry hentry
      exact ⟨ts, htells, fun t ht => hdone t (hts t ht)⟩
    · intro ts b hchain hsteady
      obtain ⟨c, hhead, hjoined⟩ := hchain.first
      obtain ⟨⟨key, pairs⟩, hedge, rfl⟩ := List.mem_map.mp ((hraw.keys n c).mpr hjoined)
      exact h.complete (c, pairs) ((mem_outOf hn).mpr hedge) ts b hchain hsteady hhead
  have hself : Finished stack (setField n acc.1 acc.2) n := by
    refine ⟨hoff, ?_⟩
    rw [lookup_setField_self]
    rfl
  have hgrown : Extends memo (setField n acc.1 acc.2) := fun t ht =>
    extends_setField _ _ _ t (h.grown t (extends_setField n [] memo t ht))
  refine ⟨⟨?_, ?_⟩, hgrown, ?_, fun _ => hexact.complete⟩
  · intro t ht
    have hne : t ≠ n := fun heq => hoff (heq ▸ ht)
    rw [lookup_setField_ne hne]
    exact h.kept.active t (List.mem_cons_of_mem _ ht)
  · intro t entries ht hlookup
    by_cases heq : t = n
    · subst heq
      rw [lookup_setField_self] at hlookup
      obtain rfl := Option.some.inj hlookup
      exact hexact
    · rw [lookup_setField_ne heq] at hlookup
      apply (h.kept.resolved t entries _ hlookup).mono hdone
      exact List.not_mem_cons_of_ne_of_not_mem heq ht
  · intro entry hentry
    obtain ⟨ts, htells, hts⟩ := hexact.sound entry hentry
    refine ⟨ts, htells, ?_⟩
    intro t ht
    obtain rfl | ht := List.mem_cons.mp ht
    · exact hself
    · exact hts t ht

theorem resolve_spec (hcap : BelowCap F) (hraw : Recorded F raw) {fuel : ℕ} {stack : List Text}
    {memo : Memo} {n : Text} (hfuel : (unmarked raw memo).length ≤ fuel)
    (hn : isEphemeral n = true) (hmem : n ∈ raw.map fun edge => edge.1.2)
    (hkept : Kept F stack memo) (hway : n ∉ stack → Way F (n :: stack)) :
    Outcome F stack memo n (resolve raw fuel n memo) := by
  induction fuel generalizing stack memo n with
  | zero =>
    cases hlookup : memo.lookup n with
    | some cached =>
      rw [resolve_of_lookup hlookup]
      exact outcome_of_lookup hkept hlookup
    | none =>
      have hlt := unmarked_length_lt hmem hlookup []
      omega
  | succ fuel ih =>
    cases hlookup : memo.lookup n with
    | some cached =>
      rw [resolve_of_lookup hlookup]
      exact outcome_of_lookup hkept hlookup
    | none =>
      have hoff : n ∉ stack := by
        intro hon
        rw [hkept.active n hon] at hlookup
        cases hlookup
      have hlt := unmarked_length_lt hmem hlookup []
      rw [resolve_of_new hlookup]
      apply Resolving.finish hraw hn hoff
      have hchildren : ∀ children, children ⊆ outOf raw n →
          Resolving F stack (setField n [] memo) n children
            (children.foldl (resolveChild (resolve raw fuel)) ([], setField n [] memo)) := by
        intro children
        induction children using List.reverseRecOn with
        | nil =>
          intro _
          refine ⟨hkept.begin hlookup, fun _ ht => ht, ?_, ?_⟩
          · exact fun entry hentry => absurd hentry List.not_mem_nil
          · exact fun child hchild => absurd hchild List.not_mem_nil
        | append_singleton children child ihchildren =>
          intro hsub
          obtain ⟨hbefore, hchild⟩ := List.append_subset.mp hsub
          have hedge := (mem_outOf hn).mp (hchild List.mem_cons_self)
          have hkey : _ ∈ raw.map Prod.fst := List.mem_map_of_mem hedge
          have hjoined := (hraw.keys n child.1).mp hkey
          have hpast := ihchildren hbefore
          rw [List.foldl_append]
          apply resolveChild_spec hcap (hway hoff) hn hjoined (hraw.pairs n child.1 child.2 hedge)
            _ hpast
          intro hc
          have hless : (unmarked raw _).length ≤ _ := unmarked_length_le hpast.grown
          have hdown : child.1 ∈ raw.map fun edge => edge.1.2 := List.mem_map_of_mem hedge
          apply ih (by omega) hc hdown hpast.kept
          exact fun hnew => .step (hway hoff) hjoined hc hnew
      exact hchildren _ (List.Subset.refl _)

end Walk

end DataQ.Lineage.Ephemera
