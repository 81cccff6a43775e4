import Mathlib.Data.List.Perm.Basic
import Mathlib.Data.List.Dedup
import Mathlib.Data.List.Induction
import Mathlib.Tactic.Common

/-! # Splitting a list by predicates and by keys

The positions where a predicate holds, and the two facts that make a dispatch over them complete:
a predicate and its negation split every position, and grouping by a key that is always listed
loses and repeats nothing. -/

namespace DataQ.Partition
set_option autoImplicit false

variable {α κ : Type*}

/-- `[i for i, x in enumerate(xs) if p x]`. -/
def indices (xs : List α) (p : α → Bool) : List ℕ :=
  (xs.zipIdx.filter fun x => p x.1).map Prod.snd

/-- `[xs[i] for i in is]`, for indices that are in range. -/
def pick (xs : List α) (is : List ℕ) : List α := is.filterMap (xs[·]?)

theorem indices_congr {xs : List α} {p q : α → Bool} (h : ∀ x ∈ xs, p x = q x) :
    indices xs p = indices xs q := by
  unfold indices
  rw [List.filter_congr]
  intro x hx
  exact h x.1 (List.fst_mem_of_mem_zipIdx hx)

theorem indices_true (xs : List α) : indices xs (fun _ => true) = List.range xs.length := by
  unfold indices
  rw [List.filter_true, List.range_eq_range']
  exact List.zipIdx_map_snd 0 xs

theorem indices_split (xs : List α) (p q : α → Bool) :
    (indices xs (fun x => q x && p x) ++ indices xs (fun x => q x && !p x)).Perm
      (indices xs q) := by
  unfold indices
  rw [← List.map_append]
  apply List.Perm.map
  have hsplit := List.filter_append_perm (fun x : α × ℕ => p x.1) (xs.zipIdx.filter fun x => q x.1)
  rw [List.filter_filter, List.filter_filter] at hsplit
  simpa only [Bool.and_comm] using hsplit

theorem mem_indices {xs : List α} {p : α → Bool} {i : ℕ} :
    i ∈ indices xs p ↔ ∃ x, xs[i]? = some x ∧ p x = true := by
  unfold indices
  constructor
  · intro h
    obtain ⟨⟨x, j⟩, hx, rfl⟩ := List.mem_map.mp h
    obtain ⟨hmem, hp⟩ := List.mem_filter.mp hx
    exact ⟨x, by simpa using List.mem_zipIdx_iff_getElem?.mp hmem, hp⟩
  · rintro ⟨x, hx, hp⟩
    exact List.mem_map.mpr ⟨(x, i), List.mem_filter.mpr
      ⟨List.mem_zipIdx_iff_getElem?.mpr hx, hp⟩, rfl⟩

theorem pick_range (xs : List α) : pick xs (List.range xs.length) = xs := by
  unfold pick
  induction xs with
  | nil => rfl
  | cons x xs ih =>
    rw [List.length_cons, List.range_succ_eq_map, List.filterMap_cons, List.filterMap_map]
    simpa [Function.comp_def] using ih

theorem pick_perm (xs : List α) {is js : List ℕ} (h : is.Perm js) :
    (pick xs is).Perm (pick xs js) := h.filterMap _

/-- Where `p` only holds before the rows without it, filtering by `p` cuts the list in two. -/
theorem filter_append_filter_not {xs : List α} {p : α → Bool}
    (h : xs.Pairwise fun a b => p b = true → p a = true) :
    xs.filter p ++ xs.filter (!p ·) = xs := by
  induction xs with
  | nil => rfl
  | cons x xs ih =>
    obtain ⟨hx, hrest⟩ := List.pairwise_cons.mp h
    cases hp : p x with
    | true =>
      rw [List.filter_cons_of_pos hp, List.filter_cons_of_neg (by simp [hp]), List.cons_append,
        ih hrest]
    | false =>
      have hlate : ∀ y ∈ xs, p y = false := by
        intro y hy
        by_contra hc
        have := hx y hy (by simpa using hc)
        simp [hp] at this
      have hnone : xs.filter p = [] := by
        rw [List.filter_eq_nil_iff]
        intro y hy
        simp [hlate y hy]
      have hall : xs.filter (!p ·) = xs := by
        rw [List.filter_eq_self]
        intro y hy
        simp [hlate y hy]
      rw [List.filter_cons_of_neg (by simp [hp]), hnone, List.nil_append,
        List.filter_cons_of_pos (by simp [hp]), hall]

theorem pick_append (xs : List α) (is js : List ℕ) :
    pick xs (is ++ js) = pick xs is ++ pick xs js := List.filterMap_append

/-- Grouping the selected positions by a key loses nothing when every key is listed once. -/
theorem flatMap_indices_perm [DecidableEq κ] (xs : List α) (key : α → κ) (p : α → Bool)
    {keys : List κ} (hnodup : keys.Nodup) :
    (keys.flatMap fun k => indices xs fun x => p x && decide (key x = k)).Perm
      (indices xs fun x => p x && decide (key x ∈ keys)) := by
  induction keys with
  | nil => simp [indices]
  | cons k keys ih =>
    obtain ⟨hk, hrest⟩ := List.nodup_cons.mp hnodup
    rw [List.flatMap_cons]
    have hsplit := indices_split xs (fun x => decide (key x = k))
      (fun x => p x && decide (key x ∈ k :: keys))
    refine List.Perm.trans ?_ hsplit
    have hhead : indices xs (fun x => p x && decide (key x ∈ k :: keys) && decide (key x = k)) =
        indices xs (fun x => p x && decide (key x = k)) := by
      apply indices_congr
      intro x _
      by_cases hx : key x = k <;> simp [hx]
    have htail : indices xs (fun x => p x && decide (key x ∈ k :: keys) && !decide (key x = k)) =
        indices xs (fun x => p x && decide (key x ∈ keys)) := by
      apply indices_congr
      intro x _
      by_cases hx : key x = k
      · subst hx
        simp [hk]
      · simp [hx]
    rw [hhead, htail]
    exact (ih hrest).append_left _

/-- Collecting the rows of each listed key collects every row once. -/
theorem flatMap_filter_perm [DecidableEq κ] (rows : List α) (key : α → κ) {keys : List κ}
    (hnodup : keys.Nodup) (hall : ∀ row ∈ rows, key row ∈ keys) :
    (keys.flatMap fun k => rows.filter fun row => decide (key row = k)).Perm rows := by
  induction keys generalizing rows with
  | nil =>
    have hnone : rows = [] := List.eq_nil_iff_forall_not_mem.mpr fun row hrow => by
      simpa using hall row hrow
    rw [hnone]
    exact .nil
  | cons k keys ih =>
    obtain ⟨hk, hrest⟩ := List.nodup_cons.mp hnodup
    have hlater : (keys.flatMap fun k' => rows.filter fun row => decide (key row = k')) =
        keys.flatMap fun k' =>
          (rows.filter fun row => !decide (key row = k)).filter fun row => decide (key row = k') := by
      apply List.flatMap_congr
      intro k' hk'
      rw [List.filter_filter]
      apply List.filter_congr
      intro row _
      by_cases hkey : key row = k'
      · have hne : k' ≠ k := fun heq => hk (heq ▸ hk')
        simp [hkey, hne]
      · simp [hkey]
    have hothers : ∀ row ∈ rows.filter (fun row => !decide (key row = k)), key row ∈ keys := by
      intro row hrow
      obtain ⟨hmem, hne⟩ := List.mem_filter.mp hrow
      obtain heq | hin := List.mem_cons.mp (hall row hmem)
      · simp [heq] at hne
      · exact hin
    rw [List.flatMap_cons, hlater]
    exact ((ih _ hrest hothers).append_left _).trans
      (List.filter_append_perm (fun row => decide (key row = k)) rows)

/-! ## Positions within positions -/

theorem indices_nodup (xs : List α) (p : α → Bool) : (indices xs p).Nodup := by
  unfold indices
  have hall : (xs.zipIdx.map Prod.snd).Nodup := by
    rw [List.zipIdx_map_snd]
    exact List.nodup_range'
  exact hall.sublist (List.filter_sublist.map _)

theorem indices_cons (x : α) (xs : List α) (p : α → Bool) :
    indices (x :: xs) p =
      if p x then 0 :: (indices xs p).map (· + 1) else (indices xs p).map (· + 1) := by
  unfold indices
  rw [List.zipIdx_cons, List.zipIdx_succ, List.filter_cons, List.filter_map]
  have hsnd : ∀ rows : List (α × ℕ), (rows.map fun x => (x.1, x.2 + 1)).map Prod.snd =
      (rows.map Prod.snd).map (· + 1) := by
    intro rows
    rw [List.map_map, List.map_map]
    rfl
  split
  · rw [List.map_cons]
    exact congrArg _ (hsnd _)
  · exact hsnd _

theorem indices_map {β : Type*} (f : α → β) (xs : List α) (p : β → Bool) :
    indices (xs.map f) p = indices xs fun x => p (f x) := by
  induction xs with
  | nil => rfl
  | cons x xs ih => rw [List.map_cons, indices_cons, indices_cons, ih]

/-- Selecting among selected positions selects by both predicates. -/
theorem pick_snd_indices (rows : List (α × ℕ)) (q : α → Bool) :
    pick (rows.map Prod.snd) (indices (rows.map Prod.fst) q) =
      (rows.filter fun row => q row.1).map Prod.snd := by
  induction rows with
  | nil => rfl
  | cons row rows ih =>
    have hshift : pick ((row :: rows).map Prod.snd) ((indices (rows.map Prod.fst) q).map (· + 1)) =
        pick (rows.map Prod.snd) (indices (rows.map Prod.fst) q) := by
      unfold pick
      rw [List.filterMap_map]
      rfl
    have hcons : (row :: rows).map Prod.fst = row.1 :: rows.map Prod.fst := rfl
    rw [hcons, indices_cons, List.filter_cons]
    split
    · exact congrArg (row.2 :: ·) (hshift.trans ih)
    · exact hshift.trans ih

theorem pick_indices (xs : List α) (p : α → Bool) : pick xs (indices xs p) = xs.filter p := by
  induction xs with
  | nil => rfl
  | cons x xs ih =>
    have hshift : pick (x :: xs) ((indices xs p).map (· + 1)) = pick xs (indices xs p) := by
      unfold pick
      rw [List.filterMap_map]
      rfl
    rw [indices_cons, List.filter_cons]
    split
    · rw [← ih, ← hshift]
      rfl
    · rw [← ih, ← hshift]

theorem indices_pick (xs : List α) (p q : α → Bool) :
    pick (indices xs p) (indices (pick xs (indices xs p)) q) =
      indices xs fun x => p x && q x := by
  have hfst : xs.filter p = (xs.zipIdx.filter fun x => p x.1).map Prod.fst := by
    have hmap := List.filter_map (p := p) (f := Prod.fst) (l := xs.zipIdx)
    rw [List.zipIdx_map_fst] at hmap
    exact hmap
  rw [pick_indices, hfst, indices, pick_snd_indices, List.filter_filter, indices]
  congr 1
  apply List.filter_congr
  intro row _
  rw [Bool.and_comm]

theorem pick_getElem {xs : List α} {is : List ℕ} (h : ∀ i ∈ is, i < xs.length) (k : ℕ) :
    (pick xs is)[k]? = (is[k]?).bind (xs[·]?) := by
  induction is generalizing k with
  | nil => rfl
  | cons i is ih =>
    have hlt : i < xs.length := h i List.mem_cons_self
    have hi : xs[i]? = some (xs.get ⟨i, hlt⟩) := List.getElem?_eq_getElem hlt
    rw [pick, List.filterMap_cons, hi]
    cases k with
    | zero => simp [hi]
    | succ k => exact ih (fun j hj => h j (List.mem_cons_of_mem _ hj)) k

theorem length_pick {xs : List α} {is : List ℕ} (h : ∀ i ∈ is, i < xs.length) :
    (pick xs is).length = is.length := by
  induction is with
  | nil => rfl
  | cons i is ih =>
    have hi : xs[i]? = some (xs.get ⟨i, h i List.mem_cons_self⟩) :=
      List.getElem?_eq_getElem (h i List.mem_cons_self)
    have hrest := ih fun j hj => h j (List.mem_cons_of_mem _ hj)
    rw [pick] at hrest ⊢
    rw [List.filterMap_cons, hi, List.length_cons, List.length_cons, hrest]

theorem lt_of_mem_indices {xs : List α} {p : α → Bool} {i : ℕ} (h : i ∈ indices xs p) :
    i < xs.length := by
  obtain ⟨x, hx, _⟩ := mem_indices.mp h
  exact (List.getElem?_eq_some_iff.mp hx).1

/-- The positions outside a selection are those of the negated predicate. -/
theorem filter_range_indices (xs : List α) (p : α → Bool) :
    (List.range xs.length).filter (fun i => !(indices xs p).contains i) =
      indices xs fun x => !p x := by
  have hrange : List.range xs.length = xs.zipIdx.map Prod.snd := by
    rw [List.range_eq_range', List.zipIdx_map_snd]
  rw [hrange, List.filter_map, indices]
  congr 1
  apply List.filter_congr
  intro row hrow
  have hat : xs[row.2]? = some row.1 := List.mem_zipIdx_iff_getElem?.mp hrow
  have hmem : (indices xs p).contains row.2 = p row.1 := by
    rw [Bool.eq_iff_iff, List.contains_iff_mem, mem_indices, hat]
    simp
  exact congrArg _ hmem

/-! ## Grouping by a key -/

section Grouped
variable [DecidableEq κ]

/-- `groups.setdefault(key, []).append(a)`. -/
def addMember (key : κ) (a : α) : List (κ × List α) → List (κ × List α)
  | [] => [(key, [a])]
  | (k, members) :: groups =>
    if k = key then (k, members ++ [a]) :: groups else (k, members) :: addMember key a groups

/-- The groups in the order in which their keys first come. -/
def grouped (entries : List (κ × α)) : List (κ × List α) :=
  entries.foldl (fun groups entry => addMember entry.1 entry.2 groups) []

theorem mem_keys_addMember {key k : κ} {a : α} {groups : List (κ × List α)} :
    k ∈ (addMember key a groups).map Prod.fst ↔ k = key ∨ k ∈ groups.map Prod.fst := by
  induction groups with
  | nil => simp [addMember]
  | cons group groups ih =>
    obtain ⟨k', members⟩ := group
    by_cases hk : k' = key
    · simp [addMember, hk]
    · simp only [addMember, if_neg hk, List.map_cons, List.mem_cons, ih]
      tauto

theorem nodup_addMember {key : κ} {a : α} {groups : List (κ × List α)}
    (h : (groups.map Prod.fst).Nodup) : ((addMember key a groups).map Prod.fst).Nodup := by
  induction groups with
  | nil => simp [addMember]
  | cons group groups ih =>
    obtain ⟨k, members⟩ := group
    obtain ⟨hnew, hrest⟩ := List.nodup_cons.mp h
    by_cases hk : k = key
    · simpa [addMember, hk] using h
    · simp only [addMember, if_neg hk, List.map_cons]
      refine List.nodup_cons.mpr ⟨fun hmem => ?_, ih hrest⟩
      obtain heq | hmem := mem_keys_addMember.mp hmem
      · exact hk heq
      · exact hnew hmem

theorem addMember_perm (key : κ) (a : α) (groups : List (κ × List α)) :
    ((addMember key a groups).flatMap Prod.snd).Perm (groups.flatMap Prod.snd ++ [a]) := by
  induction groups with
  | nil => simp [addMember]
  | cons group groups ih =>
    obtain ⟨k, members⟩ := group
    rw [addMember]
    split
    · simp only [List.flatMap_cons, List.append_assoc]
      exact List.perm_append_comm.append_left members
    · simp only [List.flatMap_cons, List.append_assoc]
      exact ih.append_left members

theorem grouped_append (entries : List (κ × α)) (entry : κ × α) :
    grouped (entries ++ [entry]) = addMember entry.1 entry.2 (grouped entries) := by
  rw [grouped, List.foldl_append]
  rfl

theorem nodup_grouped (entries : List (κ × α)) : ((grouped entries).map Prod.fst).Nodup := by
  induction entries using List.reverseRecOn with
  | nil => exact List.nodup_nil
  | append_singleton entries entry ih =>
    rw [grouped_append]
    exact nodup_addMember ih

/-- Every entry is in one group, once. -/
theorem grouped_perm (entries : List (κ × α)) :
    ((grouped entries).flatMap Prod.snd).Perm (entries.map Prod.snd) := by
  induction entries using List.reverseRecOn with
  | nil => exact .nil
  | append_singleton entries entry ih =>
    rw [grouped_append, List.map_append]
    exact (addMember_perm entry.1 entry.2 _).trans (ih.append_right _)

theorem mem_keys_grouped {entries : List (κ × α)} {k : κ} :
    k ∈ (grouped entries).map Prod.fst ↔ k ∈ entries.map Prod.fst := by
  induction entries using List.reverseRecOn with
  | nil => rfl
  | append_singleton entries entry ih =>
    rw [grouped_append, mem_keys_addMember, ih, List.map_append, List.mem_append, or_comm]
    simp

theorem of_mem_addMember {key k : κ} {a : α} {members : List α} {groups : List (κ × List α)}
    (hnodup : (groups.map Prod.fst).Nodup) (h : (k, members) ∈ addMember key a groups) :
    k ≠ key ∧ (k, members) ∈ groups ∨ k = key ∧
      ((∃ before, (k, before) ∈ groups ∧ members = before ++ [a]) ∨
        key ∉ groups.map Prod.fst ∧ members = [a]) := by
  induction groups with
  | nil =>
    obtain ⟨rfl, rfl⟩ := Prod.mk.inj (List.mem_singleton.mp h)
    exact .inr ⟨rfl, .inr ⟨by simp, rfl⟩⟩
  | cons group groups ih =>
    obtain ⟨k', before⟩ := group
    obtain ⟨hnew, hrest⟩ := List.nodup_cons.mp hnodup
    by_cases hk : k' = key
    · rw [addMember, if_pos hk] at h
      obtain heq | hmem := List.mem_cons.mp h
      · obtain ⟨rfl, rfl⟩ := Prod.mk.inj heq
        exact .inr ⟨hk, .inl ⟨before, List.mem_cons_self, rfl⟩⟩
      · refine .inl ⟨fun heq => hnew ?_, List.mem_cons_of_mem _ hmem⟩
        exact List.mem_map.mpr ⟨_, hmem, heq.trans hk.symm⟩
    · rw [addMember, if_neg hk] at h
      obtain heq | hmem := List.mem_cons.mp h
      · obtain ⟨rfl, rfl⟩ := Prod.mk.inj heq
        exact .inl ⟨hk, List.mem_cons_self⟩
      · obtain ⟨hne, hold⟩ | ⟨heq, ⟨before, hbefore, hmembers⟩ | ⟨hfresh, hmembers⟩⟩ := ih hrest hmem
        · exact .inl ⟨hne, List.mem_cons_of_mem _ hold⟩
        · exact .inr ⟨heq, .inl ⟨before, List.mem_cons_of_mem _ hbefore, hmembers⟩⟩
        · refine .inr ⟨heq, .inr ⟨fun hkeys => ?_, hmembers⟩⟩
          obtain hfirst | hlater := List.mem_cons.mp hkeys
          · exact hk hfirst.symm
          · exact hfresh hlater

/-- A group is the entries of its key, in their order. -/
theorem of_mem_grouped {entries : List (κ × α)} {k : κ} {members : List α}
    (h : (k, members) ∈ grouped entries) :
    members = (entries.filter fun entry => entry.1 = k).map Prod.snd ∧ members ≠ [] := by
  induction entries using List.reverseRecOn generalizing members with
  | nil => cases h
  | append_singleton entries entry ih =>
    rw [grouped_append] at h
    rw [List.filter_append, List.map_append]
    obtain ⟨hne, hold⟩ | ⟨rfl, ⟨before, hbefore, rfl⟩ | ⟨hnew, rfl⟩⟩ :=
      of_mem_addMember (nodup_grouped entries) h
    · obtain ⟨hmembers, hsome⟩ := ih hold
      simp [hmembers.symm, hsome, Ne.symm hne]
    · obtain ⟨hmembers, _⟩ := ih hbefore
      simp [hmembers.symm]
    · rw [mem_keys_grouped] at hnew
      have hnone : entries.filter (fun e => e.1 = entry.1) = [] := by
        rw [List.filter_eq_nil_iff]
        intro e he
        simpa using fun heq => hnew (List.mem_map.mpr ⟨e, he, heq⟩)
      simp [hnone]

end Grouped

end DataQ.Partition
