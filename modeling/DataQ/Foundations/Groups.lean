import DataQ.Foundations.Dictionary
import DataQ.Foundations.Partition

/-! # Answers in groups

A list is answered group by group, each group a list of positions, and the answers are put back by
position. What then stands at a position was answered at that position's place in its group. -/

namespace DataQ.Groups
open DataQ.Partition
set_option autoImplicit false

variable {ε α β : Type*}

/-- Positions, and what was answered for them. -/
structure Group (ε β : Type*) where
  positions : List ℕ
  answer : Except ε (List β)

/-- The answer holds `outcome` at the place that position `i` has in the group. -/
def Group.Answers (group : Group ε β) (i : ℕ) (outcome : β) : Prop :=
  ∃ (outcomes : List β) (k : ℕ), group.answer = .ok outcomes ∧ group.positions[k]? = some i ∧
    outcomes[k]? = some outcome

theorem Group.Answers.mem {group : Group ε β} {i : ℕ} {outcome : β}
    (h : group.Answers i outcome) : i ∈ group.positions := by
  obtain ⟨outcomes, k, _, hpos, _⟩ := h
  exact List.mem_of_getElem? hpos

/-- One outcome for each position. -/
def Group.Answered (group : Group ε β) : Prop :=
  ∃ outcomes, group.answer = .ok outcomes ∧ outcomes.length = group.positions.length

/-- `by_position.update(zip(positions, outcomes, strict=True))`. -/
def addGroup (mismatch : ε) (entries : List (ℕ × β)) (group : Group ε β) :
    Except ε (List (ℕ × β)) :=
  match group.answer with
  | .error e => .error e
  | .ok outcomes =>
    if outcomes.length = group.positions.length then
      .ok ((group.positions.zip outcomes).foldl (fun entries entry =>
        setField entry.1 entry.2 entries) entries)
    else .error mismatch

/-- `[by_position[i] for i in range(total)]`. -/
def readPositions (missing : ε) (total : ℕ) (entries : List (ℕ × β)) : Except ε (List β) :=
  (List.range total).mapM fun i =>
    match entries.lookup i with
    | some outcome => .ok outcome
    | none => .error missing

def addGroups (mismatch : ε) : List (Group ε β) → List (ℕ × β) → Except ε (List (ℕ × β))
  | [], entries => .ok entries
  | group :: groups, entries =>
    match addGroup mismatch entries group with
    | .error e => .error e
    | .ok entries => addGroups mismatch groups entries

/-- The groups' answers in the order of the positions. -/
def collect (mismatch missing : ε) (total : ℕ) (groups : List (Group ε β)) :
    Except ε (List β) :=
  match addGroups mismatch groups [] with
  | .error e => .error e
  | .ok entries => readPositions missing total entries

theorem answers_of_mem_zip {group : Group ε β} {outcomes : List β} {i : ℕ} {outcome : β}
    (hanswer : group.answer = .ok outcomes) (h : (i, outcome) ∈ group.positions.zip outcomes) :
    group.Answers i outcome := by
  obtain ⟨k, hk⟩ := List.mem_iff_getElem?.mp h
  obtain ⟨hpos, hout⟩ := List.getElem?_zip_eq_some.mp hk
  exact ⟨outcomes, k, hanswer, hpos, hout⟩

theorem addGroup_answers {mismatch : ε} {entries entries' : List (ℕ × β)} {group : Group ε β}
    (h : addGroup mismatch entries group = .ok entries') {i : ℕ} {outcome : β}
    (hi : entries'.lookup i = some outcome) :
    group.Answers i outcome ∨ entries.lookup i = some outcome := by
  unfold addGroup at h
  cases hanswer : group.answer with
  | error e => simp [hanswer] at h
  | ok outcomes =>
    simp only [hanswer] at h
    split at h
    · obtain rfl := Except.ok.inj h
      exact (lookup_foldl_setField hi).imp_left (answers_of_mem_zip hanswer)
    · cases h

theorem addGroups_answers {mismatch : ε} {groups : List (Group ε β)}
    {entries entries' : List (ℕ × β)} (h : addGroups mismatch groups entries = .ok entries')
    {i : ℕ} {outcome : β} (hi : entries'.lookup i = some outcome) :
    (∃ group ∈ groups, group.Answers i outcome) ∨ entries.lookup i = some outcome := by
  induction groups generalizing entries with
  | nil =>
    obtain rfl := Except.ok.inj h
    exact .inr hi
  | cons group groups ih =>
    unfold addGroups at h
    cases hadd : addGroup mismatch entries group with
    | error e => simp [hadd] at h
    | ok middle =>
      simp only [hadd] at h
      obtain ⟨later, hlater, hanswers⟩ | hmiddle := ih h
      · exact .inl ⟨later, List.mem_cons_of_mem _ hlater, hanswers⟩
      · exact (addGroup_answers hadd hmiddle).imp_left fun hanswers =>
          ⟨group, List.mem_cons_self, hanswers⟩

theorem mapM_ok_getElem {f : α → Except ε β} {xs : List α} {ys : List β}
    (h : xs.mapM f = .ok ys) :
    ys.length = xs.length ∧ ∀ (i : ℕ) y, ys[i]? = some y → ∃ x, xs[i]? = some x ∧ f x = .ok y := by
  induction xs generalizing ys with
  | nil =>
    obtain rfl := Except.ok.inj h
    exact ⟨rfl, fun i y hy => by simp at hy⟩
  | cons x xs ih =>
    rw [List.mapM_cons] at h
    cases hx : f x with
    | error e => simp [hx, bind, Except.bind] at h
    | ok y =>
      cases hxs : xs.mapM f with
      | error e => simp [hx, hxs, bind, Except.bind] at h
      | ok rest =>
        simp only [hx, hxs, bind, Except.bind, pure, Except.pure, Except.ok.injEq] at h
        obtain ⟨hlength, hat⟩ := ih hxs
        subst h
        refine ⟨by simp [hlength], ?_⟩
        intro i y' hy
        cases i with
        | zero => exact ⟨x, rfl, by rw [hx]; exact congrArg _ (Option.some.inj hy)⟩
        | succ i => exact hat i y' hy

/-- What is put back at a position was answered for it by a group. -/
theorem collect_answers {mismatch missing : ε} {total : ℕ} {groups : List (Group ε β)}
    {outcomes : List β} (h : collect mismatch missing total groups = .ok outcomes) :
    outcomes.length = total ∧
      ∀ i outcome, outcomes[i]? = some outcome → ∃ group ∈ groups, group.Answers i outcome := by
  unfold collect at h
  cases hadd : addGroups mismatch groups [] with
  | error e => simp [hadd] at h
  | ok entries =>
    simp only [hadd] at h
    obtain ⟨hlength, hat⟩ := mapM_ok_getElem h
    refine ⟨by rw [hlength, List.length_range], ?_⟩
    intro i outcome hi
    obtain ⟨j, hj, hread⟩ := hat i outcome hi
    obtain ⟨hlt, rfl⟩ := List.getElem?_eq_some_iff.mp hj
    rw [List.getElem_range] at hread
    have hlookup : entries.lookup i = some outcome := by
      split at hread
      · next found hfound => rw [hfound, Except.ok.inj hread]
      · cases hread
    exact (addGroups_answers hadd hlookup).resolve_right (by simp)

/-! ## Nothing is missing -/

theorem addGroup_of_answered (mismatch : ε) (entries : List (ℕ × β)) {group : Group ε β}
    (h : group.Answered) :
    ∃ entries', addGroup mismatch entries group = .ok entries' ∧
      ∀ i, i ∈ entries'.map Prod.fst ↔ i ∈ group.positions ∨ i ∈ entries.map Prod.fst := by
  obtain ⟨outcomes, hanswer, hlength⟩ := h
  refine ⟨_, by rw [addGroup, hanswer]; exact if_pos hlength, fun i => ?_⟩
  rw [mem_keys_foldl_setField, List.map_fst_zip (by omega)]

theorem addGroups_of_answered (mismatch : ε) {groups : List (Group ε β)}
    (h : ∀ group ∈ groups, group.Answered) (entries : List (ℕ × β)) :
    ∃ entries', addGroups mismatch groups entries = .ok entries' ∧
      ∀ i, i ∈ entries'.map Prod.fst ↔
        (∃ group ∈ groups, i ∈ group.positions) ∨ i ∈ entries.map Prod.fst := by
  induction groups generalizing entries with
  | nil => exact ⟨entries, rfl, by simp⟩
  | cons group groups ih =>
    obtain ⟨middle, hmiddle, hkeys⟩ := addGroup_of_answered mismatch entries
      (h group List.mem_cons_self)
    obtain ⟨entries', hlast, hrest⟩ := ih (fun g hg => h g (List.mem_cons_of_mem _ hg)) middle
    refine ⟨entries', by rw [addGroups, hmiddle]; exact hlast, fun i => ?_⟩
    rw [hrest, hkeys, List.exists_mem_cons_iff, or_left_comm, or_assoc]

theorem mapM_ok_of_forall {f : α → Except ε β} {xs : List α} (h : ∀ x ∈ xs, ∃ y, f x = .ok y) :
    ∃ ys, xs.mapM f = .ok ys := by
  induction xs with
  | nil => exact ⟨[], rfl⟩
  | cons x xs ih =>
    obtain ⟨y, hy⟩ := h x List.mem_cons_self
    obtain ⟨ys, hys⟩ := ih fun x' hx' => h x' (List.mem_cons_of_mem _ hx')
    exact ⟨y :: ys, by rw [List.mapM_cons, hy, hys]; rfl⟩

/-- Groups that cover the positions and are all answered are put back together. -/
theorem collect_of_answered (mismatch missing : ε) {total : ℕ} {groups : List (Group ε β)}
    (h : ∀ group ∈ groups, group.Answered)
    (hcover : ∀ i < total, ∃ group ∈ groups, i ∈ group.positions) :
    ∃ outcomes, collect mismatch missing total groups = .ok outcomes := by
  obtain ⟨entries, hadd, hkeys⟩ := addGroups_of_answered mismatch h []
  rw [collect, hadd]
  apply mapM_ok_of_forall
  intro i hi
  have hmem : i ∈ entries.map Prod.fst := (hkeys i).mpr (.inl (hcover i (List.mem_range.mp hi)))
  cases hlookup : entries.lookup i with
  | some outcome => exact ⟨outcome, rfl⟩
  | none =>
    obtain ⟨entry, hentry, rfl⟩ := List.mem_map.mp hmem
    have hne := List.lookup_eq_none_iff.mp hlookup entry hentry
    simp at hne

end DataQ.Groups
