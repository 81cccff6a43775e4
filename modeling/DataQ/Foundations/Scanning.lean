import Mathlib.Data.List.DropRight
import Mathlib.Tactic.Common

/-! # Scanners that blank out constructs

A scanner goes over a text once from the left. At each position it either takes a whole construct
and puts one blank in its place, or emits one character. Two scanners that take the same constructs
wherever the first one looks leave the same text. `runs` are the maximal stretches of a class of
characters in such a text. -/

namespace DataQ.Scanning
set_option autoImplicit false

variable {α : Type*}

/-- What is taken at a position, from what was emitted since the last construct (backwards) and
the rest of the text: what follows the construct, and whether it was closed. -/
abbrev Skip (α : Type*) := (before rest : List α) → Option (List α × Bool)

/-- The text with a blank for each construct, and whether every construct was closed. -/
def scan (skip : Skip α) (blank : α) : (fuel : ℕ) → (before rest : List α) → List α × Bool
  | 0, _, _ => ([], true)
  | _ + 1, _, [] => ([], true)
  | fuel + 1, before, c :: cs =>
    match skip before (c :: cs) with
    | some (rest, closed) =>
      let out := scan skip blank fuel [] rest
      (blank :: out.1, closed && out.2)
    | none =>
      let out := scan skip blank fuel (c :: before) cs
      (c :: out.1, out.2)

/-- A construct takes at least one character. -/
def Shrinks (skip : Skip α) : Prop :=
  ∀ before rest after closed, skip before rest = some (after, closed) → after.length < rest.length

theorem scan_fuel {skip : Skip α} (hskip : Shrinks skip) (blank : α) {fuel : ℕ}
    {before rest : List α} (h : rest.length ≤ fuel) :
    scan skip blank (fuel + 1) before rest = scan skip blank fuel before rest := by
  induction fuel generalizing before rest with
  | zero =>
    have hnil : rest = [] := List.length_eq_zero_iff.mp (by omega)
    rw [hnil]
    rfl
  | succ fuel ih =>
    cases rest with
    | nil => rfl
    | cons c cs =>
      rw [List.length_cons] at h
      rw [scan, scan]
      cases hs : skip before (c :: cs) with
      | none => simp only [@ih (c :: before) cs (by omega)]
      | some taken =>
        have hlt := hskip before (c :: cs) taken.1 taken.2 hs
        rw [List.length_cons] at hlt
        simp only [@ih [] taken.1 (by omega)]

/-- Wherever the first scanner looks, both take the same. -/
def agree [DecidableEq α] (skip skip' : Skip α) : (fuel : ℕ) → (before rest : List α) → Bool
  | 0, _, _ => true
  | _ + 1, _, [] => true
  | fuel + 1, before, c :: cs =>
    (skip before (c :: cs)).map Prod.fst = (skip' before (c :: cs)).map Prod.fst &&
      match skip before (c :: cs) with
      | some (rest, _) => agree skip skip' fuel [] rest
      | none => agree skip skip' fuel (c :: before) cs

theorem agree_of_same [DecidableEq α] {skip skip' : Skip α}
    (h : ∀ before rest, (skip before rest).map Prod.fst = (skip' before rest).map Prod.fst)
    {fuel : ℕ} {before rest : List α} : agree skip skip' fuel before rest = true := by
  induction fuel generalizing before rest with
  | zero => rfl
  | succ fuel ih =>
    cases rest with
    | nil => rfl
    | cons c cs =>
      rw [agree, Bool.and_eq_true]
      refine ⟨decide_eq_true (h before (c :: cs)), ?_⟩
      split
      · exact ih
      · exact ih

theorem scan_eq_of_agree [DecidableEq α] {skip skip' : Skip α} (blank : α) {fuel : ℕ}
    {before rest : List α} (h : agree skip skip' fuel before rest = true) :
    (scan skip blank fuel before rest).1 = (scan skip' blank fuel before rest).1 := by
  induction fuel generalizing before rest with
  | zero => rfl
  | succ fuel ih =>
    cases rest with
    | nil => rfl
    | cons c cs =>
      rw [agree, Bool.and_eq_true] at h
      obtain ⟨hsame, hrest⟩ := h
      have hsame := of_decide_eq_true hsame
      rw [scan, scan]
      cases hs : skip before (c :: cs) with
      | none =>
        rw [hs] at hsame hrest
        have hs' : skip' before (c :: cs) = none := Option.map_eq_none_iff.mp hsame.symm
        rw [hs']
        simp only [ih hrest]
      | some taken =>
        rw [hs] at hsame hrest
        obtain ⟨taken', hs', hfst⟩ := Option.map_eq_some_iff.mp hsame.symm
        rw [hs']
        have hend := ih hrest
        simp only [hfst, hend]

/-! ## Runs of a class of characters -/

/-- `re.findall("[…]+", text)`. -/
def runs (p : α → Bool) (xs : List α) : List (List α) := (xs.splitOnP (!p ·)).filter (· ≠ [])

theorem splitOnP_flatMap {p q : α → Bool} (h : ∀ x, p x = true → q x = true) (xs : List α) :
    xs.splitOnP q = (xs.splitOnP p).flatMap (List.splitOnP q) := by
  induction xs with
  | nil => simp
  | cons x xs ih =>
    obtain ⟨head, tail, hp⟩ := List.exists_cons_of_ne_nil (List.splitOnP_ne_nil p xs)
    rw [hp, List.flatMap_cons] at ih
    rw [List.splitOnP_cons_eq_if_modifyHead, List.splitOnP_cons_eq_if_modifyHead, hp]
    cases hpx : p x with
    | true => simp [h x hpx, ih]
    | false =>
      obtain ⟨piece, pieces, hq⟩ := List.exists_cons_of_ne_nil (List.splitOnP_ne_nil q head)
      rw [hq] at ih
      cases hqx : q x <;> simp [List.splitOnP_cons_eq_if_modifyHead, hqx, ih, hq]

theorem mem_splitOnP_append {q : α → Bool} {g w : List α} (hg : ∀ x ∈ g, q x = true)
    (hw : ∀ x ∈ w, q x = false) : w ∈ (g ++ w).splitOnP q := by
  induction g with
  | nil => simp [List.splitOnP_eq_singleton hw]
  | cons x g ih =>
    rw [List.cons_append, List.splitOnP_cons_eq_if_modifyHead, if_pos (hg x List.mem_cons_self)]
    exact List.mem_cons_of_mem _ (ih fun y hy => hg y (List.mem_cons_of_mem _ hy))

/-- The part of a run that is in a smaller class, behind what is not, is a run of that class. -/
theorem mem_runs_of_suffix {p q : α → Bool} (h : ∀ x, q x = true → p x = true) {xs g w : List α}
    (hrun : g ++ w ∈ runs p xs) (hg : ∀ x ∈ g, q x = false) (hw : ∀ x ∈ w, q x = true)
    (hne : w ≠ []) : w ∈ runs q xs := by
  obtain ⟨hpiece, -⟩ := List.mem_filter.mp hrun
  refine List.mem_filter.mpr ⟨?_, by simpa using hne⟩
  rw [splitOnP_flatMap (p := (!p ·)) (q := (!q ·)) fun x hx => by
    cases hq : q x with
    | false => rfl
    | true => simp [h x hq] at hx]
  refine List.mem_flatMap.mpr ⟨_, hpiece, mem_splitOnP_append (fun x hx => ?_) fun x hx => ?_⟩
  · simp [hg x hx]
  · simp [hw x hx]

theorem mem_of_mem_splitOnP {p : α → Bool} {xs piece : List α} (h : piece ∈ xs.splitOnP p) :
    ∀ x ∈ piece, x ∈ xs ∧ p x = false := by
  induction xs generalizing piece with
  | nil =>
    intro x hx
    rw [List.splitOnP_nil, List.mem_singleton] at h
    rw [h] at hx
    cases hx
  | cons y ys ih =>
    intro x hx
    rw [List.splitOnP_cons_eq_if_modifyHead] at h
    obtain ⟨head, tail, hp⟩ := List.exists_cons_of_ne_nil (List.splitOnP_ne_nil p ys)
    rw [hp] at h ih
    cases hy : p y with
    | true =>
      rw [if_pos hy] at h
      rcases List.mem_cons.mp h with rfl | h
      · cases hx
      · obtain ⟨h1, h2⟩ := ih h x hx
        exact ⟨List.mem_cons_of_mem _ h1, h2⟩
    | false =>
      rw [if_neg (by simp [hy]), List.modifyHead_cons] at h
      rcases List.mem_cons.mp h with rfl | h
      · rcases List.mem_cons.mp hx with rfl | hx
        · exact ⟨List.mem_cons_self, hy⟩
        · obtain ⟨h1, h2⟩ := ih List.mem_cons_self x hx
          exact ⟨List.mem_cons_of_mem _ h1, h2⟩
      · obtain ⟨h1, h2⟩ := ih (List.mem_cons_of_mem _ h) x hx
        exact ⟨List.mem_cons_of_mem _ h1, h2⟩

theorem runs_eq_nil {p : α → Bool} {xs : List α} (h : ∀ x ∈ xs, p x = false) : runs p xs = [] := by
  rw [runs, List.filter_eq_nil_iff]
  intro piece hpiece
  cases piece with
  | nil => simp
  | cons x rest =>
    obtain ⟨hmem, hp⟩ := mem_of_mem_splitOnP hpiece x List.mem_cons_self
    simp [h x hmem] at hp

theorem runs_append_left {p : α → Bool} {pre xs : List α} (h : ∀ x ∈ pre, p x = false) :
    runs p (pre ++ xs) = runs p xs := by
  induction pre with
  | nil => rfl
  | cons x pre ih =>
    rw [← ih fun y hy => h y (List.mem_cons_of_mem _ hy), runs, runs, List.cons_append,
      List.splitOnP_cons_eq_if_modifyHead, if_pos (by simp [h x List.mem_cons_self])]
    rfl

theorem runs_append_right {p : α → Bool} {xs post : List α} (h : ∀ x ∈ post, p x = false) :
    runs p (xs ++ post) = runs p xs := by
  cases post with
  | nil => rw [List.append_nil]
  | cons x post =>
    have hpost : runs p post = [] := runs_eq_nil fun y hy => h y (List.mem_cons_of_mem _ hy)
    rw [runs] at hpost
    rw [runs, List.splitOnP_append_cons _ _ (by simp [h x List.mem_cons_self]), List.filter_append,
      hpost, List.append_nil]
    rfl

end DataQ.Scanning
