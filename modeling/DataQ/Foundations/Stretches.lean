import Mathlib.Data.List.SplitBy
import Mathlib.Tactic.Common

/-! # Stretches of a list

The maximal stretches of a list whose items all qualify and each follow on the one before, and the
one pass that collects them. -/

namespace DataQ.Stretches
set_option autoImplicit false

variable {α : Type*} (follows : α → α → Bool) (qualifies : α → Bool)

/-- Both qualify and the second follows on the first. -/
def linked (a b : α) : Bool := qualifies a && qualifies b && follows a b

def stretches (items : List α) : List (List α) :=
  (items.splitBy (linked follows qualifies)).filter fun stretch => stretch.all qualifies

/-- A stretch with what stands before and after it: it is not longer on either side. -/
structure IsStretch (items stretch : List α) : Prop where
  ne_nil : stretch ≠ []
  all : ∀ a ∈ stretch, qualifies a = true
  chain : stretch.IsChain fun a b => follows a b = true
  maximal : ∃ before after, items = before ++ (stretch ++ after) ∧
    (∀ a ∈ before.getLast?, ∀ b ∈ stretch.head?, ¬ (qualifies a = true ∧ follows a b = true)) ∧
    ∀ a ∈ stretch.getLast?, ∀ b ∈ after.head?, ¬ (qualifies b = true ∧ follows a b = true)

variable {follows qualifies}

theorem linked_iff {a b : α} : linked follows qualifies a b = true ↔
    qualifies a = true ∧ qualifies b = true ∧ follows a b = true := by
  simp [linked, and_assoc]

theorem linked_eq_false {a b : α} (h : ¬ (qualifies a = true ∧ follows a b = true)) :
    linked follows qualifies a b = false := by
  rw [← Bool.not_eq_true, linked_iff]
  exact fun hlinked => h ⟨hlinked.1, hlinked.2.2⟩

theorem linked_eq_false' {a b : α} (h : ¬ (qualifies b = true ∧ follows a b = true)) :
    linked follows qualifies a b = false := by
  rw [← Bool.not_eq_true, linked_iff]
  exact fun hlinked => h hlinked.2

/-! ## Pieces -/

/-- No link leads from one piece into the next. -/
theorem stretches_append {items more : List α}
    (h : ∀ a ∈ items.getLast?, ∀ b ∈ more.head?, linked follows qualifies a b = false) :
    stretches follows qualifies (items ++ more) =
      stretches follows qualifies items ++ stretches follows qualifies more := by
  rw [stretches, List.splitBy_append h, List.filter_append]
  rfl

theorem isChain_linked {stretch : List α} (hall : ∀ a ∈ stretch, qualifies a = true)
    (h : stretch.IsChain fun a b => follows a b = true) :
    stretch.IsChain fun a b => linked follows qualifies a b = true := by
  induction stretch with
  | nil => exact List.isChain_nil
  | cons a rest ih =>
    obtain ⟨hhead, hrest⟩ := List.isChain_cons.mp h
    have hmem : ∀ b ∈ rest, qualifies b = true := fun b hb => hall b (List.mem_cons_of_mem a hb)
    refine List.isChain_cons.mpr ⟨fun b hb => ?_, ih hmem hrest⟩
    exact linked_iff.mpr
      ⟨hall a List.mem_cons_self, hmem b (List.mem_of_mem_head? hb), hhead b hb⟩

theorem stretches_self {stretch : List α} (hne : stretch ≠ [])
    (hall : ∀ a ∈ stretch, qualifies a = true)
    (h : stretch.IsChain fun a b => follows a b = true) :
    stretches follows qualifies stretch = [stretch] := by
  rw [stretches, List.splitBy_of_isChain hne (isChain_linked hall h)]
  have htrue : stretch.all qualifies = true := List.all_eq_true.mpr hall
  simp [htrue]

theorem stretches_cons {a : α} (h : qualifies a = false) (items : List α) :
    stretches follows qualifies (a :: items) = stretches follows qualifies items := by
  have hnone : stretches follows qualifies [a] = [] := by
    simp [stretches, List.splitBy_of_isChain, h]
  have hbreak : ∀ b ∈ [a].getLast?, ∀ c ∈ items.head?, linked follows qualifies b c = false := by
    intro b hb c _
    obtain rfl : a = b := by simpa using hb
    simp [linked, h]
  show stretches follows qualifies ([a] ++ items) = _
  rw [stretches_append hbreak, hnone, List.nil_append]

/-! ## What the stretches are -/

theorem IsStretch.mem {items stretch : List α} (h : IsStretch follows qualifies items stretch) :
    stretch ∈ stretches follows qualifies items := by
  obtain ⟨before, after, hitems, hbefore, hafter⟩ := h.maximal
  have hleft : ∀ a ∈ before.getLast?, ∀ b ∈ (stretch ++ after).head?,
      linked follows qualifies a b = false := by
    intro a ha b hb
    rw [List.head?_append_of_ne_nil _ h.ne_nil] at hb
    exact linked_eq_false (hbefore a ha b hb)
  have hright : ∀ a ∈ stretch.getLast?, ∀ b ∈ after.head?,
      linked follows qualifies a b = false :=
    fun a ha b hb => linked_eq_false' (hafter a ha b hb)
  rw [hitems, stretches_append hleft, stretches_append hright,
    stretches_self h.ne_nil h.all h.chain]
  simp

theorem isStretch_of_mem {items stretch : List α}
    (h : stretch ∈ stretches follows qualifies items) :
    IsStretch follows qualifies items stretch := by
  obtain ⟨hmem, hall⟩ := List.mem_filter.mp h
  have hall := List.all_eq_true.mp hall
  have hne := List.ne_nil_of_mem_splitBy hmem
  have hchain := List.isChain_of_mem_splitBy hmem
  have hbreaks := List.isChain_getLast_head_splitBy (linked follows qualifies) items
  have hflatten := List.flatten_splitBy (linked follows qualifies) items
  obtain ⟨pieces, more, hsplit⟩ := List.append_of_mem hmem
  have hnil := List.nil_notMem_splitBy (linked follows qualifies) items
  rw [hsplit] at hbreaks hflatten hnil
  obtain ⟨_, hlast, hbefore⟩ := List.isChain_append.mp hbreaks
  refine ⟨hne, hall, hchain.imp fun a b hlink => (linked_iff.mp hlink).2.2, pieces.flatten,
    more.flatten, ?_, ?_, ?_⟩
  · rw [← hflatten, List.flatten_append, List.flatten_cons]
  · intro a ha b hb
    obtain rfl | ⟨others, piece, rfl⟩ := pieces.eq_nil_or_concat'
    · cases ha
    · have hpiece : piece ≠ [] := by
        rintro rfl
        simp at hnil
      rw [List.flatten_append, List.flatten_singleton,
        List.getLast?_append_of_ne_nil _ hpiece] at ha
      obtain ⟨_, _, hbreak⟩ := hbefore piece (by simp) stretch rfl
      rw [List.getLast_of_mem_getLast? ha, List.head_of_mem_head? hb] at hbreak
      have hqb := hall b (List.mem_of_mem_head? hb)
      rintro ⟨hqa, hfollows⟩
      rw [linked_iff.mpr ⟨hqa, hqb, hfollows⟩] at hbreak
      cases hbreak
  · intro a ha b hb
    cases more with
    | nil => cases hb
    | cons piece others =>
      have hpiece : piece ≠ [] := by
        rintro rfl
        simp at hnil
      rw [List.flatten_cons, List.head?_append_of_ne_nil _ hpiece] at hb
      obtain ⟨_, _, hbreak⟩ := (List.isChain_cons.mp hlast).1 piece rfl
      rw [List.getLast_of_mem_getLast? ha, List.head_of_mem_head? hb] at hbreak
      have hqa := hall a (List.mem_of_mem_getLast? ha)
      rintro ⟨hqb, hfollows⟩
      rw [linked_iff.mpr ⟨hqa, hqb, hfollows⟩] at hbreak
      cases hbreak

theorem mem_stretches {items stretch : List α} :
    stretch ∈ stretches follows qualifies items ↔ IsStretch follows qualifies items stretch :=
  ⟨isStretch_of_mem, IsStretch.mem⟩

/-- Each item is in one stretch at most, and they stand in the order of the list. -/
theorem flatten_stretches_sublist (items : List α) :
    (stretches follows qualifies items).flatten.Sublist items := by
  have hsub := (List.filter_sublist (p := fun stretch => stretch.all qualifies)
    (l := items.splitBy (linked follows qualifies))).flatten
  rwa [List.flatten_splitBy] at hsub

/-! ## The pass -/

section Scan
variable (follows qualifies) (least : ℕ)

/-- The stretch that is open, and those that are closed: a short one is forgotten. -/
abbrev Scan (α : Type*) := List α × List (List α)

def Scan.close (s : Scan α) : Scan α :=
  ([], if least ≤ s.1.length then s.2 ++ [s.1] else s.2)

def Scan.step (s : Scan α) (a : α) : Scan α :=
  let s := if s.1.getLast?.any fun b => !follows b a then s.close least else s
  if qualifies a then (s.1 ++ [a], s.2) else s.close least

def scan (items : List α) : List (List α) :=
  ((items.foldl (Scan.step follows qualifies least) ([], [])).close least).2

end Scan

variable {least : ℕ}

theorem close_snd (hleast : 1 ≤ least) {run : List α} (closed : List (List α))
    (hall : ∀ a ∈ run, qualifies a = true) (hchain : run.IsChain fun a b => follows a b = true) :
    (Scan.close least (run, closed)).2 = closed ++
      (stretches follows qualifies run).filter fun stretch => least ≤ stretch.length := by
  by_cases hne : run = []
  · subst hne
    simp only [Scan.close, List.length_nil]
    rw [if_neg (by omega)]
    simp [stretches]
  · rw [stretches_self hne hall hchain]
    simp only [Scan.close]
    split
    · next hlong => simp [hlong]
    · next hshort => simp [hshort]

theorem scan_from (hleast : 1 ≤ least) (items : List α) {run : List α} (closed : List (List α))
    (hall : ∀ a ∈ run, qualifies a = true) (hchain : run.IsChain fun a b => follows a b = true) :
    ((items.foldl (Scan.step follows qualifies least) (run, closed)).close least).2 = closed ++
      (stretches follows qualifies (run ++ items)).filter fun stretch =>
        least ≤ stretch.length := by
  induction items generalizing run closed with
  | nil =>
    rw [List.foldl_nil, List.append_nil]
    exact close_snd hleast closed hall hchain
  | cons a items ih =>
    -- Once the open stretch is closed, what is left is the pass over the rest.
    have hfresh : ∀ closed : List (List α),
        ((items.foldl (Scan.step follows qualifies least)
          (if qualifies a then ([a], closed) else Scan.close least ([], closed))).close least).2 =
        closed ++ (stretches follows qualifies (a :: items)).filter fun stretch =>
          least ≤ stretch.length := by
      intro closed
      cases ha : qualifies a with
      | true =>
        rw [if_pos rfl]
        exact ih closed (by simpa using ha) (List.isChain_singleton a)
      | false =>
        have hempty : Scan.close least (([], closed) : Scan α) = ([], closed) := by
          simp only [Scan.close, List.length_nil]
          rw [if_neg (by omega)]
        rw [if_neg (by simp), hempty, ih closed (by simp) List.isChain_nil, stretches_cons ha]
        rfl
    have hclosed : (∀ b ∈ run.getLast?, linked follows qualifies b a = false) →
        closed ++ (stretches follows qualifies (run ++ a :: items)).filter
            (fun stretch => least ≤ stretch.length) =
          (Scan.close least (run, closed)).2 ++
            (stretches follows qualifies (a :: items)).filter
              fun stretch => least ≤ stretch.length := by
      intro hbreak
      have hsplit : ∀ b ∈ run.getLast?, ∀ c ∈ (a :: items).head?,
          linked follows qualifies b c = false := by
        intro b hb c hc
        obtain rfl : a = c := by simpa using hc
        exact hbreak b hb
      rw [stretches_append hsplit, List.filter_append, close_snd hleast closed hall hchain,
        List.append_assoc]
    rw [List.foldl_cons]
    by_cases hbreaks : (run.getLast?.any fun b => !follows b a) = true
    · have hstep : Scan.step follows qualifies least (run, closed) a =
          if qualifies a then ([a], (Scan.close least (run, closed)).2)
          else Scan.close least ([], (Scan.close least (run, closed)).2) := by
        simp only [Scan.step, hbreaks, if_true]
        rfl
      rw [hstep, hfresh, hclosed]
      intro b hb
      rw [Option.mem_def.mp hb] at hbreaks
      have hfollows : follows b a = false := by simpa using hbreaks
      simp [linked, hfollows]
    · have hfollows : ∀ b ∈ run.getLast?, follows b a = true := by
        intro b hb
        rw [Option.mem_def.mp hb] at hbreaks
        simpa using hbreaks
      cases ha : qualifies a with
      | true =>
        have hstep : Scan.step follows qualifies least (run, closed) a = (run ++ [a], closed) := by
          simp only [Scan.step, hbreaks, ha, if_true]
          rfl
        rw [hstep, ih closed, List.append_assoc]
        · rfl
        · intro b hb
          obtain hb | hb := List.mem_append.mp hb
          · exact hall b hb
          · rw [List.mem_singleton.mp hb]
            exact ha
        · refine List.isChain_append.mpr ⟨hchain, List.isChain_singleton a, fun b hb c hc => ?_⟩
          obtain rfl : a = c := by simpa using hc
          exact hfollows b hb
      | false =>
        have hstep : Scan.step follows qualifies least (run, closed) a =
            Scan.close least ([], (Scan.close least (run, closed)).2) := by
          simp only [Scan.step, hbreaks, ha, Scan.close, List.length_nil, Bool.false_eq_true,
            if_false]
          rw [if_neg (show ¬ least ≤ 0 by omega)]
        have hrest := hfresh (Scan.close least (run, closed)).2
        rw [ha, if_neg (by simp)] at hrest
        rw [hstep, hrest, hclosed]
        intro b _
        simp [linked, ha]

/-- The pass finds the stretches of the least length. -/
theorem scan_eq (hleast : 1 ≤ least) (items : List α) :
    scan follows qualifies least items =
      (stretches follows qualifies items).filter fun stretch => least ≤ stretch.length := by
  have hfrom := @scan_from α follows qualifies least hleast items [] []
    (by simp : ∀ a ∈ ([] : List α), qualifies a = true) List.isChain_nil
  rwa [List.nil_append, List.nil_append] at hfrom

end DataQ.Stretches
