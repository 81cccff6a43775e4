import DataQ.Foundations.Exploration
import DataQ.Lineage.Columns
import Mathlib.Data.Finset.Card

/-! # Upstream sources of all columns

`upstream_column_sources` of `lineage/columns.py`: one walk over the recorded pairs for all columns
of an asset, which carries with every cell the columns that it feeds. -/

namespace DataQ.Lineage.Columns
open DataQ.Exploration
set_option autoImplicit false

/-- `MAX_SOURCE_NODES`. -/
def maxSourceNodes : ℕ := 2000

/-- A dict of sets, by its keys and their members: cells with columns of the start asset. -/
abbrev Labels := Finset (Cell × Text)

/-- `labels.get(cell)`. -/
def labelsOf (labels : Labels) (cell : Cell) : Finset Text :=
  (labels.filter fun x => x.1 = cell).image Prod.snd

def cellsOf (labels : Labels) : Finset Cell := labels.image Prod.fst

/-- What one level of the walk writes. -/
structure Marks where
  seen : Labels
  sources : Finset (Text × Cell)
  next : Labels
  truncated : Bool

structure SourceWalk where
  depth : ℕ
  frontier : Labels
  wantedAssets : Finset ℕ
  seen : Labels
  sources : Finset (Text × Cell)
  truncated : Bool

section Walk
variable (py : Python) (cases : Cases) (cache : Cache) (asset : ℕ)

/-- The columns of the start asset that a cell is followed for. -/
def originsOf (depth : ℕ) (frontier : Labels) (down : Cell) : Finset Text :=
  if depth = 0 ∧ down.1 = asset then {down.2} else labelsOf frontier down

/-- One pair of an edge. -/
def followPair (depth : ℕ) (frontier : Labels) (m : Marks) (step : (ℕ × ℕ) × ColumnPair) : Marks :=
  let down := downCell cases cache step.1 step.2
  let up := upCell cases cache step.1 step.2
  let new := originsOf asset depth frontier down \ labelsOf m.seen up
  if new = ∅ then m
  else if maxSourceNodes ≤ (cellsOf m.seen).card ∧ up ∉ cellsOf m.seen then
    { m with truncated := true }
  else
    { m with
      seen := m.seen ∪ new.image (up, ·)
      sources := m.sources ∪ new.image (·, up)
      next := m.next ∪ new.image (up, ·) }

/-- The pairs of the edges into the wanted assets, edge by edge. -/
def levelPairs (wanted : Finset ℕ) : List ((ℕ × ℕ) × ColumnPair) :=
  (inOrder (load py cache fun row => row.key.2 ∈ wanted)).flatMap fun edge =>
    if edge.1.2 ∈ wanted then edge.2.pairs.map (edge.1, ·) else []

/-- One level of the walk. -/
def SourceWalk.level (w : SourceWalk) : SourceWalk :=
  let m := (levelPairs py cache w.wantedAssets).foldl
    (followPair cases cache asset w.depth w.frontier) ⟨w.seen, w.sources, ∅, w.truncated⟩
  { depth := w.depth + 1
    frontier := m.next
    wantedAssets := m.next.image fun x => x.1.1
    seen := m.seen
    sources := m.sources
    truncated := m.truncated }

/-- The levels up to the cap on the depth. -/
def SourceWalk.run : ℕ → SourceWalk → SourceWalk
  | levels, w =>
    if w.wantedAssets = ∅ then w
    else
      match levels with
      | 0 => { w with truncated := true }
      | levels + 1 => run levels (w.level py cases cache asset)

def SourceWalk.start : SourceWalk := ⟨0, ∅, {asset}, ∅, ∅, false⟩

structure UpstreamSources where
  sources : Finset (Text × Cell)
  truncated : Bool

/-- `upstream_column_sources`. -/
def upstreamColumnSources (maxDepth : ℤ) : UpstreamSources :=
  let w := (SourceWalk.start asset).run py cases cache asset maxDepth.toNat
  ⟨w.sources, w.truncated⟩

end Walk

/-! ## One level -/

theorem mem_labelsOf {labels : Labels} {cell : Cell} {c : Text} :
    c ∈ labelsOf labels cell ↔ (cell, c) ∈ labels := by
  simp [labelsOf]

section Levels
variable {py : Python} {cases : Cases} {cache : Cache} {asset : ℕ}

/-- The pairs of a level are the pairs of all rows into the wanted assets. -/
theorem mem_levelPairs {wanted : Finset ℕ} {step : (ℕ × ℕ) × ColumnPair} :
    step ∈ levelPairs py cache wanted ↔
      ∃ row ∈ cache.rows, row.key.2 ∈ wanted ∧ row.key = step.1 ∧ step.2 ∈ row.pairs py := by
  obtain ⟨key, pair⟩ := step
  rw [levelPairs, List.mem_flatMap]
  constructor
  · rintro ⟨⟨k, info⟩, hedge, hstep⟩
    obtain ⟨hwanted, hinfo⟩ := of_mem_load (p := fun key => key.2 ∈ wanted) (mem_inOrder.mp hedge)
    have hk : k.2 ∈ wanted := by simpa using hwanted
    rw [if_pos hk] at hstep
    obtain ⟨pair', hpair, heq⟩ := List.mem_map.mp hstep
    obtain ⟨rfl, rfl⟩ := Prod.mk.inj heq
    rw [hinfo] at hpair
    obtain ⟨row, hrow, hmem⟩ := mem_pairs.mp hpair
    obtain ⟨hin, hkey⟩ := List.mem_filter.mp hrow
    have hkey : row.key = k := by simpa using hkey
    exact ⟨row, hin, hkey ▸ hk, hkey, hmem⟩
  · rintro ⟨row, hrow, hwanted, rfl, hpair⟩
    refine ⟨_, mem_inOrder.mpr (mem_load (p := fun key => key.2 ∈ wanted) hrow (by simpa)), ?_⟩
    rw [if_pos hwanted]
    exact List.mem_map.mpr ⟨pair, mem_pairs.mpr ⟨row, by simp [hrow], hpair⟩, rfl⟩

/-- A pair that is followed feeds its lower cell, and every recorded pair is one of a level. -/
theorem feeds_of_mem {wanted : Finset ℕ} {step : (ℕ × ℕ) × ColumnPair}
    (h : step ∈ levelPairs py cache wanted) :
    Feeds py cases cache (upCell cases cache step.1 step.2)
      (downCell cases cache step.1 step.2) := by
  obtain ⟨row, hrow, _, hkey, hpair⟩ := mem_levelPairs.mp h
  exact ⟨row, hrow, step.2, hpair, by rw [hkey], by rw [hkey]⟩

theorem exists_step {wanted : Finset ℕ} {up down : Cell} (h : Feeds py cases cache up down)
    (hwanted : down.1 ∈ wanted) :
    ∃ step ∈ levelPairs py cache wanted, upCell cases cache step.1 step.2 = up ∧
      downCell cases cache step.1 step.2 = down := by
  obtain ⟨row, hrow, pair, hpair, rfl, rfl⟩ := h
  exact ⟨(row.key, pair), mem_levelPairs.mpr ⟨row, hrow, hwanted, rfl, hpair⟩, rfl, rfl⟩

/-- What a walk has marked: `sources` is what is seen, and what is new is the next frontier. -/
structure Marks.Sound (before : Labels) (reach : Cell × Text → Prop) (m : Marks) : Prop where
  grows : before ⊆ m.seen
  reached : ∀ x ∈ m.seen, reach x
  sources : ∀ c u, (c, u) ∈ m.sources ↔ (u, c) ∈ m.seen
  next : ∀ x, x ∈ m.next → x ∈ m.seen
  fresh : ∀ x ∈ m.seen, x ∉ m.next → x ∈ before

variable {depth : ℕ} {frontier : Labels} {m : Marks} {step : (ℕ × ℕ) × ColumnPair}

theorem followPair_cases (cases : Cases) (cache : Cache) (asset depth : ℕ) (frontier : Labels)
    (m : Marks) (step : (ℕ × ℕ) × ColumnPair) :
    let up := upCell cases cache step.1 step.2
    let origins := originsOf asset depth frontier (downCell cases cache step.1 step.2)
    (followPair cases cache asset depth frontier m step = m ∧ ∀ c ∈ origins, (up, c) ∈ m.seen) ∨
      followPair cases cache asset depth frontier m step = { m with truncated := true } ∨
      ∃ new ⊆ origins, (∀ c ∈ origins, c ∈ new ∨ (up, c) ∈ m.seen) ∧
        followPair cases cache asset depth frontier m step = { m with
          seen := m.seen ∪ new.image (up, ·)
          sources := m.sources ∪ new.image (·, up)
          next := m.next ∪ new.image (up, ·) } := by
  intro up origins
  unfold followPair
  by_cases hnew : origins \ labelsOf m.seen up = ∅
  · refine .inl ⟨if_pos hnew, fun c hc => ?_⟩
    have hnot : c ∉ origins \ labelsOf m.seen up := by simp [hnew]
    rw [Finset.mem_sdiff, mem_labelsOf] at hnot
    tauto
  · by_cases hcap : maxSourceNodes ≤ (cellsOf m.seen).card ∧ up ∉ cellsOf m.seen
    · exact .inr (.inl ((if_neg hnew).trans (if_pos hcap)))
    · refine .inr (.inr ⟨origins \ labelsOf m.seen up, Finset.sdiff_subset, fun c hc => ?_,
        (if_neg hnew).trans (if_neg hcap)⟩)
      rw [Finset.mem_sdiff, mem_labelsOf]
      tauto

theorem Marks.Sound.followPair {before : Labels} {reach : Cell × Text → Prop}
    (h : m.Sound before reach)
    (horigins : ∀ c ∈ originsOf asset depth frontier (downCell cases cache step.1 step.2),
      reach (upCell cases cache step.1 step.2, c)) :
    (followPair cases cache asset depth frontier m step).Sound before reach := by
  obtain ⟨heq, _⟩ | heq | ⟨new, hsub, _, heq⟩ :=
    followPair_cases cases cache asset depth frontier m step
  · rwa [heq]
  · rw [heq]
    exact ⟨h.grows, h.reached, h.sources, h.next, h.fresh⟩
  · rw [heq]
    refine ⟨h.grows.trans Finset.subset_union_left, ?_, ?_, ?_, ?_⟩
    · intro x hx
      obtain hx | hx := Finset.mem_union.mp hx
      · exact h.reached x hx
      · obtain ⟨c, hc, rfl⟩ := Finset.mem_image.mp hx
        exact horigins c (hsub hc)
    · intro c u
      simp only [Finset.mem_union, h.sources, Finset.mem_image, Prod.mk.injEq]
      constructor <;> rintro (hold | ⟨d, hd, h1, h2⟩)
      · exact .inl hold
      · exact .inr ⟨d, hd, h2, h1⟩
      · exact .inl hold
      · exact .inr ⟨d, hd, h2, h1⟩
    · intro x hx
      simp only [Finset.mem_union] at hx ⊢
      exact hx.imp (h.next x) id
    · intro x hx hnext
      simp only [Finset.mem_union, not_or] at hx hnext
      exact h.fresh x (hx.resolve_right hnext.2) hnext.1

/-- After its pair, a cell has all columns that the pair brings, or the walk is cut. -/
theorem followPair_marks (c : Text)
    (hc : c ∈ originsOf asset depth frontier (downCell cases cache step.1 step.2)) :
    (followPair cases cache asset depth frontier m step).truncated = true ∨
      (upCell cases cache step.1 step.2, c) ∈
        (followPair cases cache asset depth frontier m step).seen := by
  obtain ⟨heq, hall⟩ | heq | ⟨new, _, hall, heq⟩ :=
    followPair_cases cases cache asset depth frontier m step
  · rw [heq]
    exact .inr (hall c hc)
  · rw [heq]
    exact .inl rfl
  · rw [heq]
    refine .inr (Finset.mem_union.mpr ?_)
    obtain hnew | hold := hall c hc
    · exact .inr (Finset.mem_image.mpr ⟨c, hnew, rfl⟩)
    · exact .inl hold

theorem followPair_grows :
    m.seen ⊆ (followPair cases cache asset depth frontier m step).seen ∧
      (m.truncated = true →
        (followPair cases cache asset depth frontier m step).truncated = true) := by
  obtain ⟨heq, _⟩ | heq | ⟨new, _, _, heq⟩ :=
    followPair_cases cases cache asset depth frontier m step
  · rw [heq]
    exact ⟨Finset.Subset.refl _, id⟩
  · rw [heq]
    exact ⟨Finset.Subset.refl _, fun _ => rfl⟩
  · rw [heq]
    exact ⟨Finset.subset_union_left, id⟩

/-! ## The walk -/

variable (py cases cache asset)

/-- A column of the start asset is carried back over a pair. -/
def Carries (x y : Cell × Text) : Prop := y.2 = x.2 ∧ Feeds py cases cache y.1 x.1

/-- The cells that feed a column of the start asset at once. -/
def FirstSources : Set (Cell × Text) := {x | Feeds py cases cache x.1 (asset, x.2)}

structure SourceWalk.Sound (w : SourceWalk) : Prop where
  reached : ∀ x ∈ w.seen, Relation.TransGen (Feeds py cases cache) x.1 (asset, x.2)
  sources : ∀ c u, (c, u) ∈ w.sources ↔ (u, c) ∈ w.seen
  frontier : w.frontier ⊆ w.seen
  wanted : w.wantedAssets = if w.depth = 0 then {asset} else w.frontier.image fun x => x.1.1
  start : w.depth = 0 → w.seen = ∅
  closed : w.truncated = false → w.depth ≠ 0 →
    Closed (Carries py cases cache) (FirstSources py cases cache asset) ↑w.seen ↑w.frontier

variable {py cases cache asset} {w : SourceWalk}

theorem SourceWalk.Sound.origins (h : w.Sound py cases cache asset)
    (hstep : step ∈ levelPairs py cache w.wantedAssets) {c : Text}
    (hc : c ∈ originsOf asset w.depth w.frontier (downCell cases cache step.1 step.2)) :
    Relation.TransGen (Feeds py cases cache) (upCell cases cache step.1 step.2) (asset, c) := by
  have hfeeds : Feeds py cases cache (upCell cases cache step.1 step.2)
      (downCell cases cache step.1 step.2) := feeds_of_mem hstep
  unfold originsOf at hc
  split at hc
  · next hstart =>
    have hdown : downCell cases cache step.1 step.2 = (asset, c) := by
      rw [Finset.mem_singleton.mp hc, ← hstart.2]
    exact .single (hdown ▸ hfeeds)
  · exact .head hfeeds (h.reached _ (h.frontier (mem_labelsOf.mp hc)))

variable (py cases cache asset w) in
/-- What the pairs of the level have marked. -/
def SourceWalk.marks : Marks :=
  (levelPairs py cache w.wantedAssets).foldl (followPair cases cache asset w.depth w.frontier)
    ⟨w.seen, w.sources, ∅, w.truncated⟩

theorem SourceWalk.Sound.marks (h : w.Sound py cases cache asset) :
    (w.marks py cases cache asset).Sound w.seen
      fun x => Relation.TransGen (Feeds py cases cache) x.1 (asset, x.2) := by
  apply foldl_keeps
  · intro m step hstep hm
    exact hm.followPair fun c hc => h.origins hstep hc
  · exact ⟨Finset.Subset.refl _, h.reached, h.sources, by simp, fun x hx _ => hx⟩

theorem SourceWalk.marks_untruncated (h : (w.marks py cases cache asset).truncated = false) :
    w.truncated = false := by
  by_contra htruncated
  have hkeeps : (w.marks py cases cache asset).truncated = true :=
    foldl_keeps (P := fun m : Marks => m.truncated = true) (fun m step _ => followPair_grows.2)
      (by simpa using htruncated)
  rw [hkeeps] at h
  cases h

/-- A level that is not cut brings every column over every pair. -/
theorem SourceWalk.marks_complete (h : (w.marks py cases cache asset).truncated = false)
    {up down : Cell} (hfeeds : Feeds py cases cache up down) (hwanted : down.1 ∈ w.wantedAssets)
    {c : Text} (hc : c ∈ originsOf asset w.depth w.frontier down) :
    (up, c) ∈ (w.marks py cases cache asset).seen := by
  obtain ⟨step, hstep, rfl, rfl⟩ := exists_step hfeeds hwanted
  have hmarks : (w.marks py cases cache asset).truncated = true ∨
      (upCell cases cache step.1 step.2, c) ∈ (w.marks py cases cache asset).seen := by
    apply foldl_reaches (P := fun x (m : Marks) => c ∈ originsOf asset w.depth w.frontier
      (downCell cases cache x.1 x.2) → m.truncated = true ∨
        (upCell cases cache x.1 x.2, c) ∈ m.seen) _ _ hstep hc
    · intro m x _ hx
      exact followPair_marks c hx
    · intro m x _ y _ hx horigin
      exact (hx horigin).imp followPair_grows.2 fun hseen => followPair_grows.1 hseen
  exact hmarks.resolve_left (by simp [h])

theorem SourceWalk.Sound.level (h : w.Sound py cases cache asset) :
    (w.level py cases cache asset).Sound py cases cache asset where
  reached := h.marks.reached
  sources := h.marks.sources
  frontier := h.marks.next
  wanted := rfl
  start := fun hzero => absurd hzero (Nat.succ_ne_zero _)
  closed := by
    intro htruncated _
    have hcut : (w.marks py cases cache asset).truncated = false := htruncated
    have hnew : ∀ x ∈ (w.marks py cases cache asset).seen,
        x ∉ (w.marks py cases cache asset).next → x ∈ w.seen := h.marks.fresh
    by_cases hdepth : w.depth = 0
    · constructor
      · intro x hx
        apply marks_complete hcut hx
        · rw [h.wanted, if_pos hdepth]
          exact Finset.mem_singleton_self _
        · rw [originsOf, if_pos ⟨hdepth, rfl⟩]
          exact Finset.mem_singleton_self _
      · intro x hx hbehind
        have hold := hnew x hx hbehind
        rw [h.start hdepth] at hold
        cases hold
    · apply (h.closed (marks_untruncated hcut) hdepth).level
      · exact h.marks.grows
      · rintro ⟨down, c⟩ hfrontier ⟨up, c'⟩ ⟨rfl, hfeeds⟩
        apply marks_complete hcut hfeeds
        · rw [h.wanted, if_neg hdepth]
          exact Finset.mem_image.mpr ⟨_, hfrontier, rfl⟩
        · rw [originsOf, if_neg fun hstart => hdepth hstart.1]
          exact mem_labelsOf.mpr hfrontier
      · exact hnew

theorem SourceWalk.Sound.run (h : w.Sound py cases cache asset) (levels : ℕ) :
    (w.run py cases cache asset levels).Sound py cases cache asset ∧
      ((w.run py cases cache asset levels).wantedAssets = ∅ ∨
        (w.run py cases cache asset levels).truncated = true) := by
  induction levels generalizing w with
  | zero =>
    rw [SourceWalk.run]
    split
    · next hdone => exact ⟨h, .inl hdone⟩
    · exact ⟨⟨h.reached, h.sources, h.frontier, h.wanted, h.start, nofun⟩, .inr rfl⟩
  | succ levels ih =>
    rw [SourceWalk.run]
    split
    · next hdone => exact ⟨h, .inl hdone⟩
    · exact ih h.level

theorem SourceWalk.Sound.complete (h : w.Sound py cases cache asset) (hdone : w.wantedAssets = ∅)
    (htruncated : w.truncated = false) {u : Cell} {c : Text}
    (hu : Relation.TransGen (Feeds py cases cache) u (asset, c)) : (u, c) ∈ w.seen := by
  have hdepth : w.depth ≠ 0 := by
    intro hzero
    rw [h.wanted, if_pos hzero] at hdone
    exact Finset.singleton_ne_empty _ hdone
  have hfrontier : w.frontier = ∅ := by
    rw [h.wanted, if_neg hdepth] at hdone
    exact Finset.image_eq_empty.mp hdone
  have hclosed := h.closed htruncated hdepth
  rw [hfrontier] at hclosed
  induction hu using Relation.TransGen.head_induction_on with
  | single hfeeds => exact hclosed.start hfeeds
  | head hfeeds _ ih => exact hclosed.edges _ ih (by simp) _ ⟨rfl, hfeeds⟩

/-- Without truncation the sources of a column are what reaches it over recorded pairs; nothing else
is ever reported, and what is left out is said to be. -/
theorem upstream_sources_are_reachability (py : Python) (cases : Cases) (cache : Cache)
    (asset : ℕ) (maxDepth : ℤ) :
    let found := upstreamColumnSources py cases cache asset maxDepth
    (∀ c u, (c, u) ∈ found.sources → Relation.TransGen (Feeds py cases cache) u (asset, c)) ∧
      (found.truncated = false → ∀ c u, (c, u) ∈ found.sources ↔
        Relation.TransGen (Feeds py cases cache) u (asset, c)) ∧
      ∀ c u, Relation.TransGen (Feeds py cases cache) u (asset, c) → (c, u) ∉ found.sources →
        found.truncated = true := by
  intro found
  have hstart : (SourceWalk.start asset).Sound py cases cache asset :=
    ⟨by simp [SourceWalk.start], by simp [SourceWalk.start], Finset.Subset.refl _, rfl,
      fun _ => rfl, fun _ hdepth => absurd rfl hdepth⟩
  obtain ⟨hsound, hend⟩ := hstart.run maxDepth.toNat
  have hreached : ∀ c u, (c, u) ∈ found.sources →
      Relation.TransGen (Feeds py cases cache) u (asset, c) :=
    fun c u hu => hsound.reached (u, c) ((hsound.sources c u).mp hu)
  have hcomplete : found.truncated = false → ∀ c u,
      Relation.TransGen (Feeds py cases cache) u (asset, c) → (c, u) ∈ found.sources := by
    intro htruncated c u hu
    have huncut : ((SourceWalk.start asset).run py cases cache asset
        maxDepth.toNat).truncated = false := htruncated
    have hdone := hend.resolve_right (by simp [huncut])
    exact (hsound.sources c u).mpr (hsound.complete hdone htruncated hu)
  refine ⟨hreached, fun htruncated c u => ⟨hreached c u, hcomplete htruncated c u⟩, ?_⟩
  intro c u hu hmissing
  by_contra htruncated
  exact hmissing (hcomplete (by simpa using htruncated) c u hu)

end Levels

end DataQ.Lineage.Columns
