import Mathlib.Data.List.Basic
import Mathlib.Logic.Function.Basic
import Mathlib.Logic.Relation
import Mathlib.Tactic.Common

/-! # Union-find

A list of parents, in which an index that is its own parent is a root. Looking a root up halves the
path that leads to it; linking two indices puts the root of the one under the root of the other. The
indices that then have one root are those that the links connect. -/

namespace DataQ.UnionFind
set_option autoImplicit false

/-- An index that is not in the list is its own parent. -/
def up (parent : List ℕ) (i : ℕ) : ℕ := parent.getD i i

/-- The root of an index, and the list with the path to it halved. -/
def root : ℕ → List ℕ → ℕ → ℕ × List ℕ
  | 0, parent, i => (i, parent)
  | fuel + 1, parent, i =>
    if up parent i = i then (i, parent)
    else
      let next := up parent (up parent i)
      root fuel (parent.set i next) next

/-- Puts the root of `j` under that of `i`. -/
def link (fuel : ℕ) (parent : List ℕ) (edge : ℕ × ℕ) : List ℕ :=
  let (ri, parent) := root fuel parent edge.1
  let (rj, parent) := root fuel parent edge.2
  parent.set rj ri

def linkAll (fuel : ℕ) (parent : List ℕ) (edges : List (ℕ × ℕ)) : List ℕ :=
  edges.foldl (link fuel) parent

/-- The root of each index in turn. -/
def roots (fuel : ℕ) : List ℕ → List ℕ → List ℕ
  | _, [] => []
  | parent, i :: is => (root fuel parent i).1 :: roots fuel (root fuel parent i).2 is

theorem length_roots (fuel : ℕ) (parent is : List ℕ) :
    (roots fuel parent is).length = is.length := by
  induction is generalizing parent with
  | nil => rfl
  | cons i is ih => rw [roots, List.length_cons, List.length_cons, ih]

/-! ## Where the parents lead -/

/-- The parents of `i` lead to the root `r`. -/
inductive Top (f : ℕ → ℕ) : ℕ → ℕ → Prop
  | self {r : ℕ} (h : f r = r) : Top f r r
  | climb {i r : ℕ} (h : f i ≠ i) (htop : Top f (f i) r) : Top f i r

/-- The parents lead upwards. -/
def Ranked (rank f : ℕ → ℕ) : Prop := ∀ i, f i ≠ i → rank (f i) < rank i

variable {f rank : ℕ → ℕ} {i j r : ℕ}

theorem Top.fixed (h : Top f i r) : f r = r := by
  induction h with
  | self h => exact h
  | climb _ _ ih => exact ih

theorem Top.unique {s : ℕ} (h : Top f i r) (h' : Top f i s) : r = s := by
  induction h with
  | self h =>
    cases h' with
    | self _ => rfl
    | climb hne _ => exact absurd h hne
  | climb hne _ ih =>
    cases h' with
    | self heq => exact absurd heq hne
    | climb _ htop => exact ih htop

theorem Top.of_parent (h : Top f (f i) r) : Top f i r := by
  by_cases hi : f i = i
  · rwa [hi] at h
  · exact .climb hi h

theorem Top.parent (h : Top f i r) : Top f (f i) r := by
  cases h with
  | self h =>
    rw [h]
    exact .self h
  | climb _ htop => exact htop

theorem Ranked.top (h : Ranked rank f) (i : ℕ) : ∃ r, Top f i r := by
  induction hn : rank i using Nat.strongRecOn generalizing i with
  | ind n ih =>
    by_cases hi : f i = i
    · exact ⟨i, .self hi⟩
    · have hlt := h i hi
      obtain ⟨r, hr⟩ := ih (rank (f i)) (by omega) (f i) rfl
      exact ⟨r, .climb hi hr⟩

/-! ## Halving a path -/

theorem up_set {parent : List ℕ} (hi : i < parent.length) (k : ℕ) :
    up (parent.set i k) = Function.update (up parent) i k := by
  funext x
  by_cases hx : x = i
  · subst hx
    simp [up, hi]
  · rw [Function.update_of_ne hx]
    simp only [up, List.getD_eq_getElem?_getD]
    rw [List.getElem?_set_ne (Ne.symm hx)]

theorem lt_of_up_ne {parent : List ℕ} (h : up parent i ≠ i) : i < parent.length := by
  by_contra hlt
  apply h
  rw [up, List.getD_eq_getElem?_getD, List.getElem?_eq_none (Nat.le_of_not_lt hlt)]
  rfl

theorem Ranked.halve (h : Ranked rank f) (hi : f i ≠ i) :
    Ranked rank (Function.update f i (f (f i))) := by
  intro x hx
  by_cases hxi : x = i
  · subst hxi
    rw [Function.update_self]
    have hfirst := h x hi
    by_cases hnext : f (f x) = f x
    · rw [hnext]
      exact hfirst
    · have hsecond := h (f x) hnext
      omega
  · rw [Function.update_of_ne hxi] at hx ⊢
    exact h x hx

/-- A shorter way to the same root. -/
theorem Top.halve (hi : f i ≠ i) {x : ℕ} (htop : Top f x r) :
    Top (Function.update f i (f (f i))) x r := by
  have hself : Function.update f i (f (f i)) i = f (f i) := Function.update_self _ _ _
  have hother : ∀ {x}, x ≠ i → Function.update f i (f (f i)) x = f x :=
    fun hx => Function.update_of_ne hx _ _
  induction htop with
  | @self r hr =>
    apply Top.self
    by_cases hri : r = i
    · rw [hri] at hr
      exact absurd hr hi
    · rw [hother hri, hr]
  | @climb x r hx _ ih =>
    apply Top.of_parent
    by_cases hxi : x = i
    · subst hxi
      have hnext := ih.parent
      rw [hother hi] at hnext
      rwa [hself]
    · rwa [hother hxi]

/-- Nothing in the list leads out of it. -/
def Closed (parent : List ℕ) : Prop := ∀ i < parent.length, up parent i < parent.length

theorem Top.lt_length {parent : List ℕ} (h : Closed parent) (htop : Top (up parent) i r)
    (hi : i < parent.length) : r < parent.length := by
  induction htop with
  | self _ => exact hi
  | climb _ _ ih => exact ih (h _ hi)

theorem Closed.set {parent : List ℕ} (h : Closed parent) {k : ℕ} (hk : k < parent.length) (i : ℕ) :
    Closed (parent.set i k) := by
  intro x hx
  rw [List.length_set] at hx ⊢
  by_cases hi : i < parent.length
  · rw [up_set hi]
    by_cases hxi : x = i
    · rw [hxi, Function.update_self]
      exact hk
    · rw [Function.update_of_ne hxi]
      exact h x hx
  · rw [List.set_eq_of_length_le (Nat.le_of_not_lt hi)]
    exact h x hx

/-- Enough fuel finds the root, and the halved paths lead where they did. -/
theorem root_spec {fuel : ℕ} {parent : List ℕ} (hclosed : Closed parent)
    (h : Ranked rank (up parent)) (hfuel : rank i ≤ fuel) (htop : Top (up parent) i r) :
    (root fuel parent i).1 = r ∧ (root fuel parent i).2.length = parent.length ∧
      Closed (root fuel parent i).2 ∧ Ranked rank (up (root fuel parent i).2) ∧
      ∀ x s, Top (up parent) x s → Top (up (root fuel parent i).2) x s := by
  induction fuel generalizing parent i with
  | zero =>
    have hi : up parent i = i := by
      by_contra hne
      have hlt := h i hne
      omega
    exact ⟨(Top.self hi).unique htop, rfl, hclosed, h, fun x s hs => hs⟩
  | succ fuel ih =>
    rw [root]
    split
    · next hi => exact ⟨(Top.self hi).unique htop, rfl, hclosed, h, fun x s hs => hs⟩
    · next hi =>
      have hlt := lt_of_up_ne hi
      have hset := up_set hlt (up parent (up parent i))
      have hhalved := h.halve hi
      rw [← hset] at hhalved
      have hkeeps : ∀ {x s}, Top (up parent) x s →
          Top (up (parent.set i (up parent (up parent i)))) x s := by
        intro x s hs
        rw [hset]
        exact hs.halve hi
      have hnext : rank (up parent (up parent i)) ≤ fuel := by
        have hfirst := h i hi
        by_cases htwo : up parent (up parent i) = up parent i
        · rw [htwo]
          omega
        · have hsecond := h _ htwo
          omega
      have hinside := hclosed.set (hclosed _ (hclosed i hlt)) i
      obtain ⟨hroot, hlength, hrest⟩ := ih hinside hhalved hnext (hkeeps htop.parent.parent)
      refine ⟨hroot, by rw [hlength, List.length_set], hrest.1, hrest.2.1, fun x s hs => ?_⟩
      exact hrest.2.2 x s (hkeeps hs)

/-! ## Linking -/

/-- One root is put under another. -/
theorem Top.update {ri rj : ℕ} (hri : f ri = ri) (hrj : f rj = rj) {x : ℕ} (htop : Top f x r) :
    Top (Function.update f rj ri) x (if r = rj then ri else r) := by
  by_cases hne : ri = rj
  · subst hne
    have hsame : Function.update f ri ri = f := by
      conv_rhs => rw [← Function.update_eq_self ri f, hri]
    have hr : (if r = ri then ri else r) = r := by
      split
      · next heq => exact heq.symm
      · rfl
    rwa [hsame, hr]
  have hself : Function.update f rj ri rj = ri := Function.update_self _ _ _
  have hother : ∀ {x}, x ≠ rj → Function.update f rj ri x = f x :=
    fun hx => Function.update_of_ne hx _ _
  induction htop with
  | @self r hr =>
    by_cases heq : r = rj
    · rw [if_pos heq]
      apply Top.of_parent
      rw [heq, hself]
      exact .self (by rw [hother hne, hri])
    · rw [if_neg heq]
      exact .self (by rw [hother heq, hr])
  | @climb x r hx htop ih =>
    have hxj : x ≠ rj := by
      rintro rfl
      exact hx hrj
    apply Top.of_parent
    rwa [hother hxj]

/-- The root that is linked to is lowest, everything else one step higher. -/
theorem Ranked.update {ri rj : ℕ} (h : Ranked rank f) (hri : f ri = ri) :
    Ranked (fun x => if x = ri then 0 else rank x + 1) (Function.update f rj ri) := by
  intro x hx
  by_cases hxj : x = rj
  · rw [hxj, Function.update_self] at hx ⊢
    simp only [if_pos, if_neg (Ne.symm hx)]
    omega
  · rw [Function.update_of_ne hxj] at hx ⊢
    have hxi : x ≠ ri := by
      rintro rfl
      exact hx hri
    have hlt := h x hx
    simp only [if_neg hxi]
    split <;> omega

/-- The indices that have one root are those that the edges connect. -/
structure Forest (edges : List (ℕ × ℕ)) (size : ℕ) (parent : List ℕ) : Prop where
  length_eq : parent.length = size
  closed : Closed parent
  ranked : ∃ rank, Ranked rank (up parent) ∧ ∀ i, rank i ≤ edges.length
  connected : ∀ {x y r s}, Top (up parent) x r → Top (up parent) y s →
    (r = s ↔ Relation.EqvGen (fun a b => (a, b) ∈ edges) x y)

theorem eqvGen_imp_eq {α β : Type*} {rel : α → α → Prop} {c : α → β}
    (h : ∀ a b, rel a b → c a = c b) {x y : α} (hxy : Relation.EqvGen rel x y) : c x = c y :=
  congrArg (Quot.lift c h) (Quot.eqvGen_sound hxy)

theorem forest_range (size : ℕ) : Forest [] size (List.range size) := by
  have hup : ∀ i, up (List.range size) i = i := by
    intro i
    simp only [up, List.getD_eq_getElem?_getD]
    by_cases hi : i < size
    · simp [hi]
    · rw [List.getElem?_eq_none (by simpa using hi)]
      rfl
  refine ⟨List.length_range, fun i hi => ?_, ⟨fun _ => 0, ?_, ?_⟩, ?_⟩
  · rwa [hup]
  · intro i hi
    exact absurd (hup i) hi
  · intro i
    exact Nat.zero_le _
  · intro x y r s hx hy
    rw [← (Top.self (hup x)).unique hx, ← (Top.self (hup y)).unique hy]
    constructor
    · rintro rfl
      exact .refl x
    · exact eqvGen_imp_eq (c := id) fun a b hab => nomatch hab

theorem Forest.root_spec {edges : List (ℕ × ℕ)} {size fuel : ℕ} {parent : List ℕ}
    (h : Forest edges size parent) (hfuel : edges.length ≤ fuel) (htop : Top (up parent) i r) :
    (root fuel parent i).1 = r ∧ Forest edges size (root fuel parent i).2 ∧
      ∀ x s, Top (up parent) x s → Top (up (root fuel parent i).2) x s := by
  obtain ⟨rank, hranked, hle⟩ := h.ranked
  have hspec := UnionFind.root_spec h.closed hranked (Nat.le_trans (hle i) hfuel) htop
  obtain ⟨hroot, hlength, hclosed, hranked', htops⟩ := hspec
  refine ⟨hroot, ⟨hlength.trans h.length_eq, hclosed, ⟨rank, hranked', hle⟩, ?_⟩, htops⟩
  intro x y r s hx hy
  obtain ⟨r', hr'⟩ := hranked.top x
  obtain ⟨s', hs'⟩ := hranked.top y
  rw [hx.unique (htops x r' hr'), hy.unique (htops y s' hs')]
  exact h.connected hr' hs'

theorem Forest.link {edges : List (ℕ × ℕ)} {size fuel : ℕ} {parent : List ℕ} {edge : ℕ × ℕ}
    (h : Forest edges size parent) (hfuel : edges.length ≤ fuel) (hi : edge.1 < size)
    (hj : edge.2 < size) : Forest (edges ++ [edge]) size (link fuel parent edge) := by
  obtain ⟨_, hranked₀, _⟩ := h.ranked
  obtain ⟨ri, hri⟩ := hranked₀.top edge.1
  obtain ⟨hroot, hforest, htops⟩ := h.root_spec hfuel hri
  simp only [UnionFind.link, hroot]
  have hri' := htops edge.1 ri hri
  generalize (root fuel parent edge.1).2 = middle at hforest hri'
  obtain ⟨_, hranked₁, _⟩ := hforest.ranked
  obtain ⟨rj, hrj⟩ := hranked₁.top edge.2
  obtain ⟨hroot', hforest', htops'⟩ := hforest.root_spec hfuel hrj
  rw [hroot']
  have hri := htops' edge.1 ri hri'
  have hrj := htops' edge.2 rj hrj
  generalize (root fuel middle edge.2).2 = last at hforest' hri hrj
  have hsize := hforest'.length_eq
  obtain ⟨rank, hranked, hle⟩ := hforest'.ranked
  have hlast : ∀ {x r}, Top (up last) x r → x < size → r < last.length := fun htop hx =>
    htop.lt_length hforest'.closed (by omega)
  have hset : up (last.set rj ri) = Function.update (up last) rj ri := up_set (hlast hrj hj) ri
  have htop : ∀ {x r}, Top (up last) x r →
      Top (up (last.set rj ri)) x (if r = rj then ri else r) := by
    intro x r hx
    rw [hset]
    exact hx.update hri.fixed hrj.fixed
  refine ⟨by rw [List.length_set, hsize], hforest'.closed.set (hlast hri hi) rj, ?_, ?_⟩
  · rw [hset]
    refine ⟨_, hranked.update hri.fixed, fun x => ?_⟩
    have hx := hle x
    rw [List.length_append, List.length_singleton]
    split <;> omega
  · intro x y r s hx hy
    obtain ⟨rep, hrep⟩ := Classical.axiom_of_choice hranked.top
    have hmerged : ∀ x, Top (up (last.set rj ri)) x (if rep x = rj then ri else rep x) :=
      fun x => htop (hrep x)
    rw [hx.unique (hmerged x), hy.unique (hmerged y)]
    have hrepi : rep edge.1 = ri := (hrep edge.1).unique hri
    have hrepj : rep edge.2 = rj := (hrep edge.2).unique hrj
    have hold : ∀ {x y}, rep x = rep y →
        Relation.EqvGen (fun a b => (a, b) ∈ edges ++ [edge]) x y := fun {x y} heq =>
      ((hforest'.connected (hrep x) (hrep y)).mp heq).mono fun a b hab =>
        List.mem_append_left _ hab
    have hnew : Relation.EqvGen (fun a b => (a, b) ∈ edges ++ [edge]) edge.1 edge.2 :=
      .rel _ _ (List.mem_append_right _ (List.mem_singleton_self edge))
    constructor
    · intro heq
      by_cases hxj : rep x = rj
      · by_cases hyj : rep y = rj
        · exact hold (hxj.trans hyj.symm)
        · rw [if_pos hxj, if_neg hyj] at heq
          exact ((hold (hxj.trans hrepj.symm)).trans _ _ _ (hnew.symm)).trans _ _ _
            (hold (hrepi.trans heq))
      · by_cases hyj : rep y = rj
        · rw [if_neg hxj, if_pos hyj] at heq
          exact ((hold (heq.trans hrepi.symm)).trans _ _ _ hnew).trans _ _ _
            (hold (hrepj.trans hyj.symm))
        · rw [if_neg hxj, if_neg hyj] at heq
          exact hold heq
    · apply eqvGen_imp_eq (c := fun x => if rep x = rj then ri else rep x)
      intro a b hab
      obtain hab | hab := List.mem_append.mp hab
      · have hrep : rep a = rep b :=
          (hforest'.connected (hrep a) (hrep b)).mpr (.rel _ _ hab)
        simp only [hrep]
      · obtain rfl := List.mem_singleton.mp hab
        simp only [hrepi, hrepj, if_true]
        split <;> rfl

theorem Forest.linkAll {done edges : List (ℕ × ℕ)} {size fuel : ℕ} {parent : List ℕ}
    (h : Forest done size parent) (hfuel : done.length + edges.length ≤ fuel)
    (hedges : ∀ edge ∈ edges, edge.1 < size ∧ edge.2 < size) :
    Forest (done ++ edges) size (linkAll fuel parent edges) := by
  induction edges generalizing done parent with
  | nil => rwa [List.append_nil]
  | cons edge edges ih =>
    rw [List.length_cons] at hfuel
    obtain ⟨hi, hj⟩ := hedges edge List.mem_cons_self
    have hstep : Forest (done ++ [edge]) size (UnionFind.link fuel parent edge) :=
      h.link (by omega) hi hj
    have hlength : (done ++ [edge]).length + edges.length ≤ fuel := by
      rw [List.length_append, List.length_singleton]
      omega
    have hrest := ih hstep hlength fun e he => hedges e (List.mem_cons_of_mem _ he)
    rwa [List.append_assoc] at hrest

theorem Forest.roots_eq {edges : List (ℕ × ℕ)} {size fuel : ℕ} {parent : List ℕ}
    (h : Forest edges size parent) (hfuel : edges.length ≤ fuel) {rep : ℕ → ℕ}
    (hrep : ∀ i, Top (up parent) i (rep i)) (is : List ℕ) :
    roots fuel parent is = is.map rep := by
  induction is generalizing parent with
  | nil => rfl
  | cons i is ih =>
    obtain ⟨hroot, hforest, htops⟩ := h.root_spec hfuel (hrep i)
    rw [roots, List.map_cons, hroot, ih hforest fun x => htops x _ (hrep x)]

/-- After all the links, each index has a root, and two have one where the links connect them. -/
theorem roots_linkAll {edges : List (ℕ × ℕ)} {size fuel : ℕ} (hfuel : edges.length ≤ fuel)
    (hedges : ∀ edge ∈ edges, edge.1 < size ∧ edge.2 < size) :
    ∃ rep : ℕ → ℕ, (∀ is, roots fuel (linkAll fuel (List.range size) edges) is = is.map rep) ∧
      ∀ i j, rep i = rep j ↔ Relation.EqvGen (fun a b => (a, b) ∈ edges) i j := by
  have hforest := (forest_range size).linkAll (by simpa using hfuel) hedges
  rw [List.nil_append] at hforest
  obtain ⟨_, hranked, _⟩ := hforest.ranked
  obtain ⟨rep, hrep⟩ := Classical.axiom_of_choice hranked.top
  exact ⟨rep, hforest.roots_eq hfuel hrep, fun i j => hforest.connected (hrep i) (hrep j)⟩

end DataQ.UnionFind
