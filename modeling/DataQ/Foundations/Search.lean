import Mathlib.Data.List.Chain
import Mathlib.Data.List.Perm.Subperm
import Mathlib.Logic.Relation
import Mathlib.Tactic.Common

/-! # Breadth-first search by levels

A walk asks for the edges out of its whole frontier at once, and marks what they lead to. It keeps
for every vertex it marked the one it came from, and climbs back from the target to say a path. The
edges may go away between two levels: what is found was there at the first one, and what is not
found is not there after the last. -/

namespace DataQ.Search
set_option autoImplicit false

variable {V : Type*}

structure Walk (V : Type*) where
  parents : List (V × V)
  seen : List V
  frontier : List V
  deriving DecidableEq

def Walk.start (root : V) : Walk V := ⟨[], [root], [root]⟩

def Walk.mark (w : Walk V) (parent child : V) : Walk V :=
  ⟨(child, parent) :: w.parents, child :: w.seen, w.frontier ++ [child]⟩

/-- The path from the root to `v` and on along `path`, from the parents that were recorded. -/
def climb [DecidableEq V] (parents : List (V × V)) (root : V) :
    (fuel : ℕ) → (v : V) → (path : List V) → Option (List V)
  | 0, _, _ => none
  | fuel + 1, v, path =>
    if v = root then some (v :: path)
    else (parents.lookup v).bind fun parent => climb parents root fuel parent (v :: path)

/-- What the edges of one level lead to: the path to the target (`none` where a parent is missing),
or the walk of the next level. -/
inductive Level (V : Type*)
  | found (path : Option (List V))
  | more (w : Walk V)
  deriving DecidableEq

def expand [DecidableEq V] (root target : V) : Walk V → List (V × V) → Level V
  | w, [] => .more w
  | w, (parent, child) :: rows =>
    if child ∈ w.seen then expand root target w rows
    else if child = target then
      .found (climb (w.mark parent child).parents root ((w.mark parent child).parents.length + 1)
        child [])
    else expand root target (w.mark parent child) rows

def level [DecidableEq V] (root target : V) (w : Walk V) (rows : List (V × V)) : Level V :=
  expand root target { w with frontier := [] } rows

inductive Verdict (V : Type*)
  | unreachable
  | path (vertices : List V)
  | missingParent
  deriving DecidableEq

/-- The search, with the edges out of a frontier from `ask`. -/
def search [DecidableEq V] (ask : Walk V → List (V × V)) (root target : V) :
    (fuel : ℕ) → Walk V → Option (Verdict V)
  | 0, _ => none
  | fuel + 1, w =>
    if w.frontier = [] then some .unreachable
    else
      match level root target w (ask w) with
      | .found (some path) => some (.path path)
      | .found none => some .missingParent
      | .more next => search ask root target fuel next

/-- A path of `E` from `a` to `b`. -/
def Leads (E : V → V → Prop) (a b : V) (path : List V) : Prop :=
  path.IsChain E ∧ path.head? = some a ∧ path.getLast? = some b

/-! ## What the recorded parents are -/

/-- Every marked vertex but the root was marked once, over an edge from one marked before it. -/
inductive Tree (E : V → V → Prop) (root : V) : List (V × V) → List V → Prop
  | root : Tree E root [] [root]
  | mark {parents : List (V × V)} {seen : List V} {parent child : V} :
      Tree E root parents seen → parent ∈ seen → child ∉ seen → E parent child →
      Tree E root ((child, parent) :: parents) (child :: seen)

section Trees
variable {E F : V → V → Prop} {root : V} {parents : List (V × V)} {seen : List V}

theorem Tree.root_mem (h : Tree E root parents seen) : root ∈ seen := by
  induction h with
  | root => simp
  | mark _ _ _ _ ih => exact List.mem_cons_of_mem _ ih

theorem Tree.seen_eq (h : Tree E root parents seen) : seen = parents.map Prod.fst ++ [root] := by
  induction h with
  | root => simp
  | mark _ _ _ _ ih => simp [ih]

theorem Tree.nodup (h : Tree E root parents seen) : seen.Nodup := by
  induction h with
  | root => simp
  | mark _ _ hnew _ ih => exact List.nodup_cons.mpr ⟨hnew, ih⟩

theorem Tree.edge (h : Tree E root parents seen) {child parent : V}
    (hmem : (child, parent) ∈ parents) : E parent child := by
  induction h with
  | root => simp at hmem
  | mark _ _ _ hedge ih =>
    obtain heq | hmem := List.mem_cons.mp hmem
    · have hboth := Prod.mk.inj heq
      rw [hboth.1, hboth.2]
      exact hedge
    · exact ih hmem

theorem Tree.mono (h : Tree E root parents seen) (hmono : ∀ a b, E a b → F a b) :
    Tree F root parents seen := by
  induction h with
  | root => exact .root
  | mark _ hparent hnew hedge ih => exact .mark ih hparent hnew (hmono _ _ hedge)

theorem Tree.reaches (h : Tree E root parents seen) {v : V} (hv : v ∈ seen) :
    Relation.ReflTransGen E root v := by
  induction h generalizing v with
  | root =>
    have hroot : v = root := by simpa using hv
    rw [hroot]
  | mark _ hparent _ hedge ih =>
    obtain heq | hv := List.mem_cons.mp hv
    · rw [heq]
      exact (ih hparent).tail hedge
    · exact ih hv

variable [DecidableEq V]

theorem Tree.lookup_mem (h : Tree E root parents seen) {v parent : V}
    (hv : parents.lookup v = some parent) : parent ∈ seen := by
  induction h with
  | root => simp at hv
  | @mark parents seen p c _ hparent _ _ ih =>
    rw [List.lookup_cons] at hv
    split at hv
    · have heq := Option.some.inj hv
      rw [← heq]
      exact List.mem_cons_of_mem _ hparent
    · exact List.mem_cons_of_mem _ (ih hv)

theorem Tree.climb_older (h : Tree E root parents seen) {p c : V} (hnew : c ∉ seen) {fuel : ℕ}
    {v : V} {path : List V} (hv : v ∈ seen) :
    climb ((c, p) :: parents) root fuel v path = climb parents root fuel v path := by
  induction fuel generalizing v path with
  | zero => rfl
  | succ fuel ih =>
    have hvc : v ≠ c := fun heq => hnew (heq ▸ hv)
    have hlook : ((c, p) :: parents).lookup v = parents.lookup v := by
      rw [List.lookup_cons, beq_eq_false_iff_ne.mpr hvc]
    rw [climb, climb, hlook]
    split
    · rfl
    · cases hp : parents.lookup v with
      | none => rfl
      | some q => exact ih (h.lookup_mem hp)

/-- The climb from a marked vertex ends at the root, along edges. -/
theorem Tree.climb_leads (h : Tree E root parents seen) {fuel : ℕ} {v : V} (hv : v ∈ seen)
    (hfuel : parents.length < fuel) (path : List V) :
    ∃ before, climb parents root fuel v path = some (before ++ v :: path) ∧
      Leads E root v (before ++ [v]) := by
  induction h generalizing fuel v path with
  | root =>
    obtain ⟨fuel, rfl⟩ := Nat.exists_eq_add_of_lt hfuel
    have hroot : v = root := by simpa using hv
    refine ⟨[], ?_, ?_⟩
    · simp [climb, hroot]
    · simp [Leads, hroot]
  | @mark parents seen p c htree hparent hnew hedge ih =>
    rw [List.length_cons] at hfuel
    obtain heq | hv := List.mem_cons.mp hv
    · subst heq
      obtain ⟨fuel, rfl⟩ : ∃ k, fuel = k + 1 := ⟨fuel - 1, by omega⟩
      have hroot : v ≠ root := fun heq => hnew (heq ▸ htree.root_mem)
      obtain ⟨before, hclimb, hchain, hhead, hlast⟩ :=
        ih hparent (show parents.length < fuel by omega) (v :: path)
      refine ⟨before ++ [p], ?_, ?_, ?_, ?_⟩
      · rw [climb, if_neg hroot, List.lookup_cons, beq_self_eq_true]
        simp only [Option.bind_some, List.append_assoc, List.singleton_append]
        rw [htree.climb_older hnew hparent, hclimb]
      · refine List.isChain_append.mpr ⟨hchain, by simp, ?_⟩
        intro a ha b hb
        have hap : a = p := by simpa using ha.symm
        have hbv : b = v := by simpa using hb.symm
        rw [hap, hbv]
        exact hedge
      · simpa [List.head?_append] using hhead
      · simp
    · obtain ⟨before, hclimb, hleads⟩ := ih hv (show parents.length < fuel by omega) path
      exact ⟨before, by rw [htree.climb_older hnew hv, hclimb], hleads⟩

end Trees

/-! ## One level -/

/-- What a walk has marked, it has over the edges `E`. -/
structure Walk.Over (E : V → V → Prop) (root : V) (w : Walk V) : Prop where
  tree : Tree E root w.parents w.seen
  frontier_seen : ∀ v ∈ w.frontier, v ∈ w.seen

/-- The edges of `E` out of a marked vertex that is not on the frontier lead to marked ones. -/
def Walk.Closed (E : V → V → Prop) (w : Walk V) : Prop :=
  ∀ v ∈ w.seen, v ∉ w.frontier → ∀ c, E v c → c ∈ w.seen

section Levels
variable {E F : V → V → Prop} {root target : V} {w next : Walk V}
  {rows : List (V × V)} {path : Option (List V)}

theorem Walk.Over.start : (Walk.start root).Over E root := by
  refine ⟨.root, ?_⟩
  simp [Walk.start]

theorem Walk.Closed.start : (Walk.start root).Closed E := by
  intro v hv hfresh
  exact absurd hv hfresh

theorem Walk.Closed.mono (h : w.Closed E) (hmono : ∀ a b, F a b → E a b) : w.Closed F :=
  fun v hv hfresh c hedge => h v hv hfresh c (hmono v c hedge)

theorem Walk.Over.mark (h : w.Over E root) {parent child : V} (hparent : parent ∈ w.seen)
    (hnew : child ∉ w.seen) (hedge : E parent child) :
    (w.mark parent child).Over E root := by
  refine ⟨.mark h.tree hparent hnew hedge, fun v hv => ?_⟩
  obtain hv | hv := List.mem_append.mp hv
  · exact List.mem_cons_of_mem _ (h.frontier_seen v hv)
  · have hvc : v = child := by simpa using hv
    rw [hvc]
    exact List.mem_cons_self

/-- With an empty frontier what is marked is all that can be reached. -/
theorem Walk.Over.unreachable (h : w.Over E root) (hclosed : w.Closed F)
    (hdone : w.frontier = []) (hunseen : target ∉ w.seen) :
    ¬ Relation.ReflTransGen F root target := by
  intro hreach
  have hseen : ∀ v, Relation.ReflTransGen F root v → v ∈ w.seen := by
    intro v hv
    induction hv with
    | refl => exact h.tree.root_mem
    | tail _ hedge ih => exact hclosed _ ih (by simp [hdone]) _ hedge
  exact hunseen (hseen target hreach)

/-- Each marked vertex takes an edge of its own, so no more are marked than there are edges. -/
theorem Tree.length_le {edges : List (V × V)} {parents : List (V × V)} {seen : List V}
    (h : Tree (fun a b => (a, b) ∈ edges) root parents seen) : parents.length ≤ edges.length := by
  have hnodup : (parents.map Prod.fst).Nodup := by
    have hseen := h.nodup
    rw [h.seen_eq] at hseen
    exact (List.nodup_append.mp hseen).1
  have hsub : parents.map Prod.fst ⊆ edges.map Prod.snd := by
    intro child hchild
    obtain ⟨⟨c, p⟩, hmem, heq⟩ := List.mem_map.mp hchild
    subst heq
    exact List.mem_map.mpr ⟨(p, c), h.edge hmem, rfl⟩
  simpa using (List.subperm_of_subset hnodup hsub).length_le

variable [DecidableEq V]

theorem expand_found (h : w.Over E root)
    (hrows : ∀ e ∈ rows, e.1 ∈ w.seen ∧ E e.1 e.2)
    (hfound : expand root target w rows = .found path) :
    ∃ vertices, path = some vertices ∧ Leads E root target vertices ∧ root ≠ target := by
  induction rows generalizing w with
  | nil => cases hfound
  | cons row rows ih =>
    obtain ⟨parent, child⟩ := row
    obtain ⟨hparent, hedge⟩ := hrows (parent, child) List.mem_cons_self
    have hrest : ∀ e ∈ rows, e.1 ∈ w.seen ∧ E e.1 e.2 :=
      fun e he => hrows e (List.mem_cons_of_mem _ he)
    rw [expand] at hfound
    by_cases hseen : child ∈ w.seen
    · rw [if_pos hseen] at hfound
      exact ih h hrest hfound
    · rw [if_neg hseen] at hfound
      by_cases htarget : child = target
      · rw [if_pos htarget] at hfound
        have htree : Tree E root ((child, parent) :: w.parents) (child :: w.seen) :=
          .mark h.tree hparent hseen hedge
        obtain ⟨before, hclimb, hleads⟩ := htree.climb_leads List.mem_cons_self
          (Nat.lt_succ_self _) []
        have hroot : root ≠ target := by
          intro heq
          exact hseen (htarget.trans heq.symm ▸ h.tree.root_mem)
        refine ⟨before ++ [child], ?_, htarget ▸ hleads, hroot⟩
        have hpath := Level.found.inj hfound
        rw [← hpath]
        exact hclimb
      · rw [if_neg htarget] at hfound
        refine ih (h.mark hparent hseen hedge) (fun e he => ?_) hfound
        exact ⟨List.mem_cons_of_mem _ (hrest e he).1, (hrest e he).2⟩

/-- What is left after the edges of a level, when none of them led to the target. -/
structure Expanded (E : V → V → Prop) (root target : V) (w : Walk V) (rows : List (V × V))
    (next : Walk V) : Prop where
  walked : next.Over E root
  unseen : target ∉ w.seen → target ∉ next.seen
  keeps : ∀ v ∈ w.seen, v ∈ next.seen
  keeps_frontier : ∀ v ∈ w.frontier, v ∈ next.frontier
  covers : ∀ e ∈ rows, e.2 ∈ next.seen
  fresh : ∀ v ∈ next.seen, v ∈ w.seen ∨ v ∈ next.frontier
  count : next.parents.length + w.frontier.length = w.parents.length + next.frontier.length

theorem expand_more (h : w.Over E root)
    (hrows : ∀ e ∈ rows, e.1 ∈ w.seen ∧ E e.1 e.2)
    (hmore : expand root target w rows = .more next) : Expanded E root target w rows next := by
  induction rows generalizing w with
  | nil =>
    have heq := Level.more.inj hmore
    subst heq
    exact ⟨h, fun hv => hv, fun v hv => hv, fun v hv => hv, by simp, fun v hv => .inl hv, by omega⟩
  | cons row rows ih =>
    obtain ⟨parent, child⟩ := row
    obtain ⟨hparent, hedge⟩ := hrows (parent, child) List.mem_cons_self
    have hrest : ∀ e ∈ rows, e.1 ∈ w.seen ∧ E e.1 e.2 :=
      fun e he => hrows e (List.mem_cons_of_mem _ he)
    rw [expand] at hmore
    by_cases hseen : child ∈ w.seen
    · rw [if_pos hseen] at hmore
      have hnext := ih h hrest hmore
      refine ⟨hnext.walked, hnext.unseen, hnext.keeps, hnext.keeps_frontier, fun e he => ?_,
        hnext.fresh, hnext.count⟩
      obtain heq | he := List.mem_cons.mp he
      · rw [heq]
        exact hnext.keeps child hseen
      · exact hnext.covers e he
    · rw [if_neg hseen] at hmore
      by_cases htarget : child = target
      · rw [if_pos htarget] at hmore
        cases hmore
      · rw [if_neg htarget] at hmore
        have hmarked : ∀ e ∈ rows, e.1 ∈ (w.mark parent child).seen ∧ E e.1 e.2 :=
          fun e he => ⟨List.mem_cons_of_mem _ (hrest e he).1, (hrest e he).2⟩
        have hnext := ih (h.mark hparent hseen hedge) hmarked hmore
        have hcount := hnext.count
        have hchild : child ∈ (w.mark parent child).frontier := by simp [Walk.mark]
        have hunseen : target ∉ w.seen → target ∉ (w.mark parent child).seen := by
          intro hold hmem
          obtain heq | hmem := List.mem_cons.mp hmem
          · exact htarget heq.symm
          · exact hold hmem
        refine ⟨hnext.walked, fun hold => hnext.unseen (hunseen hold),
          fun v hv => hnext.keeps v (List.mem_cons_of_mem _ hv), fun v hv => ?_,
          fun e he => ?_, fun v hv => ?_, ?_⟩
        · exact hnext.keeps_frontier v (List.mem_append_left _ hv)
        · obtain heq | he := List.mem_cons.mp he
          · rw [heq]
            exact hnext.keeps child List.mem_cons_self
          · exact hnext.covers e he
        · obtain hv | hv := hnext.fresh v hv
          · obtain heq | hv := List.mem_cons.mp hv
            · rw [heq]
              exact .inr (hnext.keeps_frontier child hchild)
            · exact .inl hv
          · exact .inr hv
        · simp only [Walk.mark, List.length_cons, List.length_append, List.length_nil] at hcount
          omega

/-- The edges of one level: out of the frontier, each there in `E`, and all that are in `F`. -/
structure Answers (E F : V → V → Prop) (w : Walk V) (rows : List (V × V)) : Prop where
  sound : ∀ e ∈ rows, e.1 ∈ w.frontier ∧ E e.1 e.2
  complete : ∀ v ∈ w.frontier, ∀ c, F v c → (v, c) ∈ rows

theorem level_found (h : w.Over E root) (hrows : Answers E F w rows)
    (hfound : level root target w rows = .found path) :
    ∃ vertices, path = some vertices ∧ Leads E root target vertices ∧ root ≠ target := by
  have hstart : ({ w with frontier := [] } : Walk V).Over E root := ⟨h.tree, by simp⟩
  refine expand_found hstart (fun e he => ?_) hfound
  exact ⟨h.frontier_seen e.1 (hrows.sound e he).1, (hrows.sound e he).2⟩

theorem level_more (h : w.Over E root) (hclosed : w.Closed F) (hrows : Answers E F w rows)
    (hmore : level root target w rows = .more next) :
    next.Over E root ∧ next.Closed F ∧ (target ∉ w.seen → target ∉ next.seen) ∧
      next.parents.length = w.parents.length + next.frontier.length := by
  have hstart : ({ w with frontier := [] } : Walk V).Over E root := ⟨h.tree, by simp⟩
  have hnext := expand_more hstart
    (fun e he => ⟨h.frontier_seen e.1 (hrows.sound e he).1, (hrows.sound e he).2⟩) hmore
  refine ⟨hnext.walked, fun v hv hfresh c hedge => ?_, hnext.unseen, by simpa using hnext.count⟩
  have hold : v ∈ w.seen := (hnext.fresh v hv).resolve_right hfresh
  by_cases hfront : v ∈ w.frontier
  · exact hnext.covers (v, c) (hrows.complete v hfront c hedge)
  · exact hnext.keeps c (hclosed v hold hfront c hedge)

/-! ## The whole search -/

/-- A search over edges that only go away: it ends within two levels more than there are edges, a
path it says was there at its start, and where it says none there is none at its end. -/
theorem search_ends (target : V) {edges : List (V × V)} {ask : Walk V → List (V × V)}
    (hask : ∀ w, Answers (fun a b => (a, b) ∈ edges) F w (ask w)) {fuel : ℕ}
    (h : w.Over (fun a b => (a, b) ∈ edges) root) (hclosed : w.Closed F)
    (hfuel : edges.length + 1 < fuel + w.parents.length) :
    (search ask root target fuel w = some .unreachable ∧
        (target ∉ w.seen → ¬ Relation.ReflTransGen F root target)) ∨
      ∃ vertices, search ask root target fuel w = some (.path vertices) ∧
        Leads (fun a b => (a, b) ∈ edges) root target vertices ∧ root ≠ target := by
  induction fuel generalizing w with
  | zero =>
    have hle := h.tree.length_le
    omega
  | succ fuel ih =>
    rw [search]
    by_cases hdone : w.frontier = []
    · rw [if_pos hdone]
      exact .inl ⟨rfl, h.unreachable hclosed hdone⟩
    · rw [if_neg hdone]
      cases hlevel : level root target w (ask w) with
      | found path =>
        obtain ⟨vertices, rfl, hleads⟩ := level_found h (hask w) hlevel
        exact .inr ⟨vertices, rfl, hleads⟩
      | more next =>
        obtain ⟨hover, hnext, hunseen, hcount⟩ := level_more h hclosed (hask w) hlevel
        by_cases hend : next.frontier = []
        · have hle := h.tree.length_le
          obtain ⟨fuel, rfl⟩ : ∃ k, fuel = k + 1 := ⟨fuel - 1, by omega⟩
          refine .inl ⟨?_, fun hold => hover.unreachable hnext hend (hunseen hold)⟩
          show search ask root target (fuel + 1) next = some .unreachable
          rw [search, if_pos hend]
        · have hpos : 0 < next.frontier.length := List.length_pos_iff.mpr hend
          obtain ⟨hsearch, hnone⟩ | hpath := ih hover hnext (by omega)
          · exact .inl ⟨hsearch, fun hold => hnone (hunseen hold)⟩
          · exact .inr hpath

end Levels

/-! ## Relations without cycles -/

def Acyclic (E : V → V → Prop) : Prop := ∀ a, ¬ Relation.TransGen E a a

section Acyclicity
variable {E F : V → V → Prop}

theorem Acyclic.mono (h : Acyclic E) (hmono : ∀ a b, F a b → E a b) : Acyclic F :=
  fun a ha => h a (Relation.TransGen.mono hmono a a ha)

/-- A walk along the edges of an acyclic relation meets no vertex twice. -/
theorem Acyclic.nodup (h : Acyclic E) {path : List V} (hpath : path.IsChain E) : path.Nodup := by
  have hchain : path.IsChain (Relation.TransGen E) := hpath.imp fun _ _ => .single
  refine (List.isChain_iff_pairwise.mp hchain).imp fun {a b} hab heq => ?_
  subst heq
  exact h a hab

/-- One more edge `a → b` closes no cycle if `a` cannot be reached from `b`. -/
theorem Acyclic.add (h : Acyclic E) {a b : V} (hback : ¬ Relation.ReflTransGen E b a)
    (hF : ∀ x y, F x y → E x y ∨ x = a ∧ y = b) : Acyclic F := by
  -- whatever is reached over the new edge too is reached from `b` once that edge has been taken
  have hreach : ∀ x y, Relation.TransGen F x y →
      Relation.TransGen E x y ∨ Relation.ReflTransGen E x a ∧ Relation.ReflTransGen E b y := by
    intro x y hxy
    induction hxy with
    | single hedge =>
      obtain hE | ⟨rfl, rfl⟩ := hF _ _ hedge
      · exact .inl (.single hE)
      · exact .inr ⟨.refl, .refl⟩
    | tail _ hedge ih =>
      obtain hE | ⟨rfl, rfl⟩ := hF _ _ hedge
      · obtain hpath | ⟨hto, hfrom⟩ := ih
        · exact .inl (hpath.tail hE)
        · exact .inr ⟨hto, hfrom.tail hE⟩
      · obtain hpath | ⟨_, hfrom⟩ := ih
        · exact .inr ⟨hpath.to_reflTransGen, .refl⟩
        · exact absurd hfrom hback
  intro x hx
  obtain hcycle | ⟨hto, hfrom⟩ := hreach x x hx
  · exact h x hcycle
  · exact hback (hfrom.trans hto)

theorem Leads.reaches {a b : V} {path : List V} (h : Leads E a b path) :
    Relation.ReflTransGen E a b := by
  obtain ⟨hchain, hhead, hlast⟩ := h
  cases path with
  | nil => cases hhead
  | cons v path =>
    have hva : v = a := by simpa using hhead
    subst hva
    have hall := List.IsChain.induction (Relation.ReflTransGen E v) (v :: path) hchain
      (fun x y hxy hx => hx.tail hxy) (fun _ => .refl)
    exact hall b (List.mem_of_getLast? hlast)

end Acyclicity

end DataQ.Search
