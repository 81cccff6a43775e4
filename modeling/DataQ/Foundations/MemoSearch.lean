import DataQ.Foundations.Dictionary
import Mathlib.Logic.Relation

/-! # Searching with a memo

A depth-first search that gathers what the nodes below a node hold. Its memo is also what breaks its
cycles: a node has an empty entry while it is being visited. Where the nodes have no cycle, every
entry that is read is the whole of what lies below its node; with cycles, the search still ends, and
it is refused just where a node that it can come to refuses. -/

namespace DataQ.MemoSearch
set_option autoImplicit false

/-- What stands below a node: a value, another node, nothing, or what the search cannot read. -/
inductive Child (κ α : Type)
  | found (value : α)
  | deeper (node : κ)
  | skipped
  | refused
  deriving DecidableEq

inductive Stop
  | refused
  | unfinished
  deriving DecidableEq

/-- The memo of a search. -/
abbrev Memo (κ α : Type) := List (κ × List α)

variable {κ α : Type} [BEq κ] [LawfulBEq κ]

def gatherChild (visit : κ → Memo κ α → Except Stop (List α × Memo κ α)) (acc : List α × Memo κ α) :
    Child κ α → Except Stop (List α × Memo κ α)
  | .found value => .ok (acc.1 ++ [value], acc.2)
  | .deeper node => (visit node acc.2).map fun answer => (acc.1 ++ answer.1, answer.2)
  | .skipped => .ok acc
  | .refused => .error .refused

/-- The children in their order, after what was gathered so far. -/
def gather (visit : κ → Memo κ α → Except Stop (List α × Memo κ α)) (children : List (Child κ α))
    (acc : List α × Memo κ α) : Except Stop (List α × Memo κ α) :=
  children.foldlM (gatherChild visit) acc

def visit (children : κ → List (Child κ α)) :
    ℕ → κ → Memo κ α → Except Stop (List α × Memo κ α)
  | fuel, node, memo =>
    match memo.lookup node with
    | some cached => .ok (cached, memo)
    | none =>
      match fuel with
      | 0 => .error .unfinished
      | fuel + 1 =>
        (gather (visit children fuel) (children node) ([], setField node [] memo)).map fun answer =>
          (answer.1, setField node answer.1 answer.2)

/-! ## What lies below a node -/

section Below

variable (children : κ → List (Child κ α))

def Step (node other : κ) : Prop := .deeper other ∈ children node

def Refuses (node : κ) : Prop := .refused ∈ children node

/-- A node from which the search comes to one that refuses. -/
def Fails (node : κ) : Prop := ∃ other, Relation.ReflTransGen (Step children) node other ∧
  Refuses children other

def Acyclic : Prop := ∀ node, ¬ Relation.TransGen (Step children) node node

inductive Yields : κ → α → Prop
  | found {node : κ} {value : α} (h : .found value ∈ children node) : Yields node value
  | deeper {node other : κ} {value : α} (h : .deeper other ∈ children node)
      (hrest : Yields other value) : Yields node value

/-- What a child adds to the values. -/
def Gives (value : α) : Child κ α → Prop
  | .found other => other = value
  | .deeper node => Yields children node value
  | .skipped => False
  | .refused => False

def Breaks : Child κ α → Prop
  | .found _ => False
  | .deeper node => Fails children node
  | .skipped => False
  | .refused => True

end Below

variable {children : κ → List (Child κ α)}

omit [BEq κ] [LawfulBEq κ] in
theorem yields_iff {node : κ} {value : α} :
    Yields children node value ↔ ∃ child ∈ children node, Gives children value child := by
  constructor
  · intro h
    cases h with
    | found h => exact ⟨_, h, rfl⟩
    | deeper h hrest => exact ⟨_, h, hrest⟩
  · rintro ⟨child, hmem, hgives⟩
    cases child with
    | found other => exact .found (hgives ▸ hmem)
    | deeper other => exact .deeper hmem hgives
    | skipped => cases hgives
    | refused => cases hgives

omit [BEq κ] [LawfulBEq κ] in
theorem fails_iff {node : κ} :
    Fails children node ↔ ∃ child ∈ children node, Breaks children child := by
  constructor
  · rintro ⟨other, hreach, hrefuses⟩
    obtain rfl | ⟨next, hstep, hrest⟩ := Relation.ReflTransGen.cases_head hreach
    · exact ⟨.refused, hrefuses, trivial⟩
    · exact ⟨.deeper next, hstep, other, hrest, hrefuses⟩
  · rintro ⟨child, hmem, hbreaks⟩
    cases child with
    | found other => cases hbreaks
    | deeper next =>
      obtain ⟨other, hreach, hrefuses⟩ := hbreaks
      exact ⟨other, hreach.head hmem, hrefuses⟩
    | skipped => cases hbreaks
    | refused => exact ⟨node, .refl, hmem⟩

/-! ## What a memo holds -/

def Marked (memo : Memo κ α) (node : κ) : Prop := (memo.lookup node).isSome = true

/-- Off the stack, a marked node is done with. -/
structure Kept (children : κ → List (Child κ α)) (stack : List κ) (memo : Memo κ α) : Prop where
  closed : ∀ node, Marked memo node → node ∉ stack →
    ¬ Refuses children node ∧ ∀ other, Step children node other → Marked memo other
  exact : Acyclic children → ∀ node found, node ∉ stack → memo.lookup node = some found →
    ∀ value, value ∈ found ↔ Yields children node value

omit [LawfulBEq κ] in
theorem kept_nil : Kept children [] [] where
  closed := fun _ h => by cases h
  exact := fun _ _ _ _ h => by cases h

omit [LawfulBEq κ] in
/-- Once nothing is on the stack, all that can be come to from a marked node is marked, and none of
it refuses. -/
theorem Kept.not_fails {memo : Memo κ α} (h : Kept children [] memo) {node : κ}
    (hmarked : Marked memo node) : ¬ Fails children node := by
  have hall : ∀ other, Relation.ReflTransGen (Step children) node other → Marked memo other := by
    intro other hreach
    induction hreach with
    | refl => exact hmarked
    | tail _ hstep ih => exact (h.closed _ ih List.not_mem_nil).2 _ hstep
  rintro ⟨other, hreach, hrefuses⟩
  exact (h.closed other (hall other hreach) List.not_mem_nil).1 hrefuses

theorem marked_setField {memo : Memo κ α} {node other : κ} {found : List α} :
    Marked (setField node found memo) other ↔ other = node ∨ Marked memo other := by
  unfold Marked
  by_cases heq : other = node
  · simp [heq]
  · rw [lookup_setField_ne heq]
    simp [heq]

/-- The nodes that have no entry yet. -/
def unmarked (nodes : List κ) (memo : Memo κ α) : List κ :=
  nodes.filter fun node => (memo.lookup node).isNone

omit [LawfulBEq κ] in
theorem unmarked_length_le (nodes : List κ) {memo memo' : Memo κ α}
    (h : ∀ node, Marked memo node → Marked memo' node) :
    (unmarked nodes memo').length ≤ (unmarked nodes memo).length := by
  apply List.Sublist.length_le
  apply List.monotone_filter_right
  intro node hnode
  have hnot := mt (h node)
  simp only [Marked, Bool.not_eq_true, Option.isSome_eq_false_iff] at hnot
  exact hnot hnode

theorem unmarked_length_lt {nodes : List κ} {memo : Memo κ α} {node : κ} (hmem : node ∈ nodes)
    (hnew : memo.lookup node = none) (found : List α) :
    (unmarked nodes (setField node found memo)).length < (unmarked nodes memo).length := by
  have hsplit : unmarked nodes (setField node found memo) =
      (unmarked nodes memo).filter fun other => other != node := by
    rw [unmarked, unmarked, List.filter_filter]
    apply List.filter_congr
    intro other _
    by_cases heq : other = node
    · simp [heq]
    · simp [lookup_setField_ne heq, heq]
  rw [hsplit]
  apply List.length_filter_lt_length_iff_exists.mpr
  exact ⟨node, List.mem_filter.mpr ⟨hmem, by simp [hnew]⟩, by simp⟩

/-! ## A visit -/

/-- What comes of children that are gathered after `start`. -/
inductive Gathered (children : κ → List (Child κ α)) (stack : List κ) (memo : Memo κ α)
    (start : List α) (siblings : List (Child κ α)) : Except Stop (List α × Memo κ α) → Prop
  | done {found : List α} {memo' : Memo κ α} (hkept : Kept children stack memo')
      (hgrown : ∀ node, Marked memo node → Marked memo' node)
      (hread : .refused ∉ siblings ∧ ∀ node, .deeper node ∈ siblings → Marked memo' node)
      (hexact : Acyclic children → ∀ value, value ∈ found ↔
        value ∈ start ∨ ∃ child ∈ siblings, Gives children value child) :
      Gathered children stack memo start siblings (.ok (found, memo'))
  | stopped (hbreaks : ∃ child ∈ siblings, Breaks children child) :
      Gathered children stack memo start siblings (.error .refused)

/-- What comes of a node that is visited. -/
inductive Visited (children : κ → List (Child κ α)) (stack : List κ) (memo : Memo κ α)
    (node : κ) : Except Stop (List α × Memo κ α) → Prop
  | done {found : List α} {memo' : Memo κ α} (hkept : Kept children stack memo')
      (hgrown : ∀ other, Marked memo other → Marked memo' other) (hmarked : Marked memo' node)
      (hexact : Acyclic children → ∀ value, value ∈ found ↔ Yields children node value) :
      Visited children stack memo node (.ok (found, memo'))
  | stopped (hfails : Fails children node) : Visited children stack memo node (.error .refused)

omit [LawfulBEq κ] in
/-- One child. -/
theorem gatherChild_spec {recur : κ → Memo κ α → Except Stop (List α × Memo κ α)}
    {stack : List κ} {memo : Memo κ α} (start : List α) (child : Child κ α)
    (hkept : Kept children stack memo)
    (hrecur : ∀ node, child = .deeper node → Visited children stack memo node (recur node memo)) :
    Gathered children stack memo start [child] (gatherChild recur (start, memo) child) := by
  cases child with
  | found value =>
    refine .done hkept (fun _ h => h) ⟨by simp, by simp⟩ fun _ other => ?_
    simp [Gives, eq_comm]
  | deeper node =>
    have hnode := hrecur node rfl
    unfold gatherChild
    dsimp only
    revert hnode
    generalize recur node memo = answer
    intro hnode
    cases hnode with
    | done hkept' hgrown hmarked hexact =>
      refine .done hkept' hgrown ⟨by simp, ?_⟩ fun hacyclic value => ?_
      · intro other hother
        obtain rfl := Child.deeper.inj (List.mem_singleton.mp hother)
        exact hmarked
      · rw [List.mem_append, hexact hacyclic value]
        simp [Gives]
    | stopped hfails => exact .stopped ⟨_, List.mem_singleton_self _, hfails⟩
  | skipped =>
    refine .done hkept (fun _ h => h) ⟨by simp, by simp⟩ fun _ value => ?_
    simp [Gives]
  | refused => exact .stopped ⟨_, List.mem_singleton_self _, trivial⟩

omit [LawfulBEq κ] in
/-- All children, where each of them is visited as it should be. -/
theorem gather_spec {recur : κ → Memo κ α → Except Stop (List α × Memo κ α)} {stack : List κ}
    {siblings : List (Child κ α)} {bound : Memo κ α → Prop}
    (hmono : ∀ memo memo', (∀ node, Marked memo node → Marked memo' node) → bound memo →
      bound memo')
    (hrecur : ∀ node memo, .deeper node ∈ siblings → bound memo → Kept children stack memo →
      Visited children stack memo node (recur node memo))
    {memo : Memo κ α} (start : List α) (hbound : bound memo) (hkept : Kept children stack memo) :
    Gathered children stack memo start siblings (gather recur siblings (start, memo)) := by
  induction siblings generalizing memo start with
  | nil => exact .done hkept (fun _ h => h) ⟨by simp, by simp⟩ fun _ value => by simp
  | cons child siblings ih =>
    have hfirst : Gathered children stack memo start [child]
        (gatherChild recur (start, memo) child) :=
      gatherChild_spec start child hkept fun node hnode =>
        hrecur node memo (hnode ▸ List.mem_cons_self) hbound hkept
    unfold gather
    rw [List.foldlM_cons]
    cases hstep : gatherChild recur (start, memo) child with
    | error stop =>
      rw [hstep] at hfirst
      cases hfirst with
      | stopped hbreaks =>
        obtain ⟨other, hother, hbreaks⟩ := hbreaks
        obtain rfl := List.mem_singleton.mp hother
        exact .stopped ⟨_, List.mem_cons_self, hbreaks⟩
    | ok acc =>
      rw [hstep] at hfirst
      cases hfirst with
      | @done found memo' hkept' hgrown hread hexact =>
        have hrest := ih (fun node memo hmem => hrecur node memo (List.mem_cons_of_mem _ hmem))
          found (hmono _ _ hgrown hbound) hkept'
        change Gathered children stack memo start (child :: siblings)
          (gather recur siblings (found, memo'))
        cases hgather : gather recur siblings (found, memo') with
        | error stop =>
          rw [hgather] at hrest
          cases hrest with
          | stopped hbreaks =>
            obtain ⟨other, hother, hbreaks⟩ := hbreaks
            exact .stopped ⟨other, List.mem_cons_of_mem _ hother, hbreaks⟩
        | ok last =>
          rw [hgather] at hrest
          cases hrest with
          | done hkept'' hgrown' hread' hexact' =>
            refine .done hkept'' (fun node h => hgrown' node (hgrown node h)) ⟨?_, ?_⟩ ?_
            · rw [List.mem_cons, not_or]
              exact ⟨fun h => hread.1 (h ▸ List.mem_singleton_self _), hread'.1⟩
            · intro node hnode
              obtain hhead | htail := List.mem_cons.mp hnode
              · exact hgrown' node (hread.2 node (hhead ▸ List.mem_singleton_self _))
              · exact hread'.2 node htail
            · intro hacyclic value
              rw [hexact' hacyclic value, hexact hacyclic value, List.exists_mem_cons_iff, or_assoc]
              simp

/-- A node that is begun goes onto the stack. -/
theorem Kept.begin {stack : List κ} {memo : Memo κ α} {node : κ} (h : Kept children stack memo) :
    Kept children (node :: stack) (setField node [] memo) where
  closed := by
    intro other hmarked hoff
    rw [List.mem_cons, not_or] at hoff
    have hbefore := (marked_setField.mp hmarked).resolve_left hoff.1
    obtain ⟨hnot, hsteps⟩ := h.closed other hbefore hoff.2
    exact ⟨hnot, fun next hstep => marked_setField.mpr (.inr (hsteps next hstep))⟩
  exact := by
    intro hacyclic other found hoff hlookup
    rw [List.mem_cons, not_or] at hoff
    rw [lookup_setField_ne hoff.1] at hlookup
    exact h.exact hacyclic other found hoff.2 hlookup

/-- And once its children are gathered, it is off the stack again. -/
theorem Kept.finish {stack : List κ} {memo : Memo κ α} {node : κ} {found : List α}
    (h : Kept children (node :: stack) memo) (hrefuses : ¬ Refuses children node)
    (hsteps : ∀ other, Step children node other → Marked memo other)
    (hexact : Acyclic children → ∀ value, value ∈ found ↔ Yields children node value) :
    Kept children stack (setField node found memo) where
  closed := by
    intro other hmarked hoff
    by_cases heq : other = node
    · subst heq
      exact ⟨hrefuses, fun next hstep => marked_setField.mpr (.inr (hsteps next hstep))⟩
    · have hbefore := (marked_setField.mp hmarked).resolve_left heq
      obtain ⟨hnot, hnext⟩ := h.closed other hbefore (by simp [heq, hoff])
      exact ⟨hnot, fun next hstep => marked_setField.mpr (.inr (hnext next hstep))⟩
  exact := by
    intro hacyclic other found' hoff hlookup
    by_cases heq : other = node
    · subst heq
      rw [lookup_setField_self, Option.some.injEq] at hlookup
      subst hlookup
      exact hexact hacyclic
    · rw [lookup_setField_ne heq] at hlookup
      exact h.exact hacyclic other found' (by simp [heq, hoff]) hlookup

omit [LawfulBEq κ] in
theorem visit_of_lookup {fuel : ℕ} {node : κ} {memo : Memo κ α} {cached : List α}
    (h : memo.lookup node = some cached) : visit children fuel node memo = .ok (cached, memo) := by
  cases fuel <;> simp [visit, h]

omit [LawfulBEq κ] in
theorem visit_of_new {fuel : ℕ} {node : κ} {memo : Memo κ α} (h : memo.lookup node = none) :
    visit children (fuel + 1) node memo =
      (gather (visit children fuel) (children node) ([], setField node [] memo)).map fun answer =>
        (answer.1, setField node answer.1 answer.2) := by
  simp [visit, h]

omit [LawfulBEq κ] in
/-- An entry is read as it is; where there are no cycles, its node is not on the stack. -/
theorem visited_of_lookup {fuel : ℕ} {stack : List κ} {memo : Memo κ α} {node : κ}
    {cached : List α} (h : memo.lookup node = some cached)
    (hstack : ∀ other ∈ stack, Relation.TransGen (Step children) other node)
    (hkept : Kept children stack memo) :
    Visited children stack memo node (visit children fuel node memo) := by
  rw [visit_of_lookup h]
  refine .done hkept (fun _ hmarked => hmarked) (by rw [Marked, h]; rfl) fun hacyclic => ?_
  have hoff : node ∉ stack := fun hon => hacyclic node (hstack node hon)
  exact hkept.exact hacyclic node cached hoff h

/-- A node is visited as it should be where there is fuel for the nodes that have no entry, and it
can be come to from all that is on the stack. -/
theorem visit_spec {nodes : List κ}
    (hnodes : ∀ node other, Step children node other → other ∈ nodes)
    {fuel : ℕ} {stack : List κ} {memo : Memo κ α} {node : κ} (hnode : node ∈ nodes)
    (hfuel : (unmarked nodes memo).length ≤ fuel)
    (hstack : ∀ other ∈ stack, Relation.TransGen (Step children) other node)
    (hkept : Kept children stack memo) :
    Visited children stack memo node (visit children fuel node memo) := by
  induction fuel generalizing stack memo node with
  | zero =>
    cases hlookup : memo.lookup node with
    | some cached => exact visited_of_lookup hlookup hstack hkept
    | none =>
      have hlt := unmarked_length_lt hnode hlookup []
      omega
  | succ fuel ih =>
    cases hlookup : memo.lookup node with
    | some cached => exact visited_of_lookup hlookup hstack hkept
    | none =>
      have hlt := unmarked_length_lt hnode hlookup []
      have hbelow : ∀ other, Step children node other → ∀ before ∈ node :: stack,
          Relation.TransGen (Step children) before other := by
        intro other hstep before hbefore
        obtain rfl | hbefore := List.mem_cons.mp hbefore
        · exact .single hstep
        · exact (hstack before hbefore).tail hstep
      have hgathered : Gathered children (node :: stack) (setField node [] memo) [] (children node)
          (gather (visit children fuel) (children node) ([], setField node [] memo)) :=
        gather_spec (fun _ _ hgrown hle => Nat.le_trans (unmarked_length_le nodes hgrown) hle)
          (fun other memo' hstep hle hkept' =>
            ih (hnodes node other hstep) hle (hbelow other hstep) hkept')
          [] (by omega : (unmarked nodes (setField node [] memo)).length ≤ fuel) hkept.begin
      rw [visit_of_new hlookup]
      revert hgathered
      generalize gather (visit children fuel) (children node) ([], setField node [] memo) = answer
      intro hgathered
      cases hgathered with
      | @done found memo' hkept' hgrown hread hexact =>
        have hyields : Acyclic children → ∀ value, value ∈ found ↔ Yields children node value := by
          intro hacyclic value
          rw [hexact hacyclic value, yields_iff]
          simp
        refine .done (hkept'.finish hread.1 hread.2 hyields) ?_ ?_ hyields
        · intro other hother
          exact marked_setField.mpr (.inr (hgrown other (marked_setField.mpr (.inr hother))))
        · exact marked_setField.mpr (.inl rfl)
      | stopped hbreaks => exact .stopped (fails_iff.mpr hbreaks)

end DataQ.MemoSearch
