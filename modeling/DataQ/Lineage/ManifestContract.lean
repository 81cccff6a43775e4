import DataQ.Lineage.Manifests

/-! # What a manifest parse promises

The edges of a manifest as a relation over its nodes, and the documents on which the parse ends with
a graph or with `ManifestParseError`. -/

namespace DataQ.Lineage.Manifests
open DataQ.Fallible DataQ.MemoSearch
set_option autoImplicit false

/-- The three objects that a parse reads. -/
structure Manifest where
  sources : Fields
  nodes : Fields
  parentMap : Fields

def manifestOf (doc : Json) : Manifest where
  sources := (doc.get "sources".toList).entries
  nodes := (doc.get "nodes".toList).entries
  parentMap := (doc.get "parent_map".toList).entries

/-- A model, seed or snapshot, ephemeral or not. -/
structure IsNode (ephemeral : Bool) (node : Json) : Prop where
  dict : node.isDict = true
  known : ∃ name ∈ nodeResourceTypes, node.get "resource_type".toList = .str name
  kind : isEphemeral node = ephemeral

def Physical (m : Manifest) (uid : Text) : Prop :=
  (∃ node, (uid, node) ∈ m.sources ∧ node.isDict = true) ∨
    ∃ node, (uid, node) ∈ m.nodes ∧ IsNode false node

/-- A node is not both; what is a source, too, is physical. -/
def Ephemeral (m : Manifest) (uid : Text) : Prop :=
  (∃ node, (uid, node) ∈ m.nodes ∧ IsNode true node) ∧ ¬ Physical m uid

def Parent (m : Manifest) (child parent : Text) : Prop :=
  ∃ parents, (child, .arr parents) ∈ m.parentMap ∧ .str parent ∈ parents

/-- A path of parents, with only ephemeral nodes strictly between its ends. -/
inductive Leads (m : Manifest) : Text → Text → Prop
  | parent {child ancestor : Text} (h : Parent m child ancestor) : Leads m child ancestor
  | through {child uid ancestor : Text} (h : Parent m child uid) (hephemeral : Ephemeral m uid)
      (hrest : Leads m uid ancestor) : Leads m child ancestor

/-- A step of a cycle through ephemeral nodes only. -/
structure EphemeralStep (m : Manifest) (child uid : Text) : Prop where
  start : Ephemeral m child
  parent : Parent m child uid
  target : Ephemeral m uid

def HasEphemeralCycle (m : Manifest) : Prop :=
  ∃ uid, Relation.TransGen (EphemeralStep m) uid uid

/-- A step of the search, from a node to an ephemeral parent of it. -/
structure Through (m : Manifest) (child uid : Text) : Prop where
  parent : Parent m child uid
  ephemeral : Ephemeral m uid

/-- The edges of a manifest, each once. -/
structure Exact (m : Manifest) (edges : List (Text × Text)) : Prop where
  nodup : edges.Nodup
  mem : ∀ ancestor child, (ancestor, child) ∈ edges ↔
    Physical m ancestor ∧ Physical m child ∧ Leads m child ancestor

/-- The version can be read and is not too old, and the three objects are there. -/
structure Reads (tools : Tools) (doc : Json) : Prop where
  version : ∃ digits, schemaDigits tools doc = some digits ∧ digits.length ≤ maxStrDigits ∧
    minSchemaVersion ≤ intOf digits
  nodes : (doc.get "nodes".toList).isDict = true
  sources : (doc.get "sources".toList).isDict = true
  parentMap : (doc.get "parent_map".toList).isDict = true

/-- Nothing is asked for in a set that has no hash: no resource type of a node, and no parent of a
physical node or of an ephemeral one that is come to from there. -/
structure Hashable (m : Manifest) : Prop where
  types : ∀ uid node, (uid, node) ∈ m.nodes → node.isDict = true →
    hashable (node.get "resource_type".toList) = true
  parents : ∀ child, Physical m child → ∀ uid, Relation.ReflTransGen (Through m) child uid →
    ∀ parents, (uid, .arr parents) ∈ m.parentMap → ∀ parent ∈ parents, hashable parent = true

/-- What a document must be for the parse to raise nothing else. -/
structure Safe (tools : Tools) (doc : Json) : Prop where
  version : ∀ digits, schemaDigits tools doc = some digits → digits.length ≤ maxStrDigits
  hashable : Reads tools doc → Hashable (manifestOf doc)

/-! ## Nodes -/

theorem inSet_eq_ok {names : List Text} {value : Json} {found : Bool} :
    inSet names value = .ok found ↔
      hashable value = true ∧ (found = true ↔ ∃ name ∈ names, value = .str name) := by
  unfold inSet
  by_cases h : hashable value = true
  · rw [if_pos h, Except.ok.injEq]
    constructor
    · rintro rfl
      exact ⟨h, by simp⟩
    · rintro ⟨-, hfound⟩
      rw [Bool.eq_iff_iff, hfound]
      simp
  · rw [if_neg h]
    simp [h]

theorem inSet_of_not_hashable {names : List Text} {value : Json} (h : hashable value = false) :
    inSet names value = .error .typeError := by
  unfold inSet
  rw [h]
  rfl

/-- The sets hold the nodes of their kind among those that were read. -/
structure Sorted (sources done : Fields) (nodes : Nodes) : Prop where
  physical : ∀ uid, uid ∈ nodes.physical ↔
    (∃ node, (uid, node) ∈ sources ∧ node.isDict = true) ∨
      ∃ node, (uid, node) ∈ done ∧ IsNode false node
  ephemeral : ∀ uid, uid ∈ nodes.ephemeral ↔ ∃ node, (uid, node) ∈ done ∧ IsNode true node

theorem sorted_sources (sources : Fields) : Sorted sources [] (sources.foldl addSource {}) := by
  have hgeneral : ∀ (rest : Fields) (nodes : Nodes),
      (∀ uid, uid ∈ (rest.foldl addSource nodes).physical ↔
        uid ∈ nodes.physical ∨ ∃ node, (uid, node) ∈ rest ∧ node.isDict = true) ∧
      (rest.foldl addSource nodes).ephemeral = nodes.ephemeral := by
    intro rest
    induction rest with
    | nil => simp
    | cons entry rest ih =>
      intro nodes
      obtain ⟨hphysical, hephemeral⟩ := ih (addSource nodes entry)
      rw [List.foldl_cons]
      refine ⟨fun uid => ?_, ?_⟩
      · rw [hphysical uid]
        unfold addSource
        obtain ⟨name, node⟩ := entry
        by_cases hdict : node.isDict = true
        · simp only [hdict, if_true, List.mem_insert_iff, List.mem_cons, Prod.mk.injEq]
          constructor
          · rintro ((rfl | h) | ⟨other, hother, h⟩)
            · exact .inr ⟨node, .inl ⟨rfl, rfl⟩, hdict⟩
            · exact .inl h
            · exact .inr ⟨other, .inr hother, h⟩
          · rintro (h | ⟨other, ⟨rfl, rfl⟩ | hother, h⟩)
            · exact .inl (.inr h)
            · exact .inl (.inl rfl)
            · exact .inr ⟨other, hother, h⟩
        · simp only [hdict, List.mem_cons, Prod.mk.injEq]
          constructor
          · rintro (h | ⟨other, hother, h⟩)
            · exact .inl h
            · exact .inr ⟨other, .inr hother, h⟩
          · rintro (h | ⟨other, ⟨rfl, rfl⟩ | hother, h⟩)
            · exact .inl h
            · exact absurd h hdict
            · exact .inr ⟨other, hother, h⟩
      · rw [hephemeral]
        unfold addSource
        split <;> rfl
  obtain ⟨hphysical, hephemeral⟩ := hgeneral sources {}
  constructor
  · intro uid
    rw [hphysical uid]
    simp
  · intro uid
    rw [hephemeral]
    simp

theorem IsNode.unique {node : Json} {ephemeral ephemeral' : Bool} (h : IsNode ephemeral node)
    (h' : IsNode ephemeral' node) : ephemeral = ephemeral' :=
  h.kind.symm.trans h'.kind

theorem exists_isNode_append {done : Fields} {entry : Text × Json} {uid : Text}
    {ephemeral : Bool} :
    (∃ node, (uid, node) ∈ done ++ [entry] ∧ IsNode ephemeral node) ↔
      (∃ node, (uid, node) ∈ done ∧ IsNode ephemeral node) ∨
        uid = entry.1 ∧ IsNode ephemeral entry.2 := by
  constructor
  · rintro ⟨node, hmem, hnode⟩
    obtain hmem | hmem := List.mem_append.mp hmem
    · exact .inl ⟨node, hmem, hnode⟩
    · obtain rfl := List.mem_singleton.mp hmem
      exact .inr ⟨rfl, hnode⟩
  · rintro (⟨node, hmem, hnode⟩ | ⟨rfl, hnode⟩)
    · exact ⟨node, List.mem_append_left _ hmem, hnode⟩
    · exact ⟨entry.2, List.mem_append_right _ (List.mem_singleton_self _), hnode⟩

/-- What becomes of a node of the manifest. -/
inductive Added (nodes : Nodes) (entry : Text × Json) : Except Raised Nodes → Prop
  | passed (h : ∀ ephemeral, ¬ IsNode ephemeral entry.2)
      (hhash : entry.2.isDict = true → hashable (entry.2.get "resource_type".toList) = true) :
      Added nodes entry (.ok nodes)
  | physical (h : IsNode false entry.2) (identities : List (Text × NodeIdentity)) :
      Added nodes entry
        (.ok { nodes with identities, physical := nodes.physical.insert entry.1 })
  | ephemeral (h : IsNode true entry.2) (identities : List (Text × NodeIdentity)) :
      Added nodes entry
        (.ok { nodes with identities, ephemeral := nodes.ephemeral.insert entry.1 })
  | refused (hdict : entry.2.isDict = true)
      (h : hashable (entry.2.get "resource_type".toList) = false) :
      Added nodes entry (.error .typeError)

theorem addNode_added (nodes : Nodes) (entry : Text × Json) :
    Added nodes entry (addNode nodes entry) := by
  unfold addNode
  by_cases hdict : entry.2.isDict = true
  · rw [if_pos hdict]
    cases hhash : hashable (entry.2.get "resource_type".toList) with
    | false =>
      rw [inSet_of_not_hashable hhash]
      exact .refused hdict hhash
    | true =>
      cases hknown : inSet nodeResourceTypes (entry.2.get "resource_type".toList) with
      | error raised =>
        unfold inSet at hknown
        rw [if_pos hhash] at hknown
        cases hknown
      | ok known =>
        obtain ⟨-, hiff⟩ := inSet_eq_ok.mp hknown
        change Added nodes entry (if known = true then _ else _)
        by_cases htype : known = true
        · rw [if_pos htype]
          have hkind : ∀ ephemeral, isEphemeral entry.2 = ephemeral → IsNode ephemeral entry.2 :=
            fun _ h => ⟨hdict, hiff.mp htype, h⟩
          cases hephemeral : isEphemeral entry.2 with
          | true => exact .ephemeral (hkind true hephemeral) _
          | false => exact .physical (hkind false hephemeral) _
        · rw [if_neg htype]
          exact .passed (fun _ h => htype (hiff.mpr h.known)) fun _ => hhash
  · rw [if_neg hdict]
    exact .passed (fun _ h => hdict h.dict) fun h => absurd h hdict

theorem Sorted.added {sources done : Fields} {nodes nodes' : Nodes} {entry : Text × Json}
    (h : Sorted sources done nodes) (hadded : Added nodes entry (.ok nodes')) :
    Sorted sources (done ++ [entry]) nodes' ∧
      (entry.2.isDict = true → hashable (entry.2.get "resource_type".toList) = true) := by
  have hhash : ∀ {ephemeral}, IsNode ephemeral entry.2 →
      hashable (entry.2.get "resource_type".toList) = true := by
    intro _ hnode
    obtain ⟨name, -, hname⟩ := hnode.known
    rw [hname]
    rfl
  cases hadded with
  | passed hnot hpassed =>
    refine ⟨⟨fun uid => ?_, fun uid => ?_⟩, hpassed⟩
    · rw [h.physical uid, exists_isNode_append]
      simp only [hnot, and_false, or_false]
    · rw [h.ephemeral uid, exists_isNode_append]
      simp only [hnot, and_false, or_false]
  | physical hnode identities =>
    have hnot : ¬ IsNode true entry.2 := fun hother => by cases hnode.unique hother
    refine ⟨⟨fun uid => ?_, fun uid => ?_⟩, fun _ => hhash hnode⟩
    · rw [List.mem_insert_iff, h.physical uid, exists_isNode_append]
      simp only [hnode, and_true]
      rw [or_comm, or_assoc]
    · rw [h.ephemeral uid, exists_isNode_append]
      simp only [hnot, and_false, or_false]
  | ephemeral hnode identities =>
    have hnot : ¬ IsNode false entry.2 := fun hother => by cases hnode.unique hother
    refine ⟨⟨fun uid => ?_, fun uid => ?_⟩, fun _ => hhash hnode⟩
    · rw [h.physical uid, exists_isNode_append]
      simp only [hnot, and_false, or_false]
    · rw [List.mem_insert_iff, h.ephemeral uid, exists_isNode_append]
      simp only [hnode, and_true]
      rw [or_comm]

theorem foldlM_addNode {sources done rest : Fields} {nodes : Nodes}
    (h : Sorted sources done nodes) :
    (∃ nodes', rest.foldlM addNode nodes = .ok nodes' ∧ Sorted sources (done ++ rest) nodes' ∧
      ∀ entry ∈ rest, entry.2.isDict = true →
        hashable (entry.2.get "resource_type".toList) = true) ∨
    rest.foldlM addNode nodes = .error .typeError ∧
      ∃ entry ∈ rest, entry.2.isDict = true ∧
        hashable (entry.2.get "resource_type".toList) = false := by
  induction rest generalizing done nodes with
  | nil => exact .inl ⟨nodes, rfl, by rwa [List.append_nil], by simp⟩
  | cons entry rest ih =>
    rw [List.foldlM_cons]
    have hadded := addNode_added nodes entry
    cases hstep : addNode nodes entry with
    | error raised =>
      rw [hstep] at hadded
      cases hadded with
      | refused hdict hhash => exact .inr ⟨rfl, entry, List.mem_cons_self, hdict, hhash⟩
    | ok nodes' =>
      rw [hstep] at hadded
      obtain ⟨hsorted, hentry⟩ := h.added hadded
      obtain ⟨last, hrun, hlast, hrest⟩ | ⟨hrun, other, hother, hbad⟩ := ih hsorted
      · rw [List.append_assoc] at hlast
        refine .inl ⟨last, hrun, hlast, fun other hother => ?_⟩
        obtain rfl | hother := List.mem_cons.mp hother
        · exact hentry
        · exact hrest other hother
      · exact .inr ⟨hrun, other, List.mem_cons_of_mem _ hother, hbad⟩

/-- The nodes are sorted by kind, unless a resource type has no hash. -/
theorem readNodes_spec (sources nodes : Fields) :
    (∃ sorted, readNodes sources nodes = .ok sorted ∧ Sorted sources nodes sorted ∧
      ∀ entry ∈ nodes, entry.2.isDict = true →
        hashable (entry.2.get "resource_type".toList) = true) ∨
    readNodes sources nodes = .error .typeError ∧
      ∃ entry ∈ nodes, entry.2.isDict = true ∧
        hashable (entry.2.get "resource_type".toList) = false :=
  foldlM_addNode (sorted_sources sources)

/-! ## The parents -/

theorem mem_parentMapOf {entries : Fields} {uid : Text} {parents : List Json} :
    (uid, parents) ∈ parentMapOf entries ↔ (uid, .arr parents) ∈ entries := by
  unfold parentMapOf
  rw [List.mem_filterMap]
  constructor
  · rintro ⟨⟨name, value⟩, hmem, h⟩
    cases value with
    | arr items =>
      obtain ⟨rfl, rfl⟩ := Prod.mk.inj (Option.some.inj h)
      exact hmem
    | null => cases h
    | bool value => cases h
    | num value => cases h
    | str value => cases h
    | obj fields => cases h
  · exact fun h => ⟨(uid, .arr parents), h, rfl⟩

theorem nodup_parentMapOf {entries : Fields} (h : (entries.map Prod.fst).Nodup) :
    ((parentMapOf entries).map Prod.fst).Nodup := by
  have hsub : ((parentMapOf entries).map Prod.fst).Sublist (entries.map Prod.fst) := by
    induction entries with
    | nil => exact List.Sublist.refl _
    | cons entry entries ih =>
      have hrest := ih (List.nodup_cons.mp h).2
      obtain ⟨name, value⟩ := entry
      cases value with
      | arr items => exact hrest.cons_cons name
      | null => exact hrest.cons name
      | bool value => exact hrest.cons name
      | num value => exact hrest.cons name
      | str value => exact hrest.cons name
      | obj fields => exact hrest.cons name
  exact h.sublist hsub

variable {m : Manifest} {nodes : Nodes}

theorem classify_eq_found (hsorted : Sorted m.sources m.nodes nodes) {parent : Json} {uid : Text} :
    classify nodes parent = .found uid ↔ parent = .str uid ∧ Physical m uid := by
  have hphysical : ∀ name, name ∈ nodes.physical ↔ Physical m name := hsorted.physical
  cases parent with
  | str name =>
    unfold classify
    dsimp only
    split
    · next hmem =>
      rw [hphysical] at hmem
      constructor
      · intro h
        obtain rfl := Child.found.inj h
        exact ⟨rfl, hmem⟩
      · rintro ⟨h, -⟩
        rw [Json.str.inj h]
    · next hnot =>
      constructor
      · intro h
        split at h <;> cases h
      · rintro ⟨h, hmem⟩
        obtain rfl := Json.str.inj h
        exact absurd ((hphysical _).mpr hmem) hnot
  | null => simp [classify, hashable]
  | bool value => simp [classify, hashable]
  | num value => simp [classify, hashable]
  | arr items => simp [classify, hashable]
  | obj fields => simp [classify, hashable]

theorem classify_eq_deeper (hsorted : Sorted m.sources m.nodes nodes) {parent : Json}
    {uid : Text} : classify nodes parent = .deeper uid ↔ parent = .str uid ∧ Ephemeral m uid := by
  have hphysical : ∀ name, name ∈ nodes.physical ↔ Physical m name := hsorted.physical
  have hephemeral : ∀ name, name ∉ nodes.physical → name ∈ nodes.ephemeral →
      Ephemeral m name := fun name hnot hmem =>
    ⟨(hsorted.ephemeral name).mp hmem, fun h => hnot ((hphysical name).mpr h)⟩
  cases parent with
  | str name =>
    unfold classify
    dsimp only
    constructor
    · intro h
      split at h
      · cases h
      · next hnot =>
        split at h
        · next hmem =>
          obtain rfl := Child.deeper.inj h
          exact ⟨rfl, hephemeral _ hnot hmem⟩
        · cases h
    · rintro ⟨h, hmem⟩
      obtain rfl := Json.str.inj h
      rw [if_neg fun h => hmem.2 ((hphysical _).mp h), if_pos ((hsorted.ephemeral _).mpr hmem.1)]
  | null => simp [classify, hashable]
  | bool value => simp [classify, hashable]
  | num value => simp [classify, hashable]
  | arr items => simp [classify, hashable]
  | obj fields => simp [classify, hashable]

theorem classify_eq_refused {parent : Json} :
    classify nodes parent = .refused ↔ hashable parent = false := by
  cases parent with
  | str name =>
    unfold classify hashable
    dsimp only
    split
    · simp
    · split <;> simp
  | null => simp [classify, hashable]
  | bool value => simp [classify, hashable]
  | num value => simp [classify, hashable]
  | arr items => simp [classify, hashable]
  | obj fields => simp [classify, hashable]

theorem mem_childrenOf (hkeys : (m.parentMap.map Prod.fst).Nodup) {uid : Text}
    {child : Child Text Text} :
    child ∈ childrenOf (parentMapOf m.parentMap) nodes uid ↔
      ∃ parents, (uid, .arr parents) ∈ m.parentMap ∧
        ∃ parent ∈ parents, classify nodes parent = child := by
  unfold childrenOf
  rw [List.mem_map]
  constructor
  · rintro ⟨parent, hparent, rfl⟩
    cases hlookup : (parentMapOf m.parentMap).lookup uid with
    | none =>
      rw [hlookup] at hparent
      cases hparent
    | some parents =>
      rw [hlookup] at hparent
      exact ⟨parents, mem_parentMapOf.mp (mem_of_lookup hlookup), parent, hparent, rfl⟩
  · rintro ⟨parents, hmem, parent, hparent, rfl⟩
    rw [(mem_iff_lookup (nodup_parentMapOf hkeys)).mp (mem_parentMapOf.mpr hmem)]
    exact ⟨parent, hparent, rfl⟩

theorem step_iff_through (hkeys : (m.parentMap.map Prod.fst).Nodup)
    (hsorted : Sorted m.sources m.nodes nodes) {child uid : Text} :
    Step (childrenOf (parentMapOf m.parentMap) nodes) child uid ↔ Through m child uid := by
  unfold Step
  rw [mem_childrenOf hkeys]
  constructor
  · rintro ⟨parents, hmem, parent, hparent, h⟩
    obtain ⟨rfl, hephemeral⟩ := (classify_eq_deeper hsorted).mp h
    exact ⟨⟨parents, hmem, hparent⟩, hephemeral⟩
  · rintro ⟨⟨parents, hmem, hparent⟩, hephemeral⟩
    exact ⟨parents, hmem, _, hparent, (classify_eq_deeper hsorted).mpr ⟨rfl, hephemeral⟩⟩

theorem step_eq_through (hkeys : (m.parentMap.map Prod.fst).Nodup)
    (hsorted : Sorted m.sources m.nodes nodes) :
    Step (childrenOf (parentMapOf m.parentMap) nodes) = Through m := by
  funext child uid
  exact propext (step_iff_through hkeys hsorted)

/-- What the search yields are the physical ends of the paths. -/
theorem yields_iff_leads (hkeys : (m.parentMap.map Prod.fst).Nodup)
    (hsorted : Sorted m.sources m.nodes nodes) {child ancestor : Text} :
    Yields (childrenOf (parentMapOf m.parentMap) nodes) child ancestor ↔
      Physical m ancestor ∧ Leads m child ancestor := by
  constructor
  · intro h
    induction h with
    | found h =>
      obtain ⟨parents, hmem, parent, hparent, hfound⟩ := (mem_childrenOf hkeys).mp h
      obtain ⟨rfl, hphysical⟩ := (classify_eq_found hsorted).mp hfound
      exact ⟨hphysical, .parent ⟨parents, hmem, hparent⟩⟩
    | deeper h _ ih =>
      obtain ⟨hparent, hephemeral⟩ := (step_iff_through hkeys hsorted).mp h
      exact ⟨ih.1, .through hparent hephemeral ih.2⟩
  · rintro ⟨hphysical, h⟩
    induction h with
    | parent h =>
      obtain ⟨parents, hmem, hparent⟩ := h
      exact .found ((mem_childrenOf hkeys).mpr ⟨parents, hmem, _, hparent,
        (classify_eq_found hsorted).mpr ⟨rfl, hphysical⟩⟩)
    | through h hephemeral _ ih =>
      exact .deeper ((step_iff_through hkeys hsorted).mpr ⟨h, hephemeral⟩) (ih hphysical)

/-- Every node of a cycle is the end of a step, so that it is ephemeral. -/
theorem ephemeral_of_through {child uid : Text} (hchild : Ephemeral m child)
    (h : Relation.TransGen (Through m) child uid) :
    Ephemeral m uid ∧ Relation.TransGen (EphemeralStep m) child uid := by
  induction h with
  | single h => exact ⟨h.ephemeral, .single ⟨hchild, h.parent, h.ephemeral⟩⟩
  | tail _ h ih => exact ⟨h.ephemeral, ih.2.tail ⟨ih.1, h.parent, h.ephemeral⟩⟩

theorem acyclic_of_no_cycle (hkeys : (m.parentMap.map Prod.fst).Nodup)
    (hsorted : Sorted m.sources m.nodes nodes) (h : ¬ HasEphemeralCycle m) :
    Acyclic (childrenOf (parentMapOf m.parentMap) nodes) := by
  intro uid hcycle
  rw [step_eq_through hkeys hsorted] at hcycle
  obtain ⟨before, -, hlast⟩ := Relation.TransGen.tail'_iff.mp hcycle
  exact h ⟨uid, (ephemeral_of_through hlast.ephemeral hcycle).2⟩

/-- The search fails from a node where a parent without a hash is come to. -/
theorem fails_iff_unhashable (hkeys : (m.parentMap.map Prod.fst).Nodup)
    (hsorted : Sorted m.sources m.nodes nodes) {child : Text} :
    Fails (childrenOf (parentMapOf m.parentMap) nodes) child ↔
      ∃ uid, Relation.ReflTransGen (Through m) child uid ∧
        ∃ parents, (uid, .arr parents) ∈ m.parentMap ∧ ∃ parent ∈ parents,
          hashable parent = false := by
  unfold Fails Refuses
  rw [step_eq_through hkeys hsorted]
  refine exists_congr fun uid => and_congr_right fun _ => ?_
  rw [mem_childrenOf hkeys]
  simp only [classify_eq_refused]

theorem fails_of_breaks {entry : Text × List Json}
    (hkeys : (m.parentMap.map Prod.fst).Nodup) (hentry : entry ∈ parentMapOf m.parentMap) :
    Fails (childrenOf (parentMapOf m.parentMap) nodes) entry.1 ↔
      ∃ parent ∈ entry.2, Breaks (childrenOf (parentMapOf m.parentMap) nodes)
        (classify nodes parent) := by
  have hlookup := (mem_iff_lookup (nodup_parentMapOf hkeys)).mp hentry
  rw [fails_iff]
  constructor
  · rintro ⟨child, hmem, hbreaks⟩
    unfold childrenOf at hmem
    rw [hlookup] at hmem
    obtain ⟨parent, hparent, rfl⟩ := List.mem_map.mp hmem
    exact ⟨parent, hparent, hbreaks⟩
  · rintro ⟨parent, hparent, hbreaks⟩
    refine ⟨_, ?_, hbreaks⟩
    unfold childrenOf
    rw [hlookup]
    exact List.mem_map_of_mem hparent

/-- The edges are exact where no ephemerals are in a cycle, and nothing else is raised unless a
parent without a hash is come to. -/
theorem buildEdges_contract (hkeys : (m.parentMap.map Prod.fst).Nodup)
    (hsorted : Sorted m.sources m.nodes nodes) :
    (∃ edges, buildEdges (parentMapOf m.parentMap) nodes = .ok edges ∧
      (¬ HasEphemeralCycle m → Exact m edges) ∧
      ∀ child, Physical m child →
        ¬ Fails (childrenOf (parentMapOf m.parentMap) nodes) child) ∨
    buildEdges (parentMapOf m.parentMap) nodes = .error .typeError ∧
      ∃ child, Physical m child ∧ Fails (childrenOf (parentMapOf m.parentMap) nodes) child := by
  have hphysical : ∀ uid, uid ∈ nodes.physical ↔ Physical m uid := hsorted.physical
  obtain ⟨edges, memo, hrun, hbuilt⟩ | ⟨hrun, entry, hentry, hmem, hbreaks⟩ :=
    buildEdges_spec (parentMapOf m.parentMap) nodes
  · refine .inl ⟨edges, hrun, fun hno => ⟨hbuilt.nodup, fun ancestor child => ?_⟩, ?_⟩
    · have hacyclic := acyclic_of_no_cycle hkeys hsorted hno
      have hends : Yields (childrenOf (parentMapOf m.parentMap) nodes) child ancestor ↔
          Physical m ancestor ∧ Leads m child ancestor := yields_iff_leads hkeys hsorted
      rw [yields_iff] at hends
      rw [hbuilt.exact hacyclic (ancestor, child), hphysical, and_left_comm, ← hends]
      refine and_congr_right fun _ => ?_
      constructor
      · rintro ⟨⟨name, parents⟩, hmem, rfl, parent, hparent, hgives⟩
        refine ⟨_, (mem_childrenOf hkeys).mpr ⟨parents, mem_parentMapOf.mp hmem, parent, hparent,
          rfl⟩, hgives⟩
      · rintro ⟨_, hchild, hgives⟩
        obtain ⟨parents, hmem, parent, hparent, rfl⟩ := (mem_childrenOf hkeys).mp hchild
        exact ⟨(child, parents), mem_parentMapOf.mpr hmem, rfl, parent, hparent, hgives⟩
    · intro child hchild hfails
      obtain ⟨one, hmem, -⟩ := fails_iff.mp hfails
      obtain ⟨parents, hparents, -⟩ := (mem_childrenOf hkeys).mp hmem
      have hentry := mem_parentMapOf.mpr hparents
      obtain ⟨parent, hparent, hbreaks⟩ := (fails_of_breaks hkeys hentry).mp hfails
      exact hbuilt.sound (child, parents) hentry ((hphysical child).mpr hchild) parent hparent
        hbreaks
  · exact .inr ⟨hrun, entry.1, (hphysical _).mp hmem, (fails_of_breaks hkeys hentry).mpr hbreaks⟩

end DataQ.Lineage.Manifests
