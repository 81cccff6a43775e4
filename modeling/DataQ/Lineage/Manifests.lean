import DataQ.Foundations.Fallible
import DataQ.Foundations.Json
import DataQ.Foundations.MemoSearch
import DataQ.Lineage.DbtEdges

/-! # dbt manifests

`lineage/dbt_manifest.py`: the physical nodes of a manifest, and the edges between them; a path
over ephemeral models is one edge. What a parse can raise besides `ManifestParseError` is modelled
too. -/

namespace DataQ.Lineage.Manifests
set_option autoImplicit false

/-- What the parse takes from Python. `loads` is `json.loads`, `none` where it raises; it reads an
object as a dict. -/
structure Tools where
  loads : List UInt8 → Option Json
  repr : Json → Text
  /-- The value of a decimal digit, which is what `\d` matches. -/
  decimal : Char → Option ℕ
  keys_distinct : ∀ raw doc key entries, loads raw = some doc → doc.get key = .obj entries →
    (entries.map Prod.fst).Nodup

inductive Raised
  | manifestParseError (message : Text)
  /-- `int` of a text with too many digits. -/
  | valueError
  /-- A list or a dict is asked for in a set. -/
  | typeError
  /-- The recursion has not ended. -/
  | unfinished
  deriving DecidableEq

inductive Payload
  | bytes (raw : List UInt8)
  | other

/-- `MAX_JSON_ARTIFACT_BYTES`. -/
def maxJsonArtifactBytes : ℕ := 128 * 1024 * 1024

def targetSchemaVersion : ℕ := 12

def minSchemaVersion : ℕ := 10

/-- `sys.get_int_max_str_digits()`. -/
def maxStrDigits : ℕ := 4300

def nodeResourceTypes : List Text := ["model".toList, "seed".toList, "snapshot".toList]

def natText (n : ℕ) : Text := (Numeral.ofNat n).text

/-- `load_json_artifact`, with what `parse_manifest` makes of its errors. -/
def loadJsonArtifact (tools : Tools) (raw : List UInt8) : Except Raised Json :=
  if maxJsonArtifactBytes < raw.length then
    .error (.manifestParseError ("artifact is ".toList ++ natText raw.length ++
      " bytes, above the ".toList ++ natText maxJsonArtifactBytes ++ "-byte cap".toList))
  else
    match tools.loads raw with
    | none => .error (.manifestParseError "manifest is not valid JSON".toList)
    | some doc => .ok doc

/-! ## The schema version -/

/-- The digits that a text begins with. -/
def leadingDigits (decimal : Char → Option ℕ) : Text → List ℕ
  | [] => []
  | c :: cs =>
    match decimal c with
    | some digit => digit :: leadingDigits decimal cs
    | none => []

/-- The group of the first match of `_SCHEMA_VERSION_RE`. -/
def versionDigits (decimal : Char → Option ℕ) : Text → Option (List ℕ)
  | [] => none
  | c :: cs =>
    if c = '/' ∧ cs.head? = some 'v' ∧ leadingDigits decimal cs.tail ≠ [] then
      some (leadingDigits decimal cs.tail)
    else versionDigits decimal cs

def intOf (digits : List ℕ) : ℕ := digits.foldl (fun value digit => 10 * value + digit) 0

def schemaDigits (tools : Tools) (doc : Json) : Option (List ℕ) :=
  match (doc.get "metadata".toList).get "dbt_schema_version".toList with
  | .str raw => versionDigits tools.decimal raw
  | _ => none

def checkSchemaVersion (tools : Tools) (doc : Json) : Except Raised Unit :=
  match schemaDigits tools doc with
  | none => .error (.manifestParseError ("unrecognised dbt_schema_version: ".toList ++
      tools.repr ((doc.get "metadata".toList).get "dbt_schema_version".toList)))
  | some digits =>
    if maxStrDigits < digits.length then .error .valueError
    else if intOf digits < minSchemaVersion then
      .error (.manifestParseError ("dbt_schema_version v".toList ++ natText (intOf digits) ++
        " is below the minimum supported v".toList ++ natText minSchemaVersion))
    else .ok ()

/-! ## Nodes -/

def asStr : Json → Text
  | .str s => s
  | _ => []

def identity (node : Json) (nameKey : Text) : NodeIdentity :=
  { database := asStr (node.get "database".toList)
    schema := asStr (node.get "schema".toList)
    name :=
      if asStr (node.get nameKey) ≠ [] then asStr (node.get nameKey)
      else asStr (node.get "name".toList) }

def isEphemeral (node : Json) : Bool :=
  ((node.get "config".toList).isDict &&
    decide ((node.get "config".toList).get "materialized".toList = .str "ephemeral".toList)) ||
  decide (node.get "relation_name".toList = .null)

/-- A list or a dict has no hash. -/
def hashable : Json → Bool
  | .arr _ => false
  | .obj _ => false
  | _ => true

/-- `value in names`, where `names` is a set of texts. -/
def inSet (names : List Text) (value : Json) : Except Raised Bool :=
  if hashable value then .ok (names.any fun name => value = .str name) else .error .typeError

/-- The nodes of a manifest; `physical` and `ephemeral` are sets. -/
structure Nodes where
  identities : List (Text × NodeIdentity) := []
  physical : List Text := []
  ephemeral : List Text := []
  deriving DecidableEq

def addSource (nodes : Nodes) (entry : Text × Json) : Nodes :=
  if entry.2.isDict then
    { nodes with
      identities := setField entry.1 (identity entry.2 "name".toList) nodes.identities
      physical := nodes.physical.insert entry.1 }
  else nodes

def addNode (nodes : Nodes) (entry : Text × Json) : Except Raised Nodes := do
  if entry.2.isDict then
    let known ← inSet nodeResourceTypes (entry.2.get "resource_type".toList)
    if known then
      let identities := setField entry.1 (identity entry.2 "alias".toList) nodes.identities
      if isEphemeral entry.2 then
        pure { nodes with identities, ephemeral := nodes.ephemeral.insert entry.1 }
      else pure { nodes with identities, physical := nodes.physical.insert entry.1 }
    else pure nodes
  else pure nodes

/-! ## Edges -/

abbrev ParentMap := List (Text × List Json)

abbrev Memo := List (Text × List Text)

/-- One turn of `_physical_ancestors`, with `_ephemeral_ancestors` as it recurs. -/
def physicalAncestor (nodes : Nodes) (recur : Text → Memo → Except Raised (List Text × Memo))
    (acc : List Text × Memo) (parent : Json) : Except Raised (List Text × Memo) :=
  match parent with
  | .str uid =>
    if uid ∈ nodes.physical then .ok (acc.1 ++ [uid], acc.2)
    else if uid ∈ nodes.ephemeral then
      (recur uid acc.2).map fun answer => (acc.1 ++ answer.1, answer.2)
    else .ok acc
  | parent => if hashable parent then .ok acc else .error .typeError

def physicalAncestors (nodes : Nodes) (recur : Text → Memo → Except Raised (List Text × Memo))
    (parents : List Json) (memo : Memo) : Except Raised (List Text × Memo) :=
  parents.foldlM (physicalAncestor nodes recur) ([], memo)

/-- `_ephemeral_ancestors`; the memo holds an empty entry for `uid` while it is resolved. -/
def ephemeralAncestors (parentMap : ParentMap) (nodes : Nodes) :
    ℕ → Text → Memo → Except Raised (List Text × Memo)
  | fuel, uid, memo =>
    match memo.lookup uid with
    | some cached => .ok (cached, memo)
    | none =>
      match fuel with
      | 0 => .error .unfinished
      | fuel + 1 =>
        (physicalAncestors nodes (ephemeralAncestors parentMap nodes fuel)
          ((parentMap.lookup uid).getD []) (setField uid [] memo)).map fun answer =>
            (answer.1, setField uid answer.1 answer.2)

/-- The edges in the order in which they are first seen. -/
def addEdges (child : Text) (edges : List (Text × Text)) (ancestors : List Text) :
    List (Text × Text) :=
  ancestors.foldl (fun edges ancestor =>
    if (ancestor, child) ∈ edges then edges else edges ++ [(ancestor, child)]) edges

/-- One turn of `_build_edges`. Each recursion marks an ephemeral, so that it is no deeper than
there are ephemerals. -/
def buildEdge (parentMap : ParentMap) (nodes : Nodes) (acc : List (Text × Text) × Memo)
    (entry : Text × List Json) : Except Raised (List (Text × Text) × Memo) :=
  if entry.1 ∈ nodes.physical then
    (physicalAncestors nodes (ephemeralAncestors parentMap nodes nodes.ephemeral.length) entry.2
      acc.2).map fun answer => (addEdges entry.1 acc.1 answer.1, answer.2)
  else .ok acc

def buildEdges (parentMap : ParentMap) (nodes : Nodes) : Except Raised (List (Text × Text)) :=
  (parentMap.foldlM (buildEdge parentMap nodes) ([], [])).map Prod.fst

/-- The entries that are lists. -/
def parentMapOf (entries : Fields) : ParentMap :=
  entries.filterMap fun entry =>
    match entry.2 with
    | .arr parents => some (entry.1, parents)
    | _ => none

def readNodes (sources nodes : Fields) : Except Raised Nodes :=
  nodes.foldlM addNode (sources.foldl addSource {})

/-- `parse_manifest`, of what `json.loads` reads. -/
def parseDocument (tools : Tools) (doc : Json) : Except Raised ManifestGraph := do
  if doc.isDict = false then
    .error (.manifestParseError "manifest root must be a JSON object".toList)
  else if (doc.get "metadata".toList).isDict = false then
    .error (.manifestParseError "manifest missing 'metadata' object".toList)
  else
    let _ ← checkSchemaVersion tools doc
    match doc.get "nodes".toList, doc.get "sources".toList, doc.get "parent_map".toList with
    | .obj nodesRaw, .obj sourcesRaw, .obj parentMapRaw =>
      let nodes ← readNodes sourcesRaw nodesRaw
      let edges ← buildEdges (parentMapOf parentMapRaw) nodes
      pure
        { adapterType := asStr ((doc.get "metadata".toList).get "adapter_type".toList)
          nodes := nodes.physical.filterMap fun uid =>
            (nodes.identities.lookup uid).map fun identity => (uid, identity)
          edges }
    | _, _, _ => .error (.manifestParseError
        "manifest missing 'nodes' / 'sources' / 'parent_map' objects".toList)

def parseManifest (tools : Tools) : Payload → Except Raised ManifestGraph
  | .other => .error (.manifestParseError "manifest payload must be bytes".toList)
  | .bytes raw => do
    let doc ← loadJsonArtifact tools raw
    parseDocument tools doc

end DataQ.Lineage.Manifests

/-! # Edges over ephemeral models

The recursion over the parents of a manifest is a search with a memo: what it gives, and when it is
stopped. -/

namespace DataQ.Lineage.Manifests
open DataQ.Fallible DataQ.MemoSearch
set_option autoImplicit false

variable (parentMap : ParentMap) (nodes : Nodes)

/-- What a parent is to the search. -/
def classify : Json → Child Text Text
  | .str uid =>
    if uid ∈ nodes.physical then .found uid
    else if uid ∈ nodes.ephemeral then .deeper uid
    else .skipped
  | parent => if hashable parent then .skipped else .refused

def childrenOf (uid : Text) : List (Child Text Text) :=
  ((parentMap.lookup uid).getD []).map (classify nodes)

def raisedOf : Stop → Raised
  | .refused => .typeError
  | .unfinished => .unfinished

variable {parentMap nodes}

theorem map_mapError {ε ε' β γ : Type} (f : ε → ε') (g : β → γ) (x : Except ε β) :
    (x.mapError f).map g = (x.map g).mapError f := by
  cases x <;> rfl

theorem physicalAncestor_eq {recur : Text → Memo → Except Raised (List Text × Memo)}
    {recur' : Text → Memo → Except Stop (List Text × Memo)}
    (h : ∀ uid memo, recur uid memo = (recur' uid memo).mapError raisedOf)
    (acc : List Text × Memo) (parent : Json) :
    physicalAncestor nodes recur acc parent =
      (gatherChild recur' acc (classify nodes parent)).mapError raisedOf := by
  cases parent with
  | str uid =>
    unfold physicalAncestor classify
    dsimp only
    split
    · rfl
    · split
      · rw [h, map_mapError]
        rfl
      · rfl
  | null => rfl
  | bool value => rfl
  | num value => rfl
  | arr items => rfl
  | obj fields => rfl

theorem physicalAncestors_eq {recur : Text → Memo → Except Raised (List Text × Memo)}
    {recur' : Text → Memo → Except Stop (List Text × Memo)}
    (h : ∀ uid memo, recur uid memo = (recur' uid memo).mapError raisedOf)
    (parents : List Json) (memo : Memo) :
    physicalAncestors nodes recur parents memo =
      (gather recur' (parents.map (classify nodes)) ([], memo)).mapError raisedOf := by
  unfold physicalAncestors gather
  generalize (([], memo) : List Text × Memo) = acc
  induction parents generalizing acc with
  | nil => rfl
  | cons parent parents ih =>
    rw [List.map_cons, List.foldlM_cons, List.foldlM_cons, physicalAncestor_eq h]
    cases gatherChild recur' acc (classify nodes parent) with
    | error stop => rfl
    | ok acc => exact ih acc

/-- The recursion of the source is the search. -/
theorem ephemeralAncestors_eq (fuel : ℕ) (uid : Text) (memo : Memo) :
    ephemeralAncestors parentMap nodes fuel uid memo =
      (visit (childrenOf parentMap nodes) fuel uid memo).mapError raisedOf := by
  induction fuel generalizing uid memo with
  | zero =>
    unfold ephemeralAncestors visit
    cases memo.lookup uid with
    | some cached => rfl
    | none => rfl
  | succ fuel ih =>
    unfold ephemeralAncestors visit
    cases memo.lookup uid with
    | some cached => rfl
    | none =>
      dsimp only
      rw [physicalAncestors_eq ih, map_mapError]
      rfl

/-! ## Edges of one child -/

theorem mem_addEdges {child : Text} {ancestors : List Text} {edges : List (Text × Text)}
    {edge : Text × Text} :
    edge ∈ addEdges child edges ancestors ↔
      edge ∈ edges ∨ edge.2 = child ∧ edge.1 ∈ ancestors := by
  induction ancestors generalizing edges with
  | nil => simp [addEdges]
  | cons ancestor ancestors ih =>
    unfold addEdges at ih ⊢
    rw [List.foldl_cons, ih]
    obtain ⟨a, c⟩ := edge
    split
    · next hmem =>
      constructor
      · rintro (h | ⟨hc, ha⟩)
        · exact .inl h
        · exact .inr ⟨hc, List.mem_cons_of_mem _ ha⟩
      · rintro (h | ⟨rfl, ha⟩)
        · exact .inl h
        · obtain rfl | ha := List.mem_cons.mp ha
          · exact .inl hmem
          · exact .inr ⟨rfl, ha⟩
    · simp only [List.mem_append, Prod.mk.injEq, List.mem_cons]
      tauto

theorem nodup_addEdges (child : Text) (ancestors : List Text) {edges : List (Text × Text)}
    (h : edges.Nodup) : (addEdges child edges ancestors).Nodup := by
  induction ancestors generalizing edges with
  | nil => exact h
  | cons ancestor ancestors ih =>
    unfold addEdges at ih ⊢
    rw [List.foldl_cons]
    split
    · exact ih h
    · next hnot => exact ih (List.Nodup.append h (List.nodup_singleton _) (by simpa using hnot))

/-! ## Edges of all children -/

/-- The edges of the entries that were gone through. -/
structure Built (parentMap : ParentMap) (nodes : Nodes) (done : ParentMap)
    (edges : List (Text × Text)) (memo : Memo) : Prop where
  kept : Kept (childrenOf parentMap nodes) [] memo
  sound : ∀ entry ∈ done, entry.1 ∈ nodes.physical →
    ∀ parent ∈ entry.2, ¬ Breaks (childrenOf parentMap nodes) (classify nodes parent)
  nodup : edges.Nodup
  exact : Acyclic (childrenOf parentMap nodes) → ∀ edge : Text × Text, edge ∈ edges ↔
    edge.2 ∈ nodes.physical ∧ ∃ entry ∈ done, entry.1 = edge.2 ∧
      ∃ parent ∈ entry.2, Gives (childrenOf parentMap nodes) edge.1 (classify nodes parent)

theorem deeper_mem_ephemeral {parent : Json} {uid : Text}
    (h : classify nodes parent = .deeper uid) : uid ∈ nodes.ephemeral := by
  cases parent with
  | str name =>
    unfold classify at h
    dsimp only at h
    split at h
    · cases h
    · split at h
      · next hmem => exact Child.deeper.inj h ▸ hmem
      · cases h
  | null => cases h
  | bool value => cases h
  | num value => cases h
  | arr items => cases h
  | obj fields => cases h

theorem step_mem_ephemeral {uid other : Text} (h : Step (childrenOf parentMap nodes) uid other) :
    other ∈ nodes.ephemeral := by
  obtain ⟨parent, -, hparent⟩ := List.mem_map.mp h
  exact deeper_mem_ephemeral hparent

/-- The parents of a physical node, after other nodes were done. -/
theorem physicalAncestors_spec (parents : List Json) {memo : Memo}
    (hkept : Kept (childrenOf parentMap nodes) [] memo) :
    ∃ answer, physicalAncestors nodes
        (ephemeralAncestors parentMap nodes nodes.ephemeral.length) parents memo =
          answer.mapError raisedOf ∧
      Gathered (childrenOf parentMap nodes) [] memo [] (parents.map (classify nodes)) answer := by
  refine ⟨_, physicalAncestors_eq (ephemeralAncestors_eq _) parents memo, ?_⟩
  have hany : ∀ before after : Memo, (∀ uid, Marked before uid → Marked after uid) → True → True :=
    fun _ _ _ h => h
  refine gather_spec hany ?_ [] trivial hkept
  intro uid memo' hmem _ hkept'
  obtain ⟨parent, -, hparent⟩ := List.mem_map.mp hmem
  refine visit_spec (fun _ _ => step_mem_ephemeral) (deeper_mem_ephemeral hparent) ?_
    (fun other hother => absurd hother List.not_mem_nil) hkept'
  exact List.length_filter_le _ _

/-- Where the search is not stopped, none of the parents stops it. -/
theorem Gathered.sound {memo memo' : Memo} {parents : List Json} {found : List Text}
    (h : Gathered (childrenOf parentMap nodes) [] memo [] (parents.map (classify nodes))
      (.ok (found, memo'))) :
    ∀ parent ∈ parents, ¬ Breaks (childrenOf parentMap nodes) (classify nodes parent) := by
  cases h with
  | done hkept hgrown hread hexact =>
    intro parent hparent hbreaks
    have hmem := List.mem_map_of_mem (f := classify nodes) hparent
    cases hchild : classify nodes parent with
    | found value =>
      rw [hchild] at hbreaks
      exact hbreaks
    | deeper uid =>
      rw [hchild] at hbreaks hmem
      exact hkept.not_fails (hread.2 uid hmem) hbreaks
    | skipped =>
      rw [hchild] at hbreaks
      exact hbreaks
    | refused =>
      rw [hchild] at hmem
      exact hread.1 hmem

/-- One entry of the parent map: it is built, or one of its parents stops the search. -/
theorem buildEdge_spec {done : ParentMap} {edges : List (Text × Text)} {memo : Memo}
    (entry : Text × List Json) (h : Built parentMap nodes done edges memo) :
    (∃ edges' memo', buildEdge parentMap nodes (edges, memo) entry = .ok (edges', memo') ∧
      Built parentMap nodes (done ++ [entry]) edges' memo') ∨
    buildEdge parentMap nodes (edges, memo) entry = .error .typeError ∧
      entry.1 ∈ nodes.physical ∧
      ∃ parent ∈ entry.2, Breaks (childrenOf parentMap nodes) (classify nodes parent) := by
  unfold buildEdge
  by_cases hchild : entry.1 ∈ nodes.physical
  · rw [if_pos hchild]
    obtain ⟨answer, hrun, hgathered⟩ := physicalAncestors_spec entry.2 h.kept
    dsimp only
    rw [hrun]
    cases answer with
    | error stop =>
      cases hgathered with
      | stopped hbreaks =>
        obtain ⟨child, hmem, hbreaks⟩ := hbreaks
        obtain ⟨parent, hparent, rfl⟩ := List.mem_map.mp hmem
        exact .inr ⟨rfl, hchild, parent, hparent, hbreaks⟩
    | ok answer =>
      obtain ⟨found, memo'⟩ := answer
      have hsound := Gathered.sound hgathered
      cases hgathered with
      | done hkept hgrown hread hexact =>
        refine .inl ⟨_, _, rfl, hkept, ?_, nodup_addEdges _ _ h.nodup, ?_⟩
        · intro other hother hphysical
          obtain hbefore | hlast := List.mem_append.mp hother
          · exact h.sound other hbefore hphysical
          · obtain rfl := List.mem_singleton.mp hlast
            exact hsound
        · intro hacyclic edge
          rw [mem_addEdges, h.exact hacyclic edge, hexact hacyclic edge.1]
          constructor
          · rintro (⟨hphysical, other, hother, hkey, hgives⟩ | ⟨hkey, hfound⟩)
            · exact ⟨hphysical, other, List.mem_append_left _ hother, hkey, hgives⟩
            · obtain hnil | ⟨child, hmem, hgives⟩ := hfound
              · cases hnil
              · obtain ⟨parent, hparent, rfl⟩ := List.mem_map.mp hmem
                exact ⟨hkey ▸ hchild, entry, List.mem_append_right _ (List.mem_singleton_self _),
                  hkey.symm, parent, hparent, hgives⟩
          · rintro ⟨hphysical, other, hother, hkey, parent, hparent, hgives⟩
            obtain hbefore | hlast := List.mem_append.mp hother
            · exact .inl ⟨hphysical, other, hbefore, hkey, parent, hparent, hgives⟩
            · obtain rfl := List.mem_singleton.mp hlast
              exact .inr ⟨hkey.symm, .inr ⟨_, List.mem_map_of_mem hparent, hgives⟩⟩
  · rw [if_neg hchild]
    refine .inl ⟨_, _, rfl, h.kept, ?_, h.nodup, ?_⟩
    · intro other hother hphysical
      obtain hbefore | hlast := List.mem_append.mp hother
      · exact h.sound other hbefore hphysical
      · obtain rfl := List.mem_singleton.mp hlast
        exact absurd hphysical hchild
    · intro hacyclic edge
      rw [h.exact hacyclic edge]
      constructor
      · rintro ⟨hphysical, other, hother, hrest⟩
        exact ⟨hphysical, other, List.mem_append_left _ hother, hrest⟩
      · rintro ⟨hphysical, other, hother, hkey, hrest⟩
        obtain hbefore | hlast := List.mem_append.mp hother
        · exact ⟨hphysical, other, hbefore, hkey, hrest⟩
        · obtain rfl := List.mem_singleton.mp hlast
          exact absurd (hkey ▸ hphysical) hchild

theorem foldlM_buildEdge {done rest : ParentMap} {edges : List (Text × Text)} {memo : Memo}
    (h : Built parentMap nodes done edges memo) :
    (∃ edges' memo', rest.foldlM (buildEdge parentMap nodes) (edges, memo) = .ok (edges', memo') ∧
      Built parentMap nodes (done ++ rest) edges' memo') ∨
    rest.foldlM (buildEdge parentMap nodes) (edges, memo) = .error .typeError ∧
      ∃ entry ∈ rest, entry.1 ∈ nodes.physical ∧
        ∃ parent ∈ entry.2, Breaks (childrenOf parentMap nodes) (classify nodes parent) := by
  induction rest generalizing done edges memo with
  | nil => exact .inl ⟨edges, memo, rfl, by rwa [List.append_nil]⟩
  | cons entry rest ih =>
    rw [List.foldlM_cons]
    obtain ⟨edges', memo', hstep, hbuilt⟩ | ⟨hstep, hphysical, hbreaks⟩ := buildEdge_spec entry h
    · rw [hstep]
      obtain ⟨edges'', memo'', hrun, hlast⟩ | ⟨hrun, other, hother, hrest⟩ := ih hbuilt
      · rw [List.append_assoc] at hlast
        exact .inl ⟨edges'', memo'', hrun, hlast⟩
      · exact .inr ⟨hrun, other, List.mem_cons_of_mem _ hother, hrest⟩
    · rw [hstep]
      exact .inr ⟨rfl, entry, List.mem_cons_self, hphysical, hbreaks⟩

/-- The edges of a parent map are those that its parents give, unless one of them stops the
search. -/
theorem buildEdges_spec (parentMap : ParentMap) (nodes : Nodes) :
    (∃ edges memo, buildEdges parentMap nodes = .ok edges ∧
      Built parentMap nodes parentMap edges memo) ∨
    buildEdges parentMap nodes = .error .typeError ∧
      ∃ entry ∈ parentMap, entry.1 ∈ nodes.physical ∧
        ∃ parent ∈ entry.2, Breaks (childrenOf parentMap nodes) (classify nodes parent) := by
  have hempty : Built parentMap nodes [] [] [] :=
    ⟨kept_nil, by simp, List.nodup_nil, fun _ edge => by simp⟩
  unfold buildEdges
  obtain ⟨edges, memo, hrun, hbuilt⟩ | ⟨hrun, entry, hentry, hbreaks⟩ := foldlM_buildEdge hempty
  · rw [hrun]
    exact .inl ⟨edges, memo, rfl, hbuilt⟩
  · rw [hrun]
    exact .inr ⟨rfl, entry, hentry, hbreaks⟩

end DataQ.Lineage.Manifests
