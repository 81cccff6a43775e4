import DataQ.Lineage.ManifestContract

/-! # Parsing a manifest

When a parse ends with a graph or with `ManifestParseError`, and what its edges are then, in
whatever order the parent map stands. -/

namespace DataQ.Lineage.Manifests
open DataQ.Fallible DataQ.MemoSearch
set_option autoImplicit false

/-! ## The document -/

/-- What a parse is, once the version and the three objects are read. -/
def graphOf (doc : Json) : Except Raised ManifestGraph := do
  let nodes ← readNodes (manifestOf doc).sources (manifestOf doc).nodes
  let edges ← buildEdges (parentMapOf (manifestOf doc).parentMap) nodes
  pure
    { adapterType := asStr ((doc.get "metadata".toList).get "adapter_type".toList)
      nodes := nodes.physical.filterMap fun uid =>
        (nodes.identities.lookup uid).map fun identity => (uid, identity)
      edges }

variable {tools : Tools} {doc : Json}

theorem isDict_of_get_ne_null {key : Text} (h : doc.get key ≠ .null) : doc.isDict = true := by
  cases doc with
  | obj fields => rfl
  | null => exact absurd rfl h
  | bool value => exact absurd rfl h
  | num value => exact absurd rfl h
  | str value => exact absurd rfl h
  | arr items => exact absurd rfl h

/-- A version is only found in a document with metadata. -/
theorem isDict_of_schemaDigits {digits : List ℕ} (h : schemaDigits tools doc = some digits) :
    doc.isDict = true ∧ (doc.get "metadata".toList).isDict = true := by
  have hversion : (doc.get "metadata".toList).get "dbt_schema_version".toList ≠ .null := by
    intro hnull
    unfold schemaDigits at h
    rw [hnull] at h
    cases h
  have hmetadata := isDict_of_get_ne_null hversion
  have hthere : doc.get "metadata".toList ≠ .null := by
    intro hnull
    rw [hnull] at hmetadata
    cases hmetadata
  exact ⟨isDict_of_get_ne_null hthere, hmetadata⟩

theorem exists_obj {value : Json} (h : value.isDict = true) : ∃ fields, value = .obj fields := by
  cases value with
  | obj fields => exact ⟨fields, rfl⟩
  | null => cases h
  | bool value => cases h
  | num value => cases h
  | str value => cases h
  | arr items => cases h

theorem parseDocument_of_reads (h : Reads tools doc) : parseDocument tools doc = graphOf doc := by
  obtain ⟨digits, hdigits, hshort, hnew⟩ := h.version
  obtain ⟨hdoc, hmetadata⟩ := isDict_of_schemaDigits hdigits
  obtain ⟨nodes, hnodes⟩ := exists_obj h.nodes
  obtain ⟨sources, hsources⟩ := exists_obj h.sources
  obtain ⟨parentMap, hparents⟩ := exists_obj h.parentMap
  have hcheck : checkSchemaVersion tools doc = .ok () := by
    unfold checkSchemaVersion
    rw [hdigits]
    dsimp only
    rw [if_neg (by omega), if_neg (by omega)]
  unfold parseDocument graphOf manifestOf
  rw [hdoc, hmetadata, hcheck, hnodes, hsources, hparents]
  rfl

/-- A document that is not read is refused, unless its version has too many digits. -/
theorem parseDocument_of_not_reads (h : ¬ Reads tools doc)
    (hshort : ∀ digits, schemaDigits tools doc = some digits → digits.length ≤ maxStrDigits) :
    ∃ message, parseDocument tools doc = .error (.manifestParseError message) := by
  unfold parseDocument
  split
  · exact ⟨_, rfl⟩
  · split
    · exact ⟨_, rfl⟩
    · cases hdigits : schemaDigits tools doc with
      | none =>
        unfold checkSchemaVersion
        rw [hdigits]
        exact ⟨_, rfl⟩
      | some digits =>
        unfold checkSchemaVersion
        rw [hdigits]
        dsimp only
        have hlength := hshort digits hdigits
        rw [if_neg (by omega)]
        by_cases hold : intOf digits < minSchemaVersion
        · rw [if_pos hold]
          exact ⟨_, rfl⟩
        · rw [if_neg hold]
          split
          · next hnodes hsources hparents =>
            refine absurd ⟨⟨digits, hdigits, hlength, by omega⟩, ?_, ?_, ?_⟩ h
            · rw [hnodes]
              rfl
            · rw [hsources]
              rfl
            · rw [hparents]
              rfl
          · exact ⟨_, rfl⟩

theorem graphOf_of_edges {nodes : Nodes} {edges : List (Text × Text)}
    (hread : readNodes (manifestOf doc).sources (manifestOf doc).nodes = .ok nodes)
    (hrun : buildEdges (parentMapOf (manifestOf doc).parentMap) nodes = .ok edges) :
    ∃ graph, graphOf doc = .ok graph ∧ graph.edges = edges := by
  unfold graphOf
  simp only [hread, hrun, bind, Except.bind]
  exact ⟨_, rfl, rfl⟩

theorem graphOf_of_error {nodes : Nodes} {raised : Raised}
    (hread : readNodes (manifestOf doc).sources (manifestOf doc).nodes = .ok nodes)
    (hrun : buildEdges (parentMapOf (manifestOf doc).parentMap) nodes = .error raised) :
    graphOf doc = .error raised := by
  unfold graphOf
  simp only [hread, hrun, bind, Except.bind]

/-- The graph of a document that is read: its edges are exact, or something has no hash. -/
theorem graphOf_spec (hkeys : ((manifestOf doc).parentMap.map Prod.fst).Nodup) :
    (∃ graph, graphOf doc = .ok graph ∧ Hashable (manifestOf doc) ∧
      (¬ HasEphemeralCycle (manifestOf doc) → Exact (manifestOf doc) graph.edges)) ∨
    graphOf doc = .error .typeError ∧ ¬ Hashable (manifestOf doc) := by
  obtain ⟨nodes, hread, hsorted, htypes⟩ | ⟨hread, entry, hentry, hdict, hbad⟩ :=
    readNodes_spec (manifestOf doc).sources (manifestOf doc).nodes
  · obtain ⟨edges, hrun, hexact, hsafe⟩ | ⟨hrun, child, hchild, hfails⟩ :=
      buildEdges_contract hkeys hsorted
    · obtain ⟨graph, hgraph, rfl⟩ := graphOf_of_edges hread hrun
      refine .inl ⟨graph, hgraph, ⟨fun uid node hmem => htypes (uid, node) hmem, ?_⟩, hexact⟩
      intro child hchild uid hreach parents hmem parent hparent
      by_contra hnot
      exact hsafe child hchild ((fails_iff_unhashable hkeys hsorted).mpr
        ⟨uid, hreach, parents, hmem, parent, hparent, by simpa using hnot⟩)
    · refine .inr ⟨graphOf_of_error hread hrun, fun h => ?_⟩
      obtain ⟨uid, hreach, parents, hmem, parent, hparent, hbad⟩ :=
        (fails_iff_unhashable hkeys hsorted).mp hfails
      have hgood := h.parents child hchild uid hreach parents hmem parent hparent
      rw [hbad] at hgood
      cases hgood
  · unfold graphOf
    rw [hread]
    refine .inr ⟨rfl, fun h => ?_⟩
    have hgood := h.types entry.1 entry.2 hentry hdict
    rw [hbad] at hgood
    cases hgood

/-- The parse ends as it should. -/
def Ends (answer : Except Raised ManifestGraph) : Prop :=
  (∃ graph, answer = .ok graph) ∨ ∃ message, answer = .error (.manifestParseError message)

theorem parseDocument_of_long
    (h : ¬ ∀ digits, schemaDigits tools doc = some digits → digits.length ≤ maxStrDigits) :
    parseDocument tools doc = .error .valueError := by
  push Not at h
  obtain ⟨digits, hdigits, hlong⟩ := h
  obtain ⟨hdoc, hmetadata⟩ := isDict_of_schemaDigits hdigits
  unfold parseDocument checkSchemaVersion
  rw [hdoc, hmetadata, hdigits]
  dsimp only
  rw [if_pos hlong]
  rfl

theorem isDict_of_reads (h : Reads tools doc) : doc.isDict = true := by
  obtain ⟨digits, hdigits, -⟩ := h.version
  exact (isDict_of_schemaDigits hdigits).1

theorem reads_of_ok {graph : ManifestGraph} (h : parseDocument tools doc = .ok graph) :
    Reads tools doc := by
  by_contra hnot
  by_cases hshort : ∀ digits, schemaDigits tools doc = some digits → digits.length ≤ maxStrDigits
  · obtain ⟨message, hmessage⟩ := parseDocument_of_not_reads hnot hshort
    rw [hmessage] at h
    cases h
  · rw [parseDocument_of_long hshort] at h
    cases h

theorem ends_iff_safe (hkeys : ((manifestOf doc).parentMap.map Prod.fst).Nodup) :
    Ends (parseDocument tools doc) ↔ Safe tools doc := by
  by_cases hshort : ∀ digits, schemaDigits tools doc = some digits → digits.length ≤ maxStrDigits
  · by_cases hreads : Reads tools doc
    · rw [parseDocument_of_reads hreads]
      obtain ⟨graph, hgraph, hhash, -⟩ | ⟨hgraph, hnot⟩ := graphOf_spec hkeys
      · exact ⟨fun _ => ⟨hshort, fun _ => hhash⟩, fun _ => .inl ⟨graph, hgraph⟩⟩
      · rw [hgraph]
        refine ⟨?_, fun h => absurd (h.hashable hreads) hnot⟩
        rintro (⟨graph, h⟩ | ⟨message, h⟩) <;> cases h
    · exact ⟨fun _ => ⟨hshort, fun h => absurd h hreads⟩,
        fun _ => .inr (parseDocument_of_not_reads hreads hshort)⟩
  · rw [parseDocument_of_long hshort]
    refine ⟨?_, fun h => absurd h.version hshort⟩
    rintro (⟨graph, h⟩ | ⟨message, h⟩) <;> cases h

theorem exact_of_parse (hkeys : ((manifestOf doc).parentMap.map Prod.fst).Nodup)
    {graph : ManifestGraph} (h : parseDocument tools doc = .ok graph)
    (hno : ¬ HasEphemeralCycle (manifestOf doc)) : Exact (manifestOf doc) graph.edges := by
  rw [parseDocument_of_reads (reads_of_ok h)] at h
  obtain ⟨other, hother, -, hexact⟩ | ⟨hraised, -⟩ := graphOf_spec hkeys
  · rw [hother] at h
    obtain rfl := Except.ok.inj h
    exact hexact hno
  · rw [hraised] at h
    cases h

/-! ## The order of the parent map -/

/-- The document with the entries of its parent map in another order. -/
def withParentMap (doc : Json) (entries : Fields) : Json :=
  .obj (setField "parent_map".toList (.obj entries) doc.entries)

theorem get_withParentMap {entries : Fields} {key : Text} (hdict : doc.isDict = true)
    (h : key ≠ "parent_map".toList) : (withParentMap doc entries).get key = doc.get key := by
  obtain ⟨fields, rfl⟩ := exists_obj hdict
  unfold withParentMap Json.get Json.get?
  dsimp only
  rw [lookup_setField_ne h]
  rfl

theorem manifestOf_withParentMap {entries : Fields} (hdict : doc.isDict = true) :
    manifestOf (withParentMap doc entries) = { manifestOf doc with parentMap := entries } := by
  have hentries : ((withParentMap doc entries).get "parent_map".toList).entries = entries := by
    unfold withParentMap Json.get Json.get?
    dsimp only
    rw [lookup_setField_self]
    rfl
  unfold manifestOf
  rw [get_withParentMap hdict (by decide), get_withParentMap hdict (by decide), hentries]

section Perm

variable {m : Manifest} {entries : Fields}

theorem parent_perm (h : m.parentMap.Perm entries) :
    Parent { m with parentMap := entries } = Parent m := by
  funext child parent
  unfold Parent
  simp only [h.mem_iff]

theorem leads_perm (h : m.parentMap.Perm entries) {child ancestor : Text} :
    Leads { m with parentMap := entries } child ancestor ↔ Leads m child ancestor := by
  have hparent := parent_perm h
  constructor
  · intro hpath
    induction hpath with
    | parent hstep => exact .parent (hparent ▸ hstep)
    | through hstep hephemeral _ ih => exact .through (hparent ▸ hstep) hephemeral ih
  · intro hpath
    induction hpath with
    | parent hstep => exact .parent (hparent ▸ hstep)
    | through hstep hephemeral _ ih => exact .through (hparent ▸ hstep) hephemeral ih

theorem hasEphemeralCycle_perm (h : m.parentMap.Perm entries)
    (hcycle : HasEphemeralCycle { m with parentMap := entries }) : HasEphemeralCycle m := by
  obtain ⟨uid, hcycle⟩ := hcycle
  have hparent := parent_perm h
  have hstep : ∀ child other, EphemeralStep { m with parentMap := entries } child other →
      EphemeralStep m child other := fun child other h => ⟨h.start, hparent ▸ h.parent, h.target⟩
  exact ⟨uid, Relation.TransGen.mono hstep uid uid hcycle⟩

theorem Exact.perm {edges edges' : List (Text × Text)} (h : Exact m edges)
    (h' : Exact { m with parentMap := entries } edges') (hperm : m.parentMap.Perm entries) :
    edges'.Perm edges := by
  rw [List.perm_ext_iff_of_nodup h'.nodup h.nodup]
  rintro ⟨ancestor, child⟩
  rw [h'.mem, h.mem, leads_perm hperm]
  rfl

end Perm

/-! ## Payloads -/

/-- The edges of a graph are exact where no ephemerals are in a cycle, whatever the order of the
parent map, and the parse ends with a graph or with `ManifestParseError`. -/
structure Sound (tools : Tools) (payload : Payload) : Prop where
  exact : ∀ raw doc graph, payload = .bytes raw → tools.loads raw = some doc →
    parseManifest tools payload = .ok graph → ¬ HasEphemeralCycle (manifestOf doc) →
      Exact (manifestOf doc) graph.edges ∧
        ∀ entries graph', (manifestOf doc).parentMap.Perm entries →
          parseDocument tools (withParentMap doc entries) = .ok graph' →
            graph'.edges.Perm graph.edges
  ends : Ends (parseManifest tools payload)

theorem nodup_parentMap {raw : List UInt8} (h : tools.loads raw = some doc) :
    ((manifestOf doc).parentMap.map Prod.fst).Nodup := by
  unfold manifestOf
  dsimp only
  cases hvalue : doc.get "parent_map".toList with
  | obj entries => exact tools.keys_distinct raw doc _ entries h hvalue
  | null => exact List.nodup_nil
  | bool value => exact List.nodup_nil
  | num value => exact List.nodup_nil
  | str value => exact List.nodup_nil
  | arr items => exact List.nodup_nil

/-- A payload that is loaded is a safe document. -/
def SafePayload (tools : Tools) (payload : Payload) : Prop :=
  ∀ raw doc, payload = .bytes raw → raw.length ≤ maxJsonArtifactBytes →
    tools.loads raw = some doc → Safe tools doc

theorem parseManifest_bytes (tools : Tools) (raw : List UInt8) :
    parseManifest tools (.bytes raw) = loadJsonArtifact tools raw >>= parseDocument tools := rfl

/-- The parse of a payload is that of its document, or is refused before. -/
theorem parseManifest_cases (tools : Tools) (payload : Payload) :
    (∃ raw doc, payload = .bytes raw ∧ raw.length ≤ maxJsonArtifactBytes ∧
      tools.loads raw = some doc ∧ parseManifest tools payload = parseDocument tools doc) ∨
    (∀ raw doc, payload = .bytes raw → raw.length ≤ maxJsonArtifactBytes →
      tools.loads raw ≠ some doc) ∧
      ∃ message, parseManifest tools payload = .error (.manifestParseError message) := by
  cases payload with
  | other => exact .inr ⟨fun _ _ h => (by cases h), _, rfl⟩
  | bytes raw =>
    rw [parseManifest_bytes, loadJsonArtifact]
    by_cases hlarge : maxJsonArtifactBytes < raw.length
    · rw [if_pos hlarge]
      refine .inr ⟨fun _ _ h hsmall => ?_, _, rfl⟩
      obtain rfl := Payload.bytes.inj h
      omega
    · rw [if_neg hlarge]
      cases hloads : tools.loads raw with
      | none =>
        refine .inr ⟨fun _ _ h _ hsome => ?_, _, rfl⟩
        obtain rfl := Payload.bytes.inj h
        rw [hloads] at hsome
        cases hsome
      | some doc => exact .inl ⟨raw, doc, rfl, by omega, hloads, rfl⟩

/-- A parse is what it should be just where the payload is safe. -/
theorem parse_sound_iff (tools : Tools) (payload : Payload) :
    Sound tools payload ↔ SafePayload tools payload := by
  obtain ⟨raw, doc, rfl, hsmall, hloads, hparse⟩ | ⟨hnone, message, hparse⟩ :=
    parseManifest_cases tools payload
  · have hkeys := nodup_parentMap hloads
    constructor
    · intro h raw' doc' hraw _ hloads'
      obtain rfl := Payload.bytes.inj hraw
      obtain rfl := Option.some.inj (hloads.symm.trans hloads')
      have hends := h.ends
      rw [hparse] at hends
      exact (ends_iff_safe hkeys).mp hends
    · intro h
      constructor
      · intro raw' doc' graph hraw hloads' hgraph hno
        obtain rfl := Payload.bytes.inj hraw
        obtain rfl := Option.some.inj (hloads.symm.trans hloads')
        rw [hparse] at hgraph
        have hexact := exact_of_parse hkeys hgraph hno
        refine ⟨hexact, fun entries graph' hperm hgraph' => ?_⟩
        have hmanifest : manifestOf (withParentMap doc entries) =
            { manifestOf doc with parentMap := entries } :=
          manifestOf_withParentMap (isDict_of_reads (reads_of_ok hgraph))
        have hexact' : Exact (manifestOf (withParentMap doc entries)) graph'.edges := by
          refine exact_of_parse ?_ hgraph' ?_
          · rw [hmanifest]
            exact (hperm.map Prod.fst).nodup_iff.mp hkeys
          · rw [hmanifest]
            exact fun hcycle => hno (hasEphemeralCycle_perm hperm hcycle)
        rw [hmanifest] at hexact'
        exact hexact.perm hexact' hperm
      · rw [hparse]
        exact (ends_iff_safe hkeys).mpr (h raw doc rfl hsmall hloads)
  · constructor
    · intro _ raw doc hraw hsmall hloads
      exact absurd hloads (hnone raw doc hraw hsmall)
    · intro _
      constructor
      · intro raw doc graph _ _ hgraph
        rw [hparse] at hgraph
        cases hgraph
      · exact .inr ⟨message, hparse⟩

/-! ## A list among the parents -/

/-- A manifest with one model, whose parents hold a list. -/
def nestedParents : Json :=
  .obj [("metadata".toList, .obj [("dbt_schema_version".toList, .str "/v12".toList)]),
    ("nodes".toList, .obj [("model.p.b".toList, .obj [("resource_type".toList, .str "model".toList),
      ("relation_name".toList, .str "b".toList)])]),
    ("sources".toList, .obj []),
    ("parent_map".toList, .obj [("model.p.b".toList, .arr [.arr [.str "model.p.a".toList]])])]

def nestedTools : Tools where
  loads := fun _ => some nestedParents
  repr := fun _ => []
  decimal := fun c => if c.isDigit then some (c.toNat - 48) else none
  keys_distinct := by
    intro _ doc key entries hdoc hget
    obtain rfl := Option.some.inj hdoc
    cases hlookup : nestedParents.entries.lookup key with
    | none =>
      have hnull : nestedParents.get key = .null := by
        change (nestedParents.entries.lookup key).getD .null = .null
        rw [hlookup]
        rfl
      rw [hnull] at hget
      cases hget
    | some value =>
      have hvalue : nestedParents.get key = value := by
        change (nestedParents.entries.lookup key).getD .null = value
        rw [hlookup]
        rfl
      rw [hvalue] at hget
      subst hget
      have hmem := mem_of_lookup hlookup
      simp only [nestedParents, Json.entries, List.mem_cons, Prod.mk.injEq, Json.obj.injEq,
        List.not_mem_nil, or_false] at hmem
      rcases hmem with ⟨-, rfl⟩ | ⟨-, rfl⟩ | ⟨-, rfl⟩ | ⟨-, rfl⟩ <;> simp

theorem nested_parents_raise : ¬ ∀ tools payload, Sound tools payload := by
  intro h
  have hraised : parseManifest nestedTools (.bytes []) = .error .typeError := by rfl
  have hends := (h nestedTools (.bytes [])).ends
  rw [hraised] at hends
  rcases hends with ⟨graph, hgraph⟩ | ⟨message, hmessage⟩
  · cases hgraph
  · cases hmessage

end DataQ.Lineage.Manifests
