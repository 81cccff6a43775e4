import DataQ.Redaction.ColumnTags
import DataQ.Redaction.Governance

/-! # The precedence of the verdicts

A column's own verdict stands, an inherited one fills what has none, a detection what neither names;
more of either, or one that cannot be read, unmasks nothing that the rest masks. -/

namespace DataQ.Redaction
set_option autoImplicit false

/-- `str.lower`: what it does to ASCII, that it leaves what it gives, and that it makes no blanks. -/
structure Lowercases (py : Python) : Prop where
  ascii : ∀ text : Text, text.all (fun c => c.toNat < 128) = true → py.lower text = lower text
  idem : ∀ text, py.lower (py.lower text) = py.lower text
  strip : ∀ text, pyStrip (py.lower (pyStrip text)) = py.lower (pyStrip text)

variable {py : Python}

theorem Lowercases.foldKey_foldKey (hlower : Lowercases py) (column : Text) :
    foldKey py (foldKey py column) = foldKey py column := by
  rw [foldKey, foldKey, hlower.strip, hlower.idem]

theorem Lowercases.sensitive_eq (hlower : Lowercases py) :
    py.lower (pyStrip sensitive) = sensitive := by
  have hstrip : pyStrip sensitive = sensitive := by decide
  rw [hstrip, hlower.ascii sensitive (by decide)]
  decide

theorem Lowercases.detected_eq (hlower : Lowercases py) :
    py.lower (pyStrip detected) = detected := by
  have hstrip : pyStrip detected = detected := by decide
  rw [hstrip, hlower.ascii detected (by decide)]
  decide

/-! ## The own verdicts -/

/-- What a row says, and of which column. -/
def rowVerdict (py : Python) : TagRow → Option (Text × Text)
  | some column :: tagName :: tagValue :: _ =>
    (normalizeTag py tagName tagValue).map (foldKey py column, ·)
  | _ => none

/-- What the rows of a column say together: a sensitive one among them wins. -/
def ownVerdict (py : Python) (rows : List TagRow) (key : Text) : Option Text :=
  if some (key, sensitive) ∈ rows.map (rowVerdict py) then some sensitive
  else if some (key, nonSensitive) ∈ rows.map (rowVerdict py) then some nonSensitive
  else none

theorem normalizeTag_or {tagName tagValue : Option Text} {verdict : Text}
    (h : normalizeTag py tagName tagValue = some verdict) :
    verdict = sensitive ∨ verdict = nonSensitive := by
  simp only [normalizeTag] at h
  split at h
  · split_ifs at h with hprivacy hvalue hkey hsensitive hnon
    · exact .inl (Option.some.inj h).symm
    · exact .inl (Option.some.inj h).symm
    · exact .inr (Option.some.inj h).symm
  · cases h

theorem rowVerdict_or {row : TagRow} {key verdict : Text}
    (h : rowVerdict py row = some (key, verdict)) :
    verdict = sensitive ∨ verdict = nonSensitive := by
  unfold rowVerdict at h
  split at h
  · obtain ⟨_, hverdict, hpair⟩ := Option.map_eq_some_iff.mp h
    obtain ⟨-, rfl⟩ := Prod.mk.inj hpair
    exact normalizeTag_or hverdict
  · cases h

theorem rowVerdict_folded (hlower : Lowercases py) {row : TagRow} {key verdict : Text}
    (h : rowVerdict py row = some (key, verdict)) : foldKey py key = key := by
  unfold rowVerdict at h
  split at h
  · obtain ⟨_, -, hpair⟩ := Option.map_eq_some_iff.mp h
    obtain ⟨rfl, -⟩ := Prod.mk.inj hpair
    exact hlower.foldKey_foldKey _
  · cases h

theorem mergeRow_none {tags : List (Text × Text)} {row : TagRow} (h : rowVerdict py row = none) :
    mergeRow py tags row = tags := by
  unfold mergeRow
  split
  · simp only [rowVerdict, Option.map_eq_none_iff] at h
    simp only [h, merge]
  · rfl

theorem mergeRow_some {tags : List (Text × Text)} {row : TagRow} {key verdict : Text}
    (h : rowVerdict py row = some (key, verdict)) :
    mergeRow py tags row =
      if tags.lookup key = some sensitive then tags else setField key verdict tags := by
  unfold rowVerdict at h
  split at h
  · obtain ⟨_, hverdict, hpair⟩ := Option.map_eq_some_iff.mp h
    obtain ⟨rfl, rfl⟩ := Prod.mk.inj hpair
    simp only [mergeRow, merge, hverdict]
  · cases h

theorem ownVerdict_append (rows : List TagRow) (row : TagRow) (key : Text) :
    ownVerdict py (rows ++ [row]) key =
      match rowVerdict py row with
      | none => ownVerdict py rows key
      | some (column, verdict) =>
        if key = column ∧ ownVerdict py rows key ≠ some sensitive then some verdict
        else ownVerdict py rows key := by
  simp only [ownVerdict, List.map_append, List.map_cons, List.map_nil, List.mem_append,
    List.mem_singleton]
  cases hrow : rowVerdict py row with
  | none => simp
  | some pair =>
    obtain ⟨column, verdict⟩ := pair
    have hne : sensitive ≠ nonSensitive := by decide
    by_cases hkey : key = column
    · subst hkey
      by_cases hsens : some (key, sensitive) ∈ rows.map (rowVerdict py)
      · simp only [hsens, true_or, if_true, ne_eq, not_true_eq_false, and_false, if_false]
      · by_cases hnon : some (key, nonSensitive) ∈ rows.map (rowVerdict py)
        · obtain rfl | rfl := rowVerdict_or hrow <;> simp [-List.mem_map, hsens, hnon, hne, hne.symm]
        · obtain rfl | rfl := rowVerdict_or hrow <;> simp [-List.mem_map, hsens, hnon, hne]
    · simp [hkey]

theorem lookup_rowsToTags (rows : List TagRow) (key : Text) :
    (rowsToTags py rows).lookup key = ownVerdict py rows key := by
  induction rows using List.reverseRecOn with
  | nil => rfl
  | append_singleton rows row ih =>
    have hstep : rowsToTags py (rows ++ [row]) = mergeRow py (rowsToTags py rows) row := by
      rw [rowsToTags, List.foldl_append]
      rfl
    rw [hstep, ownVerdict_append]
    cases hrow : rowVerdict py row with
    | none => rw [mergeRow_none hrow, ih]
    | some pair =>
      obtain ⟨column, verdict⟩ := pair
      rw [mergeRow_some hrow]
      by_cases hkey : key = column
      · subst hkey
        rw [ih]
        by_cases hsens : ownVerdict py rows key = some sensitive
        · simp [hsens, ih]
        · simp [hsens]
      · simp only [hkey, false_and, if_false]
        split
        · exact ih
        · rw [lookup_setField_ne hkey, ih]

theorem ownVerdict_perm {rows rows' : List TagRow} (h : rows.Perm rows') (key : Text) :
    ownVerdict py rows key = ownVerdict py rows' key := by
  simp only [ownVerdict, (h.map (rowVerdict py)).mem_iff]

/-! ## The overlays -/

theorem mem_inherit {own : List Text} {tagsByAsset : Text → Option (List (Text × Text))}
    {out : List (Text × List Cell)} {source : Text × List Cell} {key : Text} :
    key ∈ (inherit py own tagsByAsset out source).map Prod.fst ↔
      key ∈ out.map Prod.fst ∨ key ∉ own ∧ foldKey py source.1 = key ∧
        ∃ cell ∈ source.2, cellSensitive py (tagsByAsset cell.1) cell.2 = true := by
  generalize hhits : (source.2.filter fun cell =>
    cellSensitive py (tagsByAsset cell.1) cell.2).insertionSort cellLe = hits
  have hmem (cell : Cell) : cell ∈ hits ↔
      cell ∈ source.2 ∧ cellSensitive py (tagsByAsset cell.1) cell.2 = true := by
    rw [← hhits, List.mem_insertionSort, List.mem_filter]
  have hexists : (∃ cell ∈ source.2, cellSensitive py (tagsByAsset cell.1) cell.2 = true) ↔
      hits ≠ [] := by
    simp only [ne_eq, List.eq_nil_iff_forall_not_mem, not_forall, not_not, hmem]
  simp only [inherit, hhits, hexists]
  by_cases hown : py.lower (pyStrip source.1) ∈ own
  · rw [if_pos hown]
    constructor
    · exact Or.inl
    · rintro (hout | ⟨hnot, rfl, -⟩)
      · exact hout
      · exact absurd hown hnot
  · rw [if_neg hown]
    by_cases hempty : hits = []
    · simp [hempty]
    · rw [if_neg hempty, mem_keys_setField]
      constructor
      · rintro (rfl | hout)
        · exact .inr ⟨hown, rfl, hempty⟩
        · exact .inl hout
      · rintro (hout | ⟨-, rfl, -⟩)
        · exact .inr hout
        · exact .inl rfl

theorem mem_inheritedFrom {own : List (Text × Text)}
    {tagsByAsset : Text → Option (List (Text × Text))} {sources : List (Text × List Cell)}
    {key : Text} :
    key ∈ (inheritedFrom py own tagsByAsset sources).map Prod.fst ↔
      key ∉ own.map (fun entry => foldKey py entry.1) ∧ ∃ source ∈ sources,
        foldKey py source.1 = key ∧
          ∃ cell ∈ source.2, cellSensitive py (tagsByAsset cell.1) cell.2 = true := by
  have hrun (out : List (Text × List Cell)) :
      key ∈ (sources.foldl (inherit py (own.map fun entry => py.lower (pyStrip entry.1))
          tagsByAsset) out).map Prod.fst ↔
        key ∈ out.map Prod.fst ∨ key ∉ own.map (fun entry => foldKey py entry.1) ∧
          ∃ source ∈ sources, foldKey py source.1 = key ∧
            ∃ cell ∈ source.2, cellSensitive py (tagsByAsset cell.1) cell.2 = true := by
    induction sources generalizing out with
    | nil => simp
    | cons source sources ih =>
      rw [List.foldl_cons, ih, mem_inherit, List.exists_mem_cons_iff]
      exact or_assoc.trans (or_congr Iff.rfl and_or_left.symm)
  exact (hrun []).trans (by simp)

/-- A sensitive column that lineage derives this one from, where it can be read. -/
def Upstream (py : Python) (session : Session) (key : Text) : Prop :=
  session.lineageClassificationPropagation = true ∧ ∃ sources truncated tagsByAsset,
    session.upstreamColumnSources = some (sources, truncated) ∧
      session.columnTags = some tagsByAsset ∧ ∃ source ∈ sources, foldKey py source.1 = key ∧
        ∃ cell ∈ source.2, cellSensitive py (tagsByAsset cell.1) cell.2 = true

/-- A detection that stands, where it can be read. -/
def Detects (py : Python) (session : Session) (key : Text) : Prop :=
  ∃ rows, session.detections = some rows ∧ ∃ column, (column, false) ∈ rows ∧ foldKey py column = key

theorem mem_inheritedSensitive {session : Session} {asset : Asset} {key : Text} :
    key ∈ ((inheritedSensitive py session asset).getD []).map Prod.fst ↔
      key ∉ (asset.columnTags.getD []).map (fun entry => foldKey py entry.1) ∧
        Upstream py session key := by
  unfold inheritedSensitive inheritedSensitiveWithTruncation Upstream
  cases hon : session.lineageClassificationPropagation with
  | false => simp
  | true =>
    cases hsources : session.upstreamColumnSources with
    | none => simp
    | some walk =>
      obtain ⟨sources, truncated⟩ := walk
      cases hread : session.columnTags with
      | none => cases sources <;> simp
      | some tagsByAsset =>
        have hmem := @mem_inheritedFrom py (asset.columnTags.getD []) tagsByAsset sources key
        cases sources with
        | nil => simp
        | cons source sources =>
          simp only [Bool.not_true, Bool.false_eq_true, if_false, Option.map_some,
            Option.getD_some, true_and]
          rw [hmem]
          constructor
          · rintro ⟨hown, hsource⟩
            exact ⟨hown, _, _, _, rfl, rfl, hsource⟩
          · rintro ⟨hown, _, _, _, hwalk, hread, hsource⟩
            obtain ⟨rfl, -⟩ := Prod.mk.inj (Option.some.inj hwalk)
            obtain rfl := Option.some.inj hread
            exact ⟨hown, hsource⟩

theorem mem_activeDetectedColumns {session : Session} {key : Text} :
    key ∈ (activeDetectedColumns py session).getD [] ↔ Detects py session key := by
  unfold activeDetectedColumns Detects
  cases session.detections with
  | none => simp
  | some rows => simp [and_comm]

theorem lookup_inherited (inherited : List (Text × List Cell)) (tags : List (Text × Text))
    (key : Text) :
    (inherited.foldl (fun merged entry => setField entry.1 sensitive merged) tags).lookup key =
      if key ∈ inherited.map Prod.fst then some sensitive else tags.lookup key := by
  induction inherited generalizing tags with
  | nil => rfl
  | cons entry inherited ih =>
    rw [List.foldl_cons, ih, List.map_cons]
    by_cases hkey : key = entry.1
    · subst hkey
      simp
    · rw [lookup_setField_ne hkey]
      simp only [List.mem_cons, hkey, false_or]

theorem lookup_setDefault (tags : List (Text × Text)) (verdict column key : Text) :
    (setDefault verdict tags column).lookup key =
      (tags.lookup key).or (if key = column then some verdict else none) := by
  unfold setDefault
  cases htag : tags.lookup column with
  | some tag =>
    rw [Option.isSome_some, if_pos rfl]
    by_cases hkey : key = column
    · rw [hkey, htag, Option.some_or]
    · rw [if_neg hkey, Option.or_none]
  | none =>
    rw [Option.isSome_none, if_neg Bool.false_ne_true]
    by_cases hkey : key = column
    · rw [hkey, htag, lookup_setField_self, if_pos rfl, Option.none_or]
    · rw [if_neg hkey, Option.or_none, lookup_setField_ne hkey]

theorem lookup_detected (detections : List Text) (tags : List (Text × Text)) (key : Text) :
    (detections.foldl (setDefault detected) tags).lookup key =
      (tags.lookup key).or (if key ∈ detections then some detected else none) := by
  induction detections generalizing tags with
  | nil => simp
  | cons column detections ih =>
    rw [List.foldl_cons, ih, lookup_setDefault]
    by_cases hkey : key = column
    · subst hkey
      cases tags.lookup key <;> simp
    · simp [hkey]

theorem lookup_overlaid (own : Option (List (Text × Text))) (inherited : List (Text × List Cell))
    (detections : List Text) (key : Text) :
    ((overlaid py own inherited detections).getD {}).entries.lookup key =
      (if key ∈ inherited.map Prod.fst then some sensitive else (own.getD []).lookup key).or
        (if key ∈ detections then some detected else none) := by
  rw [← lookup_inherited, ← lookup_detected]
  simp only [overlaid]
  split
  · next hnone => rw [Option.getD_none, hnone.1]
  · rfl

/-! ## The layers -/

/-- An asset by the rows that were read for it, if any were. -/
def assetOf (py : Python) (rows : Option (List TagRow)) : Asset := ⟨rows.map (rowsToTags py)⟩

/-- What redaction is given, where no map is the empty one. -/
def tagsOf (py : Python) (session : Session) (rows : Option (List TagRow)) : Tags :=
  (effectiveColumnTags py session (some (assetOf py rows))).getD {}

theorem ownVerdict_folded (hlower : Lowercases py) {rows : List TagRow} {key : Text}
    (h : ownVerdict py rows key ≠ none) : foldKey py key = key := by
  unfold ownVerdict at h
  split at h
  · next hmem =>
    obtain ⟨row, -, hrow⟩ := List.mem_map.mp hmem
    exact rowVerdict_folded hlower hrow
  · split at h
    · next hmem =>
      obtain ⟨row, -, hrow⟩ := List.mem_map.mp hmem
      exact rowVerdict_folded hlower hrow
    · exact absurd rfl h

theorem lookup_assetOf (rows : Option (List TagRow)) (key : Text) :
    ((assetOf py rows).columnTags.getD []).lookup key = ownVerdict py (rows.getD []) key := by
  cases rows with
  | none => rfl
  | some rows => exact lookup_rowsToTags rows key

theorem mem_own_keys (hlower : Lowercases py) (rows : Option (List TagRow)) (key : Text) :
    key ∈ ((assetOf py rows).columnTags.getD []).map (fun entry => foldKey py entry.1) ↔
      ownVerdict py (rows.getD []) key ≠ none := by
  rw [← lookup_assetOf]
  constructor
  · intro hmem
    obtain ⟨⟨column, verdict⟩, hentry, rfl⟩ := List.mem_map.mp hmem
    have hfound : ((assetOf py rows).columnTags.getD []).lookup column ≠ none := by
      rw [Ne, List.lookup_eq_none_iff]
      intro hall
      simpa using hall _ hentry
    have hfolded := hfound
    rw [lookup_assetOf] at hfolded
    rwa [ownVerdict_folded hlower hfolded]
  · intro hfound
    have hfolded := hfound
    rw [lookup_assetOf] at hfolded
    obtain ⟨verdict, hverdict⟩ := Option.ne_none_iff_exists'.mp hfound
    exact List.mem_map.mpr ⟨_, mem_of_lookup hverdict, ownVerdict_folded hlower hfolded⟩

section Precedence
variable (hlower : Lowercases py) (session : Session) (rows : Option (List TagRow)) {key : Text}

theorem lookup_tagsOf :
    (tagsOf py session rows).entries.lookup key =
      (if key ∈ ((inheritedSensitive py session (assetOf py rows)).getD []).map Prod.fst then
        some sensitive else ownVerdict py (rows.getD []) key).or
          (if key ∈ (activeDetectedColumns py session).getD [] then some detected else none) := by
  rw [← lookup_assetOf, tagsOf, effectiveColumnTags, lookup_overlaid]

theorem lookup_of_neither (h : ownVerdict py (rows.getD []) key = none)
    (hupstream : ¬ Upstream py session key) :
    (tagsOf py session rows).entries.lookup key =
      if key ∈ (activeDetectedColumns py session).getD [] then some detected else none := by
  have hout : key ∉ ((inheritedSensitive py session (assetOf py rows)).getD []).map Prod.fst := by
    rw [mem_inheritedSensitive]
    exact fun hin => hupstream hin.2
  rw [lookup_tagsOf, if_neg hout, h, Option.none_or]

theorem detection_fills (h : ownVerdict py (rows.getD []) key = none)
    (hupstream : ¬ Upstream py session key) (hdetects : Detects py session key) :
    (tagsOf py session rows).entries.lookup key = some detected := by
  rw [lookup_of_neither session rows h hupstream, if_pos (mem_activeDetectedColumns.mpr hdetects)]

theorem no_verdict (h : ownVerdict py (rows.getD []) key = none)
    (hupstream : ¬ Upstream py session key) (hdetects : ¬ Detects py session key) :
    (tagsOf py session rows).entries.lookup key = none := by
  rw [lookup_of_neither session rows h hupstream,
    if_neg fun hin => hdetects (mem_activeDetectedColumns.mp hin)]

include hlower

theorem own_verdict_stands {verdict : Text} (h : ownVerdict py (rows.getD []) key = some verdict) :
    (tagsOf py session rows).entries.lookup key = some verdict := by
  have hown : key ∉ ((inheritedSensitive py session (assetOf py rows)).getD []).map Prod.fst := by
    rw [mem_inheritedSensitive, mem_own_keys hlower, h]
    simp
  rw [lookup_tagsOf, if_neg hown, h, Option.some_or]

theorem inherited_fills (h : ownVerdict py (rows.getD []) key = none)
    (hupstream : Upstream py session key) :
    (tagsOf py session rows).entries.lookup key = some sensitive := by
  have hin : key ∈ ((inheritedSensitive py session (assetOf py rows)).getD []).map Prod.fst := by
    rw [mem_inheritedSensitive, mem_own_keys hlower, h]
    exact ⟨fun hne => hne rfl, hupstream⟩
  rw [lookup_tagsOf, if_pos hin, Option.some_or]

end Precedence

theorem inherit_congr {own own' : List Text} (h : ∀ key, key ∈ own ↔ key ∈ own') :
    inherit py own = inherit py own' := by
  funext tagsByAsset out source
  simp only [inherit, h]

theorem inheritedSensitive_congr (hlower : Lowercases py) (session : Session)
    {rows rows' : List TagRow} (h : ∀ key, ownVerdict py rows key = ownVerdict py rows' key) :
    inheritedSensitive py session (assetOf py (some rows)) =
      inheritedSensitive py session (assetOf py (some rows')) := by
  have hown (key : Text) :
      key ∈ ((assetOf py (some rows)).columnTags.getD []).map (fun entry => foldKey py entry.1) ↔
        key ∈ ((assetOf py (some rows')).columnTags.getD []).map
          (fun entry => foldKey py entry.1) := by
    rw [mem_own_keys hlower, mem_own_keys hlower, Option.getD_some, Option.getD_some, h]
  have hinherit := @inherit_congr py _ _ hown
  simp only [inheritedSensitive, inheritedSensitiveWithTruncation, inheritedFrom]
  simp only [foldKey] at hinherit
  rw [hinherit]

/-! ## Masks -/

/-- Every column that is masked under some tags is masked under others. -/
def KeepsMasks (py : Python) (tags tags' : Tags) : Prop :=
  ∀ column values policy summary,
    (knownSensitive py column values policy tags summary = true →
      knownSensitive py column values policy tags' summary = true) ∧
    ((incidentalMaskReason py column values policy tags summary).isSome = true →
      (incidentalMaskReason py column values policy tags' summary).isSome = true)

variable {tags tags' : Tags}

theorem keepsMasks_of_sensitive (hlower : Lowercases py)
    (h : ∀ key, tags'.entries.lookup key = tags.entries.lookup key ∨
      tags'.entries.lookup key = some sensitive) : KeepsMasks py tags tags' := by
  intro column values policy summary
  have hmore : MoreGoverned py policy tags policy tags' := {
    pii := List.Subset.refl _
    identifier := rfl
    mode := id
    tag := fun key => (h key).imp_right fun hkey =>
      ⟨sensitive, hkey, by decide, by rw [hlower.sensitive_eq]; decide⟩ }
  refine ⟨hmore.knownSensitive_of, fun hmasked => ?_⟩
  refine (hmore.incidental_of hmasked).resolve_left fun hreleased => ?_
  -- the one mode is on and off
  have hoff := (incidental_eq_defaultMask.mp hreleased.1).2.1
  rw [hreleased.2.1] at hoff
  cases hoff

theorem tagValue_of_detected (hlower : Lowercases py)
    (h : ∀ key, tags'.entries.lookup key = tags.entries.lookup key ∨
      tags.entries.lookup key = none ∧ tags'.entries.lookup key = some detected ∧
        foldKey py key = key) (column : Text) :
    tagValue py column tags' = tagValue py column tags ∨
      tagValue py column tags = [] ∧ tagValue py column tags' = detected := by
  have hblank : py.lower (pyStrip []) = [] := hlower.ascii [] rfl
  have hne : detected ≠ [] := by decide
  obtain hraw | ⟨hnone, hnow, hfolded⟩ := h column
  · obtain hkey | ⟨hnone, hnow, -⟩ := h (foldKey py column)
    · exact .inl (by simp only [tagValue, hraw, hkey])
    · by_cases hempty : (tags.entries.lookup column).getD [] = []
      · refine .inr ⟨?_, ?_⟩
        · simp only [tagValue, hempty, hnone, Option.getD_none, ne_eq, not_true_eq_false, if_false,
            hblank]
        · simp only [tagValue, hraw, hempty, hnow, Option.getD_some, ne_eq, not_true_eq_false,
            if_false, hlower.detected_eq]
      · exact .inl (by simp only [tagValue, hraw, ne_eq, hempty, not_false_eq_true, if_true])
  · refine .inr ⟨?_, ?_⟩
    · simp only [tagValue, hfolded, hnone, Option.getD_none, ne_eq, not_true_eq_false, if_false,
        hblank]
    · simp only [tagValue, hnow, Option.getD_some, ne_eq, hne, not_false_eq_true, if_true,
        hlower.detected_eq]

/-- The three rungs of the tags under a detection more: all as before, or it is the one that
answers. -/
theorem rungs_of_detected (hlower : Lowercases py)
    (h : ∀ key, tags'.entries.lookup key = tags.entries.lookup key ∨
      tags.entries.lookup key = none ∧ tags'.entries.lookup key = some detected ∧
        foldKey py key = key) (column : Text) :
    tagSensitive py column tags' = tagSensitive py column tags ∧
      tagNonSensitive py column tags' = tagNonSensitive py column tags ∧
        (detectedSensitive py column tags' = detectedSensitive py column tags ∨
          detectedSensitive py column tags' = true) := by
  unfold tagSensitive tagNonSensitive detectedSensitive
  obtain hsame | ⟨hblank, hnow⟩ := tagValue_of_detected hlower h column
  · rw [hsame]
    exact ⟨rfl, rfl, .inl rfl⟩
  · rw [hblank, hnow]
    exact ⟨by decide, by decide, .inr (by decide)⟩

theorem keepsMasks_of_detected (hlower : Lowercases py)
    (h : ∀ key, tags'.entries.lookup key = tags.entries.lookup key ∨
      tags.entries.lookup key = none ∧ tags'.entries.lookup key = some detected ∧
        foldKey py key = key) : KeepsMasks py tags tags' := by
  intro column values policy summary
  obtain ⟨hsensitive, hnon, hdetected⟩ := rungs_of_detected hlower h column
  have hknown (hmasked : knownSensitive py column values policy tags summary = true) :
      knownSensitive py column values policy tags' summary = true := by
    rw [knownSensitive_eq] at hmasked ⊢
    unfold valueSignalDecides at hmasked ⊢
    rw [hsensitive, hnon]
    obtain hsame | htrue := hdetected
    · rwa [hsame]
    · rw [htrue]
      split_ifs at hmasked ⊢ <;> simp_all
  refine ⟨hknown, fun hmasked => ?_⟩
  obtain hmasked | hdefault := knownSensitive_or_default hmasked
  · exact knownSensitive_of_masked py (hknown hmasked)
  · obtain ⟨hfloor, hmode, hident, hnot, hclass⟩ := incidental_eq_defaultMask.mp hdefault
    have hfloor' : floorMaskReason py column policy tags' = none := by
      rw [← Option.not_isSome_iff_eq_none, floorMaskReason_isSome, hsensitive,
        ← floorMaskReason_isSome, hfloor]
      simp
    unfold incidentalMaskReason
    rw [hfloor', hmode, hident, hclass]
    cases detectedSensitive py column tags' <;> rfl

/-! ## More upstream tags and more detections -/

/-- Upstream tables have sensitive tags more, and there are detections more. -/
structure Adds (py : Python) (session session' : Session) : Prop where
  propagation :
    session'.lineageClassificationPropagation = session.lineageClassificationPropagation
  sources : session'.upstreamColumnSources = session.upstreamColumnSources
  tags : session'.columnTags = session.columnTags ∨
    ∃ upstream upstream' : Text → Option (List TagRow),
      session.columnTags = some (fun asset => (upstream asset).map (rowsToTags py)) ∧
      session'.columnTags = some (fun asset => (upstream' asset).map (rowsToTags py)) ∧
      ∀ asset, ∃ added, (∀ row ∈ added, ∃ key, rowVerdict py row = some (key, sensitive)) ∧
        ((upstream' asset).getD []).Perm ((upstream asset).getD [] ++ added)
  detections : ∀ rows, session.detections = some rows →
    ∃ rows', session'.detections = some rows' ∧
      ∀ column, (column, false) ∈ rows → (column, false) ∈ rows'

theorem ownVerdict_added {rows rows' added : List TagRow}
    (hadded : ∀ row ∈ added, ∃ key, rowVerdict py row = some (key, sensitive))
    (hperm : rows'.Perm (rows ++ added)) (key : Text) :
    ownVerdict py rows' key = ownVerdict py rows key ∨ ownVerdict py rows' key = some sensitive := by
  rw [ownVerdict_perm hperm]
  by_cases hnow : some (key, sensitive) ∈ (rows ++ added).map (rowVerdict py)
  · exact .inr (by rw [ownVerdict, if_pos hnow])
  · refine .inl ?_
    have hbefore : some (key, sensitive) ∉ rows.map (rowVerdict py) := by
      intro hin
      rw [List.map_append] at hnow
      exact hnow (List.mem_append_left _ hin)
    have hnon : some (key, nonSensitive) ∈ (rows ++ added).map (rowVerdict py) ↔
        some (key, nonSensitive) ∈ rows.map (rowVerdict py) := by
      rw [List.map_append, List.mem_append]
      refine ⟨fun hin => hin.resolve_right fun hin => ?_, Or.inl⟩
      obtain ⟨row, hrow, hverdict⟩ := List.mem_map.mp hin
      obtain ⟨column, hsens⟩ := hadded row hrow
      rw [hsens, Option.some.injEq, Prod.mk.injEq] at hverdict
      exact absurd hverdict.2 (by decide)
    rw [ownVerdict, if_neg hnow, ownVerdict, if_neg hbefore]
    simp only [hnon]

theorem cellSensitive_added (hlower : Lowercases py) {upstream upstream' : Option (List TagRow)}
    (h : ∃ added, (∀ row ∈ added, ∃ key, rowVerdict py row = some (key, sensitive)) ∧
      (upstream'.getD []).Perm (upstream.getD [] ++ added)) {column : Text}
    (hsens : cellSensitive py (upstream.map (rowsToTags py)) column = true) :
    cellSensitive py (upstream'.map (rowsToTags py)) column = true := by
  obtain ⟨added, hadded, hperm⟩ := h
  have hmore : MoreGoverned py {} { entries := (upstream.map (rowsToTags py)).getD [] } {}
      { entries := (upstream'.map (rowsToTags py)).getD [] } := {
    pii := List.Subset.refl _
    identifier := rfl
    mode := id
    tag := fun key => by
      have hbefore := @lookup_assetOf py upstream key
      have hafter := @lookup_assetOf py upstream' key
      simp only [assetOf] at hbefore hafter
      rw [hbefore, hafter]
      exact (ownVerdict_added hadded hperm key).imp_right fun hkey =>
        ⟨sensitive, hkey, by decide, by rw [hlower.sensitive_eq]; decide⟩ }
  have hmem : tagSensitive py column { entries := (upstream.map (rowsToTags py)).getD [] } = true :=
    List.contains_iff_mem.mpr (of_decide_eq_true hsens)
  exact decide_eq_true (List.contains_iff_mem.mp (hmore.tagSensitive_of hmem))

theorem Adds.upstream (hlower : Lowercases py) {session session' : Session}
    (h : Adds py session session') {key : Text} (hbefore : Upstream py session key) :
    Upstream py session' key := by
  obtain ⟨hon, sources, truncated, tagsByAsset, hsources, hread, source, hsource, hkey, cell, hcell,
    hsens⟩ := hbefore
  obtain hsame | ⟨upstream, upstream', hold, hnew, hadded⟩ := h.tags
  · exact ⟨h.propagation.trans hon, sources, truncated, tagsByAsset, h.sources.trans hsources,
      hsame.trans hread, source, hsource, hkey, cell, hcell, hsens⟩
  · obtain rfl := Option.some.inj (hread.symm.trans hold)
    exact ⟨h.propagation.trans hon, sources, truncated, _, h.sources.trans hsources, hnew, source,
      hsource, hkey, cell, hcell, cellSensitive_added hlower (hadded cell.1) hsens⟩

theorem Adds.keepsMasks (hlower : Lowercases py) {session session' : Session}
    (h : Adds py session session') (rows : Option (List TagRow)) :
    KeepsMasks py (tagsOf py session rows) (tagsOf py session' rows) := by
  -- the tags first, then the detections
  have hmid : KeepsMasks py (tagsOf py session rows)
      (tagsOf py { session with columnTags := session'.columnTags } rows) := by
    apply keepsMasks_of_sensitive hlower
    intro key
    have hadds : Adds py session { session with columnTags := session'.columnTags } :=
      ⟨rfl, rfl, h.tags, fun rows hrows => ⟨rows, hrows, fun _ => id⟩⟩
    cases hown : ownVerdict py (rows.getD []) key with
    | some verdict =>
      exact .inl (by rw [own_verdict_stands hlower _ rows hown, own_verdict_stands hlower _ rows hown])
    | none =>
      by_cases hnow : Upstream py { session with columnTags := session'.columnTags } key
      · exact .inr (inherited_fills hlower _ rows hown hnow)
      · have hbefore : ¬ Upstream py session key := fun hup => hnow (hadds.upstream hlower hup)
        exact .inl (by
          rw [lookup_of_neither _ rows hown hnow, lookup_of_neither _ rows hown hbefore]
          rfl)
  have hlast : KeepsMasks py (tagsOf py { session with columnTags := session'.columnTags } rows)
      (tagsOf py session' rows) := by
    apply keepsMasks_of_detected hlower
    intro key
    have hup : Upstream py session' key ↔
        Upstream py { session with columnTags := session'.columnTags } key := by
      simp only [Upstream, h.propagation, h.sources]
    cases hown : ownVerdict py (rows.getD []) key with
    | some verdict =>
      exact .inl (by rw [own_verdict_stands hlower _ rows hown, own_verdict_stands hlower _ rows hown])
    | none =>
      by_cases hupstream : Upstream py session' key
      · exact .inl (by rw [inherited_fills hlower _ rows hown hupstream,
          inherited_fills hlower _ rows hown (hup.mp hupstream)])
      · have hmid := fun hbefore => hupstream (hup.mpr hbefore)
        by_cases hnow : Detects py session' key
        · by_cases hbefore : Detects py { session with columnTags := session'.columnTags } key
          · exact .inl (by rw [detection_fills _ rows hown hupstream hnow,
              detection_fills _ rows hown hmid hbefore])
          · have hfolded : foldKey py key = key := by
              obtain ⟨_, -, column, -, rfl⟩ := hnow
              exact hlower.foldKey_foldKey column
            exact .inr ⟨no_verdict _ rows hown hmid hbefore,
              detection_fills _ rows hown hupstream hnow, hfolded⟩
        · have hbefore : ¬ Detects py { session with columnTags := session'.columnTags } key := by
            rintro ⟨old, hold, column, hcolumn, hkey⟩
            obtain ⟨new, hnew, hsub⟩ := h.detections old hold
            exact hnow ⟨new, hnew, column, hsub column hcolumn, hkey⟩
          exact .inl (by rw [no_verdict _ rows hown hupstream hnow, no_verdict _ rows hown hmid hbefore])
  intro column values policy summary
  obtain ⟨hknown, hincidental⟩ := hmid column values policy summary
  obtain ⟨hknown', hincidental'⟩ := hlast column values policy summary
  exact ⟨fun hmasked => hknown' (hknown hmasked), fun hmasked => hincidental' (hincidental hmasked)⟩

theorem tagsOf_perm (hlower : Lowercases py) (session : Session) {rows rows' : List TagRow}
    (hperm : rows.Perm rows') :
    (∀ key, (tagsOf py session (some rows)).entries.lookup key =
      (tagsOf py session (some rows')).entries.lookup key) ∧
    (tagsOf py session (some rows)).inherited = (tagsOf py session (some rows')).inherited := by
  have hinherited := inheritedSensitive_congr hlower session (ownVerdict_perm hperm)
  constructor
  · intro key
    rw [lookup_tagsOf, lookup_tagsOf, hinherited, Option.getD_some, Option.getD_some,
      ownVerdict_perm hperm]
  · simp only [tagsOf, effectiveColumnTags, overlaid, assetOf, Option.map_some, reduceCtorEq,
      and_false, if_false, Option.getD_some]
    simp only [assetOf, Option.map_some] at hinherited
    rw [hinherited]

/-- What each column's verdict is, and what more verdicts and failed reads leave masked. -/
theorem effective_tags_follow_precedence (hlower : Lowercases py) (session : Session)
    (rows : Option (List TagRow)) :
    let own := ownVerdict py (rows.getD [])
    let effective := fun key => (tagsOf py session rows).entries.lookup key
    (∀ key verdict, own key = some verdict → effective key = some verdict) ∧
    (∀ key, own key = none → Upstream py session key → effective key = some sensitive) ∧
    (∀ key, own key = none → ¬ Upstream py session key → Detects py session key →
      effective key = some detected) ∧
    (∀ key, own key = none → ¬ Upstream py session key → ¬ Detects py session key →
      effective key = none) ∧
    (∀ read read', rows = some read → read.Perm read' →
      (∀ key, effective key = (tagsOf py session (some read')).entries.lookup key) ∧
        (tagsOf py session rows).inherited = (tagsOf py session (some read')).inherited) ∧
    (∀ session', Adds py session session' →
      KeepsMasks py (tagsOf py session rows) (tagsOf py session' rows)) ∧
    -- what cannot be read is as if there were none of it
    tagsOf py { session with detections := none } rows =
      tagsOf py { session with detections := some [] } rows ∧
    tagsOf py { session with upstreamColumnSources := none } rows =
      tagsOf py { session with lineageClassificationPropagation := false } rows ∧
    tagsOf py { session with columnTags := none } rows =
      tagsOf py { session with lineageClassificationPropagation := false } rows := by
  refine ⟨fun key verdict => own_verdict_stands hlower session rows,
    fun key => inherited_fills hlower session rows, fun key => detection_fills session rows,
    fun key => no_verdict session rows, ?_, fun session' hadds => hadds.keepsMasks hlower rows,
    rfl, ?_, ?_⟩
  · rintro read read' rfl hperm
    exact tagsOf_perm hlower session hperm
  · have hnone : (inheritedSensitive py { session with upstreamColumnSources := none }
        (assetOf py rows)).getD [] = [] := by
      unfold inheritedSensitive inheritedSensitiveWithTruncation
      cases session.lineageClassificationPropagation <;> rfl
    simp only [tagsOf, effectiveColumnTags, hnone]
    rfl
  · have hnone : (inheritedSensitive py { session with columnTags := none }
        (assetOf py rows)).getD [] = [] := by
      unfold inheritedSensitive inheritedSensitiveWithTruncation
      split
      · rfl
      · split <;> rfl
    simp only [tagsOf, effectiveColumnTags, hnone]
    rfl

section Example

theorem lowercases_ascii : Lowercases asciiPython where
  ascii _ _ := rfl
  idem text := lower_lower text
  strip text := by rw [asciiPython, pyStrip_lower, pyStrip_pyStrip]

/-- Of the two rows of a column the sensitive one wins. -/
def emailRows : List TagRow :=
  [[some "Email".toList, some "DataQ_Classification".toList, some "public".toList],
    [some "EMAIL".toList, some "PRIVACY_CATEGORY".toList, some "IDENTIFIER".toList]]

def detectedEmail : Session where
  lineageClassificationPropagation := true
  upstreamColumnSources := some ([("PHONE".toList, [("raw".toList, "PHONE".toList)])], false)
  columnTags := some fun _ => some [("phone".toList, sensitive)]
  detections := some [("email".toList, false), ("phone".toList, false)]

theorem effective_tags_of_email :
    (tagsOf asciiPython detectedEmail (some emailRows)).entries.lookup "email".toList =
      some sensitive :=
  (effective_tags_follow_precedence lowercases_ascii detectedEmail (some emailRows)).1
    "email".toList sensitive (by decide)

end Example

end DataQ.Redaction
