import DataQ.Foundations.Places
import DataQ.Redaction.Metrics
import DataQ.Redaction.SampleAgreement

/-! # More governance

More sensitive tags, more `pii_columns` and the fail-closed mode keep every mask, but the one that
only precaution put on a column which its tag clears: fail-closed mode reads that tag. -/

namespace DataQ.Redaction
open Json (Step KeepsMark)
set_option autoImplicit false

variable (py : Python)

/-- More tags are sensitive, more columns are listed, or the mode is on; nothing else differs. -/
structure MoreGoverned (policy : Policy) (tags : Tags) (policy' : Policy) (tags' : Tags) :
    Prop where
  pii : policy.piiColumns ⊆ policy'.piiColumns
  identifier : policy'.identifierColumn = policy.identifierColumn
  mode : policy.requireClassification = true → policy'.requireClassification = true
  tag : ∀ key, tags'.entries.lookup key = tags.entries.lookup key ∨
    ∃ tag, tags'.entries.lookup key = some tag ∧ tag ≠ [] ∧
      sensitiveTagValues.contains (py.lower (pyStrip tag)) = true

variable {py} {policy policy' : Policy} {tags tags' : Tags}

/-! ## The rungs -/

theorem MoreGoverned.tagValue_or (h : MoreGoverned py policy tags policy' tags') (column : Text) :
    tagValue py column tags' = tagValue py column tags ∨ tagSensitive py column tags' = true := by
  unfold tagSensitive tagValue
  obtain hown | ⟨tag, htag, hne, hsens⟩ := h.tag column
  · rw [hown]
    by_cases hempty : (tags.entries.lookup column).getD [] = []
    · simp only [hempty, ne_eq, not_true_eq_false, if_false]
      obtain hfold | ⟨tag, htag, _, hsens⟩ := h.tag (foldKey py column)
      · exact .inl (by rw [hfold])
      · exact .inr (by rwa [htag, Option.getD_some])
    · exact .inl (by simp only [ne_eq, hempty, not_false_eq_true, if_true])
  · refine .inr ?_
    simp only [htag, Option.getD_some, ne_eq, hne, not_false_eq_true, if_true, hsens]

theorem MoreGoverned.tagSensitive_of (h : MoreGoverned py policy tags policy' tags')
    {column : Text} (hsens : tagSensitive py column tags = true) :
    tagSensitive py column tags' = true := by
  obtain hsame | hnow := h.tagValue_or column
  · rwa [tagSensitive, hsame]
  · exact hnow

theorem MoreGoverned.policyPii_of (h : MoreGoverned py policy tags policy' tags') {column : Text}
    (hpii : policyPii py column policy = true) : policyPii py column policy' = true := by
  rw [policyPii, List.contains_iff_mem] at hpii ⊢
  exact List.map_subset _ h.pii hpii

theorem MoreGoverned.policyIdentifier_eq (h : MoreGoverned py policy tags policy' tags')
    (column : Text) : policyIdentifier py column policy' = policyIdentifier py column policy := by
  unfold policyIdentifier
  rw [h.identifier]

theorem not_sensitive_of_cleared {column : Text} (h : tagNonSensitive py column tags = true) :
    tagSensitive py column tags = false := by
  rw [tagNonSensitive, List.contains_iff_mem] at h
  have hall : nonSensitiveTagValues.all (!sensitiveTagValues.contains ·) = true := by decide
  have hnot := List.all_eq_true.mp hall _ h
  rwa [Bool.not_eq_true'] at hnot

/-- Values decide less often. -/
theorem MoreGoverned.decides_of (h : MoreGoverned py policy tags policy' tags') {column : Text}
    (hdecides : valueSignalDecides py column policy' tags' = true) :
    valueSignalDecides py column policy tags = true := by
  unfold valueSignalDecides at hdecides ⊢
  rw [h.policyIdentifier_eq] at hdecides
  split_ifs at hdecides with hfloor hname hdetected hmode
  all_goals
    have hsens : tagSensitive py column tags' = false := by
      by_contra hsens
      exact hfloor (by simp [hsens])
    have hsame : tagValue py column tags' = tagValue py column tags :=
      (h.tagValue_or column).resolve_right (by simp [hsens])
    have hkept : ¬ (tagSensitive py column tags || policyPii py column policy) = true := by
      intro hmasked
      refine hfloor ?_
      rw [Bool.or_eq_true] at hmasked ⊢
      exact hmasked.imp h.tagSensitive_of h.policyPii_of
    rw [detectedSensitive, hsame] at hdetected
    rw [if_neg hkept, if_neg hname, detectedSensitive, if_neg hdetected]
  · rw [tagNonSensitive, hsame] at hdecides
    rw [tagNonSensitive, hdecides]
    simp
  · rw [if_neg fun hon => hmode (h.mode hon)]

theorem MoreGoverned.knownSensitive_of (h : MoreGoverned py policy tags policy' tags')
    {column : Text} {values : List Json} {summary : Option Json}
    (hmasked : knownSensitive py column values policy tags summary = true) :
    knownSensitive py column values policy' tags' summary = true := by
  rw [knownSensitive_eq, Bool.or_eq_true, Bool.not_eq_true'] at hmasked ⊢
  refine hmasked.imp_left fun hfixed => ?_
  by_contra hdecides
  rw [Bool.not_eq_false] at hdecides
  rw [h.decides_of hdecides] at hfixed
  cases hfixed

/-- Precaution masks a column outside the mode that no rung places. -/
theorem incidental_eq_defaultMask {column : Text} {values : List Json} {summary : Option Json} :
    incidentalMaskReason py column values policy tags summary = some .defaultMask ↔
      floorMaskReason py column policy tags = none ∧ policy.requireClassification = false ∧
        policyIdentifier py column policy = false ∧ detectedSensitive py column tags = false ∧
        classifyColumn py column values summary = (.pii, false) := by
  have hfloor : floorMaskReason py column policy tags ≠ some .defaultMask := by
    unfold floorMaskReason tagMaskReason
    split_ifs <;> simp
  unfold incidentalMaskReason
  cases hreason : floorMaskReason py column policy tags with
  | some reason =>
    rw [hreason] at hfloor
    simp only [hfloor, false_iff]
    exact fun hnone => Option.noConfusion rfl (heq_of_eq hnone.1)
  | none =>
    cases policy.requireClassification with
    | true => simp only [if_true]; split_ifs <;> simp
    | false =>
      cases policyIdentifier py column policy with
      | true => simp only [if_true, Bool.false_eq_true, if_false]; split_ifs <;> simp
      | false =>
        cases detectedSensitive py column tags with
        | true => simp
        | false =>
          obtain ⟨verdict, affirmative⟩ := classifyColumn py column values summary
          cases verdict <;> cases affirmative <;> simp

theorem knownSensitive_or_default {column : Text} {values : List Json} {summary : Option Json}
    (h : (incidentalMaskReason py column values policy tags summary).isSome = true) :
    knownSensitive py column values policy tags summary = true ∨
      incidentalMaskReason py column values policy tags summary = some .defaultMask := by
  by_cases hdefault : incidentalMaskReason py column values policy tags summary = some .defaultMask
  · exact .inr hdefault
  refine .inl ?_
  rw [incidental_eq_defaultMask] at hdefault
  unfold knownSensitive knownSensitiveReason
  unfold incidentalMaskReason at h
  have haffirm := isSensitive_iff py column values summary
  cases hfloor : floorMaskReason py column policy tags with
  | some reason => rfl
  | none =>
    rw [hfloor] at h
    cases hmode : policy.requireClassification with
    | true => simpa [hmode] using h
    | false =>
      cases hident : policyIdentifier py column policy with
      | true => simpa [hmode, hident] using h
      | false =>
        cases hdetected : detectedSensitive py column tags with
        | true => rfl
        | false =>
          cases hclass : classifyColumn py column values summary with
          | mk verdict affirmative =>
            rw [hclass] at haffirm
            cases verdict <;> cases affirmative <;> simp_all

/-- Only precaution masked the column, and the mode that is now on takes its tag for clearance. -/
def Released (py : Python) (policy' : Policy) (tags' : Tags) (column : Text)
    (reason : Option RedactionReason) : Prop :=
  reason = some .defaultMask ∧ policy'.requireClassification = true ∧
    tagNonSensitive py column tags' = true ∧ policyPii py column policy' = false

theorem MoreGoverned.incidental_of (h : MoreGoverned py policy tags policy' tags') {column : Text}
    {values : List Json} {summary : Option Json}
    (hmasked : (incidentalMaskReason py column values policy tags summary).isSome = true) :
    Released py policy' tags' column (incidentalMaskReason py column values policy tags summary) ∨
      (incidentalMaskReason py column values policy' tags' summary).isSome = true := by
  obtain hknown | hdefault := knownSensitive_or_default hmasked
  · exact .inr (knownSensitive_of_masked py (h.knownSensitive_of hknown))
  · obtain ⟨_, hmode, hident, hdetected, hclass⟩ := incidental_eq_defaultMask.mp hdefault
    have hident' : policyIdentifier py column policy' = false := by
      rw [h.policyIdentifier_eq, hident]
    have hfloor := floorMaskReason_isSome py column policy' tags'
    unfold Released incidentalMaskReason
    cases hfloor' : floorMaskReason py column policy' tags' with
    | some reason => exact .inr rfl
    | none =>
      rw [hfloor', Option.isSome_none, eq_comm, Bool.or_eq_false_iff] at hfloor
      have hsame : tagValue py column tags' = tagValue py column tags :=
        (h.tagValue_or column).resolve_right (by simp [hfloor.1])
      have hdetected' : detectedSensitive py column tags' = false := by
        rw [detectedSensitive, hsame]
        exact hdetected
      cases hmode' : policy'.requireClassification with
      | true =>
        cases hcleared : tagNonSensitive py column tags' with
        | true => exact .inl ⟨by unfold incidentalMaskReason at hdefault; exact hdefault, rfl, rfl,
            hfloor.2⟩
        | false => exact .inr (by simp [hident'])
      | false => exact .inr (by simp [hident', hdetected', hclass])

/-- The mode shows a column that was masked exactly where it releases it. -/
theorem MoreGoverned.shown_iff (h : MoreGoverned py policy tags policy' tags') {column : Text}
    {values : List Json} {summary : Option Json} :
    (incidentalMaskReason py column values policy tags summary).isSome = true ∧
        incidentalMaskReason py column values policy' tags' summary = none ↔
      Released py policy' tags' column
        (incidentalMaskReason py column values policy tags summary) := by
  constructor
  · rintro ⟨hmasked, hshown⟩
    refine (h.incidental_of hmasked).resolve_right ?_
    rw [hshown]
    exact Bool.false_ne_true
  · rintro ⟨hdefault, hmode, hcleared, hpii⟩
    have hclass := (incidental_eq_defaultMask.mp hdefault).2.2.2.2
    have hfloor := floorMaskReason_isSome py column policy' tags'
    rw [not_sensitive_of_cleared hcleared, hpii, Bool.or_self, Option.isSome_eq_false_iff,
      Option.isNone_iff_eq_none] at hfloor
    have hplain : isSensitive py column values summary = false := by
      rw [← Bool.not_eq_true, isSensitive_iff, hclass]
      simp
    refine ⟨by rw [hdefault, Option.isSome_some], ?_⟩
    simp [incidentalMaskReason, hfloor, hmode, hcleared, hplain]

/-! ## Masked cells -/

theorem child_redactSampleValue (step : Step) (value : Json) :
    (redactSampleValue value).child step = (value.child step).map redactSampleValue := by
  cases value with
  | obj fields =>
    cases step with
    | index i => rfl
    | key name =>
      induction fields with
      | nil => rfl
      | cons field fields ih =>
        obtain ⟨key, value⟩ := field
        simp only [redactSampleValue, redactFields, Json.child, List.lookup_cons] at ih ⊢
        rw [ih]
        cases name == key <;> rfl
  | arr items =>
    cases step with
    | key name => rfl
    | index i => simp [redactSampleValue, Json.child, redactItems_eq_map]
  | _ => cases step <;> rfl

theorem keepsMark_redactSampleValue {letOff : List Step → Prop} (value : Json) :
    KeepsMark redacted letOff value (redactSampleValue value) := by
  intro path
  refine fun hread => .inr ?_
  induction path generalizing value with
  | nil =>
    obtain rfl := Option.some.inj hread
    rfl
  | cons step path ih =>
    obtain ⟨value', hchild, hrest⟩ := Option.bind_eq_some_iff.mp hread
    rw [Json.readAt, child_redactSampleValue, hchild, Option.map_some, Option.bind_some]
    exact ih value' hrest

/-- A value that its verdict masks or shows. -/
def masked (verdict : Bool) (value : Json) : Json :=
  if verdict then redactSampleValue value else value

theorem keepsMark_masked {letOff : List Step → Prop} {before after : Bool} (value : Json)
    (h : before = true → (∀ path, letOff path) ∨ after = true) :
    KeepsMark redacted letOff (masked before value) (masked after value) := by
  cases before with
  | true =>
    obtain hoff | rfl := h rfl
    · exact Json.keepsMark_of_letOff hoff _ _
    · exact KeepsMark.refl _
  | false =>
    cases after with
    | true => exact keepsMark_redactSampleValue value
    | false => exact KeepsMark.refl _

theorem arr_ne_redacted (items : List Json) : Json.arr items ≠ redacted := Json.noConfusion

theorem obj_ne_redacted (fields : Fields) : Json.obj fields ≠ redacted := Json.noConfusion

/-! ## Rows -/

theorem MoreGoverned.cell_of (h : MoreGoverned py policy tags policy' tags')
    {testedColumn : Option Text} {rows : List Json} {summaries : Option Json} {name : Text}
    {value : Json}
    (hmasked : (cellReason py testedColumn policy tags rows summaries name value).isSome = true) :
    Released py policy' tags' name (cellReason py testedColumn policy tags rows summaries name value) ∨
      (cellReason py testedColumn policy' tags' rows summaries name value).isSome = true := by
  simp only [cellReason] at hmasked ⊢
  cases htested : isTested py testedColumn name with
  | true =>
    simp only [htested, if_true] at hmasked ⊢
    exact .inr (h.knownSensitive_of hmasked)
  | false =>
    simp only [htested, Bool.false_eq_true, if_false] at hmasked ⊢
    exact h.incidental_of hmasked

theorem MoreGoverned.floor_of (h : MoreGoverned py policy tags policy' tags') {column : Text}
    (hmasked : (floorMaskReason py column policy tags).isSome = true) :
    (floorMaskReason py column policy' tags').isSome = true := by
  rw [floorMaskReason_isSome, Bool.or_eq_true] at hmasked ⊢
  exact hmasked.imp h.tagSensitive_of h.policyPii_of

theorem MoreGoverned.comparison_of (h : MoreGoverned py policy tags policy' tags')
    {rows : List Json} {name : Text} {value : Json}
    (hmasked : (comparisonReason py policy tags rows name value).isSome = true) :
    Released py policy' tags' (stripSideSuffix name)
        (comparisonReason py policy tags rows name value) ∨
      (comparisonReason py policy' tags' rows name value).isSome = true := by
  unfold comparisonReason at hmasked ⊢
  rw [Option.isSome_or, Bool.or_eq_true] at hmasked ⊢
  cases hfloor : floorMaskReason py name policy tags with
  | some reason =>
    have hkept : (floorMaskReason py name policy' tags').isSome = true :=
      h.floor_of (by rw [hfloor, Option.isSome_some])
    exact .inr (.inl hkept)
  | none =>
    rw [Option.none_or]
    refine (h.incidental_of (hmasked.resolve_left ?_)).imp_right .inr
    rw [hfloor]
    exact Bool.false_ne_true

theorem redactRow_eq {testedColumn : Option Text} {rows : List Json} {summaries : Option Json}
    (fields : Fields) :
    redactRow py testedColumn policy tags rows summaries (.obj fields) =
      .obj (fields.map fun field => (field.1,
        masked (cellReason py testedColumn policy tags rows summaries field.1 field.2).isSome
          field.2)) := rfl

theorem redactComparisonRow_eq {rows : List Json} (fields : Fields) :
    redactComparisonRow py policy tags rows (.obj fields) =
      .obj (fields.map fun field => (field.1,
        masked (comparisonReason py policy tags rows field.1 field.2).isSome field.2)) := rfl

/-- A list of rows is capped and its rows redacted; a cell that is released has its place let off. -/
theorem keepsMark_rows {letOff : List Step → Prop} {rows : List Json}
    {redact redact' : Json → Json} (column : Text → Text)
    {reason reason' : Text → Json → Option RedactionReason}
    (hrow : ∀ fields, redact (.obj fields) = .obj (fields.map fun field =>
      (field.1, masked (reason field.1 field.2).isSome field.2)))
    (hrow' : ∀ fields, redact' (.obj fields) = .obj (fields.map fun field =>
      (field.1, masked (reason' field.1 field.2).isSome field.2)))
    (hother : ∀ row, row.isDict = false → redact row = redact' row)
    (hkept : ∀ name value, (reason name value).isSome = true →
      Released py policy' tags' (column name) (reason name value) ∨
        (reason' name value).isSome = true)
    (hoff : ∀ i fields name value path, rows[i]? = some (.obj fields) →
      fields.lookup name = some value →
      Released py policy' tags' (column name) (reason name value) →
      letOff (.index i :: .key name :: path)) :
    KeepsMark redacted letOff (.arr ((rows.take sampleRowCap).map redact))
      (.arr ((rows.take sampleRowCap).map redact')) := by
  apply Json.keepsMark_items arr_ne_redacted
  intro i row hat
  have hraw : rows[i]? = some row := by
    rw [List.getElem?_take] at hat
    split at hat
    · exact hat
    · cases hat
  cases row with
  | obj fields =>
    rw [hrow, hrow']
    apply Json.keepsMark_fields obj_ne_redacted
    intro name value hvalue
    apply keepsMark_masked
    exact fun hmasked => (hkept name value hmasked).imp_left fun hreleased path =>
      hoff i fields name value path hraw hvalue hreleased
  | _ =>
    rw [hother _ rfl]
    exact KeepsMark.refl _

/-! ## Results -/

variable (py)

/-- The rung that masks a cell of a list of the sample. -/
def sampleReason (testedColumn : Option Text) (policy : Policy) (tags : Tags) (sample : Fields)
    (key name : Text) (value : Json) : Option RedactionReason :=
  let rows := listAt (some sample) key
  if comparisonSampleKeys.contains key then comparisonReason py policy tags rows name value
  else
    cellReason py testedColumn policy tags rows (sample.lookup valueSignalSummaryKey) name value

/-- The column that a cell of a list of the sample is governed as. -/
def governedColumn (key name : Text) : Text :=
  if comparisonSampleKeys.contains key then stripSideSuffix name else name

/-- The place lies in a cell of the sample that the mode releases. -/
def ReleasedAt (testedColumn : Option Text) (policy : Policy) (tags : Tags) (policy' : Policy)
    (tags' : Tags) (sample : Fields) (path : List Step) : Prop :=
  ∃ key i name rest value, path = .key key :: .index i :: .key name :: rest ∧
    (Json.obj sample).readAt [.key key, .index i, .key name] = some value ∧
    Released py policy' tags' (governedColumn key name)
      (sampleReason py testedColumn policy tags sample key name value)

/-- What a surface emits for a column of JSON; nothing is a `null`. -/
def emittedJson (fields : Option Fields) : Json := (fields.map Json.obj).getD .null

variable {py}

theorem readAt_cell {sample : Fields} {key name : Text} {rows : List Json} {i : ℕ}
    {fields : Fields} {value : Json} (hlist : sample.lookup key = some (.arr rows))
    (hrow : rows[i]? = some (.obj fields)) (hvalue : fields.lookup name = some value) :
    (Json.obj sample).readAt [.key key, .index i, .key name] = some value := by
  simp [Json.readAt, Json.child, hlist, hrow, hvalue]

theorem listAt_of_lookup {sample : Fields} {key : Text} {rows : List Json}
    (hlist : sample.lookup key = some (.arr rows)) : listAt (some sample) key = rows := by
  rw [listAt, Option.bind_some, hlist]
  rfl

theorem MoreGoverned.keepsMark_redactRows (h : MoreGoverned py policy tags policy' tags')
    {testedColumn : Option Text} {sample : Fields} {key : Text} {rows : List Json}
    (hkey : comparisonSampleKeys.contains key = false)
    (hlist : sample.lookup key = some (.arr rows)) :
    let summaries := sample.lookup valueSignalSummaryKey
    KeepsMark redacted
      (fun path => ReleasedAt py testedColumn policy tags policy' tags' sample (.key key :: path))
      (.arr (redactRows py testedColumn policy tags summaries rows))
      (.arr (redactRows py testedColumn policy' tags' summaries rows)) := by
  intro summaries
  refine keepsMark_rows id redactRow_eq redactRow_eq ?_ (fun name value => h.cell_of) ?_
  · intro row hdict
    cases row with
    | obj fields => cases hdict
    | _ => rfl
  · intro i fields name value path hrow hvalue hreleased
    refine ⟨key, i, name, path, value, rfl, readAt_cell hlist hrow hvalue, ?_⟩
    simp only [governedColumn, sampleReason, hkey, Bool.false_eq_true, if_false,
      listAt_of_lookup hlist]
    exact hreleased

theorem MoreGoverned.keepsMark_comparison (h : MoreGoverned py policy tags policy' tags')
    {testedColumn : Option Text} {sample : Fields} {key : Text} {rows : List Json}
    (hkey : comparisonSampleKeys.contains key = true)
    (hlist : sample.lookup key = some (.arr rows)) :
    KeepsMark redacted
      (fun path => ReleasedAt py testedColumn policy tags policy' tags' sample (.key key :: path))
      (.arr ((rows.take sampleRowCap).map (redactComparisonRow py policy tags rows)))
      (.arr ((rows.take sampleRowCap).map (redactComparisonRow py policy' tags' rows))) := by
  refine keepsMark_rows stripSideSuffix redactComparisonRow_eq redactComparisonRow_eq ?_
    (fun name value => h.comparison_of) ?_
  · intro row hdict
    cases row with
    | obj fields => cases hdict
    | _ => rfl
  · intro i fields name value path hrow hvalue hreleased
    refine ⟨key, i, name, path, value, rfl, readAt_cell hlist hrow hvalue, ?_⟩
    simp only [governedColumn, sampleReason, hkey, if_true, listAt_of_lookup hlist]
    exact hreleased

theorem redactPlainList_eq (testedColumn : Option Text) (policy : Policy) (tags : Tags)
    (summaries : Option Json) (values : List Json) :
    Json.arr (redactPlainList py testedColumn policy tags summaries values) =
      masked (testedColumn.all fun column =>
        knownSensitive py column values policy tags (summaryOf summaries column))
        (.arr (values.take sampleRowCap)) := by
  have hverdict : ∀ (verdict : Bool) (items : List Json),
      Json.arr (if verdict then redactItems items else items) = masked verdict (.arr items) := by
    intro verdict items
    cases verdict <;> rfl
  cases testedColumn with
  | none => rfl
  | some column => exact hverdict _ _

theorem MoreGoverned.keepsMark_entry (h : MoreGoverned py policy tags policy' tags')
    {testedColumn : Option Text} {sample : Fields} {key : Text} {raw out : Json}
    (hraw : sample.lookup key = some raw)
    (hout : redactEntry py testedColumn policy tags (sample.lookup valueSignalSummaryKey) key raw =
      some out) :
    ∃ out', redactEntry py testedColumn policy' tags' (sample.lookup valueSignalSummaryKey) key raw =
        some out' ∧
      KeepsMark redacted
        (fun path => ReleasedAt py testedColumn policy tags policy' tags' sample (.key key :: path))
        out out' := by
  unfold redactEntry at hout ⊢
  split at hout
  · cases hout
  next hinternal =>
  rw [if_neg hinternal]
  split at hout
  · next hsafe =>
    rw [if_pos hsafe]
    obtain rfl := Option.some.inj hout
    exact ⟨_, rfl, KeepsMark.refl _⟩
  next hsafe =>
  rw [if_neg hsafe]
  cases raw with
  | arr rows =>
    simp only at hout ⊢
    by_cases hindex : key = indexListKey
    · rw [if_pos hindex] at hout ⊢
      obtain rfl := Option.some.inj hout
      exact ⟨_, rfl, h.keepsMark_redactRows (by rw [hindex]; decide) hraw⟩
    rw [if_neg hindex] at hout ⊢
    by_cases hvalues : key = partialListKey
    · rw [if_pos hvalues] at hout ⊢
      obtain rfl := Option.some.inj hout
      refine ⟨_, rfl, ?_⟩
      unfold redactPartialList
      split
      · exact h.keepsMark_redactRows (by rw [hvalues]; decide) hraw
      · rw [redactPlainList_eq, redactPlainList_eq]
        apply keepsMark_masked
        refine fun hmasked => .inr ?_
        cases testedColumn with
        | none => rfl
        | some column => exact h.knownSensitive_of hmasked
    rw [if_neg hvalues] at hout ⊢
    by_cases hcomparison : comparisonSampleKeys.contains key = true
    · rw [if_pos hcomparison] at hout ⊢
      obtain rfl := Option.some.inj hout
      exact ⟨_, rfl, h.keepsMark_comparison hcomparison hraw⟩
    · rw [if_neg hcomparison] at hout ⊢
      obtain rfl := Option.some.inj hout
      exact ⟨_, rfl, KeepsMark.refl _⟩
  | _ =>
    obtain rfl := Option.some.inj hout
    exact ⟨_, rfl, KeepsMark.refl _⟩

theorem lookup_internal {testedColumn : Option Text} {summaries : Option Json} {key : Text}
    (hkey : key = valueSignalSummaryKey ∨ key = valueSignalStatusKey) (sample : Fields) :
    (sample.filterMap fun entry =>
      (redactEntry py testedColumn policy tags summaries entry.1 entry.2).map
        (entry.1, ·)).lookup key = none := by
  rw [List.lookup_eq_none_iff]
  intro entry hentry
  obtain ⟨raw, _, hmap⟩ := List.mem_filterMap.mp hentry
  obtain ⟨out, hout, rfl⟩ := Option.map_eq_some_iff.mp hmap
  refine bne_iff_ne.mpr fun heq => ?_
  have hname : raw.1 = valueSignalSummaryKey ∨ raw.1 = valueSignalStatusKey := by rwa [← heq]
  simp [redactEntry, hname] at hout

theorem MoreGoverned.keepsMark_sample (h : MoreGoverned py policy tags policy' tags')
    (testedColumn : Option Text) (sample : Fields) :
    KeepsMark redacted (ReleasedAt py testedColumn policy tags policy' tags' sample)
      (emittedJson (redactSampleFailures py (some sample) testedColumn policy tags))
      (emittedJson (redactSampleFailures py (some sample) testedColumn policy' tags')) := by
  cases sample with
  | nil => exact KeepsMark.refl _
  | cons entry rest =>
    apply Json.keepsMark_of_child (obj_ne_redacted _)
    intro step value hchild
    cases step with
    | index i => cases hchild
    | key key =>
      by_cases hinternal : key = valueSignalSummaryKey ∨ key = valueSignalStatusKey
      · exact absurd (hchild.symm.trans (lookup_internal hinternal (entry :: rest))) (by simp)
      · rw [not_or] at hinternal
        have hbefore := lookup_redacted py testedColumn policy tags
          ((entry :: rest).lookup valueSignalSummaryKey) hinternal.1 hinternal.2 (entry :: rest)
        have hafter := lookup_redacted py testedColumn policy' tags'
          ((entry :: rest).lookup valueSignalSummaryKey) hinternal.1 hinternal.2 (entry :: rest)
        obtain ⟨raw, hraw, hout⟩ := Option.bind_eq_some_iff.mp (hbefore.symm.trans hchild)
        obtain ⟨out', hout', hkeeps⟩ := h.keepsMark_entry hraw hout
        refine ⟨out', ?_, hkeeps⟩
        refine hafter.trans ?_
        rw [hraw, Option.bind_some, hout']

/-! ## The observed value -/

theorem MoreGoverned.columnless_of (h : MoreGoverned py policy tags policy' tags') {value : Json}
    {expectationType : Option Text}
    (hshown : columnlessScalarShows py value policy' tags' expectationType = true) :
    columnlessScalarShows py value policy tags expectationType = true := by
  unfold columnlessScalarShows at hshown ⊢
  cases expectationType with
  | none => cases hshown
  | some type =>
    simp only at hshown ⊢
    split_ifs at hshown ⊢ with hcell
    rw [Bool.not_eq_true'] at hshown ⊢
    by_contra hmasked
    rw [Bool.not_eq_false] at hmasked
    rw [h.knownSensitive_of hmasked] at hshown
    cases hshown

theorem not_shown_of (shown : Bool) (value : Json) :
    (if shown then value else redactSampleValue value) = masked (!shown) value := by
  cases shown <;> rfl

theorem MoreGoverned.keepsMark_observed (h : MoreGoverned py policy tags policy' tags')
    (observed : Option Fields) (testedColumn expectationType : Option Text) :
    KeepsMark redacted (fun _ => False)
      (emittedJson (redactObservedValue py observed testedColumn policy tags expectationType))
      (emittedJson (redactObservedValue py observed testedColumn policy' tags' expectationType)) := by
  have hfield : ∀ (fields : Fields) (key : Text) (value : Json) (verdict verdict' : Bool),
      (verdict = true → verdict' = true) →
        KeepsMark redacted (fun _ => False) (.obj (setField key (masked verdict value) fields))
          (.obj (setField key (masked verdict' value) fields)) := by
    intro fields key value verdict verdict' hverdict
    apply Json.keepsMark_setField obj_ne_redacted
    exact keepsMark_masked value fun hmasked => .inr (hverdict hmasked)
  cases observed with
  | none => exact KeepsMark.refl _
  | some observed =>
    cases observed with
    | nil => exact KeepsMark.refl _
    | cons entry rest =>
      generalize hechoed : withoutEcho (entry :: rest) = echoed
      simp only [redactObservedValue, hechoed]
      cases hunparsed : echoed.lookup "unparsed_value".toList with
      | some value =>
        simp only [emittedJson, Option.map_some, Option.getD_some, not_shown_of]
        apply hfield
        intro hmasked
        rw [Bool.not_and, Bool.or_eq_true, Bool.not_not] at hmasked ⊢
        exact hmasked.imp_right h.knownSensitive_of
      | none =>
        simp only
        cases hobserved : echoed.lookup "observed_value".toList with
        | none => exact KeepsMark.refl _
        | some value =>
          have hscalar : ∀ shown : Bool, emittedJson
              (if shown then some echoed
                else some (setField "observed_value".toList (redactSampleValue value) echoed)) =
                .obj (setField "observed_value".toList (masked (!shown) value) echoed) := by
            intro shown
            cases shown with
            | true => exact congrArg Json.obj (setField_of_lookup hobserved).symm
            | false => rfl
          cases value with
          | arr values =>
            simp only [emittedJson, Option.map_some, Option.getD_some, not_shown_of]
            apply hfield
            cases testedColumn with
            | none => exact id
            | some column =>
              simp only [Bool.not_not]
              exact h.knownSensitive_of
          | _ =>
            simp only [hscalar]
            apply hfield
            cases testedColumn with
            | none =>
              simp only [Bool.not_eq_true']
              intro hmasked
              by_contra hshown
              rw [Bool.not_eq_false] at hshown
              rw [h.columnless_of hshown] at hmasked
              cases hmasked
            | some column =>
              simp only [Bool.not_not]
              exact h.knownSensitive_of

/-! ## Every surface -/

theorem MoreGoverned.metric_of (h : MoreGoverned py policy tags policy' tags')
    {metric : Option Metric} {asOf : CheckAsOf} {observed expected : Option Fields}
    (hmasked : (metricValueRedaction py metric asOf policy tags observed expected).isSome = true) :
    (metricValueRedaction py metric asOf policy' tags' observed expected).isSome = true := by
  unfold metricValueRedaction at hmasked ⊢
  cases metric with
  | none => exact hmasked
  | some metric =>
    simp only at hmasked ⊢
    split_ifs at hmasked ⊢ with hcell
    · exact hmasked
    · cases hcolumn : asOf.column with
      | none => rfl
      | some column =>
        rw [hcolumn] at hmasked
        cases column with
        | nil => rfl
        | cons c column => exact h.knownSensitive_of hmasked

theorem redactMetricValue_none {metric : Option Metric} {asOf : CheckAsOf}
    {observed expected : Option Fields} :
    (redactMetricValue py metric asOf policy tags observed expected).value = none ↔
      metric = none ∨
        (metricValueRedaction py metric asOf policy tags observed expected).isSome = true := by
  unfold redactMetricValue
  cases hreason : metricValueRedaction py metric asOf policy tags observed expected with
  | none => simp
  | some reason => simp

/-- More governance keeps every mask, but that of a cell which the fail-closed mode releases. -/
theorem governance_keeps_masks (h : MoreGoverned py policy tags policy' tags') :
    (∀ sample testedColumn path,
      (emittedJson (redactSampleFailures py sample testedColumn policy tags)).readAt path =
          some redacted →
        ReleasedAt py testedColumn policy tags policy' tags' (sample.getD []) path ∨
          (emittedJson (redactSampleFailures py sample testedColumn policy' tags')).readAt path =
            some redacted) ∧
    (∀ observed testedColumn type path,
      (emittedJson (redactObservedValue py observed testedColumn policy tags type)).readAt path =
          some redacted →
        (emittedJson (redactObservedValue py observed testedColumn policy' tags' type)).readAt path =
          some redacted) ∧
    ∀ metric asOf observed expected,
      (redactMetricValue py metric asOf policy tags observed expected).value = none →
        (redactMetricValue py metric asOf policy' tags' observed expected).value = none := by
  refine ⟨?_, ?_, ?_⟩
  · intro sample testedColumn
    cases sample with
    | none => exact KeepsMark.refl _
    | some sample => exact h.keepsMark_sample testedColumn sample
  · intro observed testedColumn type path hread
    exact (h.keepsMark_observed observed testedColumn type path hread).resolve_left id
  · intro metric asOf observed expected hnone
    rw [redactMetricValue_none] at hnone ⊢
    exact hnone.imp_right h.metric_of

def publicTags : Tags := { entries := [("field_7".toList, "public".toList)] }

def failClosed : Policy := { requireClassification := true }

def fieldSample : Fields :=
  [(indexListKey, .arr [.obj [("field_7".toList, .str "v1".toList)]])]

def fieldCell : List Step := [.key indexListKey, .index 0, .key "field_7".toList]

theorem failClosed_more : MoreGoverned asciiPython {} publicTags failClosed publicTags where
  pii := List.Subset.refl _
  identifier := rfl
  mode := fun _ => rfl
  tag := fun _ => .inl rfl

theorem governance_keeps_field_masked :
    (emittedJson (redactSampleFailures asciiPython (some fieldSample) none {} publicTags)).readAt
        fieldCell = some redacted ∧
      (ReleasedAt asciiPython none {} publicTags failClosed publicTags fieldSample fieldCell ∨
        (emittedJson (redactSampleFailures asciiPython (some fieldSample) none failClosed
          publicTags)).readAt fieldCell = some redacted) :=
  have hread : (emittedJson (redactSampleFailures asciiPython (some fieldSample) none {}
      publicTags)).readAt fieldCell = some redacted := by decide
  ⟨hread, (governance_keeps_masks failClosed_more).1 (some fieldSample) none fieldCell hread⟩

/-- Switching the fail-closed mode on shows a column that its tag clears. -/
theorem fail_closed_reveals :
    ¬ ∀ policy tags policy' tags', MoreGoverned asciiPython policy tags policy' tags' →
      ∀ sample testedColumn path,
        (emittedJson (redactSampleFailures asciiPython sample testedColumn policy tags)).readAt
            path = some redacted →
          (emittedJson (redactSampleFailures asciiPython sample testedColumn policy'
            tags')).readAt path = some redacted := by
  intro hclaim
  have hkept := hclaim {} publicTags failClosed publicTags failClosed_more (some fieldSample) none
    fieldCell (by decide)
  revert hkept
  decide

end DataQ.Redaction
