import DataQ.Redaction.SampleAgreement

/-! # The population-signal gate

`value_signal_decides` answers without a column's values whether they could change its masking.
Where it says no, both ladders give one verdict whatever the values and the summary are, and so a
sample is emitted alike with the summary of an extra query and without it. -/

namespace DataQ.Redaction
set_option autoImplicit false

variable {py : Python} {policy : Policy} {tags : Tags}

theorem nameSignal_of_isSensitive_nil {column : Text} (h : isSensitive py column [] none = true) :
    nameSignal py column = some .pii := by
  rw [isSensitive, valueSignal_nil] at h
  simpa using h

theorem isSensitive_of_name {column : Text} (h : nameSignal py column = some .pii)
    (values : List Json) (summary : Option Json) :
    isSensitive py column values summary = true := by
  simp [isSensitive, h]

theorem classify_of_name {column : Text} (h : nameSignal py column = some .pii)
    (values : List Json) (summary : Option Json) :
    classifyColumn py column values summary = (.pii, true) :=
  (isSensitive_iff py column values summary).mp (isSensitive_of_name h values summary)

/-- The rungs that decide without the values. -/
theorem undecided_cases {column : Text} (h : valueSignalDecides py column policy tags = false) :
    (floorMaskReason py column policy tags).isSome = true ∨
      nameSignal py column = some .pii ∨
      (detectedSensitive py column tags = true ∧ policyIdentifier py column policy = false) ∨
      (policy.requireClassification = true ∧
        (tagNonSensitive py column tags || policyIdentifier py column policy) = false) := by
  unfold valueSignalDecides at h
  rw [← floorMaskReason_isSome] at h
  split_ifs at h with hfloor hname hdetected hmode
  · exact .inl hfloor
  · exact .inr (.inl (nameSignal_of_isSensitive_nil hname))
  · rw [Bool.and_eq_true, Bool.not_eq_true'] at hdetected
    exact .inr (.inr (.inl hdetected))
  · exact .inr (.inr (.inr ⟨hmode, h⟩))

/-- The tested column's rung is fixed. -/
theorem knownSensitiveReason_fixed {column : Text}
    (h : valueSignalDecides py column policy tags = false) (values values' : List Json)
    (summary summary' : Option Json) :
    knownSensitiveReason py column values policy tags summary =
      knownSensitiveReason py column values' policy tags summary' := by
  unfold knownSensitiveReason
  cases hreason : floorMaskReason py column policy tags with
  | some reason => rfl
  | none =>
    obtain hfloor | hname | ⟨hdetected, hident⟩ | ⟨hmode, hcleared⟩ := undecided_cases h
    · rw [hreason] at hfloor
      cases hfloor
    · simp only [isSensitive_of_name hname]
    · simp only [not_cleared_of_detected py hdetected, hdetected, hident]
      cases policy.requireClassification <;> rfl
    · simp only [hmode, hcleared]
      rfl

/-- Another column's rung is fixed. -/
theorem incidentalMaskReason_fixed {column : Text}
    (h : valueSignalDecides py column policy tags = false) (values values' : List Json)
    (summary summary' : Option Json) :
    incidentalMaskReason py column values policy tags summary =
      incidentalMaskReason py column values' policy tags summary' := by
  unfold incidentalMaskReason
  cases hreason : floorMaskReason py column policy tags with
  | some reason => rfl
  | none =>
    obtain hfloor | hname | ⟨hdetected, hident⟩ | ⟨hmode, hcleared⟩ := undecided_cases h
    · rw [hreason] at hfloor
      cases hfloor
    · simp only [isSensitive_of_name hname, classify_of_name hname]
    · simp only [not_cleared_of_detected py hdetected, hdetected, hident]
      cases policy.requireClassification <;> rfl
    · simp only [hmode, hcleared]
      rfl

/-! ## The sample -/

variable (py)

/-- What `_needs_population_signal` asks the gate about a check of `column` located by
`indexColumns`. -/
def anyDecides (column : Text) (indexColumns : List Text) (policy : Policy) (tags : Tags) : Bool :=
  (column :: indexColumns).any (valueSignalDecides py · policy tags)

/-- The columns of every row that a sample lists. -/
def sampleColumns (sample : Fields) : List Text :=
  sample.flatMap fun entry =>
    if entry.1 = indexListKey ∨ entry.1 = partialListKey then
      (listOf (some entry.2)).flatMap rowKeys
    else []

variable {py}

theorem cellReason_fixed {testedColumn : Option Text} {rows : List Json} {name : Text}
    (h : valueSignalDecides py name policy tags = false) (summaries summaries' : Option Json)
    (value : Json) :
    cellReason py testedColumn policy tags rows summaries name value =
      cellReason py testedColumn policy tags rows summaries' name value := by
  simp only [cellReason]
  split
  · exact knownSensitiveReason_fixed h _ _ _ _
  · exact incidentalMaskReason_fixed h _ _ _ _

theorem redactRow_fixed {testedColumn : Option Text} {rows : List Json}
    {summaries summaries' : Option Json} {row : Json}
    (h : ∀ name ∈ rowKeys row, valueSignalDecides py name policy tags = false) :
    redactRow py testedColumn policy tags rows summaries row =
      redactRow py testedColumn policy tags rows summaries' row := by
  cases row with
  | obj fields =>
    simp only [redactRow]
    congr 1
    apply List.map_congr_left
    intro field hfield
    have hfixed := h field.1 (List.mem_map.mpr ⟨field, hfield, rfl⟩)
    rw [cellReason_fixed hfixed summaries summaries' field.2]
  | _ => rfl

theorem redactRows_fixed {testedColumn : Option Text} {rows : List Json}
    (h : ∀ name ∈ rows.flatMap rowKeys, valueSignalDecides py name policy tags = false)
    (summaries summaries' : Option Json) :
    redactRows py testedColumn policy tags summaries rows =
      redactRows py testedColumn policy tags summaries' rows := by
  apply List.map_congr_left
  intro row hrow
  apply redactRow_fixed
  intro name hname
  exact h name (List.mem_flatMap.mpr ⟨row, List.mem_of_mem_take hrow, hname⟩)

theorem redactPlainList_fixed {testedColumn : Option Text}
    (h : ∀ column ∈ testedColumn, valueSignalDecides py column policy tags = false)
    (summaries summaries' : Option Json) (values : List Json) :
    redactPlainList py testedColumn policy tags summaries values =
      redactPlainList py testedColumn policy tags summaries' values := by
  cases testedColumn with
  | none => rfl
  | some column =>
    simp only [redactPlainList, knownSensitiveReason_fixed (h column rfl) values values
      (summaryOf summaries column) (summaryOf summaries' column)]

theorem redactEntry_fixed {testedColumn : Option Text} {key : Text} {raw : Json}
    (htested : ∀ column ∈ testedColumn, valueSignalDecides py column policy tags = false)
    (hrows : ∀ rows, raw = .arr rows → key = indexListKey ∨ key = partialListKey →
      ∀ name ∈ rows.flatMap rowKeys, valueSignalDecides py name policy tags = false)
    (summaries summaries' : Option Json) :
    redactEntry py testedColumn policy tags summaries key raw =
      redactEntry py testedColumn policy tags summaries' key raw := by
  cases raw with
  | arr rows =>
    simp only [redactEntry]
    by_cases hindex : key = indexListKey
    · rw [redactRows_fixed (hrows rows rfl (.inl hindex)) summaries summaries']
      simp only [hindex, if_true]
    · by_cases hvalues : key = partialListKey
      · simp only [redactPartialList,
          redactRows_fixed (hrows rows rfl (.inr hvalues)) summaries summaries',
          redactPlainList_fixed htested summaries summaries']
      · simp only [hindex, hvalues, if_false]
  | _ => rfl

theorem filterMap_setField {f : Text × Json → Option (Text × Json)} {key : Text}
    (h : ∀ value, f (key, value) = none) (value : Json) (fields : Fields) :
    (setField key value fields).filterMap f = fields.filterMap f := by
  induction fields with
  | nil => simp [setField, h]
  | cons field fields ih =>
    obtain ⟨k, v⟩ := field
    unfold setField
    split
    · next heq =>
      obtain rfl := eq_of_beq heq
      simp [h]
    · rw [List.filterMap_cons, List.filterMap_cons, ih]

theorem redactSampleFailures_fixed {sample : Fields} {testedColumn : Option Text}
    (hsample : sample ≠ [])
    (htested : ∀ column ∈ testedColumn, valueSignalDecides py column policy tags = false)
    (hcolumns : ∀ name ∈ sampleColumns sample, valueSignalDecides py name policy tags = false)
    (summary : Json) :
    redactSampleFailures py (some (setField valueSignalSummaryKey summary sample)) testedColumn
        policy tags =
      redactSampleFailures py (some sample) testedColumn policy tags := by
  have hset : setField valueSignalSummaryKey summary sample ≠ [] := by
    intro hempty
    have hlookup := lookup_setField_self valueSignalSummaryKey summary sample
    rw [hempty] at hlookup
    cases hlookup
  have hnonempty : ∀ fields : Fields, fields ≠ [] →
      redactSampleFailures py (some fields) testedColumn policy tags =
        some (fields.filterMap fun entry =>
          (redactEntry py testedColumn policy tags (fields.lookup valueSignalSummaryKey) entry.1
            entry.2).map (entry.1, ·)) := by
    intro fields hne
    cases fields with
    | nil => exact absurd rfl hne
    | cons entry fields => rfl
  rw [hnonempty _ hset, hnonempty _ hsample, filterMap_setField (fun value => rfl)]
  congr 1
  apply List.filterMap_congr
  intro entry hentry
  rw [redactEntry_fixed htested ?_ _ (sample.lookup valueSignalSummaryKey)]
  intro rows hrows hkey name hname
  refine hcolumns name (List.mem_flatMap.mpr ⟨entry, hentry, ?_⟩)
  rw [if_pos hkey, hrows]
  exact hname

/-- A column whose values the gate rules out has one verdict, tested or not, and a check whose
columns are all ruled out has its sample emitted alike with the population's summary. -/
theorem skipped_signal_masks_alike (py : Python) (policy : Policy) (tags : Tags) :
    (∀ column, valueSignalDecides py column policy tags = false →
      ∀ values values' summary summary',
        knownSensitiveReason py column values policy tags summary =
            knownSensitiveReason py column values' policy tags summary' ∧
          incidentalMaskReason py column values policy tags summary =
            incidentalMaskReason py column values' policy tags summary') ∧
    ∀ column indexColumns, anyDecides py column indexColumns policy tags = false →
      ∀ sample, sample ≠ [] → sampleColumns sample ⊆ column :: indexColumns → ∀ summary,
        redactSampleFailures py (some (setField valueSignalSummaryKey summary sample)) (some column)
            policy tags =
          redactSampleFailures py (some sample) (some column) policy tags := by
  refine ⟨?_, ?_⟩
  · intro column h values values' summary summary'
    exact ⟨knownSensitiveReason_fixed h values values' summary summary',
      incidentalMaskReason_fixed h values values' summary summary'⟩
  · intro column indexColumns hgate sample hsample hcolumns summary
    rw [anyDecides, List.any_eq_false] at hgate
    have hruled : ∀ name ∈ column :: indexColumns,
        valueSignalDecides py name policy tags = false := fun name hname => by
      simpa using hgate name hname
    refine redactSampleFailures_fixed hsample ?_ (fun name hname => hruled name (hcolumns hname))
      summary
    rintro name ⟨⟩
    exact hruled column List.mem_cons_self

def emailSample : Fields :=
  [(indexListKey, .arr [.obj [("ID".toList, .str "7".toList), ("EMAIL".toList, .str "x".toList)]])]

def identifierPii : Policy := { piiColumns := ["id".toList] }

theorem skipped_signal_masks_emails_alike :
    let out := fun sample =>
      redactSampleFailures asciiPython (some sample) (some "EMAIL".toList) identifierPii {}
    out (setField valueSignalSummaryKey (.obj []) emailSample) = out emailSample :=
  (skipped_signal_masks_alike asciiPython identifierPii {}).2 "EMAIL".toList ["ID".toList]
    (by decide) emailSample (by decide) (by decide) (.obj [])

end DataQ.Redaction
