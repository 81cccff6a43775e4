import DataQ.Foundations.Renderings
import DataQ.Redaction.Samples

/-! # Two lists of the same failing rows

The row locators and the list of values show or mask the tested column's cells by verdicts of their
own. They agree exactly when all these verdicts are the same. -/

namespace DataQ.Redaction
open DataQ.Renderings
set_option autoImplicit false

variable (py : Python)

/-! ## The tested column's cells -/

/-- The fields of a row that hold the tested column. -/
def testedOf (testedColumn : Option Text) : Json → Fields
  | .obj fields => fields.filter (isTested py testedColumn ·.1)
  | _ => []

def testedFields (testedColumn : Option Text) (rows : List Json) : Fields :=
  rows.flatMap (testedOf py testedColumn)

def testedCells (testedColumn : Option Text) (rows : List Json) : List Json :=
  (testedFields py testedColumn rows).map Prod.snd

/-- A list's tested cells as they were recorded, each beside what is emitted for it. -/
def rowPairs (testedColumn : Option Text) (rows shown : List Json) : List (Json × Json) :=
  (testedCells py testedColumn (rows.take sampleRowCap)).zip (testedCells py testedColumn shown)

def listOf : Option Json → List Json
  | some (.arr items) => items
  | _ => []

/-- The list that an entry of a dict holds. -/
def listAt (fields : Option Fields) (key : Text) : List Json := listOf (fields.bind (·.lookup key))

def locatorPairs (testedColumn : Option Text) (sample out : Option Fields) : List (Json × Json) :=
  rowPairs py testedColumn (listAt sample indexListKey) (listAt out indexListKey)

def partialPairs (testedColumn : Option Text) (sample out : Option Fields) : List (Json × Json) :=
  let values := listAt sample partialListKey
  let shown := listAt out partialListKey
  if holdsRows values then rowPairs py testedColumn values shown
  else (values.take sampleRowCap).zip shown

/-! ## The verdicts -/

/-- Some rung masks a column without its values, or the summary or the values do. -/
def masksTested (policy : Policy) (tags : Tags) (summaries : Option Json) (name : Text)
    (values : List Json) : Bool :=
  !valueSignalDecides py name policy tags ||
    valueSignal py values (summaryOf summaries name) = some .pii

/-- The tested cells of a list of rows, with the verdict on each. -/
def rowReadings (testedColumn : Option Text) (policy : Policy) (tags : Tags)
    (summaries : Option Json) (rows : List Json) : List (Json × Bool) :=
  (testedFields py testedColumn (rows.take sampleRowCap)).map fun field =>
    (field.2, masksTested py policy tags summaries field.1 (columnValues rows field.1))

/-- The values of a plain list, with the one verdict on them. -/
def plainReadings (testedColumn : Option Text) (policy : Policy) (tags : Tags)
    (summaries : Option Json) (values : List Json) : List (Json × Bool) :=
  (values.take sampleRowCap).map fun value =>
    (value, testedColumn.all (masksTested py policy tags summaries · values))

def locatorReadings (testedColumn : Option Text) (policy : Policy) (tags : Tags)
    (sample : Fields) : List (Json × Bool) :=
  rowReadings py testedColumn policy tags (sample.lookup valueSignalSummaryKey)
    (listAt (some sample) indexListKey)

def partialReadings (testedColumn : Option Text) (policy : Policy) (tags : Tags)
    (sample : Fields) : List (Json × Bool) :=
  let summaries := sample.lookup valueSignalSummaryKey
  let values := listAt (some sample) partialListKey
  if holdsRows values then rowReadings py testedColumn policy tags summaries values
  else plainReadings py testedColumn policy tags summaries values

theorem masksTested_eq (policy : Policy) (tags : Tags) (summaries : Option Json) (name : Text)
    (values : List Json) :
    masksTested py policy tags summaries name values =
      knownSensitive py name values policy tags (summaryOf summaries name) :=
  (knownSensitive_eq py name values policy tags (summaryOf summaries name)).symm

/-! ## Rows -/

theorem valuesOr_eq {rows : List Json} {fields : Fields} {field : Text × Json}
    (hrow : Json.obj fields ∈ rows) (hfield : field ∈ fields) :
    valuesOr rows field.1 field.2 = columnValues rows field.1 := by
  have hmem : field.2 ∈ columnValues rows field.1 := by
    refine List.mem_flatMap.mpr ⟨_, hrow, List.mem_map.mpr ⟨field, ?_, rfl⟩⟩
    exact List.mem_filter.mpr ⟨hfield, by simp⟩
  rw [valuesOr, if_neg (List.ne_nil_of_mem hmem)]

/-- What a row list emits for one tested field. -/
def emitField (policy : Policy) (tags : Tags) (summaries : Option Json) (rows : List Json)
    (field : Text × Json) : Text × Json :=
  (field.1,
    if masksTested py policy tags summaries field.1 (columnValues rows field.1) then
      redactSampleValue field.2
    else field.2)

theorem testedOf_redactRow {testedColumn : Option Text} {policy : Policy} {tags : Tags}
    {rows : List Json} {summaries : Option Json} {row : Json} (hrow : row ∈ rows) :
    testedOf py testedColumn (redactRow py testedColumn policy tags rows summaries row) =
      (testedOf py testedColumn row).map (emitField py policy tags summaries rows) := by
  cases row with
  | obj fields =>
    simp only [redactRow, testedOf, List.filter_map]
    refine List.map_congr_left fun field hfield => ?_
    obtain ⟨hmem, htested⟩ := List.mem_filter.mp hfield
    have htested : isTested py testedColumn field.1 = true := htested
    rw [cellReason, htested, if_pos rfl, valuesOr_eq hrow hmem, emitField, masksTested_eq]
    rfl
  | _ => rfl

theorem testedFields_redactRows (testedColumn : Option Text) (policy : Policy) (tags : Tags)
    (summaries : Option Json) (rows : List Json) :
    testedFields py testedColumn (redactRows py testedColumn policy tags summaries rows) =
      (testedFields py testedColumn (rows.take sampleRowCap)).map
        (emitField py policy tags summaries rows) := by
  rw [testedFields, redactRows, List.flatMap_map, testedFields, List.map_flatMap]
  refine List.flatMap_congr fun row hrow => ?_
  exact testedOf_redactRow py (List.mem_of_mem_take hrow)

theorem rowPairs_eq (testedColumn : Option Text) (policy : Policy) (tags : Tags)
    (summaries : Option Json) (rows : List Json) :
    rowPairs py testedColumn rows (redactRows py testedColumn policy tags summaries rows) =
      (rowReadings py testedColumn policy tags summaries rows).map (emitted redactSampleValue) := by
  rw [rowPairs, testedCells, testedCells, testedFields_redactRows, List.map_map, List.zip_map',
    rowReadings, List.map_map]
  rfl

theorem plainPairs_eq (testedColumn : Option Text) (policy : Policy) (tags : Tags)
    (summaries : Option Json) (values : List Json) :
    (values.take sampleRowCap).zip
        (redactPlainList py testedColumn policy tags summaries values) =
      (plainReadings py testedColumn policy tags summaries values).map
        (emitted redactSampleValue) := by
  have hzip : ∀ (items : List Json) (verdict : Bool),
      items.zip (if verdict then redactItems items else items) =
        items.map fun item => emitted redactSampleValue (item, verdict) := by
    intro items verdict
    have hself : ∀ f : Json → Json, items.zip (items.map f) = items.map fun item => (item, f item) := by
      intro f
      have hmap := List.zip_map' (f := id) (g := f) (l := items)
      rwa [List.map_id] at hmap
    cases verdict with
    | true =>
      rw [if_pos rfl, redactItems_eq_map, hself]
      rfl
    | false =>
      have hplain := hself id
      rw [List.map_id] at hplain
      exact hplain
  have hlist : redactPlainList py testedColumn policy tags summaries values =
      if testedColumn.all (masksTested py policy tags summaries · values) then
        redactItems (values.take sampleRowCap)
      else values.take sampleRowCap := by
    cases testedColumn with
    | none => rfl
    | some column =>
      simp only [redactPlainList, Option.all_some, masksTested_eq, knownSensitive]
  rw [hlist, hzip, plainReadings, List.map_map]
  rfl

/-! ## The whole sample -/

theorem redactEntry_isSome (testedColumn : Option Text) (policy : Policy) (tags : Tags)
    (summaries : Option Json) {key : Text} (hkey : key ≠ valueSignalSummaryKey)
    (hstatus : key ≠ valueSignalStatusKey) (raw : Json) :
    (redactEntry py testedColumn policy tags summaries key raw).isSome = true := by
  unfold redactEntry
  rw [if_neg (by simp [hkey, hstatus])]
  split
  · rfl
  · split
    · split
      · rfl
      · split
        · rfl
        · split <;> rfl
    · rfl

theorem lookup_redacted (testedColumn : Option Text) (policy : Policy) (tags : Tags)
    (summaries : Option Json) {key : Text} (hkey : key ≠ valueSignalSummaryKey)
    (hstatus : key ≠ valueSignalStatusKey) (sample : Fields) :
    (sample.filterMap fun entry =>
        (redactEntry py testedColumn policy tags summaries entry.1 entry.2).map
          (entry.1, ·)).lookup key =
      (sample.lookup key).bind (redactEntry py testedColumn policy tags summaries key) := by
  induction sample with
  | nil => rfl
  | cons entry sample ih =>
    obtain ⟨name, raw⟩ := entry
    cases hname : key == name with
    | true =>
      obtain rfl := eq_of_beq hname
      obtain ⟨value, hvalue⟩ := Option.isSome_iff_exists.mp
        (redactEntry_isSome py testedColumn policy tags summaries hkey hstatus raw)
      simp [hvalue]
    | false =>
      cases hentry : redactEntry py testedColumn policy tags summaries name raw with
      | none => simp [List.lookup_cons, hname, hentry, ih]
      | some value => simp [List.lookup_cons, hname, hentry, ih]

theorem redactEntry_ne_arr {testedColumn : Option Text} {policy : Policy} {tags : Tags}
    {summaries : Option Json} {key : Text} {raw : Json} (hraw : ∀ items, raw ≠ .arr items)
    (items : List Json) :
    redactEntry py testedColumn policy tags summaries key raw ≠ some (.arr items) := by
  have hmasked : ∀ items, redactSampleValue raw ≠ .arr items := by
    cases raw with
    | arr items => exact absurd rfl (hraw items)
    | _ => simp [redactSampleValue, redacted]
  have hentry : redactEntry py testedColumn policy tags summaries key raw =
      if key = valueSignalSummaryKey || key = valueSignalStatusKey then none
      else if isSafeSummary key raw then some raw else some (redactSampleValue raw) := by
    cases raw with
    | arr items => exact absurd rfl (hraw items)
    | _ => rfl
  rw [hentry]
  split_ifs
  · simp
  · exact fun heq => hraw items (Option.some.inj heq)
  · exact fun heq => hmasked items (Option.some.inj heq)

theorem listOf_eq_nil {value : Option Json} (h : ∀ items, value ≠ some (.arr items)) :
    listOf value = [] := by
  unfold listOf
  split
  · next items => exact absurd rfl (h items)
  · rfl

/-- A list entry of the redacted sample, by what the loop makes of a list under that key. -/
theorem listAt_redacted {testedColumn : Option Text} {policy : Policy} {tags : Tags} {key : Text}
    {sample : Fields} (redact : List Json → List Json) (hkey : key ≠ valueSignalSummaryKey)
    (hstatus : key ≠ valueSignalStatusKey) (hnil : redact [] = [])
    (hlist : ∀ values, redactEntry py testedColumn policy tags
      (sample.lookup valueSignalSummaryKey) key (.arr values) = some (.arr (redact values))) :
    listAt (redactSampleFailures py (some sample) testedColumn policy tags) key =
      redact (listAt (some sample) key) := by
  cases sample with
  | nil => exact hnil.symm
  | cons entry sample =>
    have hlookup := lookup_redacted py testedColumn policy tags
      ((entry :: sample).lookup valueSignalSummaryKey) hkey hstatus (entry :: sample)
    unfold listAt redactSampleFailures
    simp only [Option.bind_some, hlookup]
    cases hraw : (entry :: sample).lookup key with
    | none => exact hnil.symm
    | some raw =>
      rw [Option.bind_some]
      by_cases harr : ∃ items, raw = .arr items
      · obtain ⟨items, rfl⟩ := harr
        rw [hlist]
        rfl
      · have hne : ∀ items, raw ≠ .arr items := fun items heq => harr ⟨items, heq⟩
        rw [listOf_eq_nil (redactEntry_ne_arr py hne),
          listOf_eq_nil fun items heq => hne items (Option.some.inj heq), hnil]

theorem locatorPairs_eq (testedColumn : Option Text) (policy : Policy) (tags : Tags)
    (sample : Fields) :
    locatorPairs py testedColumn (some sample)
        (redactSampleFailures py (some sample) testedColumn policy tags) =
      (locatorReadings py testedColumn policy tags sample).map (emitted redactSampleValue) := by
  rw [locatorPairs, listAt_redacted py (redactRows py testedColumn policy tags
    (sample.lookup valueSignalSummaryKey)) (by decide) (by decide) rfl fun values => rfl]
  exact rowPairs_eq py testedColumn policy tags _ _

theorem partialPairs_eq (testedColumn : Option Text) (policy : Policy) (tags : Tags)
    (sample : Fields) :
    partialPairs py testedColumn (some sample)
        (redactSampleFailures py (some sample) testedColumn policy tags) =
      (partialReadings py testedColumn policy tags sample).map (emitted redactSampleValue) := by
  have hnil : redactPartialList py testedColumn policy tags (sample.lookup valueSignalSummaryKey)
      [] = [] := by
    cases testedColumn with
    | none => rfl
    | some column => simp [redactPartialList, redactPlainList, holdsRows, redactItems]
  rw [partialPairs, listAt_redacted py (redactPartialList py testedColumn policy tags
    (sample.lookup valueSignalSummaryKey)) (by decide) (by decide) hnil fun values => rfl]
  simp only [redactPartialList, partialReadings]
  split
  · exact rowPairs_eq py testedColumn policy tags _ _
  · exact plainPairs_eq py testedColumn policy tags _ _

/-- The two renderings of a failing sample agree on the tested column exactly when every verdict on
it is the same, whichever spelling and evidence it was reached on. -/
theorem sample_renderings_agree_iff (testedColumn : Option Text) (policy : Policy) (tags : Tags)
    (sample : Fields) :
    let out := redactSampleFailures py (some sample) testedColumn policy tags
    Agree redactSampleValue (locatorPairs py testedColumn (some sample) out)
        (partialPairs py testedColumn (some sample) out) ↔
      ∀ a ∈ locatorReadings py testedColumn policy tags sample, redactSampleValue a.1 ≠ a.1 →
        ∀ b ∈ partialReadings py testedColumn policy tags sample, redactSampleValue b.1 ≠ b.1 →
          a.2 = b.2 := by
  intro out
  rw [locatorPairs_eq, partialPairs_eq]
  exact agree_iff redactSampleValue

/-! ## Where the evidence is shared, and where it is not -/

theorem masksTested_of_summary {summaries : Option Json} {name : Text} {counts : Counts}
    (h : validSummary py (summaryOf summaries name) = some counts) (policy : Policy) (tags : Tags)
    (values values' : List Json) :
    masksTested py policy tags summaries name values =
      masksTested py policy tags summaries name values' := by
  unfold masksTested valueSignal
  rw [h]

/-- One spelling and one well-formed summary: the two lists agree whatever they hold. -/
theorem sample_renderings_agree_of_summary {column : Text} {sample : Fields} {counts : Counts}
    (hindex : ∀ field ∈ testedFields py (some column) (listAt (some sample) indexListKey),
      field.1 = column)
    (hvalues : ∀ field ∈ testedFields py (some column) (listAt (some sample) partialListKey),
      field.1 = column)
    (hsummary : validSummary py (summaryOf (sample.lookup valueSignalSummaryKey) column) =
      some counts)
    (policy : Policy) (tags : Tags) :
    let out := redactSampleFailures py (some sample) (some column) policy tags
    Agree redactSampleValue (locatorPairs py (some column) (some sample) out)
      (partialPairs py (some column) (some sample) out) := by
  intro out
  let verdict := masksTested py policy tags (sample.lookup valueSignalSummaryKey) column []
  have hrows : ∀ rows, (∀ field ∈ testedFields py (some column) rows, field.1 = column) →
      ∀ a ∈ rowReadings py (some column) policy tags (sample.lookup valueSignalSummaryKey) rows,
        a.2 = verdict := by
    intro rows hspelling a ha
    obtain ⟨field, hfield, rfl⟩ := List.mem_map.mp ha
    have hmem : field ∈ testedFields py (some column) rows := by
      obtain ⟨row, hrow, hfield⟩ := List.mem_flatMap.mp hfield
      exact List.mem_flatMap.mpr ⟨row, List.mem_of_mem_take hrow, hfield⟩
    simp only [hspelling field hmem]
    exact masksTested_of_summary py hsummary policy tags _ _
  refine (sample_renderings_agree_iff py (some column) policy tags sample).mpr ?_
  intro a ha _ b hb _
  have hleft : a.2 = verdict := hrows _ hindex a ha
  have hright : b.2 = verdict := by
    simp only [partialReadings] at hb
    split at hb
    · exact hrows _ hvalues b hb
    · obtain ⟨value, _, rfl⟩ := List.mem_map.mp hb
      exact masksTested_of_summary py hsummary policy tags _ _
  rw [hleft, hright]

/-- The summary is written under the rows' own spellings only. -/
theorem summaryOf_other_spelling {rows : List Json} {name : Text}
    (h : ∀ row ∈ rows, name ∉ rowKeys row) :
    summaryOf (some (valueSignalSummaryByColumn py rows)) name = none := by
  have hkeys : name ∉ ((rows.take valueSignalSummaryRowCap).flatMap rowKeys).eraseDups := by
    rw [List.mem_eraseDups, List.mem_flatMap]
    rintro ⟨row, hrow, hname⟩
    exact h row (List.mem_of_mem_take hrow) hname
  have hdict : (valueSignalSummaryByColumn py rows).isDict = true := rfl
  rw [summaryOf, Option.filter_some, if_pos hdict, Option.bind_some, valueSignalSummaryByColumn,
    Json.get?, List.lookup_eq_none_iff]
  intro entry hentry
  obtain ⟨key, hkey, hmap⟩ := List.mem_filterMap.mp hentry
  obtain ⟨counts, _, rfl⟩ := Option.map_eq_some_iff.mp hmap
  refine bne_iff_ne.mpr fun heq => ?_
  rw [heq] at hkeys
  exact hkeys hkey

/-- Twenty rows without a personal value, and twenty more with one, which no list of the sample
holds. -/
def failingRows : List Json :=
  (List.range 40).map fun i =>
    .obj [("NOTE".toList, .str (if i < 20 then "call me".toList else "a@b.co".toList))]

def noteSample : Fields :=
  [(indexListKey, .arr (failingRows.take sampleRowCap)),
    (partialListKey, .arr (columnValues (failingRows.take sampleRowCap) "NOTE".toList)),
    (valueSignalSummaryKey, valueSignalSummaryByColumn asciiPython failingRows)]

/-- The check spells the column in lower case: the locators mask what the value list shows. -/
theorem other_spelling_shows_masked :
    let out := redactSampleFailures asciiPython (some noteSample) (some "note".toList) {} {}
    ¬ Agree redactSampleValue (locatorPairs asciiPython (some "note".toList) (some noteSample) out)
        (partialPairs asciiPython (some "note".toList) (some noteSample) out) := by
  decide

end DataQ.Redaction
