import DataQ.Subjects.Requests

/-! # What an erasure leaves

An erasure drops every row that names the subject and every value of it in what was observed, and
nothing else. It does not look into a list of plain values, and a cell that it cleared reads
`None`. -/

namespace DataQ.Subjects
open DataQ.Attribution
set_option autoImplicit false

variable (py : Python) (column value : Text)

/-! ## The purpose -/

/-- A row of the sample names the subject. -/
def RowHolds (sample : Fields) : Prop :=
  ∃ key ∈ rowListKeys, ∃ rows, sample.lookup key = some (.arr rows) ∧
    ∃ fields, .obj fields ∈ rows ∧ ∃ cell, fields.lookup column = some cell ∧ py.str cell = value

/-- The list of the tested column's plain values holds the value. -/
def PlainHolds (testedColumn : Option Json) (sample : Fields) : Prop :=
  testedColumn = some (.str column) ∧ ∃ items, sample.lookup partialListKey = some (.arr items) ∧
    ∃ v ∈ items, v.isDict = false ∧ py.str v = value

/-- The cell that could not be parsed is the subject's. -/
def UnparsedHolds (observed : Fields) : Prop :=
  ∃ cell, observed.lookup unparsedKey = some cell ∧
    observed.lookup columnKey = some (.str column) ∧ py.str cell = value

/-- What was observed is a list of the tested column's values, with the subject's. -/
def ListHolds (testedColumn : Option Json) (observed : Fields) : Prop :=
  observed.lookup unparsedKey = none ∧ testedColumn = some (.str column) ∧
    ∃ items, observed.lookup observedKey = some (.arr items) ∧ ∃ v ∈ items, py.str v = value

/-- Nothing that is stored holds the value under the column, and nothing is found. -/
structure Complete (store : Store) : Prop where
  samples : ∀ r ∈ store.results, ∀ sample ∈ r.sampleFailures, ¬RowHolds py column value sample ∧
    ¬PlainHolds py column value (store.testedColumn r.checkId r.createdAt) sample
  observed : ∀ r ∈ store.results, ∀ observed ∈ r.observedValue,
    ¬UnparsedHolds py column value observed ∧
      ¬ListHolds py column value (store.testedColumn r.checkId r.createdAt) observed
  evidence : ∀ i ∈ store.incidents, ∀ evidence failing observed,
    incidentObserved i = some (evidence, failing, observed) →
      ¬UnparsedHolds py column value observed ∧
        ¬ListHolds py column value (store.testedColumn i.checkId i.lastSeenAt) observed
  noResult : findMatchingResults py column value store = []
  noIncident : findMatchingIncidents py column value store = []

/-- A list of the sample without the rows that name the subject. -/
def withoutRows : Json → Json
  | .arr rows => .arr (rows.filter fun row => !rowMatches py column value row)
  | v => v

/-- The dict is as it was, but for the rows that name the subject. -/
def SampleKept (before after : Fields) : Prop := ∀ key,
  after.lookup key = (before.lookup key).map fun v =>
    if key ∈ rowListKeys then withoutRows py column value v else v

/-- The dict is as it was, but for the subject's cell or its values in the list. -/
def ObservedKept (testedColumn : Option Json) (before after : Fields) : Prop := ∀ key,
  after.lookup key = (before.lookup key).map fun v =>
    if key = unparsedKey ∧ before.lookup columnKey = some (.str column) ∧ py.str v = value then
      .null
    else
      match v with
      | .arr items =>
        if key = observedKey ∧ before.lookup unparsedKey = none ∧
            testedColumn = some (.str column) then
          .arr (items.filter fun v => py.str v ≠ value)
        else .arr items
      | v => v

structure ResultKept (store : Store) (before after : Result) : Prop where
  id : after.id = before.id
  checkId : after.checkId = before.checkId
  createdAt : after.createdAt = before.createdAt
  sample : Option.Rel (SampleKept py column value) before.sampleFailures after.sampleFailures
  observed : Option.Rel
    (ObservedKept py column value (store.testedColumn before.checkId before.createdAt))
    before.observedValue after.observedValue

/-- The evidence is as it was, but for what was observed of the failing result. -/
structure IncidentKept (store : Store) (before after : Incident) : Prop where
  id : after.id = before.id
  checkId : after.checkId = before.checkId
  lastSeenAt : after.lastSeenAt = before.lastSeenAt
  other : incidentObserved before = none → after.evidence = before.evidence
  evidence : ∀ evidence failing observed,
    incidentObserved before = some (evidence, failing, observed) →
      ∃ evidence' failing' observed', after.evidence = some (.obj evidence') ∧
        incidentObserved after = some (evidence', failing', observed') ∧
        (∀ key, key ≠ failingKey → evidence'.lookup key = evidence.lookup key) ∧
        (∀ key, key ≠ observedKey → failing'.lookup key = failing.lookup key) ∧
        ObservedKept py column value (store.testedColumn before.checkId before.lastSeenAt)
          observed observed'

/-- Checks and versions stay, and every result and incident in its place. -/
structure Surgical (before after : Store) : Prop where
  check : after.check = before.check
  versions : after.versions = before.versions
  results : List.Forall₂ (ResultKept py column value before) before.results after.results
  incidents : List.Forall₂ (IncidentKept py column value before) before.incidents after.incidents

variable {py column value}

/-! ## Samples -/

theorem withoutRows_withoutRows (v : Json) :
    withoutRows py column value (withoutRows py column value v) =
      withoutRows py column value v := by
  cases v <;> simp [withoutRows]

theorem filter_eq_of_length {α : Type} {p : α → Bool} {l : List α}
    (h : (l.filter p).length = l.length) : l.filter p = l :=
  List.filter_sublist.eq_of_length h

variable (py column value) in
/-- Rows are dropped under the key, and the flag says whether there were any. -/
theorem scrubList_spec (found : Fields × Bool) (key : Text) :
    (∀ other, (scrubList py column value found key).1.lookup other =
      (found.1.lookup other).map fun v =>
        if other = key then withoutRows py column value v else v) ∧
    ((scrubList py column value found key).2 = false →
      scrubList py column value found key = found) := by
  have hsame : (∀ v, found.1.lookup key = some v → withoutRows py column value v = v) →
      ∀ other, found.1.lookup other = (found.1.lookup other).map fun v =>
        if other = key then withoutRows py column value v else v := by
    intro hkey other
    by_cases hother : other = key
    · subst hother
      cases hlookup : found.1.lookup other with
      | none => rfl
      | some v => simp [hkey v hlookup]
    · simp [hother]
  unfold scrubList
  split
  · next rows hrows =>
    simp only
    split
    · refine ⟨fun other => ?_, fun h => by cases h⟩
      by_cases hother : other = key
      · subst hother
        simp [lookup_setField_self, hrows, withoutRows]
      · rw [lookup_setField_ne hother]
        simp [hother]
    · next hlength =>
      refine ⟨hsame ?_, fun _ => rfl⟩
      intro v hv
      obtain rfl := Option.some.inj (hrows.symm.trans hv)
      rw [withoutRows, filter_eq_of_length (not_not.mp hlength)]
  · next hrows =>
    refine ⟨hsame ?_, fun _ => rfl⟩
    intro v hv
    cases v with
    | arr rows => exact absurd hv (hrows rows)
    | _ => rfl

theorem foldl_scrubList_spec (keys : List Text) (found : Fields × Bool) :
    (∀ other, (keys.foldl (scrubList py column value) found).1.lookup other =
      (found.1.lookup other).map fun v =>
        if other ∈ keys then withoutRows py column value v else v) ∧
    ((keys.foldl (scrubList py column value) found).2 = false →
      keys.foldl (scrubList py column value) found = found) := by
  induction keys generalizing found with
  | nil => simp
  | cons key keys ih =>
    obtain ⟨hlookup, hunchanged⟩ := scrubList_spec py column value found key
    obtain ⟨hrest, hsame⟩ := ih (scrubList py column value found key)
    rw [List.foldl_cons]
    refine ⟨fun other => ?_, fun h => ?_⟩
    · rw [hrest, hlookup, Option.map_map]
      congr 1
      funext v
      by_cases hother : other = key <;> by_cases hmem : other ∈ keys <;>
        simp [hother, hmem, withoutRows_withoutRows]
    · have heq := hsame h
      rw [heq] at h ⊢
      exact hunchanged h

theorem scrubSample_kept (sample : Fields) :
    SampleKept py column value sample (scrubSample py column value sample).1 :=
  (foldl_scrubList_spec rowListKeys (sample, false)).1

theorem scrubSample_unchanged {sample : Fields}
    (h : (scrubSample py column value sample).2 = false) :
    (scrubSample py column value sample).1 = sample :=
  congrArg Prod.fst ((foldl_scrubList_spec rowListKeys (sample, false)).2 h)

theorem rowMatches_iff {row : Json} : rowMatches py column value row = true ↔
    ∃ fields, row = .obj fields ∧ ∃ cell, fields.lookup column = some cell ∧
      py.str cell = value := by
  cases row with
  | obj fields =>
    simp only [rowMatches, Json.obj.injEq, exists_eq_left']
    cases fields.lookup column <;> simp
  | _ => simp [rowMatches]

theorem sampleMatches_iff {sample : Fields} :
    sampleMatches py column value sample = true ↔ RowHolds py column value sample := by
  simp only [sampleMatches, List.any_eq_true, RowHolds]
  refine exists_congr fun key => and_congr_right fun _ => ?_
  cases hrows : sample.lookup key with
  | none => simp
  | some v =>
    cases v with
    | arr rows =>
      simp only [Option.some.injEq, Json.arr.injEq, exists_eq_left', List.any_eq_true,
        rowMatches_iff]
      constructor
      · rintro ⟨_, hmem, fields, rfl, hcell⟩
        exact ⟨fields, hmem, hcell⟩
      · rintro ⟨fields, hmem, hcell⟩
        exact ⟨_, hmem, fields, rfl, hcell⟩
    | _ => simp

/-- Where no row names the subject, nothing is dropped. -/
theorem scrubSample_of_not_matches {sample : Fields}
    (h : sampleMatches py column value sample = false) :
    scrubSample py column value sample = (sample, false) := by
  have hlists : ∀ key ∈ rowListKeys,
      scrubList py column value (sample, false) key = (sample, false) := by
    intro key hkey
    unfold scrubList
    split
    · next rows hrows =>
      have hnone : rows.any (rowMatches py column value) = false := by
        have hkeys := List.any_eq_false.mp h key hkey
        simpa [hrows] using hkeys
      have hall : (rows.filter fun row => !rowMatches py column value row) = rows := by
        rw [List.filter_eq_self]
        intro row hrow
        simpa using List.any_eq_false.mp hnone row hrow
      simp [hall]
    · rfl
  have hfold : ∀ keys : List Text, (∀ key ∈ keys, key ∈ rowListKeys) →
      keys.foldl (scrubList py column value) (sample, false) = (sample, false) := by
    intro keys hkeys
    induction keys with
    | nil => rfl
    | cons key keys ih =>
      rw [List.foldl_cons, hlists key (hkeys key List.mem_cons_self)]
      exact ih fun other hother => hkeys other (List.mem_cons_of_mem _ hother)
  exact hfold rowListKeys fun _ hkey => hkey

theorem not_rowHolds_scrubSample (sample : Fields) :
    ¬RowHolds py column value (scrubSample py column value sample).1 := by
  rintro ⟨key, hkey, rows, hrows, fields, hmem, hcell⟩
  rw [scrubSample_kept sample key, Option.map_eq_some_iff] at hrows
  obtain ⟨v, _, hv⟩ := hrows
  rw [if_pos hkey] at hv
  cases v with
  | arr before =>
    obtain rfl := Json.arr.inj hv
    have hnot := (List.mem_filter.mp hmem).2
    rw [rowMatches_iff.mpr ⟨fields, rfl, hcell⟩] at hnot
    cases hnot
  | _ => cases hv

/-- A plain value is no row, so no list of them changes. -/
theorem plainHolds_scrubSample {testedColumn : Option Json} {sample : Fields} :
    PlainHolds py column value testedColumn (scrubSample py column value sample).1 ↔
      PlainHolds py column value testedColumn sample := by
  have hplain : ∀ v : Json, v.isDict = false → rowMatches py column value v = false := by
    intro v hv
    cases v with
    | obj fields => cases hv
    | _ => rfl
  have hmem : partialListKey ∈ rowListKeys := by decide
  refine and_congr_right fun _ => ?_
  rw [scrubSample_kept sample partialListKey]
  simp only [if_pos hmem]
  constructor
  · rintro ⟨items, hitems, v, hv, hdict, hvalue⟩
    obtain ⟨before, hbefore, heq⟩ := Option.map_eq_some_iff.mp hitems
    cases before with
    | arr rows =>
      obtain rfl := Json.arr.inj heq
      exact ⟨rows, hbefore, v, (List.mem_filter.mp hv).1, hdict, hvalue⟩
    | _ => cases heq
  · rintro ⟨items, hitems, v, hv, hdict, hvalue⟩
    refine ⟨_, by rw [hitems]; rfl, v, ?_, hdict, hvalue⟩
    exact List.mem_filter.mpr ⟨hv, by rw [hplain v hdict]; rfl⟩

/-! ## What was observed -/

theorem observedMatches_iff {testedColumn : Option Json} {observed : Fields} :
    observedMatches py column value testedColumn observed = true ↔
      UnparsedHolds py column value observed ∨
        ListHolds py column value testedColumn observed := by
  unfold observedMatches UnparsedHolds ListHolds
  cases hcell : observed.lookup unparsedKey with
  | some cell => simp
  | none =>
    cases hitems : observed.lookup observedKey with
    | none => simp
    | some v => cases v <;> simp

theorem scrubObserved_of_not_matches {testedColumn : Option Json} {observed : Fields}
    (h : observedMatches py column value testedColumn observed = false) :
    scrubObserved py column value testedColumn observed = (observed, false) := by
  unfold observedMatches at h
  unfold scrubObserved
  cases hcell : observed.lookup unparsedKey with
  | some cell =>
    rw [hcell] at h
    have hnot : ¬(observed.lookup columnKey = some (.str column) ∧ py.str cell = value) := by
      simpa using h
    simp only [if_neg hnot]
  | none =>
    rw [hcell] at h
    cases hitems : observed.lookup observedKey with
    | none => rfl
    | some v =>
      cases v with
      | arr items =>
        rw [hitems] at h
        simp only
        split
        · next htested =>
          have hnone : ∀ v ∈ items, ¬py.str v = value := by simpa [htested] using h
          simpa using hnone
        · rfl
      | _ => rfl

variable (py column value) in
/-- What the scrub finds, and what it leaves. -/
theorem scrubObserved_cases (testedColumn : Option Json) (observed : Fields) :
    (UnparsedHolds py column value observed ∧ scrubObserved py column value testedColumn observed =
      (setField unparsedKey .null observed, true)) ∨
    (ListHolds py column value testedColumn observed ∧
      ∃ items, observed.lookup observedKey = some (.arr items) ∧
        scrubObserved py column value testedColumn observed =
          (setField observedKey (.arr (items.filter fun v => py.str v ≠ value)) observed, true)) ∨
    (observedMatches py column value testedColumn observed = false ∧
      scrubObserved py column value testedColumn observed = (observed, false)) := by
  by_cases hmatch : observedMatches py column value testedColumn observed = true
  · obtain hcell | hlist := observedMatches_iff.mp hmatch
    · refine .inl ⟨hcell, ?_⟩
      obtain ⟨cell, hlookup, hcolumn⟩ := hcell
      simp only [scrubObserved, hlookup, if_pos hcolumn]
    · refine .inr (.inl ⟨hlist, ?_⟩)
      obtain ⟨hnone, htested, items, hitems, v, hv, hvalue⟩ := hlist
      refine ⟨items, hitems, ?_⟩
      have hlength : (items.filter fun v => py.str v ≠ value).length ≠ items.length := by
        intro hlength
        have hall := List.filter_eq_self.mp (filter_eq_of_length hlength) v hv
        simp [hvalue] at hall
      simp only [scrubObserved, hnone, hitems, if_pos htested, if_pos hlength]
  · have hmatch : observedMatches py column value testedColumn observed = false := by
      simpa using hmatch
    exact .inr (.inr ⟨hmatch, scrubObserved_of_not_matches hmatch⟩)

theorem scrubObserved_unchanged {testedColumn : Option Json} {observed : Fields}
    (h : (scrubObserved py column value testedColumn observed).2 = false) :
    (scrubObserved py column value testedColumn observed).1 = observed := by
  obtain ⟨_, heq⟩ | ⟨_, items, _, heq⟩ | ⟨_, heq⟩ :=
    scrubObserved_cases py column value testedColumn observed
  · rw [heq] at h
    cases h
  · rw [heq] at h
    cases h
  · rw [heq]

theorem observedKey_ne : observedKey ≠ unparsedKey := by decide

theorem columnKey_ne : columnKey ≠ unparsedKey ∧ columnKey ≠ observedKey := by decide

theorem scrubObserved_kept (testedColumn : Option Json) (observed : Fields) :
    ObservedKept py column value testedColumn observed
      (scrubObserved py column value testedColumn observed).1 := by
  intro key
  obtain ⟨⟨cell, hcell, hcolumn, hvalue⟩, heq⟩ | ⟨hlist, items, hitems, heq⟩ | ⟨hnot, heq⟩ :=
    scrubObserved_cases py column value testedColumn observed
  · rw [heq]
    by_cases hkey : key = unparsedKey
    · rw [hkey, lookup_setField_self, hcell, Option.map_some]
      rw [if_pos ⟨rfl, hcolumn, hvalue⟩]
    · rw [lookup_setField_ne hkey]
      cases hlookup : observed.lookup key with
      | none => rfl
      | some v => cases v <;> simp [hkey, hcell]
  · obtain ⟨hnone, htested, _⟩ := hlist
    rw [heq]
    by_cases hkey : key = observedKey
    · rw [hkey, lookup_setField_self, hitems]
      simp [observedKey_ne, hnone, htested]
    · rw [lookup_setField_ne hkey]
      cases hlookup : observed.lookup key with
      | none => rfl
      | some v =>
        have hother : key ≠ unparsedKey := by
          rintro rfl
          rw [hnone] at hlookup
          cases hlookup
        cases v <;> simp [hkey, hother]
  · have hholds := observedMatches_iff.not.mp (Bool.not_eq_true _ ▸ hnot)
    obtain ⟨hcell, hlist⟩ := not_or.mp hholds
    rw [heq]
    cases hlookup : observed.lookup key with
    | none => rfl
    | some v =>
      rw [Option.map_some]
      congr 1
      split
      · next hkey =>
        obtain ⟨rfl, hcolumn, hvalue⟩ := hkey
        exact absurd ⟨v, hlookup, hcolumn, hvalue⟩ hcell
      · cases v with
        | arr items =>
          simp only
          split
          · next hkey =>
            obtain ⟨rfl, hnone, htested⟩ := hkey
            have hall : (items.filter fun v => py.str v ≠ value) = items := by
              rw [List.filter_eq_self]
              intro v hv
              simpa using fun hvalue => hlist ⟨hnone, htested, items, hlookup, v, hv, hvalue⟩
            rw [hall]
          · rfl
        | _ => rfl

theorem lookup_column_scrubObserved (testedColumn : Option Json) (observed : Fields) :
    (scrubObserved py column value testedColumn observed).1.lookup columnKey =
      observed.lookup columnKey := by
  obtain ⟨_, heq⟩ | ⟨_, items, _, heq⟩ | ⟨_, heq⟩ :=
    scrubObserved_cases py column value testedColumn observed
  · rw [heq, lookup_setField_ne columnKey_ne.1]
  · rw [heq, lookup_setField_ne columnKey_ne.2]
  · rw [heq]

/-- After the erasure a cell is still found where `None` is what is looked for. -/
theorem unparsedHolds_scrubObserved {testedColumn : Option Json} {observed : Fields} :
    UnparsedHolds py column value (scrubObserved py column value testedColumn observed).1 ↔
      UnparsedHolds py column value observed ∧ value = "None".toList := by
  rw [UnparsedHolds, lookup_column_scrubObserved]
  obtain ⟨hholds, heq⟩ | ⟨hlist, items, _, heq⟩ | ⟨hnot, heq⟩ :=
    scrubObserved_cases py column value testedColumn observed
  · obtain ⟨cell, hcell, hcolumn, hvalue⟩ := hholds
    rw [heq, lookup_setField_self]
    constructor
    · rintro ⟨_, hnull, _, hnone⟩
      obtain rfl := Option.some.inj hnull
      exact ⟨⟨cell, hcell, hcolumn, hvalue⟩, hnone.symm⟩
    · rintro ⟨_, rfl⟩
      exact ⟨.null, rfl, hcolumn, rfl⟩
  · rw [heq, lookup_setField_ne observedKey_ne.symm, hlist.1]
    constructor
    · rintro ⟨_, hcell, _⟩
      cases hcell
    · rintro ⟨⟨_, hcell, _⟩, _⟩
      rw [hlist.1] at hcell
      cases hcell
  · have hcell : ¬UnparsedHolds py column value observed := fun hholds => by
      rw [observedMatches_iff.mpr (.inl hholds)] at hnot
      cases hnot
    rw [heq]
    exact ⟨fun h => absurd h hcell, fun h => absurd h.1 hcell⟩

theorem not_listHolds_scrubObserved {testedColumn : Option Json} {observed : Fields} :
    ¬ListHolds py column value testedColumn
      (scrubObserved py column value testedColumn observed).1 := by
  obtain ⟨_, heq⟩ | ⟨_, items, _, heq⟩ | ⟨hnot, heq⟩ :=
    scrubObserved_cases py column value testedColumn observed
  · rw [heq]
    rintro ⟨hnone, _⟩
    rw [lookup_setField_self] at hnone
    cases hnone
  · rw [heq]
    rintro ⟨_, _, kept, hkept, v, hv, hvalue⟩
    rw [lookup_setField_self] at hkept
    obtain rfl := Json.arr.inj (Option.some.inj hkept)
    simp [hvalue] at hv
  · rw [heq]
    intro hholds
    rw [observedMatches_iff.mpr (.inr hholds)] at hnot
    cases hnot

/-- Erasing once more leaves the same. -/
theorem scrubObserved_scrubObserved (testedColumn : Option Json) (observed : Fields) :
    (scrubObserved py column value testedColumn
        (scrubObserved py column value testedColumn observed).1).1 =
      (scrubObserved py column value testedColumn observed).1 := by
  obtain ⟨hholds, heq⟩ | ⟨hlist, _⟩ | ⟨_, heq⟩ :=
    scrubObserved_cases py column value testedColumn
      (scrubObserved py column value testedColumn observed).1
  · obtain ⟨⟨cell, hcell, hcolumn, hvalue⟩, _⟩ := unparsedHolds_scrubObserved.mp hholds
    have hfirst : scrubObserved py column value testedColumn observed =
        (setField unparsedKey .null observed, true) := by
      simp only [scrubObserved, hcell, if_pos (And.intro hcolumn hvalue)]
    rw [heq, hfirst]
    exact setField_of_lookup (lookup_setField_self _ _ _)
  · exact absurd hlist not_listHolds_scrubObserved
  · rw [heq]

/-! ## The store -/

theorem scrubSample_scrubSample (sample : Fields) :
    (scrubSample py column value (scrubSample py column value sample).1).1 =
      (scrubSample py column value sample).1 := by
  have hnone : sampleMatches py column value (scrubSample py column value sample).1 = false := by
    rw [← Bool.not_eq_true, sampleMatches_iff]
    exact not_rowHolds_scrubSample sample
  rw [scrubSample_of_not_matches hnone]

variable (py column value) in
/-- A result with its sample and what was observed scrubbed. -/
def scrubResult (store : Store) (r : Result) : Result :=
  { r with
    sampleFailures := r.sampleFailures.map fun sample => (scrubSample py column value sample).1
    observedValue := r.observedValue.map fun observed =>
      (scrubObserved py column value (store.testedColumn r.checkId r.createdAt) observed).1 }

variable (py column value) in
def scrubIncident (store : Store) (i : Incident) : Incident :=
  match incidentObserved i with
  | some (evidence, failing, observed) =>
    { i with
      evidence := some (.obj (setField failingKey (.obj (setField observedKey (.obj
        (scrubObserved py column value (store.testedColumn i.checkId i.lastSeenAt) observed).1)
          failing)) evidence)) }
  | none => i

theorem rewritten_eq {scrub : Fields → Fields × Bool}
    (h : ∀ stored, (scrub stored).2 = false → (scrub stored).1 = stored) (stored : Option Fields) :
    (rewritten scrub stored).1 = stored.map fun s => (scrub s).1 := by
  cases stored with
  | none => rfl
  | some stored =>
    simp only [rewritten, Option.map_some]
    split
    · rfl
    · next hflag => rw [h stored (by simpa using hflag)]

/-- What is not found has nothing to scrub. -/
theorem erased_eq_scrubResult (store : Store) (r : Result) :
    (match matchResult py column value store r with
      | some found => (eraseResult py column value found).1
      | none => r) = scrubResult py column value store r := by
  unfold matchResult
  simp only
  split
  · next found hfound =>
    split at hfound
    · obtain rfl := Option.some.inj hfound
      simp only [eraseResult]
      rw [rewritten_eq fun _ => scrubSample_unchanged, rewritten_eq fun _ => scrubObserved_unchanged]
      rfl
    · cases hfound
  · next hnone =>
    split at hnone
    · cases hnone
    · next hmiss =>
      obtain ⟨hsample, hobserved⟩ := Bool.or_eq_false_iff.mp (Bool.not_eq_true _ ▸ hmiss)
      obtain ⟨id, checkId, createdAt, sample, observed⟩ := r
      simp only [scrubResult, Result.mk.injEq, true_and]
      constructor
      · cases sample with
        | none => rfl
        | some sample => rw [Option.map_some, scrubSample_of_not_matches hsample]
      · cases observed with
        | none => rfl
        | some observed => rw [Option.map_some, scrubObserved_of_not_matches hobserved]

theorem incidentObserved_eq {i : Incident} {evidence failing observed : Fields} :
    incidentObserved i = some (evidence, failing, observed) ↔
      i.evidence = some (.obj evidence) ∧ evidence.lookup failingKey = some (.obj failing) ∧
        failing.lookup observedKey = some (.obj observed) := by
  unfold incidentObserved
  constructor
  · intro h
    split at h
    · next hevidence =>
      split at h
      · next hfailing =>
        split at h
        · next hobserved =>
          obtain ⟨rfl, rfl, rfl⟩ := by simpa using h
          exact ⟨hevidence, hfailing, hobserved⟩
        · cases h
      · cases h
    · cases h
  · rintro ⟨hevidence, hfailing, hobserved⟩
    simp only [hevidence, hfailing, hobserved]

theorem scrubIncident_of_observed {store : Store} {i : Incident}
    {evidence failing observed : Fields}
    (h : incidentObserved i = some (evidence, failing, observed)) :
    scrubIncident py column value store i =
      { i with
        evidence := some (.obj (setField failingKey (.obj (setField observedKey (.obj
          (scrubObserved py column value (store.testedColumn i.checkId i.lastSeenAt) observed).1)
            failing)) evidence)) } := by
  simp only [scrubIncident, h]

/-- A scrub that changes nothing writes what is there. -/
theorem scrubIncident_of_same {store : Store} {i : Incident} {evidence failing observed : Fields}
    (h : incidentObserved i = some (evidence, failing, observed))
    (hsame : (scrubObserved py column value (store.testedColumn i.checkId i.lastSeenAt)
      observed).1 = observed) : scrubIncident py column value store i = i := by
  obtain ⟨hevidence, hfailing, hobserved⟩ := incidentObserved_eq.mp h
  rw [scrubIncident_of_observed h, hsame, setField_of_lookup hobserved,
    setField_of_lookup hfailing, ← hevidence]

theorem erased_eq_scrubIncident (store : Store) (i : Incident) :
    (match matchIncident py column value store i with
      | some found => (eraseIncident py column value found).1
      | none => i) = scrubIncident py column value store i := by
  unfold matchIncident
  cases hobserved : incidentObserved i with
  | none => simp only [scrubIncident, hobserved]
  | some parts =>
    obtain ⟨evidence, failing, observed⟩ := parts
    simp only
    by_cases hmatch : observedMatches py column value
        (store.testedColumn i.checkId i.lastSeenAt) observed = true
    · rw [if_pos hmatch]
      simp only [eraseIncident, hobserved]
      cases hflag : (scrubObserved py column value (store.testedColumn i.checkId i.lastSeenAt)
          observed).2 with
      | true => rw [scrubIncident_of_observed hobserved]
      | false => rw [scrubIncident_of_same hobserved (scrubObserved_unchanged hflag)]
    · rw [if_neg hmatch]
      have hmiss : observedMatches py column value (store.testedColumn i.checkId i.lastSeenAt)
          observed = false := by simpa using hmatch
      rw [scrubIncident_of_same hobserved (by rw [scrubObserved_of_not_matches hmiss])]

/-- The erasure scrubs every result and every incident. -/
theorem eraseMatchingResults_eq (store : Store) :
    (eraseMatchingResults py column value store).1 =
      { store with
        results := store.results.map (scrubResult py column value store)
        incidents := store.incidents.map (scrubIncident py column value store) } := by
  simp only [eraseMatchingResults, Store.mk.injEq, true_and]
  constructor
  · exact List.map_congr_left fun r _ => erased_eq_scrubResult store r
  · exact List.map_congr_left fun i _ => erased_eq_scrubIncident _ i

theorem scrubResult_kept (store : Store) (r : Result) :
    ResultKept py column value store r (scrubResult py column value store r) where
  id := rfl
  checkId := rfl
  createdAt := rfl
  sample := by
    simp only [scrubResult]
    cases r.sampleFailures with
    | none => exact .none
    | some sample => exact .some (scrubSample_kept sample)
  observed := by
    simp only [scrubResult]
    cases r.observedValue with
    | none => exact .none
    | some observed => exact .some (scrubObserved_kept _ observed)

variable (py column value) in
/-- What was observed is read back scrubbed. -/
theorem incidentObserved_scrubIncident (store : Store) {i : Incident}
    {evidence failing observed : Fields}
    (h : incidentObserved i = some (evidence, failing, observed)) :
    ∃ evidence' failing', incidentObserved (scrubIncident py column value store i) =
      some (evidence', failing', (scrubObserved py column value
        (store.testedColumn i.checkId i.lastSeenAt) observed).1) := by
  rw [scrubIncident_of_observed h]
  exact ⟨_, _, incidentObserved_eq.mpr ⟨rfl, lookup_setField_self _ _ _, lookup_setField_self _ _ _⟩⟩

variable (py column value) in
theorem scrubIncident_row (store : Store) (i : Incident) :
    (scrubIncident py column value store i).id = i.id ∧
      (scrubIncident py column value store i).checkId = i.checkId ∧
      (scrubIncident py column value store i).lastSeenAt = i.lastSeenAt := by
  unfold scrubIncident
  split <;> exact ⟨rfl, rfl, rfl⟩

theorem scrubIncident_kept (store : Store) (i : Incident) :
    IncidentKept py column value store i (scrubIncident py column value store i) where
  id := (scrubIncident_row py column value store i).1
  checkId := (scrubIncident_row py column value store i).2.1
  lastSeenAt := (scrubIncident_row py column value store i).2.2
  other := by
    intro hnone
    simp only [scrubIncident, hnone]
  evidence := by
    intro evidence failing observed h
    rw [scrubIncident_of_observed h]
    refine ⟨_, _, _, rfl, incidentObserved_eq.mpr ⟨rfl, lookup_setField_self _ _ _,
      lookup_setField_self _ _ _⟩, ?_, ?_, scrubObserved_kept _ observed⟩
    · exact fun key hkey => lookup_setField_ne hkey _ _
    · exact fun key hkey => lookup_setField_ne hkey _ _

theorem forall₂_map {α : Type} {R : α → α → Prop} {f : α → α} (h : ∀ a, R a (f a)) (l : List α) :
    List.Forall₂ R l (l.map f) := by
  induction l with
  | nil => exact .nil
  | cons a l ih => exact .cons (h a) ih

theorem erase_surgical (store : Store) :
    Surgical py column value store (eraseMatchingResults py column value store).1 := by
  rw [eraseMatchingResults_eq]
  exact ⟨rfl, rfl, forall₂_map (scrubResult_kept store) _, forall₂_map (scrubIncident_kept store) _⟩

theorem scrubResult_scrubResult (store : Store) (r : Result) :
    scrubResult py column value store (scrubResult py column value store r) =
      scrubResult py column value store r := by
  simp only [scrubResult, Option.map_map, Result.mk.injEq, true_and]
  constructor
  · exact congrArg (Option.map · r.sampleFailures) (funext scrubSample_scrubSample)
  · exact congrArg (Option.map · r.observedValue) (funext (scrubObserved_scrubObserved _))

theorem scrubIncident_scrubIncident (store : Store) (i : Incident) :
    scrubIncident py column value store (scrubIncident py column value store i) =
      scrubIncident py column value store i := by
  cases h : incidentObserved i with
  | none =>
    have hsame : scrubIncident py column value store i = i := by simp only [scrubIncident, h]
    rw [hsame, hsame]
  | some parts =>
    obtain ⟨evidence, failing, observed⟩ := parts
    obtain ⟨evidence', failing', hobserved⟩ := incidentObserved_scrubIncident py column value store h
    obtain ⟨_, hcheck, hseen⟩ := scrubIncident_row py column value store i
    apply scrubIncident_of_same hobserved
    rw [hcheck, hseen]
    exact scrubObserved_scrubObserved _ _

theorem erase_erase (store : Store) :
    (eraseMatchingResults py column value (eraseMatchingResults py column value store).1).1 =
      (eraseMatchingResults py column value store).1 := by
  rw [eraseMatchingResults_eq, eraseMatchingResults_eq]
  simp only [List.map_map, Store.mk.injEq, true_and]
  constructor
  · exact congrArg (List.map · store.results) (funext fun r => scrubResult_scrubResult store r)
  · exact congrArg (List.map · store.incidents) (funext fun i => scrubIncident_scrubIncident store i)

/-! ## Complete -/

variable (py column value) in
/-- No list of plain values of the tested column holds the value, and where the value is `None` no
unparsed cell of the column reads so. -/
structure Covered (store : Store) : Prop where
  plain : ∀ r ∈ store.results, ∀ sample ∈ r.sampleFailures,
    ¬PlainHolds py column value (store.testedColumn r.checkId r.createdAt) sample
  resultCell : value = "None".toList → ∀ r ∈ store.results, ∀ observed ∈ r.observedValue,
    ¬UnparsedHolds py column value observed
  incidentCell : value = "None".toList → ∀ i ∈ store.incidents, ∀ evidence failing observed,
    incidentObserved i = some (evidence, failing, observed) →
      ¬UnparsedHolds py column value observed

variable (py column value) in
/-- What a stored result holds is what is found of it. -/
theorem findMatchingResults_eq_nil (store : Store) : findMatchingResults py column value store = [] ↔
    ∀ r ∈ store.results, (∀ sample ∈ r.sampleFailures, ¬RowHolds py column value sample) ∧
      ∀ observed ∈ r.observedValue, ¬UnparsedHolds py column value observed ∧
        ¬ListHolds py column value (store.testedColumn r.checkId r.createdAt) observed := by
  rw [findMatchingResults, List.filterMap_eq_nil_iff]
  refine forall_congr' fun r => imp_congr_right fun _ => ?_
  have hsample : r.sampleFailures.any (sampleMatches py column value) = false ↔
      ∀ sample ∈ r.sampleFailures, ¬RowHolds py column value sample := by
    cases r.sampleFailures with
    | none => simp
    | some sample => simp [← sampleMatches_iff]
  have hobserved : r.observedValue.any (observedMatches py column value
      (store.testedColumn r.checkId r.createdAt)) = false ↔
      ∀ observed ∈ r.observedValue, ¬UnparsedHolds py column value observed ∧
        ¬ListHolds py column value (store.testedColumn r.checkId r.createdAt) observed := by
    cases r.observedValue with
    | none => simp
    | some observed => simp [← not_or, ← observedMatches_iff]
  rw [← hsample, ← hobserved]
  simp only [matchResult]
  split
  · next hfound =>
    constructor
    · intro h
      cases h
    · rintro ⟨h1, h2⟩
      rw [h1, h2] at hfound
      cases hfound
  · next hmiss =>
    exact iff_of_true rfl (Bool.or_eq_false_iff.mp (Bool.not_eq_true _ ▸ hmiss))

variable (py column value) in
theorem findMatchingIncidents_eq_nil (store : Store) :
    findMatchingIncidents py column value store = [] ↔
      ∀ i ∈ store.incidents, ∀ evidence failing observed,
        incidentObserved i = some (evidence, failing, observed) →
          ¬UnparsedHolds py column value observed ∧
            ¬ListHolds py column value (store.testedColumn i.checkId i.lastSeenAt) observed := by
  rw [findMatchingIncidents, List.filterMap_eq_nil_iff]
  refine forall_congr' fun i => imp_congr_right fun _ => ?_
  simp only [matchIncident]
  cases hobserved : incidentObserved i with
  | none => simp
  | some parts =>
    obtain ⟨evidence, failing, observed⟩ := parts
    have hmatch : observedMatches py column value (store.testedColumn i.checkId i.lastSeenAt)
        observed = true ↔ UnparsedHolds py column value observed ∨
          ListHolds py column value (store.testedColumn i.checkId i.lastSeenAt) observed :=
      observedMatches_iff
    simp only
    split
    · next hfound =>
      refine iff_of_false (fun h => by cases h) fun h => ?_
      obtain ⟨hcell, hlist⟩ := h evidence failing observed rfl
      exact (hmatch.mp hfound).elim hcell hlist
    · next hmiss =>
      refine iff_of_true rfl fun evidence' failing' observed' heq => ?_
      obtain ⟨rfl, rfl, rfl⟩ := by simpa using heq
      exact not_or.mp (hmatch.not.mp hmiss)

/-- The erasure is complete where it is covered. -/
theorem complete_iff (store : Store) :
    Complete py column value (eraseMatchingResults py column value store).1 ↔
      Covered py column value store := by
  rw [eraseMatchingResults_eq]
  constructor
  · intro h
    refine ⟨fun r hr sample hsample => ?_, fun hnone r hr observed hobserved => ?_,
      fun hnone i hi evidence failing observed hobserved => ?_⟩
    · have hscrubbed := (h.samples _ (List.mem_map_of_mem hr) _
        (Option.mem_map_of_mem _ hsample)).2
      exact plainHolds_scrubSample.not.mp hscrubbed
    · have hscrubbed := (h.observed _ (List.mem_map_of_mem hr) _
        (Option.mem_map_of_mem _ hobserved)).1
      exact fun hholds => hscrubbed (unparsedHolds_scrubObserved.mpr ⟨hholds, hnone⟩)
    · obtain ⟨evidence', failing', hscrubbed⟩ :=
        incidentObserved_scrubIncident py column value store hobserved
      have hcell := (h.evidence _ (List.mem_map_of_mem hi) _ _ _ hscrubbed).1
      exact fun hholds => hcell (unparsedHolds_scrubObserved.mpr ⟨hholds, hnone⟩)
  · intro h
    have hsamples : ∀ r ∈ store.results.map (scrubResult py column value store),
        ∀ sample ∈ r.sampleFailures, ¬RowHolds py column value sample ∧
          ¬PlainHolds py column value (store.testedColumn r.checkId r.createdAt) sample := by
      intro r' hr' sample' hsample'
      obtain ⟨r, hr, rfl⟩ := List.mem_map.mp hr'
      obtain ⟨sample, hsample, rfl⟩ := Option.mem_map.mp hsample'
      exact ⟨not_rowHolds_scrubSample sample,
        plainHolds_scrubSample.not.mpr (h.plain r hr sample hsample)⟩
    have hobserved : ∀ r ∈ store.results.map (scrubResult py column value store),
        ∀ observed ∈ r.observedValue, ¬UnparsedHolds py column value observed ∧
          ¬ListHolds py column value (store.testedColumn r.checkId r.createdAt) observed := by
      intro r' hr' observed' hobserved'
      obtain ⟨r, hr, rfl⟩ := List.mem_map.mp hr'
      obtain ⟨observed, hobserved, rfl⟩ := Option.mem_map.mp hobserved'
      refine ⟨fun hcell => ?_, not_listHolds_scrubObserved⟩
      obtain ⟨hholds, hnone⟩ := unparsedHolds_scrubObserved.mp hcell
      exact h.resultCell hnone r hr observed hobserved hholds
    have hevidence : ∀ i ∈ store.incidents.map (scrubIncident py column value store),
        ∀ evidence failing observed, incidentObserved i = some (evidence, failing, observed) →
          ¬UnparsedHolds py column value observed ∧
            ¬ListHolds py column value (store.testedColumn i.checkId i.lastSeenAt) observed := by
      intro i' hi' evidence' failing' observed' hobserved'
      obtain ⟨i, hi, rfl⟩ := List.mem_map.mp hi'
      obtain ⟨_, hcheck, hseen⟩ := scrubIncident_row py column value store i
      cases hparts : incidentObserved i with
      | none =>
        have hsame : scrubIncident py column value store i = i := by
          simp only [scrubIncident, hparts]
        rw [hsame, hparts] at hobserved'
        cases hobserved'
      | some parts =>
        obtain ⟨evidence, failing, observed⟩ := parts
        obtain ⟨_, _, hscrubbed⟩ := incidentObserved_scrubIncident py column value store hparts
        rw [hscrubbed] at hobserved'
        obtain ⟨_, _, rfl⟩ := by simpa using hobserved'
        rw [hcheck, hseen]
        refine ⟨fun hcell => ?_, not_listHolds_scrubObserved⟩
        obtain ⟨hholds, hnone⟩ := unparsedHolds_scrubObserved.mp hcell
        exact h.incidentCell hnone i hi evidence failing observed hparts hholds
    refine ⟨hsamples, hobserved, hevidence, ?_, ?_⟩
    · rw [findMatchingResults_eq_nil]
      exact fun r hr => ⟨fun sample hsample => (hsamples r hr sample hsample).1, hobserved r hr⟩
    · rw [findMatchingIncidents_eq_nil]
      exact hevidence

/-- An erasure is complete exactly where no plain list holds the value and a cleared cell is not what
is looked for; it is surgical, and a second one changes nothing, everywhere. -/
theorem erasure_iff (py : Python) (column value : Text) (store : Store) :
    (Complete py column value (eraseMatchingResults py column value store).1 ∧
      Surgical py column value store (eraseMatchingResults py column value store).1 ∧
      (eraseMatchingResults py column value (eraseMatchingResults py column value store).1).1 =
        (eraseMatchingResults py column value store).1) ↔ Covered py column value store := by
  rw [complete_iff]
  exact ⟨And.left, fun h => ⟨h, erase_surgical store, erase_erase store⟩⟩

/-- The failing values of the tested column, as a runner without row locators gives them. -/
theorem plain_list_survives :
    let check : CheckSource := ⟨"c".toList, "expectation".toList, gxEngine,
      "expect_column_values_to_be_in_set".toList, none, [("column".toList, .str "email".toList)]⟩
    let result : Result := ⟨1, 1, 5, some [("unexpected_count".toList, .num (.ofNat 1)),
      (partialListKey, .arr [.str "alice".toList])], none⟩
    let store : Store := ⟨fun _ => check, fun _ => [⟨1, check⟩], [result], []⟩
    ¬Complete asciiPython "email".toList "alice".toList
      (eraseMatchingResults asciiPython "email".toList "alice".toList store).1 := by
  intro check result store h
  have hresults : (eraseMatchingResults asciiPython "email".toList "alice".toList store).1.results =
      [result] := by decide
  have hplain := (h.samples result (by rw [hresults]; exact List.mem_singleton_self _) _ rfl).2
  apply hplain
  exact ⟨by decide, [.str "alice".toList], rfl, _, List.mem_singleton_self _, rfl, rfl⟩

end DataQ.Subjects
