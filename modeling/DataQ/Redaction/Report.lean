import DataQ.Foundations.Dictionary
import DataQ.Redaction.Samples
import Mathlib.Data.Char
import Mathlib.Data.List.Lex
import Mathlib.Data.List.Sort

/-! # What the redaction reports

`services/run_service.py`: the summary beside a redacted sample. A tracker takes note of each column
that is shown or masked in the rows a viewer sees, and of what is masked without a column. -/

namespace DataQ.Redaction
set_option autoImplicit false

/-- `RedactionState`; `part` is its `"partial"`. -/
inductive RedactionState
  | full | part | none | zeroSample
  deriving DecidableEq, Repr

/-- `REDACTION_REASONS.index`. -/
def RedactionReason.rung : RedactionReason → ℕ
  | .ownTag => 0
  | .inheritedTag => 1
  | .policy => 2
  | .unclassified => 3
  | .detected => 4
  | .classifier => 5
  | .defaultMask => 6

/-- `_RedactionTracker`. -/
structure RedactionTracker where
  columnState : List (Text × Bool) := []
  columnReason : List (Text × RedactionReason) := []
  anonymousMasked : Bool := false
  deriving DecidableEq, Repr

/-- The arguments of a call of `record`. -/
structure Verdict where
  column : Option Text
  shown : Bool
  reason : Option RedactionReason
  deriving DecidableEq, Repr

namespace RedactionTracker

/-- The strongest reason stays, which is the earliest on the ladder. -/
def recordReason (column : Text) (reason : RedactionReason)
    (reasons : List (Text × RedactionReason)) : List (Text × RedactionReason) :=
  match reasons.lookup column with
  | none => setField column reason reasons
  | some held => if reason.rung < held.rung then setField column reason reasons else reasons

/-- `record`. -/
def record (tracker : RedactionTracker) (verdict : Verdict) : RedactionTracker :=
  let column := verdict.column.getD []
  if column ≠ [] then
    { tracker with
      columnState := setField column
        ((tracker.columnState.lookup column).getD false || verdict.shown) tracker.columnState
      columnReason :=
        match verdict.shown, verdict.reason with
        | false, some reason => recordReason column reason tracker.columnReason
        | _, _ => tracker.columnReason }
  else if !verdict.shown then { tracker with anonymousMasked := true }
  else tracker

/-- The columns that were never shown. -/
def maskedColumns (tracker : RedactionTracker) : List Text :=
  ((tracker.columnState.filter fun entry => !entry.2).map Prod.fst).insertionSort (· ≤ ·)

/-- `summary`. -/
def summary (tracker : RedactionTracker) : Option RedactionState × List Text :=
  let shownAny := tracker.columnState.any fun entry => entry.2
  let maskedAny := (tracker.columnState.any fun entry => !entry.2) || tracker.anonymousMasked
  if !shownAny && !maskedAny then (none, [])
  else if maskedAny && !shownAny then (some .full, tracker.maskedColumns)
  else if shownAny && !maskedAny then (some .none, tracker.maskedColumns)
  else (some .part, tracker.maskedColumns)

/-- `reasons`. -/
def reasons (tracker : RedactionTracker) : List (Text × RedactionReason) :=
  (tracker.columnState.insertionSort fun a b => a.1 ≤ b.1).filterMap fun entry =>
    if entry.2 then none else (tracker.columnReason.lookup entry.1).map (entry.1, ·)

/-- The calls of `record` one after another. -/
def track (verdicts : List Verdict) : RedactionTracker := verdicts.foldl record {}

end RedactionTracker

/-! ## What is recorded -/

variable (py : Python)

/-- `all(isinstance(r, dict) for r in index_rows)` of a list that has rows. -/
def rendersRows (sample : Fields) : Bool :=
  match sample.lookup indexListKey with
  | some (.arr rows) => holdsRows (rows.take sampleRowCap)
  | _ => false

/-- `_displayed_sample_key`. -/
def displayedSampleKey (sample : Fields) : Option Text :=
  if rendersRows sample then some indexListKey
  else
    match sample.lookup partialListKey with
    | some (.arr _) => some partialListKey
    | _ => none

/-- The tracker is kept from the failing-row list that is not shown. -/
def counts (displayed : Option Text) (key : Text) : Bool :=
  displayed = none || displayed = some key

/-- What is masked without a column. -/
def anonymous : Verdict := ⟨none, false, none⟩

/-- `record(column, reason is None, reason)`. -/
def verdictOn (column : Option Text) (reason : Option RedactionReason) : Verdict :=
  ⟨column, reason.isNone, reason⟩

def rowVerdicts (testedColumn : Option Text) (policy : Policy) (tags : Tags) (rows : List Json)
    (summaries : Option Json) : Json → List Verdict
  | .obj fields => fields.map fun field =>
      verdictOn (some field.1)
        (cellReason py testedColumn policy tags rows summaries field.1 field.2)
  | _ => [anonymous]

def comparisonVerdicts (policy : Policy) (tags : Tags) (rows : List Json) : Json → List Verdict
  | .obj fields => fields.map fun field =>
      verdictOn (some field.1) (comparisonReason py policy tags rows field.1 field.2)
  | _ => [anonymous]

/-- The one verdict on a list of the tested column's values. -/
def plainVerdict (testedColumn : Option Text) (policy : Policy) (tags : Tags)
    (summaries : Option Json) (values : List Json) : Verdict :=
  match testedColumn with
  | none => anonymous
  | some column => verdictOn (some column)
      (knownSensitiveReason py column values policy tags (summaryOf summaries column))

/-- The calls of `record` in one round of the loop over `sample.items()`. -/
def entryVerdicts (displayed : Option Text) (testedColumn : Option Text) (policy : Policy)
    (tags : Tags) (summaries : Option Json) (key : Text) (raw : Json) : List Verdict :=
  if key = valueSignalSummaryKey || key = valueSignalStatusKey then []
  else if isSafeSummary key (capRows raw) then []
  else
    match raw with
    | .arr values =>
      if key = indexListKey then
        if counts displayed key then
          (values.take sampleRowCap).flatMap
            (rowVerdicts py testedColumn policy tags values summaries)
        else []
      else if key = partialListKey then
        if !counts displayed key then []
        else if holdsRows values then
          (values.take sampleRowCap).flatMap
            (rowVerdicts py testedColumn policy tags values summaries)
        else [plainVerdict py testedColumn policy tags summaries values]
      else if comparisonSampleKeys.contains key then
        (values.take sampleRowCap).flatMap (comparisonVerdicts py policy tags values)
      else [anonymous]
    | _ => [anonymous]

def sampleVerdicts (sample : Fields) (testedColumn : Option Text) (policy : Policy) (tags : Tags) :
    List Verdict :=
  sample.flatMap fun entry =>
    entryVerdicts py (displayedSampleKey sample) testedColumn policy tags
      (sample.lookup valueSignalSummaryKey) entry.1 entry.2

/-- `RedactedSample`. -/
structure RedactedSample where
  sample : Option Fields
  state : Option RedactionState
  redactedColumns : List Text
  redactionReasons : List (Text × RedactionReason)

/-- `redact_sample_failures_with_state`. -/
def redactSampleFailuresWithState (sample : Option Fields) (testedColumn : Option Text)
    (policy : Policy) (tags : Tags) (zeroSample : Bool) : RedactedSample :=
  if sample = none && zeroSample then ⟨none, some .zeroSample, [], []⟩
  else
    let tracker := RedactionTracker.track
      (sampleVerdicts py (sample.getD []) testedColumn policy tags)
    ⟨redactSampleFailures py sample testedColumn policy tags, tracker.summary.1, tracker.summary.2,
      tracker.reasons⟩

/-! ## The tracker -/

namespace RedactionTracker

/-- A verdict on this column. -/
def named (column : Text) (verdict : Verdict) : Bool := verdict.column = some column

/-- A verdict without a column. -/
def nameless (verdict : Verdict) : Bool := verdict.column.getD [] = []

/-- What the tracker holds after these calls. -/
structure Tracks (tracker : RedactionTracker) (verdicts : List Verdict) : Prop where
  nodup : (tracker.columnState.map Prod.fst).Nodup
  state : ∀ column, tracker.columnState.lookup column =
    if column ≠ [] ∧ verdicts.any (named column) then
      some (verdicts.any fun verdict => named column verdict && verdict.shown)
    else none
  reason : ∀ column reason, tracker.columnReason.lookup column = some reason →
    ∃ verdict ∈ verdicts, named column verdict = true ∧ verdict.shown = false ∧
      verdict.reason = some reason
  strongest : ∀ verdict ∈ verdicts, ∀ column reason, column ≠ [] → named column verdict = true →
    verdict.shown = false → verdict.reason = some reason →
    ∃ held, tracker.columnReason.lookup column = some held ∧ held.rung ≤ reason.rung
  anonymous : tracker.anonymousMasked =
    verdicts.any fun verdict => nameless verdict && !verdict.shown

theorem tracks_nil : Tracks {} [] where
  nodup := List.nodup_nil
  state _ := by simp
  reason _ _ h := nomatch h
  strongest _ h := absurd h List.not_mem_nil
  anonymous := rfl

theorem lookup_recordReason_self (column : Text) (reason : RedactionReason)
    (reasons : List (Text × RedactionReason)) :
    ∃ held, (recordReason column reason reasons).lookup column = some held ∧
      held.rung ≤ reason.rung ∧ (held = reason ∨ reasons.lookup column = some held) ∧
      ∀ before, reasons.lookup column = some before → held.rung ≤ before.rung := by
  unfold recordReason
  cases hheld : reasons.lookup column with
  | none => exact ⟨reason, lookup_setField_self column reason reasons, Nat.le_refl _, .inl rfl, nofun⟩
  | some held =>
    dsimp only
    by_cases hless : reason.rung < held.rung
    · rw [if_pos hless]
      refine ⟨reason, lookup_setField_self column reason reasons, Nat.le_refl _, .inl rfl, ?_⟩
      intro before hbefore
      obtain rfl := Option.some.inj hbefore
      omega
    · rw [if_neg hless]
      refine ⟨held, hheld, by omega, .inr rfl, ?_⟩
      intro before hbefore
      obtain rfl := Option.some.inj hbefore
      exact Nat.le_refl _

theorem lookup_recordReason_ne {column other : Text} (h : other ≠ column) (reason : RedactionReason)
    (reasons : List (Text × RedactionReason)) :
    (recordReason column reason reasons).lookup other = reasons.lookup other := by
  unfold recordReason
  cases reasons.lookup column with
  | none => exact lookup_setField_ne h reason reasons
  | some held =>
    dsimp only
    by_cases hless : reason.rung < held.rung
    · rw [if_pos hless]
      exact lookup_setField_ne h reason reasons
    · rw [if_neg hless]

theorem record_nameless {tracker : RedactionTracker} {verdict : Verdict}
    (h : nameless verdict = true) : tracker.record verdict =
      { tracker with anonymousMasked := tracker.anonymousMasked || !verdict.shown } := by
  have hempty : verdict.column.getD [] = [] := of_decide_eq_true h
  unfold record
  rw [hempty]
  cases hshown : verdict.shown <;> simp

theorem named_nil_of_nameless {verdict : Verdict} (h : nameless verdict = true) {column : Text}
    (hcolumn : column ≠ []) : named column verdict = false := by
  have hempty : verdict.column.getD [] = [] := of_decide_eq_true h
  apply decide_eq_false
  intro hsome
  rw [hsome] at hempty
  exact hcolumn hempty

theorem tracks_nameless {tracker : RedactionTracker} {verdicts : List Verdict} {verdict : Verdict}
    (h : Tracks tracker verdicts) (hname : nameless verdict = true) :
    Tracks (tracker.record verdict) (verdicts ++ [verdict]) := by
  rw [record_nameless hname]
  refine ⟨h.nodup, ?_, ?_, ?_, ?_⟩
  · intro column
    by_cases hcolumn : column = []
    · have hnone := h.state column
      simp only [hcolumn, ne_eq, not_true_eq_false, false_and, if_false] at hnone ⊢
      exact hnone
    · simp only [List.any_append, List.any_cons, List.any_nil, Bool.or_false,
        named_nil_of_nameless hname hcolumn, Bool.false_and]
      exact h.state column
  · intro column reason hreason
    obtain ⟨earlier, hmem, hrest⟩ := h.reason column reason hreason
    exact ⟨earlier, List.mem_append_left _ hmem, hrest⟩
  · intro other hother column reason hcolumn hnamed hshown hreason
    obtain hmem | hlast := List.mem_append.mp hother
    · exact h.strongest other hmem column reason hcolumn hnamed hshown hreason
    · obtain rfl := List.mem_singleton.mp hlast
      rw [named_nil_of_nameless hname hcolumn] at hnamed
      exact nomatch hnamed
  · dsimp only
    rw [h.anonymous, List.any_append, List.any_cons, List.any_nil, Bool.or_false, hname,
      Bool.true_and]

theorem record_named {tracker : RedactionTracker} {verdict : Verdict} {column : Text}
    (hcolumn : column ≠ []) (h : verdict.column = some column) : tracker.record verdict =
      { tracker with
        columnState := setField column
          ((tracker.columnState.lookup column).getD false || verdict.shown) tracker.columnState
        columnReason :=
          match verdict.shown, verdict.reason with
          | false, some reason => recordReason column reason tracker.columnReason
          | _, _ => tracker.columnReason } := by
  unfold record
  rw [h]
  exact if_pos hcolumn

theorem tracks_named {tracker : RedactionTracker} {verdicts : List Verdict} {verdict : Verdict}
    {column : Text} (h : Tracks tracker verdicts) (hcolumn : column ≠ [])
    (hname : verdict.column = some column) :
    Tracks (tracker.record verdict) (verdicts ++ [verdict]) := by
  have hself : named column verdict = true := decide_eq_true hname
  have hother : ∀ other, other ≠ column → named other verdict = false := by
    intro other hne
    apply decide_eq_false
    rw [hname]
    exact fun hsome => hne (Option.some.inj hsome).symm
  have hnameless : nameless verdict = false := by
    apply decide_eq_false
    rw [hname]
    exact hcolumn
  rw [record_named hcolumn hname]
  refine ⟨nodup_setField h.nodup, ?_, ?_, ?_, ?_⟩
  · intro other
    by_cases hsame : other = column
    · subst hsame
      rw [lookup_setField_self, h.state]
      simp only [List.any_append, List.any_cons, List.any_nil, Bool.or_false, hself, Bool.true_and,
        Bool.or_true, and_true, hcolumn, ne_eq, not_false_eq_true, if_true, true_and,
        Option.some.injEq]
      by_cases hany : verdicts.any (named other) = true
      · rw [if_pos hany, Option.getD_some]
      · rw [if_neg hany, Option.getD_none]
        have hnone : (verdicts.any fun verdict => named other verdict && verdict.shown) = false := by
          rw [Bool.not_eq_true, List.any_eq_false] at hany
          rw [List.any_eq_false]
          intro earlier hmem
          simp [hany earlier hmem]
        rw [hnone]
    · rw [lookup_setField_ne hsame, h.state]
      simp only [List.any_append, List.any_cons, List.any_nil, Bool.or_false, hother other hsame,
        Bool.false_and]
  · intro other reason hreason
    dsimp only at hreason
    have hearlier : tracker.columnReason.lookup other = some reason →
        ∃ verdict' ∈ verdicts ++ [verdict], named other verdict' = true ∧
          verdict'.shown = false ∧ verdict'.reason = some reason := by
      intro hheld
      obtain ⟨earlier, hmem, hrest⟩ := h.reason other reason hheld
      exact ⟨earlier, List.mem_append_left _ hmem, hrest⟩
    cases hshown : verdict.shown with
    | true =>
      rw [hshown] at hreason
      exact hearlier hreason
    | false =>
      cases hgiven : verdict.reason with
      | none =>
        rw [hshown, hgiven] at hreason
        exact hearlier hreason
      | some given =>
        rw [hshown, hgiven] at hreason
        dsimp only at hreason
        by_cases hsame : other = column
        · subst hsame
          obtain ⟨held, hheld, -, hfrom, -⟩ :=
            lookup_recordReason_self other given tracker.columnReason
          obtain rfl := Option.some.inj (hheld.symm.trans hreason)
          obtain rfl | hbefore := hfrom
          · exact ⟨verdict, List.mem_append_right _ List.mem_cons_self, hself, hshown, hgiven⟩
          · exact hearlier hbefore
        · rw [lookup_recordReason_ne hsame] at hreason
          exact hearlier hreason
  · intro other hmem name reason hne hnamed hshown hreason
    dsimp only
    -- whatever is recorded now, a reason that was held gives way to a stronger one only
    have hkept : ∀ held, tracker.columnReason.lookup name = some held →
        ∃ held', (match verdict.shown, verdict.reason with
          | false, some reason => recordReason column reason tracker.columnReason
          | _, _ => tracker.columnReason).lookup name = some held' ∧ held'.rung ≤ held.rung := by
      intro held hheld
      cases hshown' : verdict.shown with
      | true => exact ⟨held, hheld, Nat.le_refl _⟩
      | false =>
        cases hgiven : verdict.reason with
        | none => exact ⟨held, hheld, Nat.le_refl _⟩
        | some given =>
          dsimp only
          by_cases hsame : name = column
          · subst hsame
            obtain ⟨held', hheld', -, -, hleast⟩ :=
              lookup_recordReason_self name given tracker.columnReason
            exact ⟨held', hheld', hleast held hheld⟩
          · rw [lookup_recordReason_ne hsame]
            exact ⟨held, hheld, Nat.le_refl _⟩
    obtain hbefore | hlast := List.mem_append.mp hmem
    · obtain ⟨held, hheld, hrung⟩ := h.strongest other hbefore name reason hne hnamed hshown hreason
      obtain ⟨held', hheld', hless⟩ := hkept held hheld
      exact ⟨held', hheld', hless.trans hrung⟩
    · obtain rfl := List.mem_singleton.mp hlast
      obtain rfl : column = name := Option.some.inj (hname.symm.trans (of_decide_eq_true hnamed))
      rw [hshown, hreason]
      obtain ⟨held, hheld, hrung, -, -⟩ :=
        lookup_recordReason_self column reason tracker.columnReason
      exact ⟨held, hheld, hrung⟩
  · dsimp only
    rw [h.anonymous, List.any_append, List.any_cons, List.any_nil, hnameless, Bool.false_and,
      Bool.or_false, Bool.or_false]

theorem tracks (verdicts : List Verdict) : Tracks (track verdicts) verdicts := by
  induction verdicts using List.reverseRecOn with
  | nil => exact tracks_nil
  | append_singleton verdicts verdict ih =>
    have htrack : track (verdicts ++ [verdict]) = (track verdicts).record verdict := by
      unfold track
      rw [List.foldl_append]
      rfl
    rw [htrack]
    by_cases hname : nameless verdict = true
    · exact tracks_nameless ih hname
    · cases hcolumn : verdict.column with
      | none => exact absurd (decide_eq_true (by rw [hcolumn]; rfl)) hname
      | some column =>
        refine tracks_named ih ?_ hcolumn
        rintro rfl
        exact hname (decide_eq_true (by rw [hcolumn]; rfl))

theorem mem_state {tracker : RedactionTracker} {verdicts : List Verdict}
    (h : Tracks tracker verdicts) {column : Text} {shown : Bool} :
    (column, shown) ∈ tracker.columnState ↔ column ≠ [] ∧ verdicts.any (named column) = true ∧
      shown = verdicts.any fun verdict => named column verdict && verdict.shown := by
  rw [mem_iff_lookup h.nodup, h.state]
  by_cases hhas : column ≠ [] ∧ verdicts.any (named column) = true
  · rw [if_pos hhas, Option.some.injEq]
    exact ⟨fun heq => ⟨hhas.1, hhas.2, heq.symm⟩, fun hall => hall.2.2.symm⟩
  · rw [if_neg hhas]
    exact ⟨nofun, fun hall => absurd ⟨hall.1, hall.2.1⟩ hhas⟩

theorem mem_maskedColumns {tracker : RedactionTracker} {column : Text} :
    column ∈ tracker.maskedColumns ↔ (column, false) ∈ tracker.columnState := by
  unfold maskedColumns
  rw [List.mem_insertionSort, List.mem_map]
  constructor
  · rintro ⟨⟨name, shown⟩, hentry, rfl⟩
    obtain ⟨hmem, hshown⟩ := List.mem_filter.mp hentry
    obtain rfl : shown = false := by simpa using hshown
    exact hmem
  · intro hmem
    exact ⟨(column, false), List.mem_filter.mpr ⟨hmem, rfl⟩, rfl⟩

/-- Where each masked column has a reason, the reasons are theirs, in the same order. -/
theorem reasons_keys {tracker : RedactionTracker}
    (hreason : ∀ column ∈ tracker.maskedColumns, (tracker.columnReason.lookup column).isSome) :
    tracker.reasons.map Prod.fst = tracker.maskedColumns := by
  have hgiven : tracker.reasons.map Prod.fst =
      ((tracker.columnState.insertionSort fun a b => a.1 ≤ b.1).filter fun entry =>
        !entry.2).map Prod.fst := by
    have hevery : ∀ entries : List (Text × Bool), (∀ entry ∈ entries, entry.2 = false →
        (tracker.columnReason.lookup entry.1).isSome) →
        (entries.filterMap fun entry =>
          if entry.2 then none else (tracker.columnReason.lookup entry.1).map (entry.1, ·)).map
            Prod.fst = (entries.filter fun entry => !entry.2).map Prod.fst := by
      intro entries hall
      induction entries with
      | nil => rfl
      | cons entry entries ih =>
        obtain ⟨hfirst, hrest⟩ := List.forall_mem_cons.mp hall
        have hih := ih hrest
        obtain ⟨column, shown⟩ := entry
        cases shown with
        | true => simpa using hih
        | false =>
          obtain ⟨reason, hsome⟩ := Option.isSome_iff_exists.mp (hfirst rfl)
          dsimp only at hsome
          simp [hsome, hih]
    refine hevery _ ?_
    rintro ⟨column, shown⟩ hentry hshown
    obtain rfl : shown = false := hshown
    exact hreason column (mem_maskedColumns.mpr ((List.mem_insertionSort _).mp hentry))
  rw [hgiven]
  have hperm : (((tracker.columnState.insertionSort fun a b => a.1 ≤ b.1).filter fun entry =>
      !entry.2).map Prod.fst).Perm tracker.maskedColumns := by
    refine (((List.perm_insertionSort _ tracker.columnState).filter _).map _).trans ?_
    exact (List.perm_insertionSort _ _).symm
  refine hperm.eq_of_pairwise (fun _ _ _ _ hab hba => le_antisymm hab hba) ?_
    (List.pairwise_insertionSort _ _)
  rw [List.pairwise_map]
  refine List.Pairwise.filter _ ?_
  have htotal : Std.Total fun a b : Text × Bool => a.1 ≤ b.1 := ⟨fun a b => le_total a.1 b.1⟩
  have htrans : IsTrans (Text × Bool) fun a b => a.1 ≤ b.1 := ⟨fun _ _ _ => le_trans⟩
  exact List.pairwise_insertionSort _ _

theorem mem_reasons {tracker : RedactionTracker} {column : Text} {reason : RedactionReason}
    (h : (column, reason) ∈ tracker.reasons) : tracker.columnReason.lookup column = some reason := by
  unfold reasons at h
  obtain ⟨⟨name, shown⟩, -, hentry⟩ := List.mem_filterMap.mp h
  cases shown with
  | true => exact nomatch hentry
  | false =>
    obtain ⟨held, hheld, hpair⟩ := Option.map_eq_some_iff.mp hentry
    obtain ⟨rfl, rfl⟩ := Prod.mk.inj hpair
    exact hheld

end RedactionTracker

/-! ## The rows that count -/

/-- These rows of the sample count: the failing-row list that is shown, or both lists where neither
can be. -/
def CountedRows (sample : Fields) (key : Text) (rows : List Json) : Prop :=
  (key, .arr rows) ∈ sample ∧ counts (displayedSampleKey sample) key = true

section Counted
variable (testedColumn : Option Text) (policy : Policy) (tags : Tags) (sample : Fields)

/-- A value of this column stands in a row that counts, and this is what masks it, if anything. -/
inductive Counted : Text → Option RedactionReason → Prop
  | row {key : Text} {rows : List Json} {fields : Fields} {field : Text × Json} :
      key = indexListKey ∨ key = partialListKey ∧ holdsRows rows → CountedRows sample key rows →
      .obj fields ∈ rows.take sampleRowCap → field ∈ fields →
      Counted field.1 (cellReason py testedColumn policy tags rows
        (sample.lookup valueSignalSummaryKey) field.1 field.2)
  | plain {column : Text} {values : List Json} {value : Json} :
      CountedRows sample partialListKey values → holdsRows values = false →
      testedColumn = some column → value ∈ values.take sampleRowCap →
      Counted column (knownSensitiveReason py column values policy tags
        (summaryOf (sample.lookup valueSignalSummaryKey) column))
  | bucket {key : Text} {rows : List Json} {fields : Fields} {field : Text × Json} :
      key ∈ comparisonSampleKeys → (key, .arr rows) ∈ sample →
      .obj fields ∈ rows.take sampleRowCap → field ∈ fields →
      Counted field.1 (comparisonReason py policy tags rows field.1 field.2)

/-- Something is masked that no column can be named for: a row that is no dict, a value of a list
without a tested column, an entry that is not known. -/
inductive MaskedElsewhere : Prop
  | row {key : Text} {rows : List Json} {row : Json} :
      key = indexListKey ∨ key = partialListKey ∧ holdsRows rows → CountedRows sample key rows →
      row ∈ rows.take sampleRowCap → row.isDict = false → MaskedElsewhere
  | plain {values : List Json} {value : Json} :
      CountedRows sample partialListKey values → holdsRows values = false →
      testedColumn = none → value ∈ values.take sampleRowCap → MaskedElsewhere
  | bucket {key : Text} {rows : List Json} {row : Json} :
      key ∈ comparisonSampleKeys → (key, .arr rows) ∈ sample → row ∈ rows.take sampleRowCap →
      row.isDict = false → MaskedElsewhere
  | entry {key : Text} {raw : Json} :
      (key, raw) ∈ sample → key ≠ valueSignalSummaryKey → key ≠ valueSignalStatusKey →
      isSafeSummary key (capRows raw) = false →
      (∀ values, raw ≠ .arr values) ∨
        key ≠ indexListKey ∧ key ≠ partialListKey ∧ key ∉ comparisonSampleKeys → MaskedElsewhere

/-- The list of the tested column's values has some, where it counts. -/
def PlainFilled : Prop :=
  ∀ values, CountedRows sample partialListKey values → values ≠ []

end Counted

theorem mem_rowVerdicts {testedColumn : Option Text} {policy : Policy} {tags : Tags}
    {rows : List Json} {summaries : Option Json} {row : Json} {verdict : Verdict} :
    verdict ∈ rowVerdicts py testedColumn policy tags rows summaries row ↔
      (∃ fields, row = .obj fields ∧ ∃ field ∈ fields, verdict = verdictOn (some field.1)
        (cellReason py testedColumn policy tags rows summaries field.1 field.2)) ∨
      row.isDict = false ∧ verdict = anonymous := by
  cases row with
  | obj fields =>
    simp only [rowVerdicts, List.mem_map, Json.obj.injEq, Json.isDict, Bool.true_eq_false, false_and,
      or_false, exists_eq_left']
    exact exists_congr fun field => and_congr_right fun _ => eq_comm
  | _ => simp [rowVerdicts, Json.isDict]

theorem mem_comparisonVerdicts {policy : Policy} {tags : Tags} {rows : List Json} {row : Json}
    {verdict : Verdict} :
    verdict ∈ comparisonVerdicts py policy tags rows row ↔
      (∃ fields, row = .obj fields ∧ ∃ field ∈ fields, verdict = verdictOn (some field.1)
        (comparisonReason py policy tags rows field.1 field.2)) ∨
      row.isDict = false ∧ verdict = anonymous := by
  cases row with
  | obj fields =>
    simp only [comparisonVerdicts, List.mem_map, Json.obj.injEq, Json.isDict, Bool.true_eq_false,
      false_and, or_false, exists_eq_left']
    exact exists_congr fun field => and_congr_right fun _ => eq_comm
  | _ => simp [comparisonVerdicts, Json.isDict]

section Entries
variable (displayed : Option Text) (testedColumn : Option Text) (policy : Policy) (tags : Tags)
  (summaries : Option Json)

theorem entryVerdicts_list {key : Text} (hsummary : key ≠ valueSignalSummaryKey)
    (hstatus : key ≠ valueSignalStatusKey) (values : List Json) :
    entryVerdicts py displayed testedColumn policy tags summaries key (.arr values) =
      if key = indexListKey then
        if counts displayed key then
          (values.take sampleRowCap).flatMap
            (rowVerdicts py testedColumn policy tags values summaries)
        else []
      else if key = partialListKey then
        if !counts displayed key then []
        else if holdsRows values then
          (values.take sampleRowCap).flatMap
            (rowVerdicts py testedColumn policy tags values summaries)
        else [plainVerdict py testedColumn policy tags summaries values]
      else if comparisonSampleKeys.contains key then
        (values.take sampleRowCap).flatMap (comparisonVerdicts py policy tags values)
      else [anonymous] := by
  unfold entryVerdicts
  rw [if_neg (by simp [hsummary, hstatus]), if_neg (by simp [isSafeSummary, capRows])]

theorem entryVerdicts_index (values : List Json) :
    entryVerdicts py displayed testedColumn policy tags summaries indexListKey (.arr values) =
      if counts displayed indexListKey then
        (values.take sampleRowCap).flatMap (rowVerdicts py testedColumn policy tags values summaries)
      else [] := by
  rw [entryVerdicts_list py _ _ _ _ _ (by decide) (by decide), if_pos rfl]

theorem entryVerdicts_values (values : List Json) :
    entryVerdicts py displayed testedColumn policy tags summaries partialListKey (.arr values) =
      if !counts displayed partialListKey then []
      else if holdsRows values then
        (values.take sampleRowCap).flatMap (rowVerdicts py testedColumn policy tags values summaries)
      else [plainVerdict py testedColumn policy tags summaries values] := by
  rw [entryVerdicts_list py _ _ _ _ _ (by decide) (by decide), if_neg (by decide), if_pos rfl]

theorem entryVerdicts_bucket {key : Text} (h : key ∈ comparisonSampleKeys) (values : List Json) :
    entryVerdicts py displayed testedColumn policy tags summaries key (.arr values) =
      (values.take sampleRowCap).flatMap (comparisonVerdicts py policy tags values) := by
  have hkeys : ∀ key ∈ comparisonSampleKeys, key ≠ valueSignalSummaryKey ∧
      key ≠ valueSignalStatusKey ∧ key ≠ indexListKey ∧ key ≠ partialListKey := by decide
  obtain ⟨hsummary, hstatus, hindex, hpartial⟩ := hkeys key h
  rw [entryVerdicts_list py _ _ _ _ _ hsummary hstatus, if_neg hindex, if_neg hpartial,
    if_pos (List.contains_iff_mem.mpr h)]

theorem entryVerdicts_other {key : Text} {raw : Json} (hsummary : key ≠ valueSignalSummaryKey)
    (hstatus : key ≠ valueSignalStatusKey) (hsafe : isSafeSummary key (capRows raw) = false)
    (h : (∀ values, raw ≠ .arr values) ∨
      key ≠ indexListKey ∧ key ≠ partialListKey ∧ key ∉ comparisonSampleKeys) :
    entryVerdicts py displayed testedColumn policy tags summaries key raw = [anonymous] := by
  unfold entryVerdicts
  rw [if_neg (by simp [hsummary, hstatus]), if_neg (by simp [hsafe])]
  cases raw with
  | arr values =>
    obtain hnone | ⟨hindex, hpartial, hbucket⟩ := h
    · exact absurd rfl (hnone values)
    · dsimp only
      rw [if_neg hindex, if_neg hpartial, if_neg (by simpa using hbucket)]
  | _ => rfl

end Entries

theorem mem_flatMap_rowVerdicts {testedColumn : Option Text} {policy : Policy} {tags : Tags}
    {rows : List Json} {summaries : Option Json} {verdict : Verdict} :
    verdict ∈ (rows.take sampleRowCap).flatMap
        (rowVerdicts py testedColumn policy tags rows summaries) ↔
      (∃ fields, .obj fields ∈ rows.take sampleRowCap ∧ ∃ field ∈ fields,
        verdict = verdictOn (some field.1)
          (cellReason py testedColumn policy tags rows summaries field.1 field.2)) ∨
      ∃ row ∈ rows.take sampleRowCap, row.isDict = false ∧ verdict = anonymous := by
  simp only [List.mem_flatMap, mem_rowVerdicts]
  constructor
  · rintro ⟨row, hrow, ⟨fields, rfl, hfield⟩ | hother⟩
    · exact .inl ⟨fields, hrow, hfield⟩
    · exact .inr ⟨row, hrow, hother⟩
  · rintro (⟨fields, hrow, hfield⟩ | ⟨row, hrow, hother⟩)
    · exact ⟨_, hrow, .inl ⟨fields, rfl, hfield⟩⟩
    · exact ⟨row, hrow, .inr hother⟩

theorem mem_flatMap_comparisonVerdicts {policy : Policy} {tags : Tags} {rows : List Json}
    {verdict : Verdict} :
    verdict ∈ (rows.take sampleRowCap).flatMap (comparisonVerdicts py policy tags rows) ↔
      (∃ fields, .obj fields ∈ rows.take sampleRowCap ∧ ∃ field ∈ fields,
        verdict = verdictOn (some field.1)
          (comparisonReason py policy tags rows field.1 field.2)) ∨
      ∃ row ∈ rows.take sampleRowCap, row.isDict = false ∧ verdict = anonymous := by
  simp only [List.mem_flatMap, mem_comparisonVerdicts]
  constructor
  · rintro ⟨row, hrow, ⟨fields, rfl, hfield⟩ | hother⟩
    · exact .inl ⟨fields, hrow, hfield⟩
    · exact .inr ⟨row, hrow, hother⟩
  · rintro (⟨fields, hrow, hfield⟩ | ⟨row, hrow, hother⟩)
    · exact ⟨_, hrow, .inl ⟨fields, rfl, hfield⟩⟩
    · exact ⟨row, hrow, .inr hother⟩

/-- What is recorded is what counts. -/
theorem mem_sampleVerdicts {sample : Fields} {testedColumn : Option Text} {policy : Policy}
    {tags : Tags} (hfilled : PlainFilled sample) {verdict : Verdict} :
    verdict ∈ sampleVerdicts py sample testedColumn policy tags ↔
      (∃ column reason, Counted py testedColumn policy tags sample column reason ∧
        verdict = verdictOn (some column) reason) ∨
      MaskedElsewhere testedColumn sample ∧ verdict = anonymous := by
  unfold sampleVerdicts
  rw [List.mem_flatMap]
  constructor
  · rintro ⟨⟨key, raw⟩, hentry, hverdict⟩
    dsimp only at hverdict
    by_cases hsummary : key = valueSignalSummaryKey
    · simp [entryVerdicts, hsummary] at hverdict
    by_cases hstatus : key = valueSignalStatusKey
    · simp [entryVerdicts, hstatus] at hverdict
    by_cases hsafe : isSafeSummary key (capRows raw) = true
    · simp [entryVerdicts, hsummary, hstatus, hsafe] at hverdict
    rw [Bool.not_eq_true] at hsafe
    by_cases hother : (∀ values, raw ≠ .arr values) ∨
        key ≠ indexListKey ∧ key ≠ partialListKey ∧ key ∉ comparisonSampleKeys
    · rw [entryVerdicts_other py _ _ _ _ _ hsummary hstatus hsafe hother,
        List.mem_singleton] at hverdict
      exact .inr ⟨.entry hentry hsummary hstatus hsafe hother, hverdict⟩
    · have hlist : ∃ values, raw = .arr values := by
        by_contra hnone
        exact hother (.inl fun values hvalues => hnone ⟨values, hvalues⟩)
      obtain ⟨values, rfl⟩ := hlist
      by_cases hindex : key = indexListKey
      · subst hindex
        rw [entryVerdicts_index] at hverdict
        by_cases hcounts : counts (displayedSampleKey sample) indexListKey = true
        · rw [if_pos hcounts, mem_flatMap_rowVerdicts] at hverdict
          obtain ⟨fields, hrow, field, hfield, rfl⟩ | ⟨row, hrow, hdict, rfl⟩ := hverdict
          · exact .inl ⟨_, _, .row (.inl rfl) ⟨hentry, hcounts⟩ hrow hfield, rfl⟩
          · exact .inr ⟨.row (.inl rfl) ⟨hentry, hcounts⟩ hrow hdict, rfl⟩
        · rw [if_neg hcounts] at hverdict
          exact absurd hverdict List.not_mem_nil
      · by_cases hpartial : key = partialListKey
        · subst hpartial
          rw [entryVerdicts_values] at hverdict
          by_cases hcounts : counts (displayedSampleKey sample) partialListKey = true
          · rw [if_neg (by simp [hcounts])] at hverdict
            by_cases hrows : holdsRows values = true
            · rw [if_pos hrows, mem_flatMap_rowVerdicts] at hverdict
              obtain ⟨fields, hrow, field, hfield, rfl⟩ | ⟨row, hrow, hdict, rfl⟩ := hverdict
              · exact .inl ⟨_, _, .row (.inr ⟨rfl, hrows⟩) ⟨hentry, hcounts⟩ hrow hfield, rfl⟩
              · exact .inr ⟨.row (.inr ⟨rfl, hrows⟩) ⟨hentry, hcounts⟩ hrow hdict, rfl⟩
            · rw [if_neg hrows, List.mem_singleton] at hverdict
              rw [Bool.not_eq_true] at hrows
              obtain ⟨value, rest, hvalues⟩ :=
                List.exists_cons_of_ne_nil (hfilled values ⟨hentry, hcounts⟩)
              have hvalue : value ∈ values.take sampleRowCap := by
                rw [hvalues]
                exact List.mem_cons_self
              cases htested : testedColumn with
              | none =>
                rw [htested] at hverdict
                exact .inr ⟨.plain ⟨hentry, hcounts⟩ hrows rfl hvalue, hverdict⟩
              | some column =>
                rw [htested] at hverdict
                exact .inl ⟨_, _, .plain ⟨hentry, hcounts⟩ hrows rfl hvalue, hverdict⟩
          · rw [if_pos (by simp [hcounts])] at hverdict
            exact absurd hverdict List.not_mem_nil
        · have hbucket : key ∈ comparisonSampleKeys := by
            by_contra hnot
            exact hother (.inr ⟨hindex, hpartial, hnot⟩)
          rw [entryVerdicts_bucket py _ _ _ _ _ hbucket, mem_flatMap_comparisonVerdicts] at hverdict
          obtain ⟨fields, hrow, field, hfield, rfl⟩ | ⟨row, hrow, hdict, rfl⟩ := hverdict
          · exact .inl ⟨_, _, .bucket hbucket hentry hrow hfield, rfl⟩
          · exact .inr ⟨.bucket hbucket hentry hrow hdict, rfl⟩
  · rintro (⟨column, reason, hcounted, rfl⟩ | ⟨helsewhere, rfl⟩)
    · cases hcounted with
      | @row key rows fields field hkey hrows hrow hfield =>
        refine ⟨(key, .arr rows), hrows.1, ?_⟩
        obtain rfl | ⟨rfl, hholds⟩ := hkey
        · rw [entryVerdicts_index, if_pos hrows.2, mem_flatMap_rowVerdicts]
          exact .inl ⟨fields, hrow, field, hfield, rfl⟩
        · rw [entryVerdicts_values, if_neg (by simp [hrows.2]), if_pos hholds,
            mem_flatMap_rowVerdicts]
          exact .inl ⟨fields, hrow, field, hfield, rfl⟩
      | @plain _ values value hvalues hholds htested hvalue =>
        refine ⟨(partialListKey, .arr values), hvalues.1, ?_⟩
        rw [entryVerdicts_values, if_neg (by simp [hvalues.2]), if_neg (by simp [hholds]), htested]
        exact List.mem_singleton_self _
      | @bucket key rows fields field hkey hentry hrow hfield =>
        refine ⟨(key, .arr rows), hentry, ?_⟩
        rw [entryVerdicts_bucket py _ _ _ _ _ hkey, mem_flatMap_comparisonVerdicts]
        exact .inl ⟨fields, hrow, field, hfield, rfl⟩
    · cases helsewhere with
      | @row key rows row hkey hrows hrow hdict =>
        refine ⟨(key, .arr rows), hrows.1, ?_⟩
        obtain rfl | ⟨rfl, hholds⟩ := hkey
        · rw [entryVerdicts_index, if_pos hrows.2, mem_flatMap_rowVerdicts]
          exact .inr ⟨row, hrow, hdict, rfl⟩
        · rw [entryVerdicts_values, if_neg (by simp [hrows.2]), if_pos hholds,
            mem_flatMap_rowVerdicts]
          exact .inr ⟨row, hrow, hdict, rfl⟩
      | @plain values value hvalues hholds htested hvalue =>
        refine ⟨(partialListKey, .arr values), hvalues.1, ?_⟩
        rw [entryVerdicts_values, if_neg (by simp [hvalues.2]), if_neg (by simp [hholds]), htested]
        exact List.mem_singleton_self _
      | @bucket key rows row hkey hentry hrow hdict =>
        refine ⟨(key, .arr rows), hentry, ?_⟩
        rw [entryVerdicts_bucket py _ _ _ _ _ hkey, mem_flatMap_comparisonVerdicts]
        exact .inr ⟨row, hrow, hdict, rfl⟩
      | @entry key raw hentry hsummary hstatus hsafe hother =>
        refine ⟨(key, raw), hentry, ?_⟩
        rw [entryVerdicts_other py _ _ _ _ _ hsummary hstatus hsafe hother]
        exact List.mem_singleton_self _

/-! ## What is reported -/

open RedactionTracker

theorem summary_columns (tracker : RedactionTracker) : tracker.summary.2 = tracker.maskedColumns := by
  unfold summary
  dsimp only
  split
  · next hneither =>
    have hall : (tracker.columnState.any fun entry => !entry.2) = false := by
      simp only [Bool.and_eq_true, Bool.not_eq_true', Bool.or_eq_false_iff] at hneither
      exact hneither.2.1
    have hnone : tracker.columnState.filter (fun entry => !entry.2) = [] := by
      rw [List.any_eq_false] at hall
      exact List.filter_eq_nil_iff.mpr hall
    unfold maskedColumns
    rw [hnone]
    rfl
  · split
    · rfl
    · split <;> rfl

/-- The state tells whether anything was shown and whether anything was masked. -/
theorem summary_state (tracker : RedactionTracker) :
    let shown := ∃ column, (column, true) ∈ tracker.columnState
    let masked := (∃ column, column ∈ tracker.maskedColumns) ∨ tracker.anonymousMasked = true
    (tracker.summary.1 = none ↔ ¬ shown ∧ ¬ masked) ∧
      (tracker.summary.1 = some .full ↔ ¬ shown ∧ masked) ∧
      (tracker.summary.1 = some .none ↔ shown ∧ ¬ masked) ∧
      (tracker.summary.1 = some .part ↔ shown ∧ masked) := by
  intro shown masked
  have hshown : (tracker.columnState.any fun entry => entry.2) = true ↔ shown := by
    rw [List.any_eq_true]
    constructor
    · rintro ⟨⟨column, state⟩, hmem, hstate⟩
      obtain rfl : state = true := hstate
      exact ⟨column, hmem⟩
    · rintro ⟨column, hmem⟩
      exact ⟨(column, true), hmem, rfl⟩
  have hmasked : ((tracker.columnState.any fun entry => !entry.2) || tracker.anonymousMasked) =
      true ↔ masked := by
    rw [Bool.or_eq_true, List.any_eq_true]
    refine or_congr_left ?_
    constructor
    · rintro ⟨⟨column, state⟩, hmem, hstate⟩
      obtain rfl : state = false := by simpa using hstate
      exact ⟨column, mem_maskedColumns.mpr hmem⟩
    · rintro ⟨column, hmem⟩
      exact ⟨(column, false), mem_maskedColumns.mp hmem, rfl⟩
  rw [← hshown, ← hmasked]
  unfold summary
  generalize (tracker.columnState.any fun entry => entry.2) = a
  generalize ((tracker.columnState.any fun entry => !entry.2) || tracker.anonymousMasked) = b
  cases a <;> cases b <;> simp

section Reports
variable {sample : Fields} {testedColumn : Option Text} {policy : Policy} {tags : Tags}

theorem any_named_iff (hfilled : PlainFilled sample) (column : Text) :
    (sampleVerdicts py sample testedColumn policy tags).any (named column) = true ↔
      ∃ reason, Counted py testedColumn policy tags sample column reason := by
  rw [List.any_eq_true]
  constructor
  · rintro ⟨verdict, hmem, hnamed⟩
    have hcolumn : verdict.column = some column := of_decide_eq_true hnamed
    obtain ⟨other, reason, hcounted, rfl⟩ | ⟨-, rfl⟩ := (mem_sampleVerdicts py hfilled).mp hmem
    · obtain rfl := Option.some.inj hcolumn
      exact ⟨reason, hcounted⟩
    · exact nomatch hcolumn
  · rintro ⟨reason, hcounted⟩
    exact ⟨_, (mem_sampleVerdicts py hfilled).mpr (.inl ⟨column, reason, hcounted, rfl⟩),
      decide_eq_true rfl⟩

theorem any_shown_iff (hfilled : PlainFilled sample) (column : Text) :
    ((sampleVerdicts py sample testedColumn policy tags).any fun verdict =>
        named column verdict && verdict.shown) = true ↔
      Counted py testedColumn policy tags sample column none := by
  rw [List.any_eq_true]
  constructor
  · rintro ⟨verdict, hmem, hnamed⟩
    rw [Bool.and_eq_true] at hnamed
    obtain ⟨hnamed, hshown⟩ := hnamed
    have hcolumn : verdict.column = some column := of_decide_eq_true hnamed
    obtain ⟨other, reason, hcounted, rfl⟩ | ⟨-, rfl⟩ := (mem_sampleVerdicts py hfilled).mp hmem
    · obtain rfl := Option.some.inj hcolumn
      obtain rfl := Option.isNone_iff_eq_none.mp hshown
      exact hcounted
    · exact nomatch hcolumn
  · intro hcounted
    refine ⟨_, (mem_sampleVerdicts py hfilled).mpr (.inl ⟨column, none, hcounted, rfl⟩), ?_⟩
    rw [Bool.and_eq_true]
    exact ⟨decide_eq_true rfl, rfl⟩

theorem any_nameless_iff (hfilled : PlainFilled sample)
    (hnames : ∀ column reason, Counted py testedColumn policy tags sample column reason →
      column ≠ []) :
    ((sampleVerdicts py sample testedColumn policy tags).any fun verdict =>
        nameless verdict && !verdict.shown) = true ↔ MaskedElsewhere testedColumn sample := by
  rw [List.any_eq_true]
  constructor
  · rintro ⟨verdict, hmem, hnameless⟩
    rw [Bool.and_eq_true] at hnameless
    obtain ⟨column, reason, hcounted, rfl⟩ | ⟨helsewhere, -⟩ :=
      (mem_sampleVerdicts py hfilled).mp hmem
    · exact absurd (of_decide_eq_true hnameless.1) (hnames column reason hcounted)
    · exact helsewhere
  · intro helsewhere
    exact ⟨anonymous, (mem_sampleVerdicts py hfilled).mpr (.inr ⟨helsewhere, rfl⟩), rfl⟩

end Reports

/-- A list of amounts. -/
def amounts : Fields := [(partialListKey, .arr [.num (.ofNat 5)])]

theorem counted_amounts {policy : Policy} {column : Text} {reason : Option RedactionReason}
    (h : Counted asciiPython (some "amount".toList) policy {} amounts column reason) :
    column = "amount".toList ∧ reason = knownSensitiveReason asciiPython "amount".toList
      [.num (.ofNat 5)] policy {} none := by
  have hlist : ∀ {key : Text} {rows : List Json}, (key, Json.arr rows) ∈ amounts →
      key = partialListKey ∧ rows = [.num (.ofNat 5)] := by
    intro key rows hmem
    obtain ⟨hkey, hrows⟩ := Prod.mk.inj (List.mem_singleton.mp hmem)
    exact ⟨hkey, Json.arr.inj hrows⟩
  cases h with
  | row hkey hrows hrow =>
    obtain ⟨rfl, rfl⟩ := hlist hrows.1
    exact absurd (List.mem_singleton.mp hrow) nofun
  | plain hvalues _ htested =>
    obtain ⟨-, rfl⟩ := hlist hvalues.1
    obtain rfl := Option.some.inj htested
    exact ⟨rfl, rfl⟩
  | bucket hkey hentry =>
    obtain ⟨rfl, -⟩ := hlist hentry
    exact absurd hkey (by decide)

end DataQ.Redaction
