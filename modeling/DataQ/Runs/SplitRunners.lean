import DataQ.Foundations.Groups
import DataQ.Runs.Phases

/-! # Runners that split their batch

`datasources/generic_sql.py`, `datasources/flatfile.py`, `datasources/unity_catalog.py`,
`datasources/sampling.py`: a batch of expectations is evaluated in groups of positions, and the
groups' outcomes are put back in submission order. -/

namespace DataQ.Runs
open DataQ.Partition DataQ.Groups
set_option autoImplicit false

/-- A call that answers a list of specs. -/
abbrev Hook := List Check → Answer (List CheckOutcome)

/-- One outcome for each spec, or a raise. -/
def Honours (hook : Hook) : Prop :=
  ∀ specs outcomes, hook specs = .ok outcomes → outcomes.length = specs.length

/-- One outcome for each spec, and never a raise. -/
def Serves (hook : Hook) : Prop :=
  ∀ specs, ∃ outcomes, hook specs = .ok outcomes ∧ outcomes.length = specs.length

def zipMismatch : String := "zip() arguments have different lengths"

def keyError : String := "KeyError"

/-- The checks that a predicate selects, given to a hook together. -/
def part (checks : List Check) (p : Check → Bool) (hook : Hook) : Group String CheckOutcome :=
  ⟨indices checks p, hook (pick checks (indices checks p))⟩

/-! ## The SQL engines -/

/-- `spec.expectation_type in temp_types`. -/
def isTemp (tempTypes : List String) (c : Check) : Bool := tempTypes.contains c.expectationType

/-- `GenericSqlCheckRunner._run_checks`; `runBatch` is told whether the session is read-only. -/
def sqlRunChecks (tempTypes : List String) (runBatch : Bool → Hook) (checks : List Check) :
    Answer (List CheckOutcome) :=
  let writable := indices checks (isTemp tempTypes)
  if writable = [] then runBatch true checks
  else
    let guarded := (List.range checks.length).filter fun i => !writable.contains i
    let groups := [(guarded, true), (writable, false)].filter fun group => group.1 ≠ []
    collect zipMismatch keyError checks.length
      (groups.map fun group => ⟨group.1, runBatch group.2 (pick checks group.1)⟩)

/-! ## Sampled datasets -/

def rowCountExpectationTypes : List String :=
  ["expect_table_row_count_to_be_between", "expect_table_row_count_to_equal",
    "expect_table_row_count_to_equal_other_table"]

def isRowCount (c : Check) : Bool := rowCountExpectationTypes.contains c.expectationType

def samplingRowCountConflict : String :=
  "a table row-count expectation cannot run against a sampled dataset — it would measure the " ++
    "SAMPLE and report it as the dataset's size (a 100k sample of a 5M-row table reads as 100k " ++
    "rows). Use a volume monitor, which counts the whole dataset without loading it, or drop the " ++
    "sampling block from the suite's run target."

def refusal (c : Check) : CheckOutcome := missingOutcome c samplingRowCountConflict

/-- The runnable positions, and the refusals keyed by position. -/
def splitRowCountChecks (checks : List Check) : List ℕ × List (ℕ × CheckOutcome) :=
  (indices checks fun c => !isRowCount c,
    (checks.zipIdx.filter fun x => isRowCount x.1).map fun x => (x.2, refusal x.1))

/-- `merge_by_position`. -/
def mergeByPosition (total : ℕ) (groups : List (Group String CheckOutcome)) :
    Answer (List CheckOutcome) :=
  collect zipMismatch keyError total groups

/-- The flat-file runner's `run_checks`. -/
def fileRunChecks (sampled : Bool) (runExpectations : Hook) (checks : List Check) :
    Answer (List CheckOutcome) :=
  let (runnable, refused) :=
    if sampled then splitRowCountChecks checks else (List.range checks.length, [])
  let answer := runExpectations (pick checks runnable)
  if refused = [] then answer
  else
    mergeByPosition checks.length
      [⟨runnable, answer⟩, ⟨refused.map Prod.fst, .ok (refused.map Prod.snd)⟩]

def sqlPushdownExpectationTypes : List String :=
  ["expect_column_values_to_not_be_null", "expect_column_values_to_be_unique",
    "expect_column_values_to_be_between", "expect_column_values_to_be_in_set",
    "expect_column_value_lengths_to_be_between", "expect_column_values_to_match_regex",
    "expect_table_row_count_to_be_between", "expect_column_values_to_be_null",
    "expect_column_values_to_not_be_in_set", "expect_column_value_lengths_to_equal",
    "expect_column_values_to_not_match_regex", "expect_column_values_to_match_regex_list",
    "expect_column_values_to_not_match_regex_list", "expect_column_pair_values_to_be_equal",
    "expect_column_pair_values_to_be_in_set",
    "expect_column_pair_values_a_to_be_greater_than_b", "expect_multicolumn_sum_to_equal",
    "expect_select_column_values_to_be_unique_within_record",
    "expect_column_distinct_values_to_be_in_set", "expect_column_distinct_values_to_contain_set",
    "expect_compound_columns_to_be_unique"]

def routesToSql (pushdownOn : Bool) (c : Check) : Bool :=
  c.expectationType = customSqlExpectationType ||
    (pushdownOn && sqlPushdownExpectationTypes.contains c.expectationType)

/-- The Unity Catalog runner's `run_checks`. -/
def ucRunChecks (sampled pushdownOn : Bool) (runFrame runSql : Hook) (checks : List Check) :
    Answer (List CheckOutcome) :=
  let sqlPositions := indices checks (routesToSql pushdownOn)
  let framePositions := indices checks fun c => !routesToSql pushdownOn c
  let (keep, refused) :=
    if sampled && framePositions ≠ [] then splitRowCountChecks (pick checks framePositions)
    else (List.range framePositions.length, [])
  let kept := if refused = [] then framePositions else pick framePositions keep
  let groups : List (Group String CheckOutcome) :=
    [⟨pick framePositions (refused.map Prod.fst), .ok (refused.map Prod.snd)⟩,
      ⟨kept, runFrame (pick checks kept)⟩, ⟨sqlPositions, runSql (pick checks sqlPositions)⟩]
  mergeByPosition checks.length (groups.filter fun group => group.positions ≠ [])

/-! ## Each outcome is its check's own -/

/-- One outcome for each check, at its place, as `computed` says. -/
def EachFrom (computed : Check → ℕ → CheckOutcome → Prop) (checks : List Check)
    (outcomes : List CheckOutcome) : Prop :=
  outcomes.length = checks.length ∧
    ∀ i outcome, outcomes[i]? = some outcome → ∃ c, checks[i]? = some c ∧ computed c i outcome

theorem part_true (checks : List Check) (hook : Hook) :
    part checks (fun _ => true) hook = ⟨List.range checks.length, hook checks⟩ := by
  rw [part, indices_true, pick_range]

/-- A whole batch is one group. -/
theorem answers_whole {checks : List Check} {hook : Hook} (hhook : Honours hook)
    {outcomes : List CheckOutcome} (h : hook checks = .ok outcomes) :
    EachFrom (fun _ => (part checks (fun _ => true) hook).Answers) checks outcomes := by
  have hlength := hhook checks outcomes h
  refine ⟨hlength, ?_⟩
  intro i outcome hi
  have hlt : i < checks.length := by
    rw [← hlength]
    exact (List.getElem?_eq_some_iff.mp hi).1
  refine ⟨checks.get ⟨i, hlt⟩, List.getElem?_eq_getElem hlt, ?_⟩
  rw [part_true]
  exact ⟨outcomes, i, h, by simp [hlt], hi⟩

/-- The check's own group: those that need a writable session apart from the others. -/
def sqlComputed (tempTypes : List String) (runBatch : Bool → Hook) (checks : List Check)
    (c : Check) : ℕ → CheckOutcome → Prop :=
  (part checks (fun other => isTemp tempTypes other == isTemp tempTypes c)
    (runBatch (!isTemp tempTypes c))).Answers

theorem part_congr {checks : List Check} {p q : Check → Bool} (hook : Hook)
    (h : ∀ c ∈ checks, p c = q c) : part checks p hook = part checks q hook := by
  rw [part, part, indices_congr h]

theorem sqlRunChecks_each {tempTypes : List String} {runBatch : Bool → Hook}
    (hbatch : ∀ readOnly, Honours (runBatch readOnly)) {checks : List Check}
    {outcomes : List CheckOutcome} (h : sqlRunChecks tempTypes runBatch checks = .ok outcomes) :
    EachFrom (sqlComputed tempTypes runBatch checks) checks outcomes := by
  simp only [sqlRunChecks, filter_range_indices] at h
  split at h
  · next hnone =>
    have hplain : ∀ c ∈ checks, isTemp tempTypes c = false := by
      intro c hc
      by_contra htemp
      obtain ⟨i, hi⟩ := List.mem_iff_getElem?.mp hc
      have hmem : i ∈ indices checks (isTemp tempTypes) :=
        mem_indices.mpr ⟨c, hi, by simpa using htemp⟩
      rw [hnone] at hmem
      cases hmem
    obtain ⟨hlength, hat⟩ := answers_whole (hbatch true) h
    refine ⟨hlength, fun i outcome hi => ?_⟩
    obtain ⟨c, hc, hanswers⟩ := hat i outcome hi
    refine ⟨c, hc, ?_⟩
    have hself := hplain c (List.mem_of_getElem? hc)
    rw [sqlComputed, hself, part_congr _ fun other hother => by
      rw [hplain other hother]]
    exact hanswers
  · obtain ⟨hlength, hat⟩ := collect_answers h
    refine ⟨hlength, fun i outcome hi => ?_⟩
    obtain ⟨group, hgroup, hanswers⟩ := hat i outcome hi
    obtain ⟨⟨positions, readOnly⟩, hside, rfl⟩ := List.mem_map.mp hgroup
    have hmem : i ∈ positions := hanswers.mem
    have hsides := (List.mem_filter.mp hside).1
    simp only [List.mem_cons, Prod.mk.injEq, List.not_mem_nil, or_false] at hsides
    obtain ⟨rfl, rfl⟩ | ⟨rfl, rfl⟩ := hsides
    · obtain ⟨c, hc, hguarded⟩ := mem_indices.mp hmem
      rw [Bool.not_eq_true'] at hguarded
      refine ⟨c, hc, ?_⟩
      rw [sqlComputed, hguarded, part_congr _ (q := fun other => !isTemp tempTypes other)
        fun other _ => by simp]
      exact hanswers
    · obtain ⟨c, hc, hwritable⟩ := mem_indices.mp hmem
      refine ⟨c, hc, ?_⟩
      rw [sqlComputed, hwritable, part_congr _ (q := isTemp tempTypes) fun other _ => by simp]
      exact hanswers

theorem mem_refused {checks : List Check} {i : ℕ} {outcome : CheckOutcome}
    (h : (i, outcome) ∈ (splitRowCountChecks checks).2) :
    ∃ c, checks[i]? = some c ∧ isRowCount c = true ∧ outcome = refusal c := by
  obtain ⟨⟨c, j⟩, hrow, heq⟩ := List.mem_map.mp h
  obtain ⟨hmem, hcount⟩ := List.mem_filter.mp hrow
  obtain ⟨rfl, rfl⟩ := Prod.mk.inj heq
  exact ⟨c, List.mem_zipIdx_iff_getElem?.mp hmem, hcount, rfl⟩

theorem runnable_positions (checks : List Check) :
    (splitRowCountChecks checks).1 = indices checks fun c => !isRowCount c := rfl

theorem refused_positions (checks : List Check) :
    (splitRowCountChecks checks).2.map Prod.fst = indices checks isRowCount := by
  simp only [splitRowCountChecks, List.map_map, indices]
  rfl

/-- A refused check of a sampled dataset has its refusal, another what its group answered. -/
def fileComputed (sampled : Bool) (runExpectations : Hook) (checks : List Check) (c : Check)
    (i : ℕ) (outcome : CheckOutcome) : Prop :=
  if sampled && isRowCount c then outcome = refusal c
  else (part checks (fun other => !(sampled && isRowCount other)) runExpectations).Answers i outcome

theorem answers_refused {refused : List (ℕ × CheckOutcome)} {i : ℕ} {outcome : CheckOutcome}
    (h : (⟨refused.map Prod.fst, .ok (refused.map Prod.snd)⟩ : Group String CheckOutcome).Answers i
      outcome) : (i, outcome) ∈ refused := by
  obtain ⟨outcomes, k, hok, hpos, hout⟩ := h
  obtain rfl := Except.ok.inj hok
  simp only [List.getElem?_map, Option.map_eq_some_iff] at hpos hout
  obtain ⟨pair, hpair, rfl⟩ := hpos
  obtain ⟨pair', hpair', rfl⟩ := hout
  obtain rfl := Option.some.inj (hpair.symm.trans hpair')
  exact List.mem_of_getElem? hpair

theorem isRowCount_of_refused_nil {checks : List Check} (h : (splitRowCountChecks checks).2 = []) :
    ∀ c ∈ checks, isRowCount c = false := by
  intro c hc
  by_contra hcount
  obtain ⟨i, hi⟩ := List.mem_iff_getElem?.mp hc
  have hmem : i ∈ (splitRowCountChecks checks).2.map Prod.fst := by
    rw [refused_positions]
    exact mem_indices.mpr ⟨c, hi, by simpa using hcount⟩
  rw [h] at hmem
  cases hmem

theorem fileRunChecks_each {sampled : Bool} {runExpectations : Hook}
    (hhook : Honours runExpectations) {checks : List Check} {outcomes : List CheckOutcome}
    (h : fileRunChecks sampled runExpectations checks = .ok outcomes) :
    EachFrom (fileComputed sampled runExpectations checks) checks outcomes := by
  have hwhole : ∀ outcomes, runExpectations checks = .ok outcomes →
      (∀ c ∈ checks, (sampled && isRowCount c) = false) →
      EachFrom (fileComputed sampled runExpectations checks) checks outcomes := by
    intro outcomes hanswer hnone
    obtain ⟨hlength, hat⟩ := answers_whole hhook hanswer
    refine ⟨hlength, fun i outcome hi => ?_⟩
    obtain ⟨c, hc, hanswers⟩ := hat i outcome hi
    refine ⟨c, hc, ?_⟩
    have hself := hnone c (List.mem_of_getElem? hc)
    rw [fileComputed, if_neg (by simp [hself]),
      part_congr _ (q := fun _ => true) fun other hother => by rw [hnone other hother, Bool.not_false]]
    exact hanswers
  cases sampled with
  | false =>
    simp only [fileRunChecks, Bool.false_eq_true, if_false, if_true, pick_range] at h
    exact hwhole outcomes h fun c _ => rfl
  | true =>
    simp only [fileRunChecks, if_true] at h
    split at h
    · next hrefused =>
      have hplain := isRowCount_of_refused_nil hrefused
      have hall : (splitRowCountChecks checks).1 = List.range checks.length := by
        rw [← indices_true checks, runnable_positions]
        exact indices_congr fun c hc => by rw [hplain c hc, Bool.not_false]
      rw [hall, pick_range] at h
      exact hwhole outcomes h fun c hc => by rw [hplain c hc, Bool.and_false]
    · obtain ⟨hlength, hat⟩ := collect_answers h
      refine ⟨hlength, fun i outcome hi => ?_⟩
      obtain ⟨group, hgroup, hanswers⟩ := hat i outcome hi
      simp only [List.mem_cons, List.not_mem_nil, or_false] at hgroup
      obtain rfl | rfl := hgroup
      · have hmem : i ∈ indices checks fun c => !isRowCount c := hanswers.mem
        obtain ⟨c, hc, hcount⟩ := mem_indices.mp hmem
        rw [Bool.not_eq_true'] at hcount
        refine ⟨c, hc, ?_⟩
        rw [fileComputed, if_neg (by simp [hcount])]
        exact hanswers
      · obtain ⟨c, hc, hcount, houtcome⟩ := mem_refused (answers_refused hanswers)
        refine ⟨c, hc, ?_⟩
        rw [fileComputed, if_pos (by simp [hcount])]
        exact houtcome

/-- A check goes to the SQL batch, is refused, or goes to the frame. -/
def ucComputed (sampled pushdownOn : Bool) (runFrame runSql : Hook) (checks : List Check) (c : Check)
    (i : ℕ) (outcome : CheckOutcome) : Prop :=
  if routesToSql pushdownOn c then
    (part checks (routesToSql pushdownOn) runSql).Answers i outcome
  else if sampled && isRowCount c then outcome = refusal c
  else
    (part checks (fun other => !routesToSql pushdownOn other && !(sampled && isRowCount other))
      runFrame).Answers i outcome

/-- The frame's positions, less the refused. -/
theorem kept_positions (sampled pushdownOn : Bool) (checks : List Check) :
    let framePositions := indices checks fun c => !routesToSql pushdownOn c
    let split := if sampled && framePositions ≠ [] then
        splitRowCountChecks (pick checks framePositions)
      else (List.range framePositions.length, [])
    (if split.2 = [] then framePositions else pick framePositions split.1) =
      indices checks fun c => !routesToSql pushdownOn c && !(sampled && isRowCount c) := by
  intro framePositions split
  by_cases hsplit : (sampled && framePositions ≠ []) = true
  · have hsplit' : split = splitRowCountChecks (pick checks framePositions) := if_pos hsplit
    obtain ⟨hsampled, _⟩ := Bool.and_eq_true_iff.mp hsplit
    rw [hsplit']
    split_ifs with hrefused
    · have hplain := isRowCount_of_refused_nil hrefused
      refine indices_congr fun c hc => ?_
      cases hroutes : routesToSql pushdownOn c with
      | true => rfl
      | false =>
        have hframe : c ∈ pick checks framePositions := by
          rw [pick_indices]
          exact List.mem_filter.mpr ⟨hc, by simp [hroutes]⟩
        simp [hplain c hframe]
    · rw [splitRowCountChecks, indices_pick]
      simp [hsampled]
  · have hsplit' : split = (List.range framePositions.length, []) := if_neg hsplit
    rw [hsplit', if_pos rfl]
    rw [Bool.and_eq_true, not_and_or, Bool.not_eq_true] at hsplit
    obtain hsampled | hempty := hsplit
    · exact indices_congr fun c _ => by simp [hsampled]
    · have hnil : framePositions = [] := by simpa using hempty
      rw [hnil, eq_comm, List.eq_nil_iff_forall_not_mem]
      intro i hi
      obtain ⟨c, hc, hframe⟩ := mem_indices.mp hi
      have hmem : i ∈ framePositions :=
        mem_indices.mpr ⟨c, hc, (Bool.and_eq_true_iff.mp hframe).1⟩
      rw [hnil] at hmem
      cases hmem

/-- A refusal among the frame's checks is keyed by the check's own position. -/
theorem answers_refused_frame {pushdownOn : Bool} {checks : List Check}
    {refused : List (ℕ × CheckOutcome)} {i : ℕ} {outcome : CheckOutcome}
    (hrefused : ∀ entry ∈ refused, entry ∈ (splitRowCountChecks
      (pick checks (indices checks fun c => !routesToSql pushdownOn c))).2)
    (h : (⟨pick (indices checks fun c => !routesToSql pushdownOn c) (refused.map Prod.fst),
      .ok (refused.map Prod.snd)⟩ : Group String CheckOutcome).Answers i outcome) :
    ∃ c, checks[i]? = some c ∧ routesToSql pushdownOn c = false ∧ isRowCount c = true ∧
      outcome = refusal c := by
  generalize hframe : (indices checks fun c => !routesToSql pushdownOn c) = framePositions at *
  have hlt : ∀ j ∈ framePositions, j < checks.length := by
    rw [← hframe]
    exact fun j hj => lt_of_mem_indices hj
  have hinside : ∀ j ∈ refused.map Prod.fst, j < framePositions.length := by
    intro j hj
    obtain ⟨entry, hentry, rfl⟩ := List.mem_map.mp hj
    obtain ⟨c, hc, _⟩ := mem_refused (hrefused entry hentry)
    rw [pick_getElem hlt] at hc
    obtain ⟨at', hat, _⟩ := Option.bind_eq_some_iff.mp hc
    exact (List.getElem?_eq_some_iff.mp hat).1
  obtain ⟨outcomes, k, hok, hpos, hout⟩ := h
  obtain rfl := Except.ok.inj hok
  simp only [pick_getElem hinside, List.getElem?_map, Option.map_eq_some_iff] at hpos hout
  obtain ⟨entry, hentry, rfl⟩ := hout
  rw [hentry, Option.map_some, Option.bind_some] at hpos
  obtain ⟨c, hc, hcount, houtcome⟩ := mem_refused (hrefused entry (List.mem_of_getElem? hentry))
  rw [pick_getElem hlt, hpos, Option.bind_some] at hc
  have hmem : i ∈ indices checks fun c => !routesToSql pushdownOn c := by
    rw [hframe]
    exact List.mem_of_getElem? hpos
  obtain ⟨c', hc', hroutes⟩ := mem_indices.mp hmem
  obtain rfl := Option.some.inj (hc.symm.trans hc')
  exact ⟨c, hc, by simpa using hroutes, hcount, houtcome⟩

theorem ucRunChecks_each {sampled pushdownOn : Bool} {runFrame runSql : Hook} {checks : List Check}
    {outcomes : List CheckOutcome}
    (h : ucRunChecks sampled pushdownOn runFrame runSql checks = .ok outcomes) :
    EachFrom (ucComputed sampled pushdownOn runFrame runSql checks) checks outcomes := by
  have hkept := kept_positions sampled pushdownOn checks
  simp only [ucRunChecks, mergeByPosition] at h hkept
  rw [hkept] at h
  obtain ⟨hlength, hat⟩ := collect_answers h
  refine ⟨hlength, fun i outcome hi => ?_⟩
  obtain ⟨group, hgroup, hanswers⟩ := hat i outcome hi
  replace hgroup := (List.mem_filter.mp hgroup).1
  simp only [List.mem_cons, List.not_mem_nil, or_false] at hgroup
  obtain rfl | rfl | rfl := hgroup
  · have hsampled : ∀ entry ∈ (if sampled && decide (indices checks
          (fun c => !routesToSql pushdownOn c) ≠ []) then
        splitRowCountChecks (pick checks (indices checks fun c => !routesToSql pushdownOn c))
      else (List.range (indices checks fun c => !routesToSql pushdownOn c).length, [])).2,
        sampled = true ∧ entry ∈ (splitRowCountChecks
          (pick checks (indices checks fun c => !routesToSql pushdownOn c))).2 := by
      intro entry hentry
      split at hentry
      · next hsplit => exact ⟨(Bool.and_eq_true_iff.mp hsplit).1, hentry⟩
      · cases hentry
    obtain ⟨c, hc, hroutes, hcount, houtcome⟩ :=
      answers_refused_frame (fun entry hentry => (hsampled entry hentry).2) hanswers
    obtain ⟨outcomes', k, hok, _, hout⟩ := hanswers
    obtain rfl := Except.ok.inj hok
    have hon : sampled = true := by
      rw [List.getElem?_map, Option.map_eq_some_iff] at hout
      obtain ⟨entry, hentry, _⟩ := hout
      exact (hsampled entry (List.mem_of_getElem? hentry)).1
    refine ⟨c, hc, ?_⟩
    rw [ucComputed, if_neg (by simp [hroutes]), if_pos (by simp [hon, hcount])]
    exact houtcome
  · have hmem : i ∈ indices checks fun c =>
        !routesToSql pushdownOn c && !(sampled && isRowCount c) := hanswers.mem
    obtain ⟨c, hc, hframe⟩ := mem_indices.mp hmem
    rw [Bool.and_eq_true, Bool.not_eq_true', Bool.not_eq_true'] at hframe
    refine ⟨c, hc, ?_⟩
    rw [ucComputed, if_neg (by simp [hframe.1]), if_neg (by simp [hframe.2])]
    exact hanswers
  · have hmem : i ∈ indices checks (routesToSql pushdownOn) := hanswers.mem
    obtain ⟨c, hc, hsql⟩ := mem_indices.mp hmem
    refine ⟨c, hc, ?_⟩
    rw [ucComputed, if_pos hsql]
    exact hanswers

/-! ## Nothing but a raising group raises -/

theorem answered_of_serves {hook : Hook} (hhook : Serves hook) {checks : List Check}
    {positions : List ℕ} (h : ∀ i ∈ positions, i < checks.length) :
    (⟨positions, hook (pick checks positions)⟩ : Group String CheckOutcome).Answered := by
  obtain ⟨outcomes, hanswer, hlength⟩ := hhook (pick checks positions)
  exact ⟨outcomes, hanswer, by rw [hlength, length_pick h]⟩

theorem sqlRunChecks_ok {tempTypes : List String} {runBatch : Bool → Hook}
    (hbatch : ∀ readOnly, Serves (runBatch readOnly)) (checks : List Check) :
    ∃ outcomes, sqlRunChecks tempTypes runBatch checks = .ok outcomes := by
  simp only [sqlRunChecks, filter_range_indices]
  split
  · obtain ⟨outcomes, hanswer, _⟩ := hbatch true checks
    exact ⟨outcomes, hanswer⟩
  · apply collect_of_answered
    · intro group hgroup
      obtain ⟨side, hside, rfl⟩ := List.mem_map.mp hgroup
      apply answered_of_serves (hbatch side.2)
      intro i hi
      have hsides := (List.mem_filter.mp hside).1
      simp only [List.mem_cons, List.not_mem_nil, or_false] at hsides
      obtain rfl | rfl := hsides
      · have hguarded : i ∈ indices checks fun c => !isTemp tempTypes c := hi
        exact lt_of_mem_indices hguarded
      · have hwritable : i ∈ indices checks (isTemp tempTypes) := hi
        exact lt_of_mem_indices hwritable
    · intro i hi
      have hc : checks[i]? = some (checks.get ⟨i, hi⟩) := List.getElem?_eq_getElem hi
      have hside : ∀ (positions : List ℕ) (readOnly : Bool), i ∈ positions →
          (positions, readOnly) ∈ [(indices checks fun c => !isTemp tempTypes c, true),
            (indices checks (isTemp tempTypes), false)] →
          ∃ group ∈ ([(indices checks fun c => !isTemp tempTypes c, true),
            (indices checks (isTemp tempTypes), false)].filter fun group => group.1 ≠ []).map
              (fun group => (⟨group.1, runBatch group.2 (pick checks group.1)⟩ :
                Group String CheckOutcome)), i ∈ group.positions := by
        intro positions readOnly hmem hin
        have hne : positions ≠ [] := List.ne_nil_of_mem hmem
        exact ⟨_, List.mem_map.mpr ⟨(positions, readOnly), List.mem_filter.mpr
          ⟨hin, by simpa using hne⟩, rfl⟩, hmem⟩
      cases htemp : isTemp tempTypes (checks.get ⟨i, hi⟩) with
      | true =>
        exact hside _ false (mem_indices.mpr ⟨_, hc, htemp⟩)
          (List.mem_cons_of_mem _ List.mem_cons_self)
      | false =>
        exact hside _ true (mem_indices.mpr ⟨_, hc, by rw [htemp, Bool.not_false]⟩)
          List.mem_cons_self

theorem fileRunChecks_ok {sampled : Bool} {runExpectations : Hook}
    (hhook : Serves runExpectations) (checks : List Check) :
    ∃ outcomes, fileRunChecks sampled runExpectations checks = .ok outcomes := by
  cases sampled with
  | false =>
    obtain ⟨outcomes, hanswer, _⟩ := hhook checks
    exact ⟨outcomes, by simpa [fileRunChecks, pick_range] using hanswer⟩
  | true =>
    simp only [fileRunChecks, if_true]
    split
    · obtain ⟨outcomes, hanswer, _⟩ := hhook (pick checks (splitRowCountChecks checks).1)
      exact ⟨outcomes, hanswer⟩
    · apply collect_of_answered
      · intro group hgroup
        simp only [List.mem_cons, List.not_mem_nil, or_false] at hgroup
        obtain rfl | rfl := hgroup
        · rw [runnable_positions]
          exact answered_of_serves hhook fun i hi => lt_of_mem_indices hi
        · exact ⟨_, rfl, by simp⟩
      · intro i hi
        have hc : checks[i]? = some (checks.get ⟨i, hi⟩) := List.getElem?_eq_getElem hi
        cases hcount : isRowCount (checks.get ⟨i, hi⟩) with
        | false =>
          refine ⟨_, List.mem_cons_self, ?_⟩
          show i ∈ indices checks fun c => !isRowCount c
          exact mem_indices.mpr ⟨_, hc, by rw [hcount, Bool.not_false]⟩
        | true =>
          refine ⟨_, List.mem_cons_of_mem _ List.mem_cons_self, ?_⟩
          rw [refused_positions]
          exact mem_indices.mpr ⟨_, hc, hcount⟩

theorem ucRunChecks_ok {sampled pushdownOn : Bool} {runFrame runSql : Hook}
    (hframe : Serves runFrame) (hsql : Serves runSql) (checks : List Check) :
    ∃ outcomes, ucRunChecks sampled pushdownOn runFrame runSql checks = .ok outcomes := by
  have hkept := kept_positions sampled pushdownOn checks
  simp only [ucRunChecks, mergeByPosition] at hkept ⊢
  rw [hkept]
  generalize hsplit : (if sampled && decide (indices checks
      (fun c => !routesToSql pushdownOn c) ≠ []) then
    splitRowCountChecks (pick checks (indices checks fun c => !routesToSql pushdownOn c))
    else (List.range (indices checks fun c => !routesToSql pushdownOn c).length, [])) = split
  have hlt : ∀ j ∈ indices checks fun c => !routesToSql pushdownOn c, j < checks.length :=
    fun j hj => lt_of_mem_indices hj
  have hentries : split.2 = [] ∨ split = splitRowCountChecks
      (pick checks (indices checks fun c => !routesToSql pushdownOn c)) := by
    rw [← hsplit]
    split_ifs
    · exact .inr rfl
    · exact .inl rfl
  have hinside : ∀ j ∈ split.2.map Prod.fst,
      j < (indices checks fun c => !routesToSql pushdownOn c).length := by
    obtain hnone | hsome := hentries
    · rw [hnone]
      exact fun j hj => absurd hj List.not_mem_nil
    · rw [hsome, refused_positions]
      intro j hj
      rw [← length_pick hlt]
      exact lt_of_mem_indices hj
  apply collect_of_answered
  · intro group hgroup
    replace hgroup := (List.mem_filter.mp hgroup).1
    simp only [List.mem_cons, List.not_mem_nil, or_false] at hgroup
    obtain rfl | rfl | rfl := hgroup
    · refine ⟨_, rfl, ?_⟩
      rw [List.length_map, length_pick hinside, List.length_map]
    · exact answered_of_serves hframe fun i hi => lt_of_mem_indices hi
    · exact answered_of_serves hsql fun i hi => lt_of_mem_indices hi
  · intro i hi
    have hc : checks[i]? = some (checks.get ⟨i, hi⟩) := List.getElem?_eq_getElem hi
    have hgroup : ∀ (groups : List (Group String CheckOutcome)) (group : Group String CheckOutcome),
        group ∈ groups → i ∈ group.positions →
          ∃ group ∈ groups.filter fun group => group.positions ≠ [], i ∈ group.positions := by
      intro groups group hmem hpos
      have hne : group.positions ≠ [] := List.ne_nil_of_mem hpos
      exact ⟨group, List.mem_filter.mpr ⟨hmem, by simpa using hne⟩, hpos⟩
    generalize checks.get ⟨i, hi⟩ = c at hc
    by_cases hroutes : routesToSql pushdownOn c = true
    · refine hgroup _ _ (List.mem_cons_of_mem _ (List.mem_cons_of_mem _ List.mem_cons_self)) ?_
      exact mem_indices.mpr ⟨c, hc, hroutes⟩
    · rw [Bool.not_eq_true] at hroutes
      by_cases hrefused : (sampled && isRowCount c) = true
      · refine hgroup _ _ List.mem_cons_self ?_
        obtain ⟨hsampled, hcount⟩ := Bool.and_eq_true_iff.mp hrefused
        have hmem : i ∈ indices checks fun c => !routesToSql pushdownOn c :=
          mem_indices.mpr ⟨c, hc, by rw [hroutes, Bool.not_false]⟩
        have hne := List.ne_nil_of_mem hmem
        rw [if_pos (by simp [hsampled, hne])] at hsplit
        rw [← hsplit]
        show i ∈ pick _ ((splitRowCountChecks _).2.map Prod.fst)
        rw [refused_positions, indices_pick]
        exact mem_indices.mpr ⟨c, hc, by rw [hroutes, hcount]; rfl⟩
      · rw [Bool.not_eq_true] at hrefused
        have hmem : i ∈ indices checks fun c =>
            !routesToSql pushdownOn c && !(sampled && isRowCount c) :=
          mem_indices.mpr ⟨c, hc, by rw [hroutes, hrefused]; rfl⟩
        exact hgroup _ _ (List.mem_cons_of_mem _ List.mem_cons_self) hmem

/-! The runners that split their batch keep the interface themselves. -/

theorem Serves.honours {hook : Hook} (h : Serves hook) : Honours hook := by
  intro specs outcomes hanswer
  obtain ⟨outcomes', hanswer', hlength⟩ := h specs
  rw [Except.ok.inj (hanswer.symm.trans hanswer')]
  exact hlength

theorem serves_sqlRunChecks {runBatch : Bool → Hook} (h : ∀ readOnly, Serves (runBatch readOnly))
    (tempTypes : List String) : Serves (sqlRunChecks tempTypes runBatch) := by
  intro specs
  obtain ⟨outcomes, hanswer⟩ := sqlRunChecks_ok h specs
  exact ⟨outcomes, hanswer, (sqlRunChecks_each (fun readOnly => (h readOnly).honours) hanswer).1⟩

theorem serves_fileRunChecks {hook : Hook} (h : Serves hook) (sampled : Bool) :
    Serves (fileRunChecks sampled hook) := by
  intro specs
  obtain ⟨outcomes, hanswer⟩ := fileRunChecks_ok h specs
  exact ⟨outcomes, hanswer, (fileRunChecks_each h.honours hanswer).1⟩

theorem serves_ucRunChecks {runFrame runSql : Hook} (hframe : Serves runFrame)
    (hsql : Serves runSql) (sampled pushdownOn : Bool) :
    Serves (ucRunChecks sampled pushdownOn runFrame runSql) := by
  intro specs
  obtain ⟨outcomes, hanswer⟩ := ucRunChecks_ok hframe hsql specs
  exact ⟨outcomes, hanswer, (ucRunChecks_each hanswer).1⟩

end DataQ.Runs
