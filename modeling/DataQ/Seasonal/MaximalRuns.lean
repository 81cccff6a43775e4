import DataQ.Seasonal.Detection

/-! # Detection finds exactly the maximal runs

The occurrences that a detection reports are the longest runs of consecutive periods that qualify,
each of them in one group; two are in one group where occurrences at the same time lead from the one
to the other. -/

namespace DataQ.Seasonal
open DataQ.Dates DataQ.Series DataQ.Stretches
set_option autoImplicit false

variable {V : Type} [Numbers V]

section Runs
variable (params : DetectParams) (declared : Calendar) (points : Points V)
  (unit : Anomaly.PeriodUnit) (backfilled : ℤ → Bool)

/-- The period is the next after `a`. -/
def follows (a b : ℤ) : Bool := a + unit.length = b

/-- What a period was against the level of its priors. -/
def ratioAt (day : ℤ) : Option V :=
  ratioOf params points day (priors params.toParams declared points day)

def qualifies (day : ℤ) : Bool := (ratioAt params declared points day).any fun r => detectRatio ≤ r

def withRatios (run : List ℤ) : List (ℤ × V) :=
  run.map fun day => (day, (ratioAt params declared points day).getD 0)

/-- The occurrence that a run of periods is. -/
def occurrenceFor (run : List ℤ) : DetectedOccurrence V :=
  occurrenceOf unit backfilled (withRatios params declared points run)

/-- A longest run of consecutive qualifying periods, of the least length or more. -/
def IsMaximalRun (run : List ℤ) : Prop :=
  IsStretch (follows unit) (qualifies params declared points) points.days run ∧
    minimum unit ≤ run.length

/-! ## The pass -/

/-- The state of the pass that stands for what it has scanned. -/
structure Represents (state : DetectState V) (scan : Scan ℤ) : Prop where
  run : state.run = withRatios params declared points scan.1
  occurrences : state.occurrences =
    scan.2.map (occurrenceFor params declared points unit backfilled)

variable {params declared points unit backfilled}

theorem Represents.close {state : DetectState V} {scan : Scan ℤ}
    (h : Represents params declared points unit backfilled state scan) :
    Represents params declared points unit backfilled (state.close unit backfilled)
      (scan.close (minimum unit)) := by
  have hlength : state.run.length = scan.1.length := by
    rw [h.run, withRatios, List.length_map]
  refine ⟨rfl, ?_⟩
  simp only [DetectState.close, Scan.close, hlength]
  split
  · rw [List.map_append, h.occurrences, h.run]
    rfl
  · exact h.occurrences

theorem Represents.next {state : DetectState V} {scan : Scan ℤ}
    (h : Represents params declared points unit backfilled state scan) (day : ℤ) :
    Represents params declared points unit backfilled
      (state.next params points unit backfilled
        (day, priors params.toParams declared points day))
      (Scan.step (follows unit) (qualifies params declared points) (minimum unit) scan day) := by
  have hbreak : (state.run.getLast?.any fun point => decide (point.1 + unit.length ≠ day)) =
      scan.1.getLast?.any fun b => !follows unit b day := by
    rw [h.run, withRatios, List.getLast?_map]
    cases scan.1.getLast? with
    | none => rfl
    | some b => simp [follows]
  have hclosed : Represents params declared points unit backfilled
      (if state.run.getLast?.any fun point => decide (point.1 + unit.length ≠ day) then
        state.close unit backfilled else state)
      (if scan.1.getLast?.any fun b => !follows unit b day then scan.close (minimum unit)
        else scan) := by
    rw [hbreak]
    split
    · exact h.close
    · exact h
  simp only [DetectState.next, Scan.step]
  generalize (if state.run.getLast?.any fun point => decide (point.1 + unit.length ≠ day) then
    state.close unit backfilled else state) = state at hclosed
  generalize (if scan.1.getLast?.any fun b => !follows unit b day then scan.close (minimum unit)
    else scan) = scan at hclosed
  have hcounted : Represents params declared points unit backfilled
      (if judged params (priors params.toParams declared points day) then
        { state with evaluated := state.evaluated + 1 } else state) scan := by
    split
    · exact ⟨hclosed.run, hclosed.occurrences⟩
    · exact hclosed
  generalize (if judged params (priors params.toParams declared points day) then
    { state with evaluated := state.evaluated + 1 } else state) = state at hcounted
  cases hratio : ratioOf params points day (priors params.toParams declared points day) with
  | none =>
    have hnot : qualifies params declared points day = false := by
      rw [qualifies, ratioAt, hratio]
      rfl
    simp only [hnot]
    exact hcounted.close
  | some ratio =>
    have hqualifies : qualifies params declared points day = decide (detectRatio ≤ ratio) := by
      rw [qualifies, ratioAt, hratio]
      rfl
    simp only [hqualifies, decide_eq_true_eq]
    split
    · refine ⟨?_, hcounted.occurrences⟩
      have hday : (ratioAt params declared points day).getD 0 = ratio := by
        rw [ratioAt, hratio]
        rfl
      rw [hcounted.run, withRatios, withRatios, List.map_append, List.map_singleton, hday]
    · exact hcounted.close

theorem detectPass_occurrences :
    (detectPass params points unit backfilled declared).occurrences =
      (scan (follows unit) (qualifies params declared points) (minimum unit) points.days).map
        (occurrenceFor params declared points unit backfilled) := by
  have hfold : ∀ (days : List ℤ) {state : DetectState V} {s : Scan ℤ},
      Represents params declared points unit backfilled state s →
      Represents params declared points unit backfilled
        ((days.map fun day => (day, priors params.toParams declared points day)).foldl
          (DetectState.next params points unit backfilled) state)
        (days.foldl (Scan.step (follows unit) (qualifies params declared points) (minimum unit))
          s) := by
    intro days
    induction days with
    | nil => exact fun h => h
    | cons day days ih => exact fun h => ih (h.next day)
  have hstart : Represents params declared points unit backfilled {} ([], []) := ⟨rfl, rfl⟩
  rw [detectPass, walk_eq]
  exact (hfold points.days hstart).close.occurrences

theorem mem_scan {run : List ℤ} :
    run ∈ scan (follows unit) (qualifies params declared points) (minimum unit) points.days ↔
      IsMaximalRun params declared points unit run := by
  have hleast : 1 ≤ minimum unit := by cases unit <;> decide
  rw [scan_eq hleast, List.mem_filter, mem_stretches, decide_eq_true_eq]
  rfl

/-- The runs stand in the order of their days. -/
theorem scan_increasing :
    (scan (follows unit) (qualifies params declared points) (minimum unit)
      points.days).flatten.Pairwise fun a b => a < b := by
  have hleast : 1 ≤ minimum unit := by cases unit <;> decide
  have hfilter := (List.filter_sublist (p := fun stretch => decide (minimum unit ≤ stretch.length))
    (l := stretches (follows unit) (qualifies params declared points) points.days)).flatten
  rw [scan_eq hleast]
  exact (days_increasing points).sublist (hfilter.trans (flatten_stretches_sublist points.days))

theorem occurrenceFor_start {run : List ℤ} {day : ℤ} (h : run.head? = some day) :
    (occurrenceFor params declared points unit backfilled run).start = day := by
  simp [occurrenceFor, occurrenceOf, withRatios, h]

theorem occurrenceFor_last {run : List ℤ} {day : ℤ} (h : run.getLast? = some day) :
    (occurrenceFor params declared points unit backfilled run).last = day + unit.length - 1 := by
  simp [occurrenceFor, occurrenceOf, withRatios, h]

/-- A day that starts a period ends it before the next starts. -/
theorem startOf_gap {a b : ℤ} (ha : unit.startOf a = a) (hb : unit.startOf b = b) (h : a < b) :
    a + unit.length ≤ b := by
  cases unit with
  | day =>
    simp only [Anomaly.PeriodUnit.length]
    omega
  | week =>
    have ha : a - (a + 6) % 7 = a := ha
    have hb : b - (b + 6) % 7 = b := hb
    show a + 7 ≤ b
    omega

theorem occurrences_disjoint {runs : List (List ℤ)} (hne : ∀ run ∈ runs, run ≠ [])
    (hincreasing : runs.flatten.Pairwise fun a b => a < b)
    (hstarts : ∀ run ∈ runs, ∀ day ∈ run, unit.startOf day = day) :
    (runs.map (occurrenceFor params declared points unit backfilled)).Pairwise
      fun a b => a.last < b.start := by
  rw [List.pairwise_map]
  have hpairs := (List.pairwise_flatten.mp hincreasing).2
  refine hpairs.imp_of_mem fun {a b} ha hb hlt => ?_
  have hlast := List.getLast?_eq_getLast_of_ne_nil (hne a ha)
  have hhead := List.head?_eq_some_head (hne b hb)
  have halast := List.getLast_mem (hne a ha)
  have hbhead := List.head_mem (hne b hb)
  rw [occurrenceFor_last hlast, occurrenceFor_start hhead]
  have hgap := startOf_gap (hstarts a ha _ halast) (hstarts b hb _ hbhead)
    (hlt _ halast _ hbhead)
  omega

theorem starts_increasing {runs : List (List ℤ)} (hne : ∀ run ∈ runs, run ≠ [])
    (hincreasing : runs.flatten.Pairwise fun a b => a < b) :
    (runs.map (occurrenceFor params declared points unit backfilled)).Pairwise
      fun a b => a.start < b.start := by
  rw [List.pairwise_map]
  have hpairs := (List.pairwise_flatten.mp hincreasing).2
  refine hpairs.imp_of_mem fun {a b} ha hb hlt => ?_
  rw [occurrenceFor_start (List.head?_eq_some_head (hne a ha)),
    occurrenceFor_start (List.head?_eq_some_head (hne b hb))]
  exact hlt _ (List.head_mem (hne a ha)) _ (List.head_mem (hne b hb))

end Runs

/-! ## The groups -/

omit [Numbers V] in
theorem groupsOf_perm (occurrences : List (DetectedOccurrence V)) :
    (groupsOf occurrences).flatten.Perm occurrences := by
  simp only [groupsOf]
  have hlength := UnionFind.length_roots (sameTimes occurrences).length
    (UnionFind.linkAll (sameTimes occurrences).length (List.range occurrences.length)
      (sameTimes occurrences)) (List.range occurrences.length)
  rw [List.length_range] at hlength
  have hperm := Partition.grouped_perm ((UnionFind.roots (sameTimes occurrences).length
    (UnionFind.linkAll (sameTimes occurrences).length (List.range occurrences.length)
      (sameTimes occurrences)) (List.range occurrences.length)).zip occurrences)
  rw [List.map_snd_zip (by omega)] at hperm
  rwa [← List.flatMap_def]

omit [Numbers V] in
theorem mem_groupsOf_ne_nil {occurrences members : List (DetectedOccurrence V)}
    (h : members ∈ groupsOf occurrences) : members ≠ [] := by
  obtain ⟨⟨key, members'⟩, hmem, rfl⟩ := List.mem_map.mp h
  exact (Partition.of_mem_grouped hmem).2

omit [Numbers V] in
theorem group_perm (declared : Calendar) (occurrences : List (DetectedOccurrence V)) :
    ((group declared occurrences).flatMap DetectedPeriod.occurrences).Perm occurrences := by
  have hsorted := List.perm_insertionSort (fun a b : DetectedPeriod V => a.start ≤ b.start)
    ((groupsOf occurrences).filterMap fun members =>
      (byDate DetectedOccurrence.start members).getLast?.map
        (detectedPeriod declared (byDate DetectedOccurrence.start members)))
  refine (hsorted.flatMap_right _).trans (.trans ?_ (groupsOf_perm occurrences))
  have hne : ∀ members ∈ groupsOf occurrences, members ≠ [] := fun _ => mem_groupsOf_ne_nil
  generalize groupsOf occurrences = groups at hne
  induction groups with
  | nil => exact .nil
  | cons members groups ih =>
    have hmembers := List.perm_insertionSort
      (fun a b : DetectedOccurrence V => a.start ≤ b.start) members
    obtain ⟨anchor, hanchor⟩ : ∃ anchor,
        (byDate DetectedOccurrence.start members).getLast? = some anchor := by
      cases hlast : (byDate DetectedOccurrence.start members).getLast? with
      | some anchor => exact ⟨anchor, rfl⟩
      | none =>
        rw [List.getLast?_eq_none_iff] at hlast
        rw [byDate] at hlast
        rw [hlast] at hmembers
        exact absurd hmembers.nil_eq.symm (hne members List.mem_cons_self)
    rw [List.filterMap_cons, hanchor, List.flatten_cons]
    exact hmembers.append (ih fun m hm => hne m (List.mem_cons_of_mem _ hm))

omit [Numbers V] in
/-- The members of a group stand in the order of their dates. -/
theorem group_increasing {declared : Calendar} {occurrences : List (DetectedOccurrence V)}
    (h : (occurrences.map DetectedOccurrence.start).Nodup) {period : DetectedPeriod V}
    (hperiod : period ∈ group declared occurrences) :
    period.occurrences ≠ [] ∧ period.occurrences.Pairwise fun a b => a.start < b.start := by
  obtain ⟨members, hmembers, hsome⟩ := List.mem_filterMap.mp (mem_byDate.mp hperiod)
  obtain ⟨anchor, hanchor, rfl⟩ := Option.map_eq_some_iff.mp hsome
  have hperm := (groupsOf_perm occurrences).map DetectedOccurrence.start
  have hsub := (List.sublist_flatten_of_mem hmembers).map DetectedOccurrence.start
  refine ⟨List.ne_nil_of_mem (List.mem_of_mem_getLast? hanchor), ?_⟩
  exact increasing_byDate ((hperm.nodup_iff.mpr h).sublist hsub)

omit [Numbers V] in
theorem mem_sameTimes {occurrences : List (DetectedOccurrence V)} {i j : ℕ} :
    (i, j) ∈ sameTimes occurrences ↔ i < j ∧ ∃ a b, occurrences[i]? = some a ∧
      occurrences[j]? = some b ∧ sameTime a b = true := by
  simp only [sameTimes, List.mem_flatMap, List.mem_range, List.mem_filterMap, List.mem_range'_1]
  constructor
  · rintro ⟨i', _, j', hj', hsome⟩
    split at hsome
    · next a b ha hb =>
      split at hsome
      · next hsame =>
        obtain ⟨rfl, rfl⟩ := Prod.mk.inj (Option.some.inj hsome)
        exact ⟨by omega, a, b, ha, hb, hsame⟩
      · cases hsome
    · cases hsome
  · rintro ⟨hlt, a, b, ha, hb, hsame⟩
    have hj := (List.getElem?_eq_some_iff.mp hb).1
    refine ⟨i, by omega, j, by omega, ?_⟩
    simp only [ha, hb, hsame, if_true]

omit [Numbers V] in
/-- Two occurrences are in one group where occurrences at the same time lead from the one to the
other. -/
theorem same_group_iff {occurrences : List (DetectedOccurrence V)} (hnodup : occurrences.Nodup)
    {i j : ℕ} {a b : DetectedOccurrence V} (ha : occurrences[i]? = some a)
    (hb : occurrences[j]? = some b) :
    (∃ members ∈ groupsOf occurrences, a ∈ members ∧ b ∈ members) ↔
      Relation.EqvGen (fun i j => (i, j) ∈ sameTimes occurrences) i j := by
  have hedges : ∀ edge ∈ sameTimes occurrences,
      edge.1 < occurrences.length ∧ edge.2 < occurrences.length := by
    intro edge hedge
    obtain ⟨hlt, _, _, _, hsecond, _⟩ := mem_sameTimes.mp hedge
    have := (List.getElem?_eq_some_iff.mp hsecond).1
    omega
  obtain ⟨rep, hroots, hrep⟩ := UnionFind.roots_linkAll le_rfl hedges
  rw [← hrep]
  have hgroups : groupsOf occurrences = (Partition.grouped
      (((List.range occurrences.length).map rep).zip occurrences)).map Prod.snd := by
    rw [groupsOf, hroots]
  -- An entry of the zip is an occurrence under the root of its place.
  have hentry : ∀ {k o}, (k, o) ∈ ((List.range occurrences.length).map rep).zip occurrences ↔
      ∃ n, occurrences[n]? = some o ∧ rep n = k := by
    intro k o
    rw [List.mem_iff_getElem?]
    apply exists_congr
    intro n
    rw [List.getElem?_zip_eq_some, List.getElem?_map, and_comm]
    apply and_congr_right
    intro hn
    rw [List.getElem?_range (List.getElem?_eq_some_iff.mp hn).1]
    simp
  have hplace : ∀ {n m : ℕ} {o}, occurrences[n]? = some o → occurrences[m]? = some o → n = m := by
    intro n m o hn hm
    obtain ⟨hlt, _⟩ := List.getElem?_eq_some_iff.mp hn
    exact (List.getElem?_inj hlt hnodup).mp (hn.trans hm.symm)
  have hmem : ∀ {k members o}, (k, members) ∈ Partition.grouped
      (((List.range occurrences.length).map rep).zip occurrences) →
      (o ∈ members ↔ ∃ n, occurrences[n]? = some o ∧ rep n = k) := by
    intro k members o hmembers
    rw [(Partition.of_mem_grouped hmembers).1, ← hentry]
    simp
  rw [hgroups]
  constructor
  · rintro ⟨members, hmembers, hamem, hbmem⟩
    obtain ⟨⟨k, _⟩, hgroup, rfl⟩ := List.mem_map.mp hmembers
    obtain ⟨n, hn, hk⟩ := (hmem hgroup).mp hamem
    obtain ⟨m, hm, hk'⟩ := (hmem hgroup).mp hbmem
    rw [hplace ha hn, hplace hb hm, hk, hk']
  · intro heq
    have hkey : rep i ∈ (((List.range occurrences.length).map rep).zip occurrences).map Prod.fst :=
      List.mem_map.mpr ⟨(rep i, a), hentry.mpr ⟨i, ha, rfl⟩, rfl⟩
    rw [← Partition.mem_keys_grouped] at hkey
    obtain ⟨⟨k, members⟩, hgroup, rfl⟩ := List.mem_map.mp hkey
    refine ⟨members, List.mem_map.mpr ⟨_, hgroup, rfl⟩, ?_, ?_⟩
    · exact (hmem hgroup).mpr ⟨i, ha, rfl⟩
    · exact (hmem hgroup).mpr ⟨j, hb, heq.symm⟩

/-! ## The detection -/

theorem detect_periods {params : DetectParams} {unit : Anomaly.PeriodUnit}
    (hunit : params.period = some unit) (points : Points V) (declared : Option Calendar)
    (backfilled : ℤ → Bool) :
    (detect points params declared backfilled).periods =
      if points.days = [] then []
      else group (declared.getD []) ((scan (follows unit)
        (qualifies params (declared.getD []) points) (minimum unit) points.days).map
          (occurrenceFor params (declared.getD []) points unit backfilled)) := by
  simp only [detect, hunit, List.isEmpty_iff]
  split
  · rfl
  · rw [detectPass_occurrences]

/-- The periods report the runs: all the longest runs and no others, in the order of their dates,
apart from one another where the stored days are those that periods start on, and each in one group,
which stands in that order as well. -/
structure Reports (params : DetectParams) (declared : Calendar) (points : Points V)
    (unit : Anomaly.PeriodUnit) (backfilled : ℤ → Bool) (periods : List (DetectedPeriod V))
    (runs : List (List ℤ)) : Prop where
  mem_iff : ∀ run, run ∈ runs ↔ IsMaximalRun params declared points unit run
  increasing : runs.flatten.Pairwise fun a b => a < b
  disjoint : (∀ day ∈ points.days, unit.startOf day = day) →
    (runs.map (occurrenceFor params declared points unit backfilled)).Pairwise
      fun a b => a.last < b.start
  grouped : (periods.flatMap DetectedPeriod.occurrences).Perm
    (runs.map (occurrenceFor params declared points unit backfilled))
  ordered : ∀ period ∈ periods,
    period.occurrences ≠ [] ∧ period.occurrences.Pairwise fun a b => a.start < b.start

/-- Detection finds exactly the maximal runs. -/
theorem detect_finds_maximal_runs {params : DetectParams} {unit : Anomaly.PeriodUnit}
    (hunit : params.period = some unit) (points : Points V) (declared : Option Calendar)
    (backfilled : ℤ → Bool) :
    ∃ runs, Reports params (declared.getD []) points unit backfilled
      (detect points params declared backfilled).periods runs := by
  have hne : ∀ run ∈ scan (follows unit) (qualifies params (declared.getD []) points)
      (minimum unit) points.days, run ≠ [] := fun run hrun => (mem_scan.mp hrun).1.ne_nil
  have hincreasing := @scan_increasing V _ params (declared.getD []) points unit
  have hperiods := detect_periods hunit points declared backfilled
  refine ⟨_, fun run => mem_scan, hincreasing, fun hstarts => ?_, ?_, ?_⟩
  · apply occurrences_disjoint hne hincreasing
    intro run hrun day hday
    apply hstarts
    obtain ⟨before, after, hdays, _⟩ := (mem_scan.mp hrun).1.maximal
    rw [hdays]
    simp [hday]
  · rw [hperiods]
    split
    · next hempty =>
      rw [hempty]
      cases unit <;> exact .nil
    · exact group_perm _ _
  · rw [hperiods]
    intro period hperiod
    split at hperiod
    · cases hperiod
    · have hstarts := @starts_increasing V _ params (declared.getD []) points unit backfilled _
        hne hincreasing
      exact group_increasing (List.pairwise_map.mpr (hstarts.imp ne_of_lt)) hperiod

/-- A check by the day, with two high days in a row. -/
theorem detect_finds_maximal_runs_sale :
    let params : DetectParams := ⟨⟨3, 2, false, false, by decide⟩, some .day, true, by decide⟩
    let points : Points Float := ⟨[(1, 10), (2, 10), (3, 10), (4, 30), (5, 40), (6, 10)], by decide⟩
    ∃ runs, Reports params [] points .day (fun _ => false)
      (detect points params none fun _ => false).periods runs := by
  intro params points
  exact detect_finds_maximal_runs rfl points none fun _ => false

end DataQ.Seasonal
