import DataQ.Seasonal.Scores

/-! # No score looks ahead

What a day is scored by are the points before it: every selection that the score makes, of a day's
own level, of the earlier years that it is matched with and of the spread, is of earlier days. -/

namespace DataQ.Seasonal
open DataQ.Dates DataQ.Series
set_option autoImplicit false

variable {V : Type} [Numbers V] {params : Params} {calendar : Calendar} {p q : Points V}
  {day d : ℤ}

/-- The two histories are one before the day. -/
def Points.AgreesBefore (p q : Points V) (day : ℤ) : Prop := ∀ d < day, p.value d = q.value d

omit [Numbers V] in
theorem Points.AgreesBefore.mono (h : p.AgreesBefore q day) (hle : d ≤ day) :
    p.AgreesBefore q d := fun d' hd' => h d' (lt_of_lt_of_le hd' hle)

/-! ## The days before -/

omit [Numbers V] in
theorem days_increasing (points : Points V) : points.days.Pairwise fun a b => a < b := by
  have hdays : ((points.entries.map Prod.fst).map id).Nodup := by
    rw [List.map_id]
    exact points.nodup
  exact increasing_byDate hdays

theorem take_bisectLeft {days : List ℤ} (h : days.Pairwise fun a b => a < b) (day : ℤ) :
    days.take (bisectLeft days day) = days.filter fun d => d < day := by
  induction days with
  | nil => rfl
  | cons d days ih =>
    obtain ⟨hlater, hdays⟩ := List.pairwise_cons.mp h
    by_cases hd : d < day
    · have htake : bisectLeft (d :: days) day = bisectLeft days day + 1 := by
        simp [bisectLeft, hd]
      rw [htake, List.take_succ_cons, ih hdays, List.filter_cons_of_pos (by simpa using hd)]
    · have htake : bisectLeft (d :: days) day = 0 := by simp [bisectLeft, hd]
      rw [htake, List.take_zero]
      symm
      rw [List.filter_eq_nil_iff]
      intro a ha
      obtain rfl | ha := List.mem_cons.mp ha
      · simpa using hd
      · have := hlater a ha
        simp only [decide_eq_true_eq]
        omega

omit [Numbers V] in
theorem mem_days {points : Points V} : d ∈ points.days ↔ ∃ v, points.value d = some v := by
  rw [Points.days, mem_byDate, Points.value, ← Option.isSome_iff_exists, List.lookup_isSome_iff]
  simp

omit [Numbers V] in
theorem days_before (h : p.AgreesBefore q day) :
    (p.days.filter fun d => d < day) = q.days.filter fun d => d < day := by
  have hsubset : ∀ {a b : Points V}, a.AgreesBefore b day →
      (a.days.filter fun d => d < day) ⊆ b.days.filter fun d => d < day := by
    intro a b hab d hd
    obtain ⟨hmem, hlt⟩ := List.mem_filter.mp hd
    obtain ⟨v, hv⟩ := mem_days.mp hmem
    refine List.mem_filter.mpr ⟨mem_days.mpr ⟨v, ?_⟩, hlt⟩
    rw [← hab d (by simpa using hlt)]
    exact hv
  have hsymm : q.AgreesBefore p day := fun d hd => (h d hd).symm
  exact (hsubset h).antisymm_of_pairwise ((days_increasing p).filter _)
    ((days_increasing q).filter _) (hsubset hsymm)

omit [Numbers V] in
theorem earlierDays_eq (h : p.AgreesBefore q day) :
    earlierDays params p day = earlierDays params q day := by
  rw [earlierDays, earlierDays, take_bisectLeft (days_increasing p),
    take_bisectLeft (days_increasing q), days_before h]

omit [Numbers V] in
theorem earlierDays_lt {points : Points V} (h : d ∈ earlierDays params points day) : d < day := by
  rw [earlierDays, take_bisectLeft (days_increasing points)] at h
  have hmem : d ∈ points.days.filter fun d => d < day := by
    split at h
    · exact (List.mem_filter.mp h).1
    · exact h
  simpa using (List.mem_filter.mp hmem).2

omit [Numbers V] in
theorem priors_eq (h : p.AgreesBefore q day) :
    priors params calendar p day = priors params calendar q day := by
  rw [priors, priors, earlierDays_eq h]

omit [Numbers V] in
theorem priors_lt {points : Points V} (h : d ∈ priors params calendar points day) : d < day :=
  earlierDays_lt (List.mem_filter.mp (mem_of_mem_newest h)).1

omit [Numbers V] in
theorem excludedFromLevel_eq (h : p.AgreesBefore q day) :
    excludedFromLevel params calendar p day = excludedFromLevel params calendar q day := by
  rw [excludedFromLevel, excludedFromLevel, earlierDays_eq h]

/-! ## The level, the index and the score -/

theorem level_eq (h : p.AgreesBefore q day) :
    level params calendar p day = level params calendar q day := by
  have hvalues : (priors params calendar q day).filterMap p.value =
      (priors params calendar q day).filterMap q.value :=
    List.filterMap_congr fun d hd => h d (priors_lt hd)
  rw [level, level, priors_eq h, levelOf, levelOf, hvalues]

/-- Every candidate is earlier: a year or more for an ordinary day, in an occurrence before its own
for a declared one. -/
theorem candidates_lt (h : d ∈ (candidates params calendar day).1) : d < day := by
  unfold candidates at h
  split at h
  · obtain ⟨yearsBack, hback, rfl⟩ := List.mem_map.mp (List.mem_filter.mp h).1
    exact matchedDay_lt _ _ (List.mem_range'_1.mp hback).1
  · next entry o hinside =>
    obtain ⟨earlier, hearlier, hmatched⟩ := List.mem_filterMap.mp h
    simp only at hmatched
    split at hmatched
    · next hwithin =>
      obtain rfl := Option.some.inj hmatched
      apply earlier_match_lt hinside hearlier
      · have hweekday := weekday_mem (earlier.start + (day - o.start))
        simp only [periodOf]
        split <;> omega
      · exact hwithin.2
    · cases hmatched

theorem addRatio_eq (h : p.AgreesBefore q day) (hd : d < day) :
    (fun found : Ratios V × Reason => addRatio params calendar p found d) =
      fun found => addRatio params calendar q found d := by
  funext found
  rw [addRatio, addRatio, h d hd, level_eq (h.mono hd.le)]

theorem foldl_addRatio_eq (h : p.AgreesBefore q day) {days : List ℤ} (hdays : ∀ d ∈ days, d < day)
    (found : Ratios V × Reason) :
    days.foldl (addRatio params calendar p) found =
      days.foldl (addRatio params calendar q) found := by
  induction days generalizing found with
  | nil => rfl
  | cons d days ih =>
    rw [List.foldl_cons, List.foldl_cons]
    rw [congrFun (addRatio_eq h (hdays d List.mem_cons_self)) found]
    exact ih (fun d' hd' => hdays d' (List.mem_cons_of_mem _ hd')) _

theorem ratiosOf_eq (h : p.AgreesBefore q day) :
    ratiosOf params calendar p day = ratiosOf params calendar q day := by
  have hfold : ∀ found,
      (candidates params calendar day).1.foldl (addRatio params calendar p) found =
        (candidates params calendar day).1.foldl (addRatio params calendar q) found :=
    foldl_addRatio_eq h fun d hd => candidates_lt hd
  simp only [ratiosOf]
  rw [hfold]

theorem index_eq (h : p.AgreesBefore q day) :
    index params calendar p day = index params calendar q day := by
  rw [index, index, ratiosOf_eq h]

theorem expected_eq (h : p.AgreesBefore q day) :
    expected params calendar p day = expected params calendar q day := by
  rw [expected, expected, level_eq h, index_eq h]

theorem distance_eq (h : p.AgreesBefore q day) (hd : d < day) (proportional : Bool) :
    distance params calendar p proportional d = distance params calendar q proportional d := by
  rw [distance, distance, h d hd, expected_eq (h.mono hd.le)]

theorem score_eq (h : p.AgreesBefore q day) (value : V) :
    score params calendar p day value = score params calendar q day value := by
  have hdistances : ∀ proportional : Bool,
      (priors params calendar q day).filterMap (distance params calendar p proportional) =
        (priors params calendar q day).filterMap (distance params calendar q proportional) :=
    fun proportional => List.filterMap_congr fun d hd => distance_eq h (priors_lt hd) proportional
  simp only [score]
  rw [level_eq h, ratiosOf_eq h, priors_eq h, excludedFromLevel_eq h]
  simp only [hdistances]

theorem adjustedRun_eq (h : p.AgreesBefore q day) {run : ℤ × V} (hrun : run.1 ≤ day) :
    adjustedRun params calendar p run = adjustedRun params calendar q run := by
  rw [adjustedRun, adjustedRun, factor, factor, index_eq (h.mono hrun)]

theorem scoreRuns_eq (h : p.AgreesBefore q day) (value : V) {runs : List (ℤ × V)}
    (hruns : ∀ run ∈ runs, run.1 ≤ day) :
    scoreRuns params calendar p day value runs = scoreRuns params calendar q day value runs := by
  have hadjusted : runs.filterMap (adjustedRun params calendar p) =
      runs.filterMap (adjustedRun params calendar q) :=
    List.filterMap_congr fun run hrun => adjustedRun_eq h (hruns run hrun)
  simp only [scoreRuns]
  rw [ratiosOf_eq h, hadjusted]

/-! ## The walk -/

omit [Numbers V] in
theorem earlierDays_filter {points : Points V} {done rest : List ℤ}
    (hdays : points.days = done ++ day :: rest) :
    earlierDays params points day =
      done.filter fun d => weekdayKey params d = weekdayKey params day := by
  have hsorted := days_increasing points
  rw [hdays] at hsorted
  obtain ⟨_, hrest, hbefore⟩ := List.pairwise_append.mp hsorted
  have htake : points.days.take (bisectLeft points.days day) = done := by
    rw [take_bisectLeft (days_increasing points), hdays, List.filter_append]
    have hdone : (done.filter fun d => d < day) = done := by
      rw [List.filter_eq_self]
      intro d hd
      simpa using hbefore d hd day List.mem_cons_self
    have hnone : ((day :: rest).filter fun d => d < day) = [] := by
      rw [List.filter_eq_nil_iff]
      intro d hd
      obtain rfl | hd := List.mem_cons.mp hd
      · simp
      · have := (List.pairwise_cons.mp hrest).1 d hd
        simp only [decide_eq_true_eq]
        omega
    rw [hdone, hnone, List.append_nil]
  rw [earlierDays, htake]
  cases hseason : params.seasonality with
  | true => simp [weekdayKey, hseason]
  | false => simp [weekdayKey, hseason]

omit [Numbers V] in
/-- From where the days before have left the windows, the walk gives each day its priors. -/
theorem walkFrom_eq {points : Points V} (rest done : List ℤ) (hdays : points.days = done ++ rest) :
    walkFrom params calendar (fun key => newest params.window
        ((done.filter fun d => weekdayKey params d = key).filter (ordinary calendar))) rest =
      rest.map fun day => (day, priors params calendar points day) := by
  induction rest generalizing done with
  | nil => rfl
  | cons day rest ih =>
    rw [walkFrom, List.map_cons, priors, earlierDays_filter hdays]
    rw [← ih (done ++ [day]) (by rw [hdays, List.append_assoc]; rfl)]
    congr 2
    funext key
    by_cases hordinary : ordinary calendar day = true
    · rw [if_pos hordinary]
      by_cases hkey : key = weekdayKey params day
      · subst hkey
        rw [Function.update_self, newest_newest_append, List.filter_append, List.filter_append]
        simp [hordinary]
      · rw [Function.update_of_ne hkey, List.filter_append, List.filter_append]
        have hne : ¬weekdayKey params day = key := fun heq => hkey heq.symm
        simp [hne]
    · rw [if_neg hordinary, List.filter_append, List.filter_append]
      simp only [Bool.not_eq_true] at hordinary
      have hnone : ([day].filter fun d => weekdayKey params d = key).filter (ordinary calendar) =
          [] := by
        by_cases hkey : weekdayKey params day = key
        · simp [hkey, hordinary]
        · simp [hkey]
      rw [hnone, List.append_nil]

omit [Numbers V] in
/-- What `priors` gives day by day, without rereading the history before each. -/
theorem walk_eq (points : Points V) :
    walk params calendar points =
      points.days.map fun day => (day, priors params calendar points day) := by
  have hempty : (fun _ => []) = fun key : ℤ => newest params.window
      ((([] : List ℤ).filter fun d => weekdayKey params d = key).filter (ordinary calendar)) := by
    funext key
    simp [newest]
  rw [walk, hempty]
  exact walkFrom_eq points.days [] rfl

omit [Numbers V] in
/-- Every stored day once, oldest first, with the priors that it is ordinarily scored against. -/
theorem walk_yields_priors (params : Params) (calendar : Calendar) (points : Points V) :
    ((walk params calendar points).Pairwise fun a b => a.1 < b.1) ∧
      (∀ day, (∃ window, (day, window) ∈ walk params calendar points) ↔
        ∃ value, points.value day = some value) ∧
      ∀ day window, (day, window) ∈ walk params calendar points →
        window = priors params calendar points day := by
  rw [walk_eq]
  refine ⟨List.pairwise_map.mpr (days_increasing points), fun day => ?_, ?_⟩
  · rw [← mem_days]
    simp
  · intro day window hmem
    obtain ⟨d, _, heq⟩ := List.mem_map.mp hmem
    obtain ⟨rfl, rfl⟩ := Prod.mk.inj heq
    rfl

omit [Numbers V] in
theorem walk_before (h : p.AgreesBefore q day) :
    ((walk params calendar p).filter fun entry => entry.1 < day) =
      (walk params calendar q).filter fun entry => entry.1 < day := by
  have hfilter : ∀ points : Points V,
      ((walk params calendar points).filter fun entry => entry.1 < day) =
        (points.days.filter fun d => d < day).map fun d =>
          (d, priors params calendar points d) := by
    intro points
    rw [walk_eq, List.filter_map]
    rfl
  rw [hfilter, hfilter, days_before h]
  apply List.map_congr_left
  intro d hd
  have hlt : d < day := by simpa using (List.mem_filter.mp hd).2
  rw [priors_eq (h.mono hlt.le)]

/-! ## Runs one after another -/

omit [Numbers V] in
theorem mem_consideredRuns {pool : List (ℤ × V)} {run : ℤ × V}
    (h : run ∈ consideredRuns params day pool) : run ∈ pool := by
  have hmem := mem_of_mem_newest h
  split at hmem
  · exact (List.mem_filter.mp hmem).1
  · exact hmem

theorem wholeTableYearly_eq (h : p.AgreesBefore q day) (attached : Option Calendar) (value : V)
    {dated : List (ℤ × V)} (hdated : ∀ run ∈ dated, run.1 ≤ day) :
    wholeTableYearly params p attached day value dated =
      wholeTableYearly params q attached day value dated := by
  have hpool : ∀ run ∈ consideredRuns params day
      (dated.filter fun run => ordinary (attached.getD []) run.1), run.1 ≤ day :=
    fun run hrun => hdated run (List.mem_filter.mp (mem_consideredRuns hrun)).1
  have hall : ∀ run ∈ consideredRuns params day dated, run.1 ≤ day :=
    fun run hrun => hdated run (mem_consideredRuns hrun)
  simp only [wholeTableYearly]
  rw [scoreRuns_eq h value hpool, scoreRuns_eq h value hall]

/-- The verdicts of runs in the order of their days, whatever comes later. -/
theorem replayRuns_take (h : p.AgreesBefore q day) (attached : Option Calendar)
    {past runs : List (ℤ × V)} (horder : (past ++ runs).Pairwise fun a b => a.1 ≤ b.1)
    (hruns : ∀ run ∈ runs, run.1 ≤ day) (later later' : List (ℤ × V)) :
    (replayRuns params p attached past (runs ++ later)).take runs.length =
      (replayRuns params q attached past (runs ++ later')).take runs.length := by
  induction runs generalizing past with
  | nil => rw [List.length_nil, List.take_zero, List.take_zero]
  | cons run runs ih =>
    obtain ⟨_, _, hpast⟩ := List.pairwise_append.mp horder
    have hrun := hruns run List.mem_cons_self
    have hverdict : wholeTableYearly params p attached run.1 run.2 past =
        wholeTableYearly params q attached run.1 run.2 past :=
      wholeTableYearly_eq (h.mono hrun) attached run.2
        fun r hr => hpast r hr run List.mem_cons_self
    have hnext : (past ++ [run] ++ runs).Pairwise fun a b => a.1 ≤ b.1 := by
      rwa [List.append_assoc]
    have hrest := ih hnext fun r hr => hruns r (List.mem_cons_of_mem _ hr)
    simp only [List.cons_append, replayRuns, List.length_cons, List.take_succ_cons]
    rw [hverdict, hrest]

theorem replay_take (h : p.AgreesBefore q day) {runs : List (ℤ × V)}
    (hruns : ∀ run ∈ runs, run.1 ≤ day) (later later' : List (ℤ × V)) :
    (replay params calendar p (runs ++ later)).take runs.length =
      (replay params calendar q (runs ++ later')).take runs.length := by
  have hearlier : ∀ (points : Points V) (more : List (ℤ × V)),
      (replay params calendar points (runs ++ more)).take runs.length =
        runs.map fun run => score params calendar points run.1 run.2 := by
    intro points more
    rw [replay, List.map_append]
    exact List.take_left' (List.length_map _)
  rw [hearlier, hearlier]
  exact List.map_congr_left fun run hrun => score_eq (h.mono (hruns run hrun)) run.2

/-- Two histories that are one before a day, whatever they are from it on: the scores of the day,
of a whole-table run of it and of every run until then are the same, and so is the walk. -/
theorem score_never_looks_ahead (params : Params) (calendar : Calendar) (p q : Points V) (day : ℤ)
    (h : p.AgreesBefore q day) :
    (∀ value, score params calendar p day value = score params calendar q day value) ∧
    (∀ attached value dated, (∀ run ∈ dated, run.1 ≤ day) →
      scoreRuns params calendar p day value dated = scoreRuns params calendar q day value dated ∧
      wholeTableYearly params p attached day value dated =
        wholeTableYearly params q attached day value dated) ∧
    (∀ runs later later', runs.Pairwise (fun a b => a.1 ≤ b.1) → (∀ run ∈ runs, run.1 ≤ day) →
      (replay params calendar p (runs ++ later)).take runs.length =
        (replay params calendar q (runs ++ later')).take runs.length ∧
      ∀ attached, (replayRuns params p attached [] (runs ++ later)).take runs.length =
        (replayRuns params q attached [] (runs ++ later')).take runs.length) ∧
    ((walk params calendar p).filter fun entry => entry.1 < day) =
      (walk params calendar q).filter fun entry => entry.1 < day := by
  refine ⟨score_eq h, ?_, ?_, walk_before h⟩
  · intro attached value dated hdated
    exact ⟨scoreRuns_eq h value hdated, wholeTableYearly_eq h attached value hdated⟩
  · intro runs later later' horder hruns
    have hfirst : ([] ++ runs).Pairwise fun a b : ℤ × V => a.1 ≤ b.1 := horder
    exact ⟨replay_take h hruns later later',
      fun attached => replayRuns_take h attached hfirst hruns later later'⟩

/-- 26 November 2026, with a sale that is added on the day and after it. -/
theorem score_never_looks_ahead_sale :
    let params : Params := ⟨14, 7, true, false, by decide⟩
    let calendar : Calendar := [⟨1, "sale".toList, .recurring ⟨11, 25, by decide, by decide⟩
      ⟨12, 1, by decide, by decide⟩⟩]
    let before : Points Float := ⟨[(739582, 240), (739939, 100)], by decide⟩
    let after : Points Float :=
      ⟨[(739947, 500), (739582, 240), (739939, 100), (739946, 240)], by decide⟩
    before.AgreesBefore after 739946 ∧
    ∀ value, score params calendar before 739946 value =
      score params calendar after 739946 value := by
  intro params calendar before after
  have h : before.AgreesBefore after 739946 := by
    intro d hd
    have hnext : (d == 739947) = false := by
      rw [beq_eq_false_iff_ne]
      omega
    have hday : (d == 739946) = false := by
      rw [beq_eq_false_iff_ne]
      omega
    simp only [Points.value, before, after, List.lookup_cons, hnext, hday]
  exact ⟨h, (score_never_looks_ahead params calendar before after 739946 h).1⟩

end DataQ.Seasonal
