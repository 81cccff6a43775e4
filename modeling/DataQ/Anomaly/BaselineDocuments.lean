import DataQ.Anomaly.Baselines
import DataQ.Foundations.Documents
import DataQ.Foundations.IsoTimes

/-! # The stored baseline as a document

`dump_baseline` of `services/anomaly.py` writes one dict; `load_observations`, `stored_seed` and
`load_daily` each read their part of it. Here the parts are documents with the texts of their times
and the floats of their values. -/

namespace DataQ.Anomaly.Stored
open DataQ.IsoTimes DataQ.Series
set_option autoImplicit false

/-! ## What is stored -/

structure Observation where
  ts : Moment
  value : Double
  observed : Bool
  deriving DecidableEq, Repr

/-- A date from year 1 to 9999. -/
structure Date where
  ordinal : ℤ
  inRange : 1 ≤ ordinal ∧ ordinal ≤ lastDay
  deriving DecidableEq, Repr

structure DailyPoint where
  day : Date
  value : Double
  runs : ℤ
  values : Option (List Double)
  deriving DecidableEq, Repr

def DailyPoint.ordinal (p : DailyPoint) : ℤ := p.day.ordinal

structure Daily where
  timezone : Text
  points : List DailyPoint
  deriving DecidableEq, Repr

/-- `AnomalyParams`, as far as a baseline has them; `period` is what `_period_signature` gives. -/
structure Params where
  targetMetric : Text
  window : ℕ
  seasonality : Bool
  period : Option Signature
  deriving DecidableEq, Repr

/-- What Python reads that the encoder does not write. -/
structure Python where
  /-- `as_utc(datetime.fromisoformat(text))` of the other forms of a time -/
  otherMoment : Text → Option Moment
  /-- `date.fromisoformat` of the other forms of a date -/
  otherDate : Text → Option Date
  /-- `str` of a value that is no text -/
  str : Document → Text
  /-- `float` of an int -/
  float : ℤ → Double

/-! ## Writing -/

def unitText : PeriodUnit → Text
  | .day => "day".toList
  | .week => "week".toList

def optionalText : Option Text → Document
  | none => .null
  | some text => .str text

/-- The dict of `_period_signature`. -/
def signatureEntries (s : Signature) : Entries :=
  [("date_column".toList, .str s.dateColumn), ("unit".toList, .str (unitText s.unit)),
    ("value_column".toList, optionalText s.valueColumn)]

def Observation.dump (o : Observation) : Document :=
  .mapping ([("ts".toList, .str o.ts.isoformat), ("value".toList, .float o.value)] ++
    if o.observed then [] else [("source".toList, .str backfilled)])

def DailyPoint.dump (p : DailyPoint) : Document :=
  .mapping ([("day".toList, .str (isoDate p.day.ordinal)), ("value".toList, .float p.value),
    ("runs".toList, .int p.runs)] ++
    match p.values with
    | none => []
    | some values => [("values".toList, .list (values.map .float))])

/-- `as_dict`. -/
def Daily.dump (daily : Daily) : Document :=
  .mapping [("timezone".toList, .str daily.timezone),
    ("points".toList, .list (daily.points.map DailyPoint.dump))]

/-- An optional entry. -/
def entry (key : String) : Option Document → Entries
  | none => []
  | some value => [(key.toList, value)]

/-- `dump_baseline`. -/
def dumpBaseline (observations : List Observation) (params : Params) (seed : Option Entries)
    (daily : Option Daily) : Document :=
  .mapping (entry "daily" ((daily.filter fun d => !d.points.isEmpty).map Daily.dump) ++
    [("version".toList, .int baselineVersion), ("target_metric".toList, .str params.targetMetric),
      ("window".toList, .int params.window), ("seasonality".toList, .bool params.seasonality)] ++
    entry "period" (params.period.map fun s => .mapping (signatureEntries s)) ++
    entry "seed" (seed.map .mapping) ++
    [("observations".toList, .list (observations.map Observation.dump))])

/-! ## Reading -/

/-- `value.get(key)`, where the value is a dict. -/
def get (d : Document) (key : String) : Document :=
  match d with
  | .mapping entries => (entries.lookup key.toList).getD .null
  | _ => .null

/-- `value == 1`. -/
def isVersion : Document → Bool
  | .int n => n = baselineVersion
  | .bool value => value
  | .float f => f.whole && f.toInt = baselineVersion
  | _ => false

/-- Equality with a text or `None`. -/
def isText (text : Option Text) : Document → Bool
  | .str s => text = some s
  | .null => text = none
  | _ => false

/-- Equality with what `_period_signature` gives. -/
def isPeriod (period : Option Signature) : Document → Bool
  | .null => period.isNone
  | .mapping entries =>
    match period with
    | none => false
    | some s => entries.length = 3 &&
        isText (some s.dateColumn) (get (.mapping entries) "date_column") &&
        isText (some (unitText s.unit)) (get (.mapping entries) "unit") &&
        (entries.lookup "value_column".toList).any (isText s.valueColumn)
  | _ => false

variable (py : Python)

def str : Document → Text
  | .str s => s
  | d => py.str d

/-- `as_utc(datetime.fromisoformat(text))`. -/
def fromisoformat (text : Text) : Option Moment :=
  match readMoment text with
  | some m => some m
  | none => py.otherMoment text

/-- `date.fromisoformat`. -/
def dateFromisoformat (text : Text) : Option Date :=
  match readDate text with
  | some (day, []) =>
    if h : 1 ≤ day ∧ day ≤ lastDay then some ⟨day, h⟩ else py.otherDate text
  | _ => py.otherDate text

/-- A finite number, and `float` of it. -/
def finite : Document → Option Double
  | .int n => some (py.float n)
  | .float f => some f
  | _ => none

def loadObservation (d : Document) : Option Observation :=
  match d with
  | .mapping _ => do
    let value ← finite py (get d "value")
    let ts ← fromisoformat py (str py (get d "ts"))
    some ⟨ts, value, !isText (some backfilled) (get d "source")⟩
  | _ => none

def versioned (params : Params) (payload : Document) : Bool :=
  isVersion (get payload "version") &&
    isText (some params.targetMetric) (get payload "target_metric")

/-- `load_observations`. -/
def loadObservations (params : Params) : Option Document → List Observation
  | none => []
  | some payload =>
    if versioned params payload && isPeriod params.period (get payload "period") then
      match get payload "observations" with
      | .list items => items.filterMap (loadObservation py)
      | _ => []
    else []

/-- `stored_seed`. -/
def storedSeed (params : Params) : Option Document → Option Entries
  | none => none
  | some payload =>
    if versioned params payload && isPeriod params.period (get payload "period") then
      match get payload "seed" with
      | .mapping entries => some entries
      | _ => none
    else none

def loadPoint (d : Document) : Option DailyPoint :=
  match d with
  | .mapping _ => do
    let value ← finite py (get d "value")
    let day ← dateFromisoformat py (str py (get d "day"))
    some {
      day := day
      value := value
      runs := match get d "runs" with
        | .int n => n
        | _ => 1
      values := match get d "values" with
        | .list items => some (items.filterMap (finite py))
        | _ => none }
  | _ => none

/-- `load_daily`. -/
def loadDaily (params : Params) : Option Document → Option Daily
  | none => none
  | some payload =>
    if params.period.isSome then none
    else if versioned params payload then
      match get payload "daily" with
      | .mapping entries =>
        match get (.mapping entries) "points" with
        | .list items => some {
            timezone := match get (.mapping entries) "timezone" with
              | .str s => s
              | _ => "UTC".toList
            points := byDate DailyPoint.ordinal (items.filterMap (loadPoint py)) }
        | _ => none
      | _ => none
    else none

/-! ## What is written is read back -/

section Keys
variable (observations : List Observation) (params : Params) (seed : Option Entries)
  (daily : Option Daily)

theorem get_version : get (dumpBaseline observations params seed daily) "version" =
    .int baselineVersion := by
  unfold dumpBaseline
  cases params.period <;> cases seed <;> cases daily.filter _ <;> rfl

theorem get_targetMetric : get (dumpBaseline observations params seed daily) "target_metric" =
    .str params.targetMetric := by
  unfold dumpBaseline
  cases params.period <;> cases seed <;> cases daily.filter _ <;> rfl

theorem get_period : get (dumpBaseline observations params seed daily) "period" =
    (params.period.map fun s => .mapping (signatureEntries s)).getD .null := by
  unfold dumpBaseline
  cases params.period <;> cases seed <;> cases daily.filter _ <;> rfl

theorem get_seed : get (dumpBaseline observations params seed daily) "seed" =
    (seed.map .mapping).getD .null := by
  unfold dumpBaseline
  cases params.period <;> cases seed <;> cases daily.filter _ <;> rfl

theorem get_daily : get (dumpBaseline observations params seed daily) "daily" =
    ((daily.filter fun d => !d.points.isEmpty).map Daily.dump).getD .null := by
  unfold dumpBaseline
  cases params.period <;> cases seed <;> cases daily.filter _ <;> rfl

theorem get_observations : get (dumpBaseline observations params seed daily) "observations" =
    .list (observations.map Observation.dump) := by
  unfold dumpBaseline
  cases params.period <;> cases seed <;> cases daily.filter _ <;> rfl

end Keys

theorem isText_str {text s : Text} : isText (some text) (.str s) = true ↔ text = s := by
  simp [isText]

theorem isText_optional {text other : Option Text} :
    isText text (optionalText other) = true ↔ text = other := by
  cases other <;> simp [optionalText, isText]

theorem unitText_inj {u v : PeriodUnit} (h : unitText u = unitText v) : u = v := by
  cases u <;> cases v <;> first | rfl | exact absurd h (by decide)

/-- A stored signature is equal to the one it was written from and to no other. -/
theorem isPeriod_written {period written : Option Signature} :
    isPeriod period ((written.map fun s => .mapping (signatureEntries s)).getD .null) = true ↔
      period = written := by
  cases written with
  | none => cases period <;> simp [isPeriod]
  | some w =>
    cases period with
    | none => simp [isPeriod]
    | some s =>
      have hread : isPeriod (some s) (.mapping (signatureEntries w)) =
          (isText (some s.dateColumn) (.str w.dateColumn) &&
            isText (some (unitText s.unit)) (.str (unitText w.unit)) &&
            isText s.valueColumn (optionalText w.valueColumn)) := rfl
      show isPeriod (some s) (.mapping (signatureEntries w)) = true ↔ _
      rw [hread, Bool.and_eq_true, Bool.and_eq_true, isText_str, isText_str, isText_optional]
      obtain ⟨dateColumn, unit, valueColumn⟩ := s
      constructor
      · rintro ⟨⟨hdate, hunit⟩, hvalue⟩
        cases unitText_inj hunit
        cases hdate
        cases hvalue
        rfl
      · intro h
        cases h
        exact ⟨⟨rfl, rfl⟩, rfl⟩

variable {py} {params : Params}

theorem versioned_written (params' : Params) (observations : List Observation)
    (seed : Option Entries) (daily : Option Daily) :
    versioned params' (dumpBaseline observations params seed daily) = true ↔
      params'.targetMetric = params.targetMetric := by
  rw [versioned, get_version, get_targetMetric, Bool.and_eq_true, isText_str]
  exact ⟨fun h => h.2, fun h => ⟨rfl, h⟩⟩

theorem loadObservation_dump (py : Python) (o : Observation) :
    loadObservation py o.dump = some o := by
  obtain ⟨ts, value, observed⟩ := o
  have hts : fromisoformat py ts.isoformat = some ts := by
    rw [fromisoformat, readMoment_isoformat]
  have hread : loadObservation py (Observation.dump ⟨ts, value, observed⟩) =
      (fromisoformat py ts.isoformat).bind fun ts => some ⟨ts, value, observed⟩ := by
    cases observed <;> rfl
  rw [hread, hts]
  rfl

theorem dateFromisoformat_isoDate (py : Python) (day : Date) :
    dateFromisoformat py (isoDate day.ordinal) = some day := by
  have hread := readDate_isoDate day.inRange.1 day.inRange.2 []
  rw [List.append_nil] at hread
  rw [dateFromisoformat, hread]
  exact dif_pos day.inRange

theorem finite_floats (py : Python) (values : List Double) :
    (values.map Document.float).filterMap (finite py) = values := by
  rw [List.filterMap_map]
  exact List.filterMap_some

theorem loadPoint_dump (py : Python) (p : DailyPoint) : loadPoint py p.dump = some p := by
  obtain ⟨day, value, runs, values⟩ := p
  have hread : loadPoint py (DailyPoint.dump ⟨day, value, runs, values⟩) =
      (dateFromisoformat py (isoDate day.ordinal)).bind fun day => some
        ⟨day, value, runs, values.map fun values => (values.map .float).filterMap (finite py)⟩ := by
    cases values <;> rfl
  rw [hread, dateFromisoformat_isoDate]
  cases values with
  | none => rfl
  | some values => simp only [Option.bind_some, Option.map_some, finite_floats]

theorem filterMap_written {α : Type} {load : Document → Option α} {dump : α → Document}
    (h : ∀ a, load (dump a) = some a) (items : List α) :
    (items.map dump).filterMap load = items := by
  have hload : load ∘ dump = some := funext h
  rw [List.filterMap_map, hload]
  exact List.filterMap_some

variable (py) (params) (params' : Params) (observations : List Observation) (seed : Option Entries)
  (daily : Option Daily)

/-- Observations are read back by checks of the same metric and signature only. -/
theorem loadObservations_dump :
    loadObservations py params' (some (dumpBaseline observations params seed daily)) =
      if params'.targetMetric = params.targetMetric ∧ params'.period = params.period then
        observations
      else [] := by
  rw [loadObservations, get_period, get_observations]
  simp only [Bool.and_eq_true, versioned_written, isPeriod_written,
    filterMap_written (loadObservation_dump py)]

theorem storedSeed_dump :
    storedSeed params' (some (dumpBaseline observations params seed daily)) =
      if params'.targetMetric = params.targetMetric ∧ params'.period = params.period then seed
      else none := by
  rw [storedSeed, get_period, get_seed]
  simp only [Bool.and_eq_true, versioned_written, isPeriod_written]
  cases seed <;> rfl

/-- The points in the order of their days. -/
def Daily.inOrder (daily : Daily) : Daily :=
  { daily with points := byDate DailyPoint.ordinal daily.points }

theorem loadDaily_dump :
    loadDaily py params' (some (dumpBaseline observations params seed daily)) =
      if params'.targetMetric = params.targetMetric ∧ params'.period = none then
        (daily.filter fun d => !d.points.isEmpty).map Daily.inOrder
      else none := by
  rw [loadDaily, get_daily]
  cases hperiod : params'.period with
  | some s => simp
  | none =>
    simp only [Option.isSome_none, Bool.false_eq_true, if_false, versioned_written, and_true]
    cases daily.filter fun d => !d.points.isEmpty with
    | none => rfl
    | some d =>
      have hpoints := filterMap_written (loadPoint_dump py) d.points
      show (if _ then some (Daily.mk d.timezone (byDate _ ((d.points.map DailyPoint.dump).filterMap
        (loadPoint py)))) else none) = _
      rw [hpoints]
      rfl

theorem Daily.inOrder_eq {daily : Daily}
    (h : daily.points.Pairwise fun p q => p.ordinal ≤ q.ordinal) :
    daily.inOrder = daily := by
  have hsorted : byDate DailyPoint.ordinal daily.points = daily.points :=
    List.Pairwise.insertionSort_eq h
  rw [Daily.inOrder, hsorted]

/-- The three parts of a baseline are read back by the check that wrote them, a series without
points apart, and by no other metric or signature. -/
theorem baseline_reads_back :
    loadObservations py params (some (dumpBaseline observations params seed daily)) =
        observations ∧
      storedSeed params (some (dumpBaseline observations params seed daily)) = seed ∧
      loadDaily py params (some (dumpBaseline observations params seed daily)) =
        (if params.period = none then
          (daily.filter fun d => !d.points.isEmpty).map Daily.inOrder
        else none) ∧
      (∀ d : Daily, (d.points.Pairwise fun p q => p.ordinal ≤ q.ordinal) →
        d.inOrder = d) ∧
      (∀ params' : Params, params'.targetMetric ≠ params.targetMetric →
        loadObservations py params' (some (dumpBaseline observations params seed daily)) = [] ∧
          storedSeed params' (some (dumpBaseline observations params seed daily)) = none ∧
          loadDaily py params' (some (dumpBaseline observations params seed daily)) = none) ∧
      ∀ params' : Params, params'.period ≠ params.period →
        loadObservations py params' (some (dumpBaseline observations params seed daily)) = [] ∧
          storedSeed params' (some (dumpBaseline observations params seed daily)) = none ∧
          (params'.period ≠ none →
            loadDaily py params' (some (dumpBaseline observations params seed daily)) = none) := by
  refine ⟨?_, ?_, ?_, fun d => Daily.inOrder_eq, fun params' hmetric => ⟨?_, ?_, ?_⟩,
    fun params' hperiod => ⟨?_, ?_, fun hsome => ?_⟩⟩
  · rw [loadObservations_dump, if_pos ⟨rfl, rfl⟩]
  · rw [storedSeed_dump, if_pos ⟨rfl, rfl⟩]
  · simp only [loadDaily_dump, true_and]
  · rw [loadObservations_dump, if_neg fun h => hmetric h.1]
  · rw [storedSeed_dump, if_neg fun h => hmetric h.1]
  · rw [loadDaily_dump, if_neg fun h => hmetric h.1]
  · rw [loadObservations_dump, if_neg fun h => hperiod h.2]
  · rw [storedSeed_dump, if_neg fun h => hperiod h.2]
  · rw [loadDaily_dump, if_neg fun h => hsome h.2]

/-- A series without points is not written, so it does not come back. -/
theorem empty_series_is_not_read_back :
    ¬∀ (py : Python) (params : Params) (observations : List Observation) (seed : Option Entries)
      (daily : Option Daily),
      loadObservations py params (some (dumpBaseline observations params seed daily)) =
          observations ∧
        storedSeed params (some (dumpBaseline observations params seed daily)) = seed ∧
        loadDaily py params (some (dumpBaseline observations params seed daily)) = daily := by
  intro h
  let zero : Double := ⟨false, 0, 0, .inr ⟨rfl, rfl⟩⟩
  have hread := (h ⟨fun _ => none, fun _ => none, fun _ => [], fun _ => zero⟩
    ⟨"row_count".toList, 14, false, none⟩ [] none (some ⟨"UTC".toList, []⟩)).2.2
  rw [loadDaily_dump] at hread
  cases hread

end DataQ.Anomaly.Stored
