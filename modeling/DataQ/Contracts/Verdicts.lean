import DataQ.Contracts.ImportRuns
import DataQ.Foundations.Numerals
import DataQ.Runs.Vocabulary
import Mathlib.Data.Rat.Floor
import Mathlib.Tactic.Linarith
import Mathlib.Tactic.Positivity
import Mathlib.Tactic.FieldSimp

/-! # Verdicts of translated rules

The volume monitor of `datasources/monitors.py`, and what the status of a check says that
`contracts/translate.py` makes of a quality rule: whether the rule is met. -/

namespace DataQ.Decimal
set_option autoImplicit false

/-! ## Decimals as rationals -/

def value (d : Decimal) : ℚ :=
  match d.exponent with
  | .ofNat n => d.signed * 10 ^ n
  | .negSucc n => d.signed / 10 ^ (n + 1)

theorem floor_eq (d : Decimal) : d.floor = ⌊d.value⌋ := by
  unfold floor value
  cases d.exponent with
  | ofNat n =>
    have hcast : ((d.signed : ℚ) * 10 ^ n) = ((d.signed * 10 ^ n : ℤ) : ℚ) := by push_cast; rfl
    dsimp only
    rw [hcast, Int.floor_intCast]
  | negSucc n =>
    have hcast : ((d.signed : ℚ) / 10 ^ (n + 1)) = (d.signed : ℚ) / ((10 ^ (n + 1) : ℕ) : ℚ) := by
      push_cast
      rfl
    dsimp only
    rw [hcast, Rat.floor_intCast_div_natCast]
    push_cast
    rfl

theorem value_neg (d : Decimal) :
    ({ d with negative := !d.negative } : Decimal).value = -d.value := by
  have hsigned : ({ d with negative := !d.negative } : Decimal).signed = -d.signed := by
    unfold signed
    cases d.negative <;> simp
  unfold value
  rw [hsigned]
  cases d.exponent with
  | ofNat n => push_cast; ring
  | negSucc n => push_cast; ring

theorem ceil_eq (d : Decimal) : d.ceil = ⌈d.value⌉ := by
  rw [ceil, floor_eq, value_neg, Int.floor_neg, neg_neg]

theorem value_of_whole {d : Decimal} (h : d.whole = true) : d.value = d.floor := by
  have hfloor : d.floor = d.ceil := of_decide_eq_true h
  have hle := Int.le_ceil d.value
  have hge := Int.floor_le d.value
  rw [← ceil_eq, ← hfloor] at hle
  rw [← floor_eq] at hge
  exact le_antisymm hle hge

end DataQ.Decimal

namespace DataQ.Contracts
open Runs (CheckKind CheckOutcome FailingTier Reading ResultStatus resolveStatus)
set_option autoImplicit false

variable (tools : Tools)

/-! ## The volume monitor -/

/-- `_volume_bound`; an error is `MonitorConfigError`. -/
def volumeBound (config : Fields) (key : Text) : Except Unit (Option ℤ) :=
  let whole := fun n : ℤ => if n < 0 then .error () else .ok (some n)
  match config.lookup key with
  | none | some .null => .ok none
  | some (.num n) =>
    if n.isInt then whole (Numerals.readInteger n.text).1
    else
      match Decimal.ofText n.text with
      | some d => if d.whole then whole d.floor else .error ()
      | none => .error ()
  | some (.str s) =>
    match Decimal.ofText s with
    | some d =>
      if d.whole ∧ pyStrip s = (Numeral.ofInt d.floor).text then whole d.floor else .error ()
    | none => .error ()
  | some _ => .error ()

/-- `_volume_bounds`. -/
def volumeBounds (config : Fields) : Except Unit (Option ℤ × Option ℤ) := do
  let minRows ← volumeBound config "min_rows".toList
  let maxRows ← volumeBound config "max_rows".toList
  match minRows, maxRows with
  | none, none => .error ()
  | some low, some high => if high < low then .error () else pure (some low, some high)
  | minRows, maxRows => pure (minRows, maxRows)

/-- `_volume_deviation_pct`. -/
def volumeDeviationPct (rowCount : ℤ) (minRows maxRows : Option ℤ) : ℚ :=
  let outside := fun distance bound : ℤ =>
    if bound ≠ 0 then (distance : ℚ) / bound * 100 else 100
  match minRows.filter (rowCount < ·), maxRows.filter (· < rowCount) with
  | some low, _ => outside (low - rowCount) low
  | none, some high => outside (rowCount - high) high
  | none, none => 0

/-- `_volume_outcome`. -/
def volumeOutcome (config : Fields) (rowCount : ℤ) : Except Unit CheckOutcome := do
  let (minRows, maxRows) ← volumeBounds config
  let deviation := volumeDeviationPct rowCount minRows maxRows
  pure { expectationType := "monitor:volume"
         success := deviation = 0
         errored := false
         skipped := false
         errorMessage := none
         metricValue := some (.finite deviation)
         unexpectedPercent := none
         observedCount := none
         severity := none }

/-- The thresholds of a draft as those of its check. -/
def Thresholds.columns (t : Thresholds) : Runs.Thresholds :=
  ⟨t.warn.map Decimal.value, t.fail.map Decimal.value, t.critical.map Decimal.value⟩

/-- The status that the draft's check gets of a number of rows. -/
def volumeStatus (draft : CheckDraft) (rowCount : ℤ) : Except Unit ResultStatus :=
  (volumeOutcome draft.config rowCount).map fun outcome =>
    (resolveStatus outcome draft.thresholds.columns).1

/-! ## Rows that an operator allows -/

/-- The number meets the operator with its value. -/
def Operator.Allows (op : Operator) (value : Json) (n : ℚ) : Prop :=
  match op, value with
  | .mustBeBetween, .arr [first, last] =>
    ∃ low high, decimal first = some low ∧ decimal last = some high ∧
      low.value ≤ n ∧ n ≤ high.value
  | .mustBe, value => ∃ bound, decimal value = some bound ∧ n = bound.value
  | .mustBeGreaterThan, value => ∃ bound, decimal value = some bound ∧ bound.value < n
  | .mustBeGreaterOrEqualTo, value => ∃ bound, decimal value = some bound ∧ bound.value ≤ n
  | .mustBeLessThan, value => ∃ bound, decimal value = some bound ∧ n < bound.value
  | .mustBeLessOrEqualTo, value => ∃ bound, decimal value = some bound ∧ n ≤ bound.value
  | _, _ => False

/-- The config of a volume check with these bounds. -/
def boundsConfig (minRows maxRows : Option ℤ) : Fields :=
  (minRows.map fun n => ("min_rows".toList, Json.num (.ofInt n))).toList ++
    (maxRows.map fun n => ("max_rows".toList, Json.num (.ofInt n))).toList

/-- A number of rows is within the bounds. -/
def Within (minRows maxRows : Option ℤ) (n : ℤ) : Prop :=
  (∀ low ∈ minRows, low ≤ n) ∧ ∀ high ∈ maxRows, n ≤ high

theorem within_low (low n : ℤ) : Within (some low) none n ↔ low ≤ n := by simp [Within]

theorem within_high (high n : ℤ) : Within none (some high) n ↔ n ≤ high := by simp [Within]

theorem rowBounds_between {value : Json} {config : Fields}
    (h : rowBounds .mustBeBetween value = some config) :
    ∃ low high : ℤ, config = boundsConfig (some low) (some high) ∧ low ≤ high ∧
      ∀ n : ℤ, Operator.mustBeBetween.Allows value n ↔ low ≤ n ∧ n ≤ high := by
  unfold rowBounds at h
  split at h
  · next first last heq =>
    split at h
    · next low high hlow hhigh =>
      split at h
      · exact nomatch h
      · next hle =>
        obtain rfl := Option.some.inj h
        refine ⟨low.ceil, high.floor, rfl, by omega, fun n => ?_⟩
        rw [Decimal.ceil_eq, Decimal.floor_eq, Int.ceil_le, Int.le_floor]
        constructor
        · rintro ⟨low', high', hlow', hhigh', hbounds⟩
          obtain rfl := Option.some.inj (hlow.symm.trans hlow')
          obtain rfl := Option.some.inj (hhigh.symm.trans hhigh')
          exact hbounds
        · exact fun hbounds => ⟨low, high, hlow, hhigh, hbounds⟩
    · exact nomatch h
  · exact nomatch h
  · simp_all

/-- An operator with one bound, whatever it asks of it. -/
theorem bound_iff {value : Json} {bound : Decimal} (hbound : decimal value = some bound)
    {P : ℚ → Prop} : (∃ b, decimal value = some b ∧ P b.value) ↔ P bound.value := by
  constructor
  · rintro ⟨b, hb, hP⟩
    obtain rfl := Option.some.inj (hbound.symm.trans hb)
    exact hP
  · exact fun hP => ⟨bound, hbound, hP⟩

/-- The bounds of an operator with one bound. -/
def rowBound (op : Operator) (bound : Decimal) : Option Fields :=
  match op with
  | .mustBe =>
    if bound.whole then some (boundsConfig (some bound.floor) (some bound.floor)) else none
  | .mustBeGreaterThan => some (boundsConfig (some (bound.floor + 1)) none)
  | .mustBeGreaterOrEqualTo => some (boundsConfig (some bound.ceil) none)
  | .mustBeLessThan => some (boundsConfig none (some (bound.ceil - 1)))
  | .mustBeLessOrEqualTo => some (boundsConfig none (some bound.floor))
  | _ => none

theorem rowBounds_one {op : Operator} (hbetween : op ≠ .mustBeBetween) (value : Json) :
    rowBounds op value = (decimal value).bind (rowBound op) := by
  cases op with
  | mustBeBetween => exact absurd rfl hbetween
  | mustBe => rfl
  | mustNotBe => rfl
  | mustBeGreaterThan => rfl
  | mustBeGreaterOrEqualTo => rfl
  | mustBeLessThan => rfl
  | mustBeLessOrEqualTo => rfl
  | mustNotBeBetween => rfl

theorem rowBounds_eq_some {op : Operator} {value : Json} {config : Fields}
    (h : rowBounds op value = some config) :
    ∃ minRows maxRows, config = boundsConfig minRows maxRows ∧
      (minRows.isSome ∨ maxRows.isSome) ∧
      (∀ low ∈ minRows, ∀ high ∈ maxRows, low ≤ high) ∧
      ∀ n : ℤ, op.Allows value n ↔ Within minRows maxRows n := by
  by_cases hbetween : op = .mustBeBetween
  · subst hbetween
    obtain ⟨low, high, rfl, hle, hallows⟩ := rowBounds_between h
    refine ⟨some low, some high, rfl, .inl rfl, by simpa using hle, fun n => ?_⟩
    rw [hallows]
    simp [Within]
  rw [rowBounds_one hbetween] at h
  obtain ⟨bound, hbound, hconfig⟩ := Option.bind_eq_some_iff.mp h
  cases op with
  | mustBe =>
    change (if bound.whole then some _ else none) = some config at hconfig
    split at hconfig
    · next hwhole =>
      obtain rfl := Option.some.inj hconfig
      refine ⟨_, _, rfl, .inl rfl, by simp, fun n => ?_⟩
      change (∃ b, decimal value = some b ∧ n = b.value) ↔ _
      rw [@bound_iff _ _ hbound ((n : ℚ) = ·), Decimal.value_of_whole hwhole, Int.cast_inj]
      simp only [Within, Option.mem_some_iff, forall_eq']
      omega
    · cases hconfig
  | mustNotBe => cases hconfig
  | mustBeGreaterThan =>
    obtain rfl := Option.some.inj hconfig
    refine ⟨some (bound.floor + 1), none, rfl, .inl rfl, by simp, fun n => ?_⟩
    change (∃ b, decimal value = some b ∧ b.value < n) ↔ _
    rw [@bound_iff _ _ hbound (· < (n : ℚ)), Decimal.floor_eq, ← Int.floor_lt, within_low]
    omega
  | mustBeGreaterOrEqualTo =>
    obtain rfl := Option.some.inj hconfig
    refine ⟨some bound.ceil, none, rfl, .inl rfl, by simp, fun n => ?_⟩
    change (∃ b, decimal value = some b ∧ b.value ≤ n) ↔ _
    rw [@bound_iff _ _ hbound (· ≤ (n : ℚ)), Decimal.ceil_eq, ← Int.ceil_le, within_low]
  | mustBeLessThan =>
    obtain rfl := Option.some.inj hconfig
    refine ⟨none, some (bound.ceil - 1), rfl, .inr rfl, by simp, fun n => ?_⟩
    change (∃ b, decimal value = some b ∧ n < b.value) ↔ _
    rw [@bound_iff _ _ hbound ((n : ℚ) < ·), Decimal.ceil_eq, ← Int.lt_ceil, within_high]
    omega
  | mustBeLessOrEqualTo =>
    obtain rfl := Option.some.inj hconfig
    refine ⟨none, some bound.floor, rfl, .inr rfl, by simp, fun n => ?_⟩
    change (∃ b, decimal value = some b ∧ n ≤ b.value) ↔ _
    rw [@bound_iff _ _ hbound ((n : ℚ) ≤ ·), Decimal.floor_eq, ← Int.le_floor, within_high]
  | mustBeBetween => exact absurd rfl hbetween
  | mustNotBeBetween => cases hconfig

/-! ## What the volume monitor says -/

theorem isInt_ofInt (n : ℤ) : (Numeral.ofInt n).isInt = true := by
  have hdigits := Numerals.isDigit_toDigits
  cases n with
  | ofNat n =>
    obtain ⟨c, cs, hfirst, hc⟩ := Numerals.natural_first n
    have htext : (Numeral.ofInt (.ofNat n)).text = c :: cs := hfirst
    have hall : (c :: cs).all Char.isDigit = true := by
      rw [← hfirst]
      exact List.all_eq_true.mpr (hdigits n)
    have hminus : c ≠ '-' := by
      rintro rfl
      exact nomatch hc
    unfold Numeral.isInt
    rw [htext]
    split
    · next heq => exact absurd (List.cons.inj heq).1 hminus
    · rw [hall]
      rfl
  | negSucc n =>
    have hall : (Nat.toDigits 10 (n + 1)).all Char.isDigit = true :=
      List.all_eq_true.mpr (hdigits (n + 1))
    have hne : Nat.toDigits 10 (n + 1) ≠ [] := Nat.toDigits_ne_nil
    have htext : (Numeral.ofInt (.negSucc n)).text = '-' :: Nat.toDigits 10 (n + 1) := rfl
    unfold Numeral.isInt
    rw [htext]
    simp [hne, hall]

theorem volumeBound_num {config : Fields} {key : Text} {n : ℤ}
    (h : config.lookup key = some (.num (.ofInt n))) :
    volumeBound config key = if n < 0 then .error () else .ok (some n) := by
  have hread := @Numerals.readInteger_ofInt n [] (by simp)
  rw [List.append_nil] at hread
  unfold volumeBound
  rw [h]
  dsimp only
  rw [if_pos (isInt_ofInt n), hread]

theorem volumeBound_none {config : Fields} {key : Text} (h : config.lookup key = none) :
    volumeBound config key = .ok none := by
  unfold volumeBound
  rw [h]

/-- A bound is negative. -/
def negativeBound (minRows maxRows : Option ℤ) : Bool := minRows.any (· < 0) || maxRows.any (· < 0)

theorem volumeBounds_config {minRows maxRows : Option ℤ} (hsome : minRows.isSome ∨ maxRows.isSome)
    (hle : ∀ low ∈ minRows, ∀ high ∈ maxRows, low ≤ high) :
    volumeBounds (boundsConfig minRows maxRows) =
      if negativeBound minRows maxRows then .error () else .ok (minRows, maxRows) := by
  have hmin : volumeBound (boundsConfig minRows maxRows) "min_rows".toList =
      if minRows.any (· < 0) then .error () else .ok minRows := by
    cases minRows with
    | none => cases maxRows <;> exact volumeBound_none rfl
    | some low =>
      have hlow : (boundsConfig (some low) maxRows).lookup "min_rows".toList =
          some (.num (.ofInt low)) := by
        cases maxRows <;> rfl
      rw [volumeBound_num hlow]
      simp
  have hmax : volumeBound (boundsConfig minRows maxRows) "max_rows".toList =
      if maxRows.any (· < 0) then .error () else .ok maxRows := by
    cases maxRows with
    | none => cases minRows <;> exact volumeBound_none rfl
    | some high =>
      have hhigh : (boundsConfig minRows (some high)).lookup "max_rows".toList =
          some (.num (.ofInt high)) := by
        cases minRows <;> rfl
      rw [volumeBound_num hhigh]
      simp
  unfold volumeBounds negativeBound
  rw [hmin, hmax]
  by_cases hlow : minRows.any (· < 0) = true
  · rw [if_pos hlow, hlow]
    rfl
  have hlow' : minRows.any (· < 0) = false := by simpa using hlow
  rw [if_neg hlow, hlow', Bool.false_or]
  by_cases hhigh : maxRows.any (· < 0) = true
  · rw [if_pos hhigh, if_pos hhigh]
    rfl
  rw [if_neg hhigh, if_neg hhigh]
  cases minRows with
  | none =>
    cases maxRows with
    | none => simp at hsome
    | some high => rfl
  | some low =>
    cases maxRows with
    | none => rfl
    | some high =>
      have hbounds := hle low rfl high rfl
      change (if high < low then _ else _) = _
      rw [if_neg (by omega)]
      rfl

/-! ## Rows outside the bounds -/

theorem volumeDeviationPct_of_within {n : ℤ} {minRows maxRows : Option ℤ}
    (h : Within minRows maxRows n) : volumeDeviationPct n minRows maxRows = 0 := by
  have hlow : minRows.filter (n < ·) = none := by
    rw [Option.filter_eq_none_iff]
    intro low hmem
    have hle := h.1 low hmem
    simpa using hle
  have hhigh : maxRows.filter (· < n) = none := by
    rw [Option.filter_eq_none_iff]
    intro high hmem
    have hle := h.2 high hmem
    simpa using hle
  unfold volumeDeviationPct
  rw [hlow, hhigh]

/-- So much of a percent is one row of `10 ^ 11`. -/
theorem le_outside {distance bound : ℤ} (hdistance : 1 ≤ distance) (hbound : 0 ≤ bound) :
    0 < (if bound ≠ 0 then (distance : ℚ) / bound * 100 else 100) ∧
      (bound ≤ 10 ^ 11 →
        1 / 10 ^ 9 ≤ (if bound ≠ 0 then (distance : ℚ) / bound * 100 else 100)) := by
  by_cases hzero : bound = 0
  · rw [if_neg (not_not_intro hzero)]
    norm_num
  · have hpos : (0 : ℚ) < bound := by exact_mod_cast (by omega : 0 < bound)
    have hone : (1 : ℚ) ≤ distance := by exact_mod_cast hdistance
    rw [if_pos hzero]
    refine ⟨by positivity, fun hsmall => ?_⟩
    have hsmall' : (bound : ℚ) ≤ 10 ^ 11 := by exact_mod_cast hsmall
    rw [div_mul_eq_mul_div, div_le_div_iff₀ (by positivity) hpos]
    nlinarith

/-- No bound is larger than this. -/
def BoundedBy (limit : ℤ) (minRows maxRows : Option ℤ) : Prop :=
  (∀ low ∈ minRows, low ≤ limit) ∧ ∀ high ∈ maxRows, high ≤ limit

theorem volumeDeviationPct_of_outside {n : ℤ} {minRows maxRows : Option ℤ}
    (h : ¬ Within minRows maxRows n) (hsign : negativeBound minRows maxRows = false) :
    0 < volumeDeviationPct n minRows maxRows ∧
      (BoundedBy (10 ^ 11) minRows maxRows →
        1 / 10 ^ 9 ≤ volumeDeviationPct n minRows maxRows) := by
  unfold negativeBound at hsign
  rw [Bool.or_eq_false_iff, Option.any_eq_false, Option.any_eq_false] at hsign
  unfold volumeDeviationPct
  cases hlow : minRows.filter (n < ·) with
  | some low =>
    obtain ⟨hmem, hless⟩ := Option.filter_eq_some_iff.mp hlow
    have hless' : n < low := of_decide_eq_true hless
    have hpos : 0 ≤ low := by simpa using hsign.1 low hmem
    obtain ⟨hout, hfar⟩ := @le_outside (low - n) low (by omega) hpos
    exact ⟨hout, fun hbounded => hfar (hbounded.1 low hmem)⟩
  | none =>
    cases hhigh : maxRows.filter (· < n) with
    | some high =>
      obtain ⟨hmem, hless⟩ := Option.filter_eq_some_iff.mp hhigh
      have hless' : high < n := of_decide_eq_true hless
      have hpos : 0 ≤ high := by simpa using hsign.2 high hmem
      obtain ⟨hout, hfar⟩ := @le_outside (n - high) high (by omega) hpos
      exact ⟨hout, fun hbounded => hfar (hbounded.2 high hmem)⟩
    | none =>
      refine absurd ⟨fun low hmem => ?_, fun high hmem => ?_⟩ h
      · have hnot := Option.filter_eq_none_iff.mp hlow low hmem
        simpa using hnot
      · have hnot := Option.filter_eq_none_iff.mp hhigh high hmem
        simpa using hnot

/-! ## The drafts of a rule -/

/-- `dataq.*Threshold`, which an export writes. -/
def thresholdKeys : List Text :=
  ["warnThreshold".toList, "failThreshold".toList, "criticalThreshold".toList]

/-- No export has overridden the thresholds of the rule. -/
def Plain (rule : Json) : Prop := ∀ key ∈ thresholdKeys, (customProperties rule).lookup key = none

theorem ruleDraft_thresholds {rule : Json} (h : Plain rule) (ref : ClauseRef)
    (name expectationType : Text) (config : Fields) (band : Decimal) (kind : CheckKind) :
    (ruleDraft tools rule ref name expectationType config band kind).thresholds =
      if tier tools rule = .fail ∨ isUnbanded expectationType = true then .empty
      else Thresholds.empty.set (tier tools rule) (some band) := by
  have hkeep : ∀ (key : Text) (t : FailingTier) (draft : CheckDraft), key ∈ thresholdKeys →
      overrideThreshold (customProperties rule) key t draft = draft := by
    intro key t draft hkey
    unfold overrideThreshold
    rw [h key hkey]
  unfold ruleDraft applyDataqOverrides
  dsimp only
  rw [hkeep _ _ _ (by simp [thresholdKeys]), hkeep _ _ _ (by simp [thresholdKeys]),
    hkeep _ _ _ (by simp [thresholdKeys])]
  unfold applyTier
  by_cases hunbanded : tier tools rule = .fail ∨ isUnbanded expectationType = true
  · rw [if_pos hunbanded]
    exact congrArg (fun draft : CheckDraft => draft.thresholds) (if_pos hunbanded)
  · rw [if_neg hunbanded]
    exact congrArg (fun draft : CheckDraft => draft.thresholds) (if_neg hunbanded)

theorem ruleDraft_keeps (rule : Json) (ref : ClauseRef) (name expectationType : Text)
    (config : Fields) (band : Decimal) (kind : CheckKind) :
    (ruleDraft tools rule ref name expectationType config band kind).config = config ∧
      (ruleDraft tools rule ref name expectationType config band kind).expectationType =
        expectationType := by
  have hkeep : ∀ (key : Text) (t : FailingTier) (draft : CheckDraft),
      (overrideThreshold (customProperties rule) key t draft).config = draft.config ∧
        (overrideThreshold (customProperties rule) key t draft).expectationType =
          draft.expectationType := by
    intro key t draft
    unfold overrideThreshold
    split <;> exact ⟨rfl, rfl⟩
  unfold ruleDraft applyDataqOverrides
  dsimp only
  rw [(hkeep _ _ _).1, (hkeep _ _ _).1, (hkeep _ _ _).1, (hkeep _ _ _).2, (hkeep _ _ _).2,
    (hkeep _ _ _).2]
  unfold applyTier
  split <;> exact ⟨rfl, rfl⟩

/-- What a metric says under a band in the slot of a tier. -/
theorem deriveStatus_set (success : Bool) (metric : ℚ) (band : Decimal) (tier : FailingTier) :
    Runs.deriveStatus success (some metric) (Thresholds.empty.set tier (some band)).columns =
      if band.value ≤ metric then tier.toStatus else .pass := by
  cases tier <;>
    simp [Runs.deriveStatus, Thresholds.columns, Thresholds.set, Thresholds.empty, Runs.reaches,
      FailingTier.toStatus]

theorem deriveStatus_empty (success : Bool) (metric : ℚ) :
    Runs.deriveStatus success (some metric) Thresholds.empty.columns =
      if success then .pass else .fail := rfl

theorem anyUnexpectedPercent_value : anyUnexpectedPercent.value = 1 / 10 ^ 9 := by
  have hvalue : anyUnexpectedPercent.value = ((1 : ℤ) : ℚ) / 10 ^ (8 + 1) := rfl
  rw [hvalue]
  norm_num

/-! ## Row counts -/

theorem volumeStatus_eq {draft : CheckDraft} {minRows maxRows : Option ℤ}
    (h : volumeBounds draft.config = .ok (minRows, maxRows)) (rowCount : ℤ) :
    volumeStatus draft rowCount =
      .ok (Runs.deriveStatus (decide (volumeDeviationPct rowCount minRows maxRows = 0))
        (some (volumeDeviationPct rowCount minRows maxRows)) draft.thresholds.columns) := by
  unfold volumeStatus volumeOutcome
  rw [h]
  rfl

theorem isUnbanded_volume : isUnbanded (monitorExpectationType .volume) = false := by decide

/-- A check of a `rowCount` rule counts exactly: unless a bound that the operator leaves is
negative, which the monitor refuses, a number of rows passes if the operator allows it, and else has
the status of the rule's tier. Above `10 ^ 11` a bound is exact only for the tier `fail`. -/
theorem rowCount_verdict (at_ : Placed) (hplain : Plain at_.rule) {draft : CheckDraft}
    (hdraft : draft ∈ (rowCountRule tools at_).1) :
    ∃ op value minRows maxRows, operator at_.rule = some (op, value) ∧
      (∀ n : ℤ, op.Allows value n ↔ Within minRows maxRows n) ∧
      ∀ rowCount : ℕ,
        (volumeStatus draft rowCount = .error () ↔ negativeBound minRows maxRows = true) ∧
        ∀ status, volumeStatus draft rowCount = .ok status →
          tier tools at_.rule = .fail ∨ BoundedBy (10 ^ 11) minRows maxRows →
          (op.Allows value rowCount → status = .pass) ∧
            (¬ op.Allows value rowCount → status = (tier tools at_.rule).toStatus) := by
  unfold rowCountRule at hdraft
  dsimp only at hdraft
  cases hop : operator at_.rule with
  | none =>
    rw [hop] at hdraft
    exact absurd hdraft List.not_mem_nil
  | some entry =>
    obtain ⟨op, value⟩ := entry
    rw [hop] at hdraft
    dsimp only at hdraft
    cases hbounds : rowBounds op value with
    | none =>
      rw [hbounds] at hdraft
      exact absurd hdraft List.not_mem_nil
    | some config =>
      rw [hbounds] at hdraft
      have hdraft := List.mem_singleton.mp hdraft
      obtain ⟨minRows, maxRows, rfl, hsome, hle, hallows⟩ := rowBounds_eq_some hbounds
      refine ⟨op, value, minRows, maxRows, rfl, hallows, fun rowCount => ?_⟩
      have hconfig : volumeBounds draft.config =
          if negativeBound minRows maxRows then .error () else .ok (minRows, maxRows) := by
        rw [hdraft, Placed.draft, (ruleDraft_keeps tools _ _ _ _ _ _ _).1]
        exact volumeBounds_config hsome hle
      by_cases hsign : negativeBound minRows maxRows = true
      · rw [if_pos hsign] at hconfig
        have herror : volumeStatus draft rowCount = .error () := by
          unfold volumeStatus volumeOutcome
          rw [hconfig]
          rfl
        rw [herror]
        exact ⟨⟨fun _ => hsign, fun _ => rfl⟩, nofun⟩
      rw [if_neg hsign] at hconfig
      rw [volumeStatus_eq hconfig]
      refine ⟨⟨nofun, fun h => absurd h hsign⟩, ?_⟩
      intro status hstatus hexact
      obtain rfl := Except.ok.inj hstatus
      have hthresholds := ruleDraft_thresholds tools hplain (at_.ref tools)
        (at_.name tools "row count".toList) (monitorExpectationType .volume)
        (boundsConfig minRows maxRows) anyUnexpectedPercent .volume
      rw [isUnbanded_volume] at hthresholds
      rw [hdraft, Placed.draft, hthresholds]
      have hcount := hallows rowCount
      rw [Int.cast_natCast] at hcount
      by_cases htier : tier tools at_.rule = .fail
      · rw [if_pos (.inl htier), deriveStatus_empty, htier, hcount]
        constructor
        · intro hwithin
          simp [volumeDeviationPct_of_within hwithin]
        · intro houtside
          have hpos := (volumeDeviationPct_of_outside houtside (by simpa using hsign)).1
          simp [hpos.ne', FailingTier.toStatus]
      · rw [if_neg (by simp [htier]), deriveStatus_set, anyUnexpectedPercent_value, hcount]
        constructor
        · intro hwithin
          rw [volumeDeviationPct_of_within hwithin, if_neg (by norm_num)]
        · intro houtside
          have hfar := (volumeDeviationPct_of_outside houtside (by simpa using hsign)).2
          rw [if_pos (hfar (hexact.resolve_left htier))]

/-! ## Percentages -/

/-- The outcome of a row-wise expectation, so much of a percent of whose rows are unexpected. -/
structure Rowwise (outcome : CheckOutcome) (percent : ℚ) : Prop where
  success : outcome.success = decide (percent = 0)
  errored : outcome.errored = false
  skipped : outcome.skipped = false
  metric : outcome.metricValue = none
  percent : outcome.unexpectedPercent = some (.finite percent)
  severity : outcome.severity = none

theorem Rowwise.status {outcome : CheckOutcome} {percent : ℚ} (h : Rowwise outcome percent)
    (t : Runs.Thresholds) :
    (resolveStatus outcome t).1 = Runs.deriveStatus (decide (percent = 0)) (some percent) t := by
  unfold resolveStatus Runs.extractMetric
  simp [h.success, h.errored, h.skipped, h.metric, h.percent, h.severity, Reading.toMetric]

/-- A draft of the rule with this band, of an expectation that can have one. -/
def OfRule (at_ : Placed) (band : Decimal) (draft : CheckDraft) : Prop :=
  ∃ name expectationType config, isUnbanded expectationType = false ∧
    draft = at_.draft tools name expectationType config band .expectation

theorem OfRule.thresholds {at_ : Placed} (hplain : Plain at_.rule) {band : Decimal}
    {draft : CheckDraft} (h : OfRule tools at_ band draft) :
    draft.thresholds =
      if tier tools at_.rule = .fail then .empty
      else Thresholds.empty.set (tier tools at_.rule) (some band) := by
  obtain ⟨name, expectationType, config, hbanded, rfl⟩ := h
  rw [Placed.draft, ruleDraft_thresholds tools hplain]
  simp [hbanded]

theorem tierOf_set (tier : FailingTier) (band : Decimal) (draft : CheckDraft)
    (h : draft.thresholds =
      if tier = .fail then .empty else Thresholds.empty.set tier (some band)) :
    tierOf draft = tier := by
  unfold tierOf
  rw [h]
  cases tier <;> rfl

theorem OfRule.inTier {at_ : Placed} (hplain : Plain at_.rule) {band : Decimal}
    {draft : CheckDraft} (h : OfRule tools at_ band draft) :
    (inTier band draft).thresholds =
      Thresholds.empty.set (tier tools at_.rule) (some band) := by
  have htier := tierOf_set _ _ _ (h.thresholds tools hplain)
  obtain ⟨name, expectationType, config, hbanded, rfl⟩ := h
  unfold Contracts.inTier
  rw [Placed.draft, (ruleDraft_keeps tools _ _ _ _ _ _ _).2]
  rw [if_neg (by simp [hbanded])]
  unfold Placed.draft at htier
  rw [htier]

theorem isUnbanded_toList {s : String} (h : s ∉ unbandedExpectationTypes) :
    isUnbanded s.toList = false := by
  simp only [isUnbanded, List.any_eq_false, decide_eq_true_eq, String.toList_inj]
  rintro t ht rfl
  exact h ht

theorem isUnbanded_duplicateTarget {column : Option Text} {arguments : Json}
    {expectationType : Text} {config : Fields}
    (h : duplicateTarget column arguments = some (expectationType, config)) :
    isUnbanded expectationType = false := by
  unfold duplicateTarget at h
  split at h
  · obtain ⟨rfl, -⟩ := Prod.mk.inj (Option.some.inj h)
    exact isUnbanded_toList (by simp [unbandedExpectationTypes])
  split at h
  · exact nomatch h
  · obtain ⟨rfl, -⟩ := Prod.mk.inj (Option.some.inj h)
    exact isUnbanded_toList (by simp [unbandedExpectationTypes])
  split at h
  · obtain ⟨rfl, -⟩ := Prod.mk.inj (Option.some.inj h)
    exact isUnbanded_toList (by simp [unbandedExpectationTypes])
  · exact nomatch h

theorem isUnbanded_invalidTarget {column : Text} {arguments : Json} {expectationType : Text}
    {config : Fields} (h : invalidTarget column arguments = some (expectationType, config)) :
    isUnbanded expectationType = false := by
  unfold invalidTarget at h
  split at h
  · obtain ⟨rfl, -⟩ := Prod.mk.inj (Option.some.inj h)
    exact isUnbanded_toList (by simp [unbandedExpectationTypes])
  · obtain ⟨rfl, -⟩ := Prod.mk.inj (Option.some.inj h)
    exact isUnbanded_toList (by simp [unbandedExpectationTypes])
  · exact nomatch h

theorem ofRule_missingDrafts {at_ : Placed} {column : Text} {values : List Json} {band : Decimal}
    {draft : CheckDraft} (h : draft ∈ missingDrafts tools at_ column values band) :
    OfRule tools at_ band draft := by
  unfold missingDrafts at h
  dsimp only at h
  obtain h | h := List.mem_append.mp h
  · split at h
    · exact absurd h List.not_mem_nil
    · obtain rfl := List.mem_singleton.mp h
      exact ⟨_, _, _, isUnbanded_toList (by simp [unbandedExpectationTypes]), rfl⟩
  · split at h
    · obtain rfl := List.mem_singleton.mp h
      exact ⟨_, _, _, isUnbanded_toList (by simp [unbandedExpectationTypes]), rfl⟩
    · exact absurd h List.not_mem_nil

/-- The drafts of a library rule on rows come from its band. -/
theorem mem_libraryRule {at_ : Placed} {draft : CheckDraft}
    (hdraft : draft ∈ (libraryRule tools at_).1)
    (hmetric : at_.rule.get "metric".toList ≠ .str "rowCount".toList) :
    ∃ drafts, draft ∈ (bandOrUnmapped tools at_ (at_.rule.get "metric".toList) drafts).1 ∧
      ∀ band, ∀ d ∈ drafts band, OfRule tools at_ band d := by
  have hsingle : ∀ {label expectationType : Text} {config : Fields},
      isUnbanded expectationType = false → ∀ band, ∀ d ∈ [at_.draft tools (at_.name tools label)
        expectationType config band .expectation], OfRule tools at_ band d := by
    intro label expectationType config hbanded band d hd
    obtain rfl := List.mem_singleton.mp hd
    exact ⟨_, _, _, hbanded, rfl⟩
  have hnone : ∀ {reason : Text} {clause : Fields}, draft ∉ (at_.unmapped tools reason clause).1 :=
    List.not_mem_nil
  unfold libraryRule at hdraft
  dsimp only at hdraft
  rw [if_neg hmetric] at hdraft
  split at hdraft
  · split at hdraft
    · exact absurd hdraft hnone
    · next expectationType config htarget =>
      exact ⟨_, hdraft, hsingle (isUnbanded_duplicateTarget htarget)⟩
  split at hdraft
  · exact absurd hdraft hnone
  next column hcolumn =>
  split at hdraft
  · exact ⟨_, hdraft, hsingle (isUnbanded_toList (by simp [unbandedExpectationTypes]))⟩
  split at hdraft
  · split at hdraft
    · exact absurd hdraft hnone
    · exact ⟨_, hdraft, fun band d hd => ofRule_missingDrafts tools hd⟩
  split at hdraft
  · split at hdraft
    · exact absurd hdraft hnone
    · next expectationType config htarget =>
      exact ⟨_, hdraft, hsingle (isUnbanded_invalidTarget htarget)⟩
  · exact absurd hdraft hnone

/-- The band of a rule is the bound of its operator, which leaves nothing above it. -/
theorem percentBand_eq_some {rule : Json} {band : Decimal}
    (h : percentBand tools rule = .ok (some band)) :
    ∃ op value, operator rule = some (op, value) ∧ op ∈ upperBounds ∧
      decimal value = some band := by
  unfold percentBand at h
  cases hop : operator rule with
  | none =>
    rw [hop] at h
    exact nomatch h
  | some entry =>
    obtain ⟨op, value⟩ := entry
    rw [hop] at h
    dsimp only at h
    generalize tools.py.lower _ = unit at h
    split at h
    · exact nomatch h
    split at h
    · exact nomatch h
    split at h
    · next hband => exact ⟨op, value, rfl, hband.2.1, Except.ok.inj h⟩
    · exact nomatch h

theorem allows_upper {op : Operator} {value : Json} {band : Decimal} (hop : op ∈ upperBounds)
    (hband : decimal value = some band) (percent : ℚ) :
    percent < band.value ↔ op.Allows value percent ∧ percent ≠ band.value := by
  simp only [upperBounds, List.mem_cons, List.not_mem_nil, or_false] at hop
  obtain rfl | rfl := hop
  · change _ ↔ (∃ b, decimal value = some b ∧ percent < b.value) ∧ _
    rw [@bound_iff _ _ hband (percent < ·)]
    exact ⟨fun h => ⟨h, h.ne⟩, And.left⟩
  · change _ ↔ (∃ b, decimal value = some b ∧ percent ≤ b.value) ∧ _
    rw [@bound_iff _ _ hband (percent ≤ ·)]
    exact lt_iff_le_and_ne

/-- The percentages that pass under a band: those below the bound, so at the bound itself a check
fails also where the operator includes it. Without a band nothing may be unexpected, which for other
tiers than `fail` is less than `10 ^ -9` percent. -/
def PassesAt (tier : FailingTier) (rule : Json) (percent : ℚ) : Option Decimal → Prop
  | some bound => ∃ op value, operator rule = some (op, value) ∧ op ∈ upperBounds ∧
      op.Allows value percent ∧ percent ≠ bound.value
  | none => if tier = .fail then percent = 0 else percent < 1 / 10 ^ 9

def atLeastSix : Placed where
  object := "orders".toList
  rule := .obj [("metric".toList, .str "rowCount".toList),
    ("mustBeGreaterThan".toList, .num (.ofNat 5)), ("severity".toList, .str "warning".toList)]
  ruleId := "rows".toList
  prop := none

theorem rowCount_verdict_atLeastSix :
    ∃ draft op value minRows maxRows, draft ∈ (rowCountRule plainTools atLeastSix).1 ∧
      operator atLeastSix.rule = some (op, value) ∧
      (∀ n : ℤ, op.Allows value n ↔ Within minRows maxRows n) ∧
      ∀ rowCount : ℕ,
        (volumeStatus draft rowCount = .error () ↔ negativeBound minRows maxRows = true) ∧
        ∀ status, volumeStatus draft rowCount = .ok status →
          tier plainTools atLeastSix.rule = .fail ∨ BoundedBy (10 ^ 11) minRows maxRows →
          (op.Allows value rowCount → status = .pass) ∧
            (¬ op.Allows value rowCount → status = (tier plainTools atLeastSix.rule).toStatus) := by
  have hplain : Plain atLeastSix.rule := by
    intro key hkey
    rfl
  have hcons : ∃ draft, draft ∈ (rowCountRule plainTools atLeastSix).1 := ⟨_, List.mem_cons_self⟩
  obtain ⟨draft, hdraft⟩ := hcons
  obtain ⟨op, value, minRows, maxRows, h⟩ :=
    rowCount_verdict plainTools atLeastSix hplain hdraft
  exact ⟨draft, op, value, minRows, maxRows, hdraft, h⟩

def fewNulls : Placed where
  object := "orders".toList
  rule := .obj [("metric".toList, .str "nullValues".toList), ("unit".toList, .str "percent".toList),
    ("mustBeLessThan".toList, .num (.ofNat 5))]
  ruleId := "nulls".toList
  prop := some (.obj [("name".toList, .str "amount".toList)])

def twoPercent : CheckOutcome where
  expectationType := "expect_column_values_to_not_be_null"
  success := false
  errored := false
  skipped := false
  errorMessage := none
  metricValue := none
  unexpectedPercent := some (.finite 2)
  observedCount := none
  severity := none

end DataQ.Contracts
