import DataQ.Foundations.Text
import Mathlib.Data.Rat.Defs
import Mathlib.Algebra.Order.Field.Rat
import Mathlib.Data.Fintype.Basic
import Mathlib.Tactic.Linarith

/-! # Two sides of a comparison

`datasources/comparison.py`: the frames that are compared, and how a column of both sides is
normalized. pandas is a parameter: which kind a series is of, how it is converted, and what its
values read. -/

namespace DataQ.Comparison
set_option autoImplicit false

/-- A value as a `float64`; a null is one that is not a number. -/
inductive Number
  | nan
  | inf (negative : Bool)
  | fin (q : ℚ)
  deriving DecidableEq

inductive ArrowType
  | timestamp
  | date
  | other
  deriving DecidableEq

/-- What is used of pandas, on series of so many values. -/
structure Pandas (S : ℕ → Type) where
  isDatetime64 {n : ℕ} : S n → Bool
  arrowType {n : ℕ} : S n → Option ArrowType
  isNumeric {n : ℕ} : S n → Bool
  isBool {n : ℕ} : S n → Bool
  isInteger {n : ℕ} : S n → Bool
  isna {n : ℕ} : S n → Fin n → Bool
  /-- `pd.to_datetime(s, errors="coerce", utc=False, format="mixed")`. -/
  toDatetime {n : ℕ} : S n → S n
  /-- `pd.to_numeric(s, errors="coerce")`. -/
  toNumeric {n : ℕ} : S n → S n
  hasZone {n : ℕ} : S n → Bool
  asDatetime {n : ℕ} : S n → S n
  asDatetimeUtc {n : ℕ} : S n → S n
  toNaiveUtc {n : ℕ} : S n → S n
  /-- `s.dt.strftime("%Y-%m-%dT%H:%M:%S.%f")`. -/
  strftime {n : ℕ} : S n → S n
  /-- `s.astype("Int64")`, where it does not raise. -/
  asInt64 {n : ℕ} : S n → Option (S n)
  asFloat64 {n : ℕ} : S n → S n
  /-- `s.astype("string")`. -/
  strings {n : ℕ} : S n → Fin n → Option Text
  /-- `s.to_numpy(dtype="float64", na_value=np.nan)`. -/
  numbers {n : ℕ} : S n → Fin n → Number

/-- `s.astype("string")` makes no null of a number. -/
def Pandas.KeepsNumbers {S : ℕ → Type} (pd : Pandas S) : Prop :=
  ∀ {n : ℕ} (s : S n) (i : Fin n), pd.numbers s i ≠ .nan → (pd.strings s i).isSome = true

/-- `_NormalizedPair`: the two numeric forms are there together or not at all. -/
structure NormalizedPair (m n : ℕ) where
  sourceStr : Fin m → Option Text
  targetStr : Fin n → Option Text
  nums : Option ((Fin m → Number) × (Fin n → Number))

section Normalization
variable {S : ℕ → Type} (pd : Pandas S) {m n : ℕ}

/-- `_is_datetime_like`. -/
def isDatetimeLike (s : S n) : Bool :=
  if pd.isDatetime64 s then true
  else match pd.arrowType s with
    | some .timestamp => true
    | some .date => true
    | _ => false

/-- `_canonical_datetime_strings`. -/
def canonicalDatetimeStrings (s : S n) : Fin n → Option Text :=
  let s := if pd.hasZone s then pd.asDatetimeUtc s else pd.asDatetime s
  let s := if pd.hasZone s then pd.toNaiveUtc s else s
  pd.strings (pd.strftime s)

/-- `bool((after.isna() & before.notna()).any())`. -/
def losesValues (before after : S n) : Bool :=
  decide (∃ i, pd.isna after i = true ∧ pd.isna before i = false)

/-- Integers where both sides are such and fit, else floats. -/
def canonicalNumbers (s : S m) (t : S n) : S m × S n :=
  if pd.isInteger s && pd.isInteger t then
    match pd.asInt64 s, pd.asInt64 t with
    | some s', some t' => (s', t')
    | _, _ => (pd.asFloat64 s, pd.asFloat64 t)
  else (pd.asFloat64 s, pd.asFloat64 t)

/-- `s2` where it is lossless: the series itself if it is of the kind, else what it converts to. -/
def converted (ofKind : Bool) (convert : S n → S n) (s : S n) : Option (S n) :=
  if ofKind then some s
  else if losesValues pd s (convert s) then none
  else some (convert s)

def isNumericSeries (s : S n) : Bool := pd.isNumeric s && !pd.isBool s

/-- The numeric pair rides along with its strings. -/
def numericPair (nums : S m × S n) : NormalizedPair m n :=
  ⟨pd.strings nums.1, pd.strings nums.2, some (pd.numbers nums.1, pd.numbers nums.2)⟩

/-- `_normalize_pair`. -/
def normalizePair (s : S m) (t : S n) : NormalizedPair m n :=
  let plain : NormalizedPair m n := ⟨pd.strings s, pd.strings t, none⟩
  if isDatetimeLike pd s || isDatetimeLike pd t then
    match converted pd (isDatetimeLike pd s) pd.toDatetime s,
        converted pd (isDatetimeLike pd t) pd.toDatetime t with
    | some s2, some t2 =>
      ⟨canonicalDatetimeStrings pd s2, canonicalDatetimeStrings pd t2, none⟩
    | _, _ => plain
  else if isNumericSeries pd s || isNumericSeries pd t then
    match converted pd (isNumericSeries pd s) pd.toNumeric s,
        converted pd (isNumericSeries pd t) pd.toNumeric t with
    | some s2, some t2 => numericPair pd (canonicalNumbers pd s2 t2)
    | _, _ => plain
  else plain

end Normalization

/-- `Tolerance`. -/
structure Tolerance where
  absolute : ℚ
  relative : ℚ

/-- `|a - b| <= max(absolute, relative * max(|a|, |b|))`; two infinities of one sign have no
difference, and nothing is near a value that is not a number. -/
def Tolerance.close (tol : Tolerance) : Number → Number → Bool
  | .fin a, .fin b => |a - b| ≤ max tol.absolute (tol.relative * max |a| |b|)
  | .inf x, .inf y => x ≠ y && 0 < tol.relative
  | .inf _, .fin _ => 0 < tol.relative
  | .fin _, .inf _ => 0 < tol.relative
  | .nan, _ => false
  | _, .nan => false

/-- `s.eq(t).fillna(False) | (s.isna() & t.isna())`. -/
def sameValue (s t : Option Text) : Bool :=
  (match s, t with
    | some s, some t => s = t
    | _, _ => false) || (s.isNone && t.isNone)

/-- Whether the slots of a pair of rows are close, where there is a tolerance for them. -/
def NormalizedPair.near {m n : ℕ} (pair : NormalizedPair m n) (tolerance : Option Tolerance)
    (i : Fin m) (j : Fin n) : Bool :=
  match tolerance, pair.nums with
  | some tol, some nums => tol.close (nums.1 i) (nums.2 j)
  | _, _ => false

/-- Whether they are equal. -/
def NormalizedPair.equal {m n : ℕ} (pair : NormalizedPair m n) (tolerance : Option Tolerance)
    (i : Fin m) (j : Fin n) : Bool :=
  sameValue (pair.sourceStr i) (pair.targetStr j) || pair.near tolerance i j

/-! ## The sides exchanged -/

def NormalizedPair.swap {m n : ℕ} (pair : NormalizedPair m n) : NormalizedPair n m :=
  ⟨pair.targetStr, pair.sourceStr, pair.nums.map Prod.swap⟩

theorem canonicalNumbers_comm {S : ℕ → Type} {pd : Pandas S} {m n : ℕ} (s : S m) (t : S n) :
    canonicalNumbers pd t s = (canonicalNumbers pd s t).swap := by
  unfold canonicalNumbers
  rw [Bool.and_comm]
  split
  · cases pd.asInt64 s <;> cases pd.asInt64 t <;> rfl
  · rfl

theorem normalizePair_swap {S : ℕ → Type} {pd : Pandas S} {m n : ℕ} (s : S m) (t : S n) :
    normalizePair pd t s = (normalizePair pd s t).swap := by
  unfold normalizePair
  rw [Bool.or_comm (isDatetimeLike pd t), Bool.or_comm (isNumericSeries pd t)]
  split
  · cases converted pd (isDatetimeLike pd s) pd.toDatetime s <;>
      cases converted pd (isDatetimeLike pd t) pd.toDatetime t <;> rfl
  · split
    · cases converted pd (isNumericSeries pd s) pd.toNumeric s with
      | none => cases converted pd (isNumericSeries pd t) pd.toNumeric t <;> rfl
      | some s2 =>
        cases converted pd (isNumericSeries pd t) pd.toNumeric t with
        | none => rfl
        | some t2 =>
          exact congrArg (numericPair pd) (canonicalNumbers_comm s2 t2)
    · rfl

/-! ## Slots -/

/-- A value that is a number is not null. -/
structure NormalizedPair.Numbered {m n : ℕ} (pair : NormalizedPair m n) : Prop where
  source : ∀ nums, pair.nums = some nums → ∀ i, nums.1 i ≠ .nan → (pair.sourceStr i).isSome = true
  target : ∀ nums, pair.nums = some nums → ∀ j, nums.2 j ≠ .nan → (pair.targetStr j).isSome = true

theorem numbered_normalizePair {S : ℕ → Type} {pd : Pandas S} (hpd : pd.KeepsNumbers) {m n : ℕ}
    (s : S m) (t : S n) : (normalizePair pd s t).Numbered := by
  have hnone : ∀ {pair : NormalizedPair m n}, pair.nums = none → pair.Numbered := by
    intro pair h
    refine ⟨?_, ?_⟩
    · intro nums hnums
      rw [h] at hnums
      cases hnums
    · intro nums hnums
      rw [h] at hnums
      cases hnums
  unfold normalizePair
  split
  · split
    · exact hnone rfl
    · exact hnone rfl
  · split
    · split
      · refine ⟨?_, ?_⟩
        · intro nums hnums i hi
          obtain rfl := Option.some.inj hnums
          exact hpd _ i hi
        · intro nums hnums j hj
          obtain rfl := Option.some.inj hnums
          exact hpd _ j hj
      · exact hnone rfl
    · exact hnone rfl

theorem sameValue_iff {s t : Option Text} : sameValue s t = true ↔ s = t := by
  cases s <;> cases t <;> simp [sameValue]

theorem Tolerance.close_comm (tol : Tolerance) (a b : Number) : tol.close a b = tol.close b a := by
  cases a <;> cases b <;> simp only [Tolerance.close]
  · simp only [ne_comm]
  · rw [abs_sub_comm, max_comm |_|]

theorem Tolerance.close_ne_nan {tol : Tolerance} {a b : Number} (h : tol.close a b = true) :
    a ≠ .nan ∧ b ≠ .nan := by
  cases a <;> cases b <;> simp [Tolerance.close] at h ⊢

theorem NormalizedPair.near_iff {m n : ℕ} {pair : NormalizedPair m n}
    {tolerance : Option Tolerance} {i : Fin m} {j : Fin n} :
    pair.near tolerance i j = true ↔ ∃ tol nums, tolerance = some tol ∧ pair.nums = some nums ∧
      tol.close (nums.1 i) (nums.2 j) = true := by
  unfold NormalizedPair.near
  cases tolerance <;> cases pair.nums <;> simp

theorem NormalizedPair.equal_swap {m n : ℕ} (pair : NormalizedPair m n)
    (tolerance : Option Tolerance) (i : Fin m) (j : Fin n) :
    pair.swap.equal tolerance j i = pair.equal tolerance i j := by
  have hsame : sameValue (pair.targetStr j) (pair.sourceStr i) =
      sameValue (pair.sourceStr i) (pair.targetStr j) := by
    rw [Bool.eq_iff_iff, sameValue_iff, sameValue_iff, eq_comm]
  have hnear : pair.swap.near tolerance j i = pair.near tolerance i j := by
    unfold NormalizedPair.near NormalizedPair.swap
    cases tolerance with
    | none => rfl
    | some tol =>
      cases pair.nums with
      | none => rfl
      | some nums => exact tol.close_comm _ _
  exact congrArg₂ or hsame hnear

/-- What is equal is null on both sides or on none. -/
theorem NormalizedPair.Numbered.equal_nulls {m n : ℕ} {pair : NormalizedPair m n}
    (hpair : pair.Numbered) {tolerance : Option Tolerance} {i : Fin m} {j : Fin n}
    (h : pair.equal tolerance i j = true) :
    (pair.sourceStr i).isSome = (pair.targetStr j).isSome := by
  rw [NormalizedPair.equal, Bool.or_eq_true] at h
  obtain h | h := h
  · rw [sameValue_iff.mp h]
  · obtain ⟨tol, nums, -, hnums, hclose⟩ := NormalizedPair.near_iff.mp h
    obtain ⟨hsource, htarget⟩ := Tolerance.close_ne_nan hclose
    rw [hpair.source nums hnums i hsource, hpair.target nums hnums j htarget]

end DataQ.Comparison
