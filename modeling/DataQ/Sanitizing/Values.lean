import DataQ.Foundations.Fallible
import DataQ.Foundations.Winners
import DataQ.Sanitizing.Times

/-! # Values for a JSONB column

`core/jsonsafe.py`: `sanitize_json` on values nested from the types that it knows. What it gives is
JSON with finite numbers and texts as keys, and it gives this back unchanged; it raises on the
decimals and the keys that Python has no number or text for. -/

namespace DataQ.Sanitizing
open DataQ.Dates DataQ.Fallible DataQ.IsoTimes DataQ.Winners
set_option autoImplicit false

inductive PyFloat
  | finite (value : Double)
  | infinity (negative : Bool)
  | nan
  deriving DecidableEq, Repr

/-- A `decimal.Decimal`. -/
inductive PyDecimal
  | finite (negative : Bool) (digits : ℕ) (exponent : ℤ)
  | infinity (negative : Bool)
  | nan
  /-- `Decimal("sNaN")`. -/
  | signaling
  deriving DecidableEq, Repr

/-- A value that holds no other: `date` its ordinal, `datetime` with what `isoformat` writes of its
zone, `datetime64` and `timedelta64` a count or `NaT`, `missing` a `pd.NA` or `pd.NaT`. -/
inductive Scalar
  | none
  | bool (value : Bool)
  | int (value : ℤ)
  | float (value : PyFloat)
  | str (value : Text)
  | decimal (value : PyDecimal)
  | bytes (value : List UInt8)
  | date (day : ℤ)
  | datetime (moment : Moment) (offset : Text)
  | timedelta (value : Timedelta)
  | datetime64 (value : Option Counted)
  | timedelta64 (value : Option Counted)
  | missing
  deriving DecidableEq, Repr

/-- A value that can be the key of a dict. -/
inductive Key
  | scalar (value : Scalar)
  | tuple (items : List Key)

inductive Value
  | scalar (value : Scalar)
  | list (items : List Value)
  | tuple (items : List Value)
  | dict (entries : List (Key × Value))

inductive Raised
  | valueError
  | typeError
  deriving DecidableEq

/-- `sys.get_int_max_str_digits()`. -/
def maxStrDigits : ℕ := 4300

/-- `bytes_to_hex`. -/
def bytesToHex (value : List UInt8) : Text :=
  value.flatMap fun byte => [Nat.digitChar (byte.toNat / 16), Nat.digitChar (byte.toNat % 16)]

-- `nearest` is the float that is nearest to a finite decimal.
variable (np : Numpy) (nearest : Bool → ℕ → ℤ → PyFloat)

/-- `float` of a decimal. -/
def PyDecimal.toFloat : PyDecimal → Except Raised PyFloat
  | .finite negative digits exponent => .ok (nearest negative digits exponent)
  | .infinity negative => .ok (.infinity negative)
  | .nan => .ok .nan
  | .signaling => .error .valueError

def sanitizeFloat : PyFloat → Scalar
  | .finite value => .float (.finite value)
  | _ => .none

/-- `sanitize_json` of a value that holds no other. -/
def sanitizeScalar : Scalar → Except Raised Scalar
  | .datetime64 .none => .ok .none
  | .datetime64 (some raw) =>
    if raw.unit.subDay then .ok (.str (datetime64Iso np raw))
    else
      match np.date raw with
      | some day => .ok (.str (isoDate day))
      | .none => .ok (.str (datetime64Iso np raw))
  | .timedelta64 .none => .ok .none
  | .timedelta64 (some raw) => .ok (.str (timedelta64Iso np raw))
  | .missing => .ok .none
  | .date day => .ok (.str (isoDate day))
  | .datetime moment offset => .ok (.str (naiveText moment ++ offset))
  | .timedelta value => .ok (.str (isoDuration value))
  | .decimal value => (value.toFloat nearest).map sanitizeFloat
  | .bytes value => .ok (.str (bytesToHex value))
  | .float value => .ok (sanitizeFloat value)
  | .none => .ok .none
  | .bool value => .ok (.bool value)
  | .int value => .ok (.int value)
  | .str value => .ok (.str value)

/-- `json.dumps` of a float. -/
def PyFloat.json : PyFloat → Text
  | .finite value => value.text
  | .infinity false => "Infinity".toList
  | .infinity true => "-Infinity".toList
  | .nan => "NaN".toList

mutual

/-- `json.dumps` of what a key is sanitized to; a dict is in no key. -/
def dumpsKey : Value → Except Raised Text
  | .scalar .none => .ok "null".toList
  | .scalar (.bool true) => .ok "true".toList
  | .scalar (.bool false) => .ok "false".toList
  | .scalar (.int n) =>
    if maxStrDigits < (Nat.toDigits 10 n.natAbs).length then .error .valueError
    else .ok (Numeral.ofInt n).text
  | .scalar (.float value) => .ok value.json
  | .scalar (.str value) => .ok (DataQ.quoted value)
  | .scalar _ => .error .typeError
  | .list items => do
    let texts ← dumpsKeys items
    pure ('[' :: commas texts ++ [']'])
  | .tuple items => do
    let texts ← dumpsKeys items
    pure ('[' :: commas texts ++ [']'])
  | .dict _ => .error .typeError

def dumpsKeys : List Value → Except Raised (List Text)
  | [] => pure []
  | item :: items => do
    let text ← dumpsKey item
    let texts ← dumpsKeys items
    pure (text :: texts)

end

mutual

/-- `sanitize_json` of a key. -/
def sanitizeKey : Key → Except Raised Value
  | .scalar value => (sanitizeScalar np nearest value).map .scalar
  | .tuple items => do
    let items ← sanitizeKeys items
    pure (.list items)

def sanitizeKeys : List Key → Except Raised (List Value)
  | [] => pure []
  | key :: keys => do
    let item ← sanitizeKey key
    let items ← sanitizeKeys keys
    pure (item :: items)

end

/-- `float` of a key that is sanitized to `None`. -/
def Key.toFloat : Key → Except Raised PyFloat
  | .scalar (.float value) => .ok value
  | .scalar (.decimal value) => value.toFloat nearest
  | _ => .error .typeError

/-- `_json_key`. -/
def jsonKey (key : Key) : Except Raised Text := do
  let sanitized ← sanitizeKey np nearest key
  match sanitized with
  | .scalar .none =>
    match key with
    | .scalar .none => dumpsKey (.scalar .none)
    | key =>
      match key.toFloat nearest with
      | .ok value => pure value.json
      | .error .typeError => dumpsKey (.scalar .none)
      | .error .valueError => .error .valueError
  | .scalar (.str text) => pure text
  | sanitized => dumpsKey sanitized

/-- A dict of the texts. -/
def keyed (pairs : List (Text × Value)) : List (Key × Value) :=
  pairs.map fun pair => (.scalar (.str pair.1), pair.2)

mutual

/-- `sanitize_json`. -/
def sanitize : Value → Except Raised Value
  | .scalar value => (sanitizeScalar np nearest value).map .scalar
  | .dict entries => do
    let pairs ← sanitizeEntries entries
    pure (.dict (keyed (dictOf Prod.fst Prod.snd pairs)))
  | .list items => do
    let items ← sanitizeItems items
    pure (.list items)
  | .tuple items => do
    let items ← sanitizeItems items
    pure (.list items)

def sanitizeItems : List Value → Except Raised (List Value)
  | [] => pure []
  | item :: items => do
    let item ← sanitize item
    let items ← sanitizeItems items
    pure (item :: items)

def sanitizeEntries : List (Key × Value) → Except Raised (List (Text × Value))
  | [] => pure []
  | (key, value) :: entries => do
    let text ← jsonKey np nearest key
    let value ← sanitize value
    let pairs ← sanitizeEntries entries
    pure ((text, value) :: pairs)

end

/-! ## Finite JSON values -/

def Scalar.Json : Scalar → Prop
  | .none | .bool _ | .int _ | .str _ | .float (.finite _) => True
  | _ => False

mutual

/-- A finite JSON value: its keys are texts, and no dict has a key twice. -/
def Value.Json : Value → Prop
  | .scalar value => value.Json
  | .list items => jsonItems items
  | .tuple _ => False
  | .dict entries => ∃ pairs, entries = keyed pairs ∧ (pairs.map Prod.fst).Nodup ∧
      jsonEntries entries

def jsonItems : List Value → Prop
  | [] => True
  | item :: items => item.Json ∧ jsonItems items

def jsonEntries : List (Key × Value) → Prop
  | [] => True
  | (_, value) :: entries => value.Json ∧ jsonEntries entries

end

/-! ## What has a number and a text -/

/-- No signalling NaN. -/
def Scalar.Quiet (value : Scalar) : Prop := value ≠ .decimal .signaling

/-- No `int` with too many digits to print. -/
def Scalar.Short : Scalar → Prop
  | .int n => (Nat.toDigits 10 n.natAbs).length ≤ maxStrDigits
  | _ => True

mutual

def Key.Printable : Key → Prop
  | .scalar value => value.Quiet ∧ value.Short
  | .tuple items => printableKeys items

def printableKeys : List Key → Prop
  | [] => True
  | key :: keys => key.Printable ∧ printableKeys keys

end

mutual

/-- No signalling NaN, and no key with too long an `int`. -/
def Value.Sanitizable : Value → Prop
  | .scalar value => value.Quiet
  | .list items => sanitizableItems items
  | .tuple items => sanitizableItems items
  | .dict entries => sanitizableEntries entries

def sanitizableItems : List Value → Prop
  | [] => True
  | item :: items => item.Sanitizable ∧ sanitizableItems items

def sanitizableEntries : List (Key × Value) → Prop
  | [] => True
  | (key, value) :: entries => key.Printable ∧ value.Sanitizable ∧ sanitizableEntries entries

end

/-! ## What comes back -/

theorem json_sanitizeFloat (value : PyFloat) :
    (sanitizeFloat value).Json ∧ (sanitizeFloat value).Short := by
  cases value <;> exact ⟨trivial, trivial⟩

/-- What comes back is JSON, and too long to print only where it is the `int` that went in. -/
theorem sanitizeScalar_spec {value out : Scalar} (h : sanitizeScalar np nearest value = .ok out) :
    out.Json ∧ (out.Short ↔ value.Short) := by
  cases value with
  | decimal value =>
    obtain ⟨float, -, rfl⟩ := map_eq_ok.mp h
    have hfloat := json_sanitizeFloat float
    exact ⟨hfloat.1, iff_of_true hfloat.2 trivial⟩
  | float value =>
    obtain rfl := Except.ok.inj h
    have hfloat := json_sanitizeFloat value
    exact ⟨hfloat.1, iff_of_true hfloat.2 trivial⟩
  | datetime64 value =>
    cases value with
    | none =>
      obtain rfl := Except.ok.inj h
      exact ⟨trivial, Iff.rfl⟩
    | some raw =>
      simp only [sanitizeScalar] at h
      split at h
      · obtain rfl := Except.ok.inj h
        exact ⟨trivial, Iff.rfl⟩
      · split at h <;>
        · obtain rfl := Except.ok.inj h
          exact ⟨trivial, Iff.rfl⟩
  | timedelta64 value =>
    cases value <;>
    · obtain rfl := Except.ok.inj h
      exact ⟨trivial, Iff.rfl⟩
  | _ =>
    obtain rfl := Except.ok.inj h
    exact ⟨trivial, Iff.rfl⟩

theorem sanitizeScalar_of_json {value : Scalar} (h : value.Json) :
    sanitizeScalar np nearest value = .ok value := by
  cases value with
  | float value =>
    cases value with
    | finite value => rfl
    | infinity negative => exact h.elim
    | nan => exact h.elim
  | none => rfl
  | bool value => rfl
  | int value => rfl
  | str value => rfl
  | _ => exact h.elim

theorem jsonEntries_iff {entries : List (Key × Value)} :
    jsonEntries entries ↔ ∀ entry ∈ entries, entry.2.Json := by
  induction entries with
  | nil => simp [jsonEntries]
  | cons entry entries ih => rw [jsonEntries, ih, List.forall_mem_cons]

/-- A dict of the pairs holds no value that is not in them. -/
theorem json_dictOf {pairs : List (Text × Value)} (h : ∀ pair ∈ pairs, pair.2.Json) :
    (Value.dict (keyed (dictOf Prod.fst Prod.snd pairs))).Json := by
  have hnodup : ((dictOf Prod.fst Prod.snd pairs).map Prod.fst).Nodup := nodup_dictOf _ _ _
  refine ⟨_, rfl, hnodup, ?_⟩
  rw [jsonEntries_iff]
  intro entry hentry
  obtain ⟨⟨key, value⟩, hpair, rfl⟩ := List.mem_map.mp hentry
  have hlookup := (mem_iff_lookup hnodup).mp hpair
  obtain ⟨pair, hmem, -, -, rfl⟩ := lookup_eq_some.mp hlookup
  exact h pair hmem

mutual

theorem json_sanitize : ∀ {v out : Value}, sanitize np nearest v = .ok out → out.Json
  | .scalar value, out, h => by
    rw [sanitize] at h
    obtain ⟨scalar, hscalar, rfl⟩ := map_eq_ok.mp h
    exact (sanitizeScalar_spec np nearest hscalar).1
  | .list items, out, h => by
    rw [sanitize] at h
    obtain ⟨outs, houts, h⟩ := bind_eq_ok.mp h
    obtain rfl := pure_eq_ok.mp h
    exact json_sanitizeItems houts
  | .tuple items, out, h => by
    rw [sanitize] at h
    obtain ⟨outs, houts, h⟩ := bind_eq_ok.mp h
    obtain rfl := pure_eq_ok.mp h
    exact json_sanitizeItems houts
  | .dict entries, out, h => by
    rw [sanitize] at h
    obtain ⟨pairs, hpairs, h⟩ := bind_eq_ok.mp h
    obtain rfl := pure_eq_ok.mp h
    exact json_dictOf (json_sanitizeEntries hpairs)

theorem json_sanitizeItems : ∀ {items outs : List Value},
    sanitizeItems np nearest items = .ok outs → jsonItems outs
  | [], outs, h => by
    obtain rfl := pure_eq_ok.mp h
    trivial
  | item :: items, outs, h => by
    rw [sanitizeItems] at h
    obtain ⟨out, hout, h⟩ := bind_eq_ok.mp h
    obtain ⟨outs, houts, h⟩ := bind_eq_ok.mp h
    obtain rfl := pure_eq_ok.mp h
    exact ⟨json_sanitize hout, json_sanitizeItems houts⟩

theorem json_sanitizeEntries : ∀ {entries : List (Key × Value)} {pairs : List (Text × Value)},
    sanitizeEntries np nearest entries = .ok pairs → ∀ pair ∈ pairs, pair.2.Json
  | [], pairs, h => by
    obtain rfl := pure_eq_ok.mp h
    simp
  | (key, value) :: entries, pairs, h => by
    rw [sanitizeEntries] at h
    obtain ⟨text, -, h⟩ := bind_eq_ok.mp h
    obtain ⟨out, hout, h⟩ := bind_eq_ok.mp h
    obtain ⟨rest, hrest, h⟩ := bind_eq_ok.mp h
    obtain rfl := pure_eq_ok.mp h
    rw [List.forall_mem_cons]
    exact ⟨json_sanitize hout, json_sanitizeEntries hrest⟩

end

theorem jsonKey_str (text : Text) : jsonKey np nearest (.scalar (.str text)) = .ok text := rfl

theorem keyed_injective : Function.Injective keyed := by
  apply List.map_injective_iff.mpr
  rintro ⟨key, value⟩ ⟨key', value'⟩ h
  obtain ⟨hkey, hvalue⟩ := Prod.mk.inj h
  exact Prod.ext (Scalar.str.inj (Key.scalar.inj hkey)) hvalue

mutual

/-- A finite JSON value is left as it is. -/
theorem sanitize_of_json : ∀ {v : Value}, v.Json → sanitize np nearest v = .ok v
  | .scalar value, h => by
    rw [sanitize, sanitizeScalar_of_json np nearest h]
    rfl
  | .list items, h => by
    rw [sanitize, sanitizeItems_of_json h]
    rfl
  | .tuple items, h => h.elim
  | .dict entries, h => by
    obtain ⟨pairs, hentries, hnodup, hjson⟩ := h
    obtain ⟨pairs', hsame, hsanitize⟩ := sanitizeEntries_of_json hjson ⟨pairs, hentries⟩
    obtain rfl : pairs = pairs' := keyed_injective (hentries.symm.trans hsame)
    rw [sanitize, hsanitize, hentries]
    have hdict : dictOf Prod.fst Prod.snd pairs = pairs := dictOf_of_nodup hnodup
    change Except.ok (Value.dict (keyed (dictOf Prod.fst Prod.snd pairs))) = _
    rw [hdict]

theorem sanitizeItems_of_json : ∀ {items : List Value}, jsonItems items →
    sanitizeItems np nearest items = .ok items
  | [], _ => rfl
  | item :: items, h => by
    rw [sanitizeItems, sanitize_of_json h.1, sanitizeItems_of_json h.2]
    rfl

theorem sanitizeEntries_of_json : ∀ {entries : List (Key × Value)}, jsonEntries entries →
    (∃ pairs, entries = keyed pairs) →
    ∃ pairs, entries = keyed pairs ∧ sanitizeEntries np nearest entries = .ok pairs
  | [], _, _ => ⟨[], rfl, rfl⟩
  | (key, value) :: entries, h, hkeyed => by
    obtain ⟨pairs, hpairs⟩ := hkeyed
    cases pairs with
    | nil => exact nomatch hpairs
    | cons pair pairs =>
      obtain ⟨hfirst, hrest⟩ := List.cons.inj hpairs
      obtain ⟨rfl, rfl⟩ := Prod.mk.inj hfirst
      obtain ⟨pairs', hsame, hsanitize⟩ := sanitizeEntries_of_json h.2 ⟨pairs, hrest⟩
      refine ⟨pair :: pairs', ?_, ?_⟩
      · rw [hsame]
        rfl
      · rw [sanitizeEntries, jsonKey_str, sanitize_of_json h.1, hsanitize]
        rfl

end

/-! ## When there is an output -/

theorem bind_ok_iff {α β : Type} {x : Except Raised α} {f : α → Except Raised β} :
    (∃ b, (x >>= f) = .ok b) ↔ ∃ a, x = .ok a ∧ ∃ b, f a = .ok b := by
  simp only [bind_eq_ok]
  constructor
  · rintro ⟨b, a, hx, hf⟩
    exact ⟨a, hx, b, hf⟩
  · rintro ⟨a, hx, b, hf⟩
    exact ⟨b, a, hx, hf⟩

theorem toFloat_ok_iff {value : PyDecimal} :
    (∃ float, value.toFloat nearest = .ok float) ↔ value ≠ .signaling := by
  cases value <;> simp [PyDecimal.toFloat]

theorem sanitizeScalar_ok_iff {value : Scalar} :
    (∃ out, sanitizeScalar np nearest value = .ok out) ↔ value.Quiet := by
  cases value with
  | decimal value =>
    have hquiet : (Scalar.decimal value).Quiet ↔ value ≠ .signaling := by simp [Scalar.Quiet]
    rw [hquiet, ← toFloat_ok_iff nearest]
    simp [sanitizeScalar, map_eq_ok]
  | datetime64 value =>
    cases value with
    | none => simp [sanitizeScalar, Scalar.Quiet]
    | some raw =>
      simp only [sanitizeScalar, Scalar.Quiet]
      split
      · simp
      · split <;> simp
  | timedelta64 value => cases value <;> simp [sanitizeScalar, Scalar.Quiet]
  | _ => simp [sanitizeScalar, Scalar.Quiet]

theorem dumpsKey_int_ok_iff {n : ℤ} :
    (∃ text, dumpsKey (.scalar (.int n)) = .ok text) ↔ (Scalar.int n).Short := by
  simp only [dumpsKey, Scalar.Short]
  split
  · next hlong => simp [hlong]
  · next hshort => simpa using hshort

/-- A key that holds no other is printed unless it is too long an `int`. -/
theorem dumpsKey_scalar_ok_iff {value out : Scalar}
    (h : sanitizeScalar np nearest value = .ok out) :
    (∃ text, dumpsKey (.scalar out) = .ok text) ↔ value.Short := by
  obtain ⟨hjson, hshort⟩ := sanitizeScalar_spec np nearest h
  rw [← hshort]
  cases out with
  | int n => exact dumpsKey_int_ok_iff
  | bool value => cases value <;> simp [dumpsKey, Scalar.Short]
  | float value => simp [dumpsKey, Scalar.Short]
  | none => simp [dumpsKey, Scalar.Short]
  | str value => simp [dumpsKey, Scalar.Short]
  | _ => exact hjson.elim

mutual

/-- A key has a number and a text for all that it holds. -/
theorem sanitizeKey_ok_iff : ∀ {key : Key},
    (∃ out, sanitizeKey np nearest key = .ok out ∧ ∃ text, dumpsKey out = .ok text) ↔ key.Printable
  | .scalar value => by
    rw [sanitizeKey, Key.Printable, ← sanitizeScalar_ok_iff np nearest]
    constructor
    · rintro ⟨out, hout, htext⟩
      obtain ⟨scalar, hscalar, rfl⟩ := map_eq_ok.mp hout
      exact ⟨⟨scalar, hscalar⟩, (dumpsKey_scalar_ok_iff np nearest hscalar).mp htext⟩
    · rintro ⟨⟨scalar, hscalar⟩, hshort⟩
      exact ⟨.scalar scalar, map_eq_ok.mpr ⟨scalar, hscalar, rfl⟩,
        (dumpsKey_scalar_ok_iff np nearest hscalar).mpr hshort⟩
  | .tuple items => by
    rw [sanitizeKey, Key.Printable, ← sanitizeKeys_ok_iff]
    constructor
    · rintro ⟨out, hout, htext⟩
      obtain ⟨outs, houts, hpure⟩ := bind_eq_ok.mp hout
      obtain rfl := pure_eq_ok.mp hpure
      rw [dumpsKey] at htext
      obtain ⟨texts, htexts, -⟩ := bind_ok_iff.mp htext
      exact ⟨outs, houts, texts, htexts⟩
    · rintro ⟨outs, houts, texts, htexts⟩
      refine ⟨.list outs, bind_eq_ok.mpr ⟨outs, houts, rfl⟩, ?_⟩
      rw [dumpsKey]
      exact bind_ok_iff.mpr ⟨texts, htexts, _, rfl⟩

theorem sanitizeKeys_ok_iff : ∀ {keys : List Key},
    (∃ outs, sanitizeKeys np nearest keys = .ok outs ∧ ∃ texts, dumpsKeys outs = .ok texts) ↔
      printableKeys keys
  | [] => ⟨fun _ => trivial, fun _ => ⟨[], rfl, [], rfl⟩⟩
  | key :: keys => by
    rw [sanitizeKeys, printableKeys, ← sanitizeKey_ok_iff, ← sanitizeKeys_ok_iff]
    constructor
    · rintro ⟨outs, houts, htexts⟩
      obtain ⟨out, hout, houts⟩ := bind_eq_ok.mp houts
      obtain ⟨rest, hrest, hpure⟩ := bind_eq_ok.mp houts
      obtain rfl := pure_eq_ok.mp hpure
      rw [dumpsKeys] at htexts
      obtain ⟨text, htext, htexts⟩ := bind_ok_iff.mp htexts
      obtain ⟨texts, htexts, -⟩ := bind_ok_iff.mp htexts
      exact ⟨⟨out, hout, text, htext⟩, rest, hrest, texts, htexts⟩
    · rintro ⟨⟨out, hout, text, htext⟩, rest, hrest, texts, htexts⟩
      refine ⟨out :: rest, bind_eq_ok.mpr ⟨out, hout, bind_eq_ok.mpr ⟨rest, hrest, rfl⟩⟩, ?_⟩
      rw [dumpsKeys]
      exact bind_ok_iff.mpr ⟨text, htext, bind_ok_iff.mpr ⟨texts, htexts, _, rfl⟩⟩

end

/-- A key that is sanitized is no signalling NaN, so `float` of it raises no `ValueError`. -/
theorem toFloat_key {key : Key} {out : Value} (h : sanitizeKey np nearest key = .ok out) :
    key.toFloat nearest ≠ .error .valueError := by
  cases key with
  | tuple items => simp [Key.toFloat]
  | scalar value =>
    rw [sanitizeKey] at h
    obtain ⟨scalar, hscalar, -⟩ := map_eq_ok.mp h
    have hquiet := (sanitizeScalar_ok_iff np nearest).mp ⟨scalar, hscalar⟩
    cases value with
    | decimal value =>
      have hvalue : value ≠ .signaling := fun heq => hquiet (by rw [heq])
      obtain ⟨float, hfloat⟩ := (toFloat_ok_iff nearest).mpr hvalue
      rw [Key.toFloat, hfloat]
      exact nofun
    | _ => simp [Key.toFloat]

theorem jsonKey_ok_iff {key : Key} :
    (∃ text, jsonKey np nearest key = .ok text) ↔ key.Printable := by
  rw [← sanitizeKey_ok_iff np nearest]
  unfold jsonKey
  rw [bind_ok_iff]
  refine exists_congr fun out => and_congr_right fun hout => ?_
  have hfloat := toFloat_key np nearest hout
  have hnull : ∃ text, dumpsKey (.scalar .none) = .ok text := ⟨_, rfl⟩
  cases out with
  | scalar value =>
    cases value with
    | none =>
      refine iff_of_true ?_ hnull
      cases key with
      | tuple items => exact hnull
      | scalar value =>
        cases value with
        | float value => exact ⟨_, rfl⟩
        | decimal value =>
          cases value with
          | signaling => exact absurd rfl hfloat
          | _ => exact ⟨_, rfl⟩
        | _ => exact hnull
    | str text => exact iff_of_true ⟨text, rfl⟩ ⟨_, rfl⟩
    | _ => exact Iff.rfl
  | _ => exact Iff.rfl

mutual

theorem sanitize_ok_iff : ∀ {v : Value},
    (∃ out, sanitize np nearest v = .ok out) ↔ v.Sanitizable
  | .scalar value => by
    rw [sanitize, Value.Sanitizable, ← sanitizeScalar_ok_iff np nearest]
    simp only [map_eq_ok]
    constructor
    · rintro ⟨out, scalar, hscalar, -⟩
      exact ⟨scalar, hscalar⟩
    · rintro ⟨scalar, hscalar⟩
      exact ⟨_, scalar, hscalar, rfl⟩
  | .list items => by
    rw [sanitize, Value.Sanitizable, ← sanitizeItems_ok_iff, bind_ok_iff]
    exact exists_congr fun outs => and_iff_left ⟨_, rfl⟩
  | .tuple items => by
    rw [sanitize, Value.Sanitizable, ← sanitizeItems_ok_iff, bind_ok_iff]
    exact exists_congr fun outs => and_iff_left ⟨_, rfl⟩
  | .dict entries => by
    rw [sanitize, Value.Sanitizable, ← sanitizeEntries_ok_iff, bind_ok_iff]
    exact exists_congr fun pairs => and_iff_left ⟨_, rfl⟩

theorem sanitizeItems_ok_iff : ∀ {items : List Value},
    (∃ outs, sanitizeItems np nearest items = .ok outs) ↔ sanitizableItems items
  | [] => ⟨fun _ => trivial, fun _ => ⟨[], rfl⟩⟩
  | item :: items => by
    rw [sanitizeItems, sanitizableItems, ← sanitize_ok_iff, ← sanitizeItems_ok_iff, bind_ok_iff]
    constructor
    · rintro ⟨out, hout, h⟩
      obtain ⟨outs, houts, -⟩ := bind_ok_iff.mp h
      exact ⟨⟨out, hout⟩, outs, houts⟩
    · rintro ⟨⟨out, hout⟩, outs, houts⟩
      exact ⟨out, hout, bind_ok_iff.mpr ⟨outs, houts, _, rfl⟩⟩

theorem sanitizeEntries_ok_iff : ∀ {entries : List (Key × Value)},
    (∃ pairs, sanitizeEntries np nearest entries = .ok pairs) ↔ sanitizableEntries entries
  | [] => ⟨fun _ => trivial, fun _ => ⟨[], rfl⟩⟩
  | (key, value) :: entries => by
    rw [sanitizeEntries, sanitizableEntries, ← jsonKey_ok_iff np nearest, ← sanitize_ok_iff,
      ← sanitizeEntries_ok_iff, bind_ok_iff]
    constructor
    · rintro ⟨text, htext, h⟩
      obtain ⟨out, hout, h⟩ := bind_ok_iff.mp h
      obtain ⟨pairs, hpairs, -⟩ := bind_ok_iff.mp h
      exact ⟨⟨text, htext⟩, ⟨out, hout⟩, pairs, hpairs⟩
    · rintro ⟨⟨text, htext⟩, ⟨out, hout⟩, pairs, hpairs⟩
      exact ⟨text, htext, bind_ok_iff.mpr ⟨out, hout, bind_ok_iff.mpr ⟨pairs, hpairs, _, rfl⟩⟩⟩

end

/-! ## The spelling of times -/

/-- A datetime without a zone, and the nanoseconds from the epoch to it. -/
inductive InstantOf : Scalar → ℤ → Prop
  | plain (m : Moment) : InstantOf (.datetime m []) (nanosOf m)
  | numpy {raw : Counted} {nanos : ℤ} (hunit : raw.unit.subDay = true)
      (hnanos : raw.nanos = some nanos) (hyears : InYears nanos) :
      InstantOf (.datetime64 (some raw)) nanos

/-- A duration of a fixed length, and its nanoseconds. -/
inductive DurationOf : Scalar → ℤ → Prop
  | plain (value : Timedelta) : DurationOf (.timedelta value) value.nanos
  | numpy {raw : Counted} {nanos : ℤ} (hunit : raw.unit.fixed = true)
      (hnanos : raw.nanos = some nanos) : DurationOf (.timedelta64 (some raw)) nanos

theorem sanitize_instant {value : Scalar} {nanos : ℤ} (h : InstantOf value nanos) :
    InYears nanos ∧ sanitize np nearest (.scalar value) = .ok (.scalar (.str (isoOf nanos))) := by
  cases h with
  | plain m =>
    refine ⟨inYears_nanosOf m, ?_⟩
    rw [sanitize, sanitizeScalar, List.append_nil, naiveText_eq]
    rfl
  | numpy hunit hnanos hyears =>
    refine ⟨hyears, ?_⟩
    rw [sanitize, sanitizeScalar, if_pos hunit, datetime64Iso_eq np hunit hnanos hyears]
    rfl

theorem sanitize_duration {value : Scalar} {nanos : ℤ} (h : DurationOf value nanos) :
    sanitize np nearest (.scalar value) = .ok (.scalar (.str (isoFromNs nanos))) := by
  cases h with
  | plain value =>
    rw [sanitize, sanitizeScalar, isoDuration_eq]
    rfl
  | numpy hunit hnanos =>
    rw [sanitize, sanitizeScalar, timedelta64Iso_eq np hunit hnanos]
    rfl

/-- One instant has one text and one duration has one; and a value has an output exactly where no
signalling NaN is in it and none of its keys holds too long an `int`. The output is then finite JSON
that is left as it is. -/
theorem sanitize_sound_iff :
    (∀ {v w : Scalar} {a b : ℤ}, InstantOf v a → InstantOf w b →
      (sanitize np nearest (.scalar v) = sanitize np nearest (.scalar w) ↔ a = b)) ∧
    (∀ {v w : Scalar} {a b : ℤ}, DurationOf v a → DurationOf w b →
      (sanitize np nearest (.scalar v) = sanitize np nearest (.scalar w) ↔ a = b)) ∧
    ∀ v : Value, (∃ out, sanitize np nearest v = .ok out ∧ out.Json ∧
      sanitize np nearest out = .ok out) ↔ v.Sanitizable := by
  refine ⟨?_, ?_, ?_⟩
  · intro v w a b hv hw
    obtain ⟨hyears, htext⟩ := sanitize_instant np nearest hv
    obtain ⟨hyears', htext'⟩ := sanitize_instant np nearest hw
    rw [htext, htext', ← isoOf_inj hyears hyears']
    simp
  · intro v w a b hv hw
    rw [sanitize_duration np nearest hv, sanitize_duration np nearest hw, ← isoFromNs_inj]
    simp
  · intro v
    rw [← sanitize_ok_iff np nearest]
    constructor
    · rintro ⟨out, hout, -, -⟩
      exact ⟨out, hout⟩
    · rintro ⟨out, hout⟩
      have hjson := json_sanitize np nearest hout
      exact ⟨out, hout, hjson, sanitize_of_json np nearest hjson⟩

/-- A numpy that knows none of the dates. -/
def noDates : Numpy := ⟨fun _ => none, fun _ => 0, fun _ => 0, fun _ => []⟩

theorem sanitize_sound_epoch :
    sanitize noDates (fun _ _ _ => .nan) (.scalar (.datetime ⟨719163, 0, by decide⟩ [])) =
      sanitize noDates (fun _ _ _ => .nan) (.scalar (.datetime64 (some ⟨999, 1, .picoseconds⟩))) ∧
    ∃ out, sanitize noDates (fun _ _ _ => .nan)
        (.dict [(.tuple [.scalar (.int 1)], .tuple [.scalar (.float .nan)])]) = .ok out ∧
      out.Json ∧ sanitize noDates (fun _ _ _ => .nan) out = .ok out := by
  have hyears : InYears 0 := by
    unfold InYears
    decide
  have hsanitizable : (Value.dict [(.tuple [.scalar (.int 1)],
      .tuple [.scalar (.float .nan)])]).Sanitizable :=
    ⟨⟨⟨nofun, show 1 ≤ maxStrDigits by decide⟩, trivial⟩, ⟨nofun, trivial⟩, trivial⟩
  have hsound := sanitize_sound_iff noDates (fun _ _ _ => .nan)
  exact ⟨(hsound.1 (.plain _) (.numpy rfl rfl hyears)).mpr rfl,
    (hsound.2.2 _).mpr hsanitizable⟩

theorem signaling_raises : ¬ ∃ out,
    sanitize noDates (fun _ _ _ => .nan) (.scalar (.decimal .signaling)) = .ok out := by
  rintro ⟨out, hout⟩
  exact nomatch hout

end DataQ.Sanitizing
