import Mathlib.Algebra.BigOperators.Group.List.Basic
import Mathlib.Data.Char
import Mathlib.Data.List.Lex
import Mathlib.Data.List.Sort
import DataQ.Foundations.Dictionary
import DataQ.Foundations.Json

/-! # Documents

The values that `json.dumps` writes, with Python's two kinds of number, and what a JSONB column
gives back of them. -/

namespace DataQ
set_option autoImplicit false

/-- A finite float, known by the shortest decimal that reads as it. -/
structure Double where
  negative : Bool
  digits : ℕ
  exponent : ℤ
  shortest : digits % 10 ≠ 0 ∨ (digits = 0 ∧ exponent = 0)
  deriving DecidableEq, Repr

namespace Double

/-- `is_integer`. -/
def whole (f : Double) : Bool := 0 ≤ f.exponent

/-- `int`. -/
def toInt (f : Double) : ℤ :=
  (if f.negative then -(f.digits : ℤ) else f.digits) * 10 ^ f.exponent.toNat

/-- The digits with a point at a place, and a zero where a side of the point is empty. -/
def pointed (digits : Text) (place : ℤ) : Text :=
  if place ≤ 0 then "0.".toList ++ List.replicate (-place).toNat '0' ++ digits
  else if digits.length ≤ place then
    digits ++ List.replicate (place.toNat - digits.length) '0' ++ ".0".toList
  else digits.take place.toNat ++ '.' :: digits.drop place.toNat

/-- `'%+03d'`. -/
def exponentText (n : ℤ) : Text :=
  let digits := Nat.toDigits 10 n.natAbs
  (if n < 0 then '-' else '+') :: List.replicate (2 - digits.length) '0' ++ digits

/-- `repr`. -/
def text (f : Double) : Text :=
  let digits := Nat.toDigits 10 f.digits
  let place := f.exponent + digits.length
  (if f.negative then ['-'] else []) ++
    if -4 < place ∧ place ≤ 16 then pointed digits place
    else digits.take 1 ++ (if 1 < digits.length then '.' :: digits.drop 1 else []) ++
      'e' :: exponentText (place - 1)

end Double

/-- `other` is a value that the encoder does not know, with what its `default` prints of it. -/
inductive Document
  | null
  | bool (value : Bool)
  | int (value : ℤ)
  | float (value : Double)
  | str (value : Text)
  | list (items : List Document)
  | mapping (entries : List (Text × Document))
  | other (printed : Text)

abbrev Entries := List (Text × Document)

/-! ## Writing -/

/-- One character of a string as `json.dumps` writes it. -/
def escaped (c : Char) : Text :=
  if c = '\x22' then "\\\"".toList
  else if c = '\\' then "\\\\".toList
  else if c = '\n' then "\\n".toList
  else if c = '\r' then "\\r".toList
  else if c = '\t' then "\\t".toList
  else if c.toNat = 8 then "\\b".toList
  else if c.toNat = 12 then "\\f".toList
  else if 32 ≤ c.toNat ∧ c.toNat ≤ 126 then [c]
  else if c.toNat < 0x10000 then unit c.toNat
  else unit (0xD800 + (c.toNat - 0x10000) / 0x400) ++ unit (0xDC00 + (c.toNat - 0x10000) % 0x400)
where
  unit (n : ℕ) : Text :=
    let digits := Nat.toDigits 16 n
    "\\u".toList ++ List.replicate (4 - digits.length) '0' ++ digits

def quoted (s : Text) : Text := '\x22' :: s.flatMap escaped ++ ['\x22']

/-- `', '.join`. -/
def commas (parts : List Text) : Text := (", ".toList).intercalate parts

def entryText (entry : Text × Text) : Text := quoted entry.1 ++ ": ".toList ++ entry.2

def keyOrder (a b : Text × Text) : Prop := a.1 ≤ b.1

instance : DecidableRel keyOrder := fun a b => inferInstanceAs (Decidable (a.1 ≤ b.1))

instance : Std.Total keyOrder := ⟨fun a b => le_total a.1 b.1⟩

instance : IsTrans (Text × Text) keyOrder := ⟨fun _ _ _ => le_trans⟩

def arranged (sortKeys : Bool) (entries : List (Text × Text)) : List (Text × Text) :=
  if sortKeys then entries.insertionSort keyOrder else entries

mutual

/-- `json.dumps(value, sort_keys=sortKeys, default=str)`. -/
def dumps (sortKeys : Bool) : Document → Text
  | .null => "null".toList
  | .bool true => "true".toList
  | .bool false => "false".toList
  | .int n => (Numeral.ofInt n).text
  | .float f => f.text
  | .str s => quoted s
  | .other printed => printed
  | .list items => '[' :: commas (dumpsItems sortKeys items) ++ [']']
  | .mapping entries =>
    '\x7b' :: commas ((arranged sortKeys (dumpsEntries sortKeys entries)).map entryText) ++ ['\x7d']

def dumpsItems (sortKeys : Bool) : List Document → List Text
  | [] => []
  | item :: items => dumps sortKeys item :: dumpsItems sortKeys items

def dumpsEntries (sortKeys : Bool) : Entries → List (Text × Text)
  | [] => []
  | (key, value) :: entries => (key, dumps sortKeys value) :: dumpsEntries sortKeys entries

end

/-! ## Storing -/

/-- A JSONB column: it keeps the entries of a dict in an order of its own. -/
structure Jsonb where
  order : Entries → Entries
  order_perm : ∀ entries, (order entries).Perm entries

/-- A text that has no NUL character, which a text of the database cannot hold. -/
def storable (s : Text) : Bool := !s.contains '\x00'

namespace Jsonb

variable (column : Jsonb)

mutual

/-- What the column gives back of a document; `none` where it refuses it. A number is kept as an
exact decimal, and a whole one comes back as an `int`. -/
def stored : Document → Option Document
  | .null => some .null
  | .bool value => some (.bool value)
  | .int n => some (.int n)
  | .float f => some (if f.whole then .int f.toInt else .float f)
  | .str s => if storable s then some (.str s) else none
  | .other _ => none
  | .list items => (storedItems items).map .list
  | .mapping entries => (storedEntries entries).map fun entries => .mapping (column.order entries)

def storedItems : List Document → Option (List Document)
  | [] => some []
  | item :: items =>
    match stored item, storedItems items with
    | some item, some items => some (item :: items)
    | _, _ => none

def storedEntries : Entries → Option Entries
  | [] => some []
  | (key, value) :: entries =>
    match stored value, storedEntries entries with
    | some value, some entries => if storable key then some ((key, value) :: entries) else none
    | _, _ => none

end
end Jsonb

/-! ## Distinct keys -/

mutual

/-- No dict of the document has a key twice. -/
def Document.DistinctKeys : Document → Prop
  | .list items => distinctItems items
  | .mapping entries => (entries.map Prod.fst).Nodup ∧ distinctEntries entries
  | _ => True

def distinctItems : List Document → Prop
  | [] => True
  | item :: items => item.DistinctKeys ∧ distinctItems items

def distinctEntries : Entries → Prop
  | [] => True
  | (_, value) :: entries => value.DistinctKeys ∧ distinctEntries entries

end

mutual

def Document.floats : Document → List Double
  | .float f => [f]
  | .list items => floatsOfItems items
  | .mapping entries => floatsOfEntries entries
  | _ => []

def floatsOfItems : List Document → List Double
  | [] => []
  | item :: items => item.floats ++ floatsOfItems items

def floatsOfEntries : Entries → List Double
  | [] => []
  | (_, value) :: entries => value.floats ++ floatsOfEntries entries

end

/-! ## The text of a document -/

theorem dumpsEntries_eq_map (sortKeys : Bool) (entries : Entries) :
    dumpsEntries sortKeys entries = entries.map fun e => (e.1, dumps sortKeys e.2) := by
  induction entries with
  | nil => rfl
  | cons entry entries ih => rw [dumpsEntries, ih, List.map_cons]

/-- The order in which the entries stand does not show in a text with sorted keys. -/
theorem arranged_perm {entries entries' : List (Text × Text)} (h : entries.Perm entries')
    (hkeys : (entries.map Prod.fst).Nodup) : arranged true entries = arranged true entries' := by
  show entries.insertionSort keyOrder = entries'.insertionSort keyOrder
  have hperm : (entries.insertionSort keyOrder).Perm (entries'.insertionSort keyOrder) :=
    (List.perm_insertionSort keyOrder entries).trans
      (h.trans (List.perm_insertionSort keyOrder entries').symm)
  refine List.Perm.eq_of_pairwise (fun a b ha hb hab hba => ?_)
    (List.pairwise_insertionSort keyOrder entries) (List.pairwise_insertionSort keyOrder entries')
    hperm
  have ha' : a ∈ entries := (List.mem_insertionSort keyOrder).mp ha
  have hb' : b ∈ entries := h.symm.subset ((List.mem_insertionSort keyOrder).mp hb)
  exact List.inj_on_of_nodup_map hkeys ha' hb' (le_antisymm hab hba)

/-- The characters that only a float's digits are written with. -/
def marks (text : Text) : ℕ := text.countP fun c => c = '.' ∨ c = 'e'

@[simp] theorem marks_append (s t : Text) : marks (s ++ t) = marks s + marks t :=
  List.countP_append

theorem marks_cons (c : Char) (s : Text) : marks (c :: s) = marks [c] + marks s := by
  rw [← List.singleton_append, marks_append]

theorem marks_commas (parts : List Text) : marks (commas parts) = (parts.map marks).sum := by
  induction parts with
  | nil => rfl
  | cons part parts ih =>
    cases parts with
    | nil => simp [commas]
    | cons next parts =>
      have hcons : commas (part :: next :: parts) =
          part ++ (", ".toList ++ commas (next :: parts)) := by
        simp [commas, List.intercalate]
      have hsep : marks ", ".toList = 0 := by decide
      rw [hcons, marks_append, marks_append, ih, hsep, Nat.zero_add]
      rfl

theorem marks_mapping (sortKeys : Bool) (entries : Entries) :
    marks (dumps sortKeys (.mapping entries)) =
      (entries.map fun e => marks (quoted e.1) + marks (dumps sortKeys e.2)).sum := by
  have hperm : (arranged sortKeys (dumpsEntries sortKeys entries)).Perm
      (dumpsEntries sortKeys entries) := by
    cases sortKeys with
    | false => exact List.Perm.refl _
    | true => exact List.perm_insertionSort keyOrder _
  have hbraces : marks ['\x7b'] = 0 ∧ marks ['\x7d'] = 0 := by decide
  have hcolon : marks ": ".toList = 0 := by decide
  rw [dumps, marks_append, marks_cons, marks_commas, List.map_map,
    (hperm.map (marks ∘ entryText)).sum_eq, dumpsEntries_eq_map, List.map_map, hbraces.1,
    hbraces.2, Nat.zero_add, Nat.add_zero]
  congr 1
  refine List.map_congr_left fun e _ => ?_
  show marks (quoted e.1 ++ ": ".toList ++ dumps sortKeys e.2) = _
  rw [marks_append, marks_append, hcolon, Nat.add_zero]

theorem marks_list (sortKeys : Bool) (items : List Document) :
    marks (dumps sortKeys (.list items)) = ((dumpsItems sortKeys items).map marks).sum := by
  have hbrackets : marks ['['] = 0 ∧ marks [']'] = 0 := by decide
  rw [dumps, marks_append, marks_cons, marks_commas, hbrackets.1, hbrackets.2]
  omega

theorem marks_digits {text : Text} (h : ∀ c ∈ text, c.isDigit = true) : marks text = 0 := by
  have hplain : ∀ c ∈ "0123456789".toList, (!decide (c = '.' ∨ c = 'e')) = true :=
    List.all_eq_true.mp (by decide)
  rw [marks, List.countP_eq_zero]
  intro c hc
  simpa using hplain c (mem_digits (h c hc))

theorem marks_int (n : ℤ) : marks (Numeral.ofInt n).text = 0 := by
  have hdigits : ∀ m : ℕ, marks (Nat.toDigits 10 m) = 0 := fun m =>
    marks_digits fun _ hc => Nat.isDigit_of_mem_toDigits (by decide) (by decide) hc
  cases n with
  | ofNat m => exact hdigits m
  | negSucc m =>
    have hminus : marks ['-'] = 0 := by decide
    show marks ('-' :: Nat.toDigits 10 (m + 1)) = 0
    rw [marks_cons, hdigits, hminus]

theorem marks_float (f : Double) : 0 < marks f.text := by
  have hpoint : marks ['.'] = 1 ∧ marks ['e'] = 1 := by decide
  have hpointed : ∀ digits place, 0 < marks (Double.pointed digits place) := by
    intro digits place
    have hzero : 0 < marks "0.".toList ∧ 0 < marks ".0".toList := by decide
    unfold Double.pointed
    split
    · rw [marks_append, marks_append]
      omega
    · split
      · rw [marks_append, marks_append]
        omega
      · rw [marks_append, marks_cons]
        omega
  let digits := Nat.toDigits 10 f.digits
  let place := f.exponent + digits.length
  have hbody : 0 < marks (if -4 < place ∧ place ≤ 16 then Double.pointed digits place
      else digits.take 1 ++ (if 1 < digits.length then '.' :: digits.drop 1 else []) ++
        'e' :: Double.exponentText (place - 1)) := by
    by_cases hplace : -4 < place ∧ place ≤ 16
    · rw [if_pos hplace]
      exact hpointed digits place
    · rw [if_neg hplace, marks_append, marks_append, marks_cons]
      omega
  rw [Double.text, marks_append]
  exact Nat.add_pos_right _ hbody

/-! ## What storing changes -/

/-- The marks of the floats that come back as an `int`. -/
def wholeMarks (floats : List Double) : ℕ :=
  ((floats.filter Double.whole).map fun f => marks f.text).sum

theorem wholeMarks_append (fs gs : List Double) :
    wholeMarks (fs ++ gs) = wholeMarks fs + wholeMarks gs := by
  simp [wholeMarks]

theorem wholeMarks_eq_zero {floats : List Double} :
    wholeMarks floats = 0 ↔ ∀ f ∈ floats, f.whole = false := by
  induction floats with
  | nil => simp [wholeMarks]
  | cons f floats ih =>
    have hmarks := marks_float f
    rw [← List.singleton_append, wholeMarks_append, Nat.add_eq_zero_iff, ih, List.forall_mem_append]
    cases hwhole : f.whole with
    | true =>
      have hone : wholeMarks [f] = marks f.text := by simp [wholeMarks, hwhole]
      simp [hone, hwhole]
      omega
    | false => simp [wholeMarks, hwhole]

variable {column : Jsonb}

theorem storedEntries_cons {key : Text} {value : Document} {entries after : Entries}
    (h : column.storedEntries ((key, value) :: entries) = some after) :
    ∃ value' rest, column.stored value = some value' ∧ column.storedEntries entries = some rest ∧
      after = (key, value') :: rest := by
  rw [Jsonb.storedEntries] at h
  split at h
  · next value' rest hvalue hrest =>
    split at h
    · cases h
      exact ⟨value', rest, hvalue, hrest, rfl⟩
    · cases h
  · cases h

theorem storedItems_cons {item : Document} {items after : List Document}
    (h : column.storedItems (item :: items) = some after) :
    ∃ item' rest, column.stored item = some item' ∧ column.storedItems items = some rest ∧
      after = item' :: rest := by
  rw [Jsonb.storedItems] at h
  split at h
  · next item' rest hitem hrest =>
    cases h
    exact ⟨item', rest, hitem, hrest, rfl⟩
  · cases h

mutual

theorem marks_stored : ∀ {v w : Document}, column.stored v = some w → ∀ sortKeys,
    marks (dumps sortKeys v) = marks (dumps sortKeys w) + wholeMarks v.floats
  | .null, w, h, sortKeys | .bool _, w, h, sortKeys | .int _, w, h, sortKeys => by
    cases h
    rfl
  | .other _, w, h, _ => by cases h
  | .str s, w, h, sortKeys => by
    rw [Jsonb.stored] at h
    split at h
    · cases h
      rfl
    · cases h
  | .float f, w, h, sortKeys => by
    cases h
    cases hwhole : f.whole with
    | true => simp [dumps, Document.floats, wholeMarks, hwhole, marks_int]
    | false => simp [dumps, Document.floats, wholeMarks, hwhole]
  | .list items, w, h, sortKeys => by
    obtain ⟨after, hitems, rfl⟩ := Option.map_eq_some_iff.mp h
    rw [marks_list, marks_list]
    exact marks_storedItems hitems sortKeys
  | .mapping entries, w, h, sortKeys => by
    obtain ⟨after, hentries, rfl⟩ := Option.map_eq_some_iff.mp h
    rw [marks_mapping, marks_mapping, ((column.order_perm after).map _).sum_eq]
    exact marks_storedEntries hentries sortKeys

theorem marks_storedItems : ∀ {items after : List Document},
    column.storedItems items = some after → ∀ sortKeys,
    ((dumpsItems sortKeys items).map marks).sum =
      ((dumpsItems sortKeys after).map marks).sum + wholeMarks (floatsOfItems items)
  | [], after, h, sortKeys => by
    cases h
    rfl
  | item :: items, after, h, sortKeys => by
    obtain ⟨item', rest, hitem, hrest, rfl⟩ := storedItems_cons h
    have hhead := marks_stored hitem sortKeys
    have htail := marks_storedItems hrest sortKeys
    simp only [dumpsItems, List.map_cons, List.sum_cons, floatsOfItems, wholeMarks_append]
    omega

theorem marks_storedEntries : ∀ {entries after : Entries},
    column.storedEntries entries = some after → ∀ sortKeys,
    (entries.map fun e => marks (quoted e.1) + marks (dumps sortKeys e.2)).sum =
      (after.map fun e => marks (quoted e.1) + marks (dumps sortKeys e.2)).sum +
        wholeMarks (floatsOfEntries entries)
  | [], after, h, sortKeys => by
    cases h
    rfl
  | (key, value) :: entries, after, h, sortKeys => by
    obtain ⟨value', rest, hvalue, hrest, rfl⟩ := storedEntries_cons h
    have hhead := marks_stored hvalue sortKeys
    have htail := marks_storedEntries hrest sortKeys
    simp only [List.map_cons, List.sum_cons, floatsOfEntries, wholeMarks_append]
    omega

end

theorem storedEntries_keys : ∀ {entries after : Entries},
    column.storedEntries entries = some after → after.map Prod.fst = entries.map Prod.fst
  | [], after, h => by
    cases h
    rfl
  | (key, value) :: entries, after, h => by
    obtain ⟨value', rest, -, hrest, rfl⟩ := storedEntries_cons h
    rw [List.map_cons, List.map_cons, storedEntries_keys hrest]

theorem dumps_mapping_perm {entries entries' : Entries} (h : entries.Perm entries')
    (hkeys : (entries.map Prod.fst).Nodup) :
    dumps true (.mapping entries) = dumps true (.mapping entries') := by
  have hdumps : (dumpsEntries true entries).Perm (dumpsEntries true entries') := by
    rw [dumpsEntries_eq_map, dumpsEntries_eq_map]
    exact h.map _
  have hfst : (dumpsEntries true entries).map Prod.fst = entries.map Prod.fst := by
    rw [dumpsEntries_eq_map, List.map_map]
    rfl
  rw [dumps, dumps, arranged_perm hdumps (hfst ▸ hkeys)]

mutual

theorem dumps_stored : ∀ {v w : Document}, column.stored v = some w → v.DistinctKeys →
    (∀ f ∈ v.floats, f.whole = false) → dumps true w = dumps true v
  | .null, w, h, _, _ | .bool _, w, h, _, _ | .int _, w, h, _, _ => by
    cases h
    rfl
  | .other _, w, h, _, _ => by cases h
  | .str s, w, h, _, _ => by
    rw [Jsonb.stored] at h
    split at h
    · cases h
      rfl
    · cases h
  | .float f, w, h, _, hfloats => by
    cases h
    rw [hfloats f (List.mem_singleton_self f)]
    rfl
  | .list items, w, h, hkeys, hfloats => by
    obtain ⟨after, hitems, rfl⟩ := Option.map_eq_some_iff.mp h
    rw [dumps, dumps, dumps_storedItems hitems hkeys hfloats]
  | .mapping entries, w, h, hkeys, hfloats => by
    obtain ⟨after, hentries, rfl⟩ := Option.map_eq_some_iff.mp h
    have hnodup : ((column.order after).map Prod.fst).Nodup := by
      rw [((column.order_perm after).map Prod.fst).nodup_iff, storedEntries_keys hentries]
      exact hkeys.1
    rw [dumps_mapping_perm (column.order_perm after) hnodup, dumps, dumps,
      dumps_storedEntries hentries hkeys.2 hfloats]

theorem dumps_storedItems : ∀ {items after : List Document},
    column.storedItems items = some after → distinctItems items →
    (∀ f ∈ floatsOfItems items, f.whole = false) → dumpsItems true after = dumpsItems true items
  | [], after, h, _, _ => by
    cases h
    rfl
  | item :: items, after, h, hkeys, hfloats => by
    obtain ⟨item', rest, hitem, hrest, rfl⟩ := storedItems_cons h
    rw [dumpsItems, dumpsItems,
      dumps_stored hitem hkeys.1 fun f hf => hfloats f (List.mem_append_left _ hf),
      dumps_storedItems hrest hkeys.2 fun f hf => hfloats f (List.mem_append_right _ hf)]

theorem dumps_storedEntries : ∀ {entries after : Entries},
    column.storedEntries entries = some after → distinctEntries entries →
    (∀ f ∈ floatsOfEntries entries, f.whole = false) →
    dumpsEntries true after = dumpsEntries true entries
  | [], after, h, _, _ => by
    cases h
    rfl
  | (key, value) :: entries, after, h, hkeys, hfloats => by
    obtain ⟨value', rest, hvalue, hrest, rfl⟩ := storedEntries_cons h
    rw [dumpsEntries, dumpsEntries,
      dumps_stored hvalue hkeys.1 fun f hf => hfloats f (List.mem_append_left _ hf),
      dumps_storedEntries hrest hkeys.2 fun f hf => hfloats f (List.mem_append_right _ hf)]

end

/-- A document keeps its text in the column exactly when no float in it is whole. -/
theorem dumps_stored_iff {v w : Document} (h : column.stored v = some w) (hkeys : v.DistinctKeys) :
    dumps true w = dumps true v ↔ ∀ f ∈ v.floats, f.whole = false := by
  constructor
  · intro hsame
    have hmarks := marks_stored h true
    rw [hsame] at hmarks
    exact wholeMarks_eq_zero.mp (by omega)
  · exact dumps_stored h hkeys

end DataQ
