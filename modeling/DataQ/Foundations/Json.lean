import Mathlib.Data.List.Sort
import DataQ.Foundations.Dictionary
import DataQ.Foundations.Text

/-! # JSON values

What a JSON column holds, as Python reads it. A number is known by the text that `str` prints of
it. -/

namespace DataQ
set_option autoImplicit false

/-- What `str` can print of a number: it has a sign or a point, is a row of digits, or is short
(`1e+16`, `nan`). -/
def printsNumber (text : Text) : Bool :=
  text.all (fun c => c ≠ '@' && !pySpace c) &&
    (text.contains '.' || text.contains '-' || text.all Char.isDigit || text.length < 16)

structure Numeral where
  text : Text
  printed : printsNumber text = true
  deriving DecidableEq, Repr

theorem printsNumber_digits {text : Text} (h : ∀ c ∈ text, c.isDigit = true) :
    printsNumber text = true := by
  have hplain : ∀ c ∈ "0123456789".toList, (decide (c ≠ '@') && !pySpace c) = true :=
    List.all_eq_true.mp (by decide)
  have hall : text.all Char.isDigit = true := List.all_eq_true.mpr h
  rw [printsNumber, hall, List.all_eq_true.mpr fun c hc => hplain c (mem_digits (h c hc))]
  simp

def Numeral.ofNat (n : ℕ) : Numeral :=
  ⟨Nat.toDigits 10 n, printsNumber_digits fun _ hc => Nat.isDigit_of_mem_toDigits (by decide)
    (by decide) hc⟩

theorem printsNumber_minus {text : Text} (h : ∀ c ∈ text, c.isDigit = true) :
    printsNumber ('-' :: text) = true := by
  have hplain : ∀ c ∈ "-0123456789".toList, (decide (c ≠ '@') && !pySpace c) = true :=
    List.all_eq_true.mp (by decide)
  have hmem : ∀ c ∈ '-' :: text, c ∈ "-0123456789".toList := by
    intro c hc
    rcases List.mem_cons.mp hc with rfl | hc
    · exact List.mem_cons_self
    · exact List.mem_cons_of_mem _ (mem_digits (h c hc))
  rw [printsNumber, List.all_eq_true.mpr fun c hc => hplain c (hmem c hc)]
  simp

def Numeral.ofInt : ℤ → Numeral
  | .ofNat n => .ofNat n
  | .negSucc n => ⟨'-' :: Nat.toDigits 10 (n + 1), printsNumber_minus fun _ hc =>
      Nat.isDigit_of_mem_toDigits (by decide) (by decide) hc⟩

/-- `isinstance(n, int)`. -/
def Numeral.isInt (n : Numeral) : Bool :=
  match n.text with
  | '-' :: digits => digits ≠ [] && digits.all Char.isDigit
  | digits => digits ≠ [] && digits.all Char.isDigit

def Numeral.isZero (n : Numeral) : Bool :=
  n.text.any Char.isDigit && n.text.all fun c => !c.isDigit || c = '0'

inductive Json
  | null
  | bool (value : Bool)
  | num (value : Numeral)
  | str (value : Text)
  | arr (items : List Json)
  | obj (fields : List (Text × Json))
  deriving Repr

abbrev Fields := List (Text × Json)

namespace Json

mutual

def beq : Json → Json → Bool
  | .null, .null => true
  | .bool a, .bool b => a = b
  | .num a, .num b => a = b
  | .str a, .str b => a = b
  | .arr as, .arr bs => beqItems as bs
  | .obj as, .obj bs => beqFields as bs
  | _, _ => false

def beqItems : List Json → List Json → Bool
  | [], [] => true
  | a :: as, b :: bs => beq a b && beqItems as bs
  | _, _ => false

def beqFields : List (Text × Json) → List (Text × Json) → Bool
  | [], [] => true
  | (k, a) :: as, (l, b) :: bs => k = l && beq a b && beqFields as bs
  | _, _ => false

end

mutual

theorem beq_iff : ∀ a b : Json, beq a b = true ↔ a = b
  | a, b => by
    cases a <;> cases b <;> simp [beq, beqItems_iff, beqFields_iff]

theorem beqItems_iff : ∀ as bs : List Json, beqItems as bs = true ↔ as = bs
  | [], bs => by cases bs <;> simp [beqItems]
  | a :: as, bs => by cases bs <;> simp [beqItems, beq_iff a, beqItems_iff as]

theorem beqFields_iff : ∀ as bs : List (Text × Json), beqFields as bs = true ↔ as = bs
  | [], bs => by cases bs <;> simp [beqFields]
  | (k, a) :: as, bs => by
    cases bs with
    | nil => simp [beqFields]
    | cons b bs =>
      simp [beqFields, beq_iff a, beqFields_iff as, Prod.ext_iff, and_assoc]

end

instance : DecidableEq Json := fun a b => decidable_of_iff _ (beq_iff a b)

/-- `value.get(key)` where the value is a dict. -/
def get? : Json → Text → Option Json
  | .obj fields, key => fields.lookup key
  | _, _ => none

/-- `value.get(key)`, or `None`. -/
def get (j : Json) (key : Text) : Json := (j.get? key).getD .null

/-- `value.get(key)` where it is a string. -/
def text? (j : Json) (key : Text) : Option Text :=
  match j.get? key with
  | some (.str s) => some s
  | _ => none

/-- `value.get(key) or ()` where it is a list. -/
def items (j : Json) (key : Text) : List Json :=
  match j.get? key with
  | some (.arr items) => items
  | _ => []

/-- A value that is an `int` and not negative, and no `bool`. -/
def nat? : Json → Option ℕ
  | .num n =>
    if n.text ≠ [] ∧ n.text.all Char.isDigit = true then some (Nat.ofDigitChars 10 n.text 0)
    else none
  | _ => none

def entries : Json → Fields
  | .obj fields => fields
  | _ => []

def isDict : Json → Bool
  | .obj _ => true
  | _ => false

mutual

def sorted : Json → Json
  | .obj fields => .obj (List.insertionSort (fun a b => a.1 ≤ b.1) (sortedFields fields))
  | .arr items => .arr (sortedItems items)
  | j => j

def sortedItems : List Json → List Json
  | [] => []
  | item :: items => sorted item :: sortedItems items

def sortedFields : Fields → Fields
  | [] => []
  | (key, value) :: fields => (key, sorted value) :: sortedFields fields

end

/-- What `repr` prints of a float that is no number. -/
def notFinite : List Text := ["nan".toList, "inf".toList, "-inf".toList]

mutual

/-- `sanitize_json` of what `json.loads` reads. -/
def sanitize : Json → Json
  | .num n => if n.text ∈ notFinite then .null else .num n
  | .arr items => .arr (sanitizeItems items)
  | .obj fields => .obj (sanitizeFields fields)
  | j => j

def sanitizeItems : List Json → List Json
  | [] => []
  | item :: items => sanitize item :: sanitizeItems items

def sanitizeFields : Fields → Fields
  | [] => []
  | (key, value) :: fields => (key, sanitize value) :: sanitizeFields fields

end

theorem sanitize_num (n : Numeral) :
    (num n).sanitize = if n.text ∈ notFinite then .null else .num n := rfl

theorem sanitize_obj (fields : Fields) : (obj fields).sanitize = .obj (sanitizeFields fields) := rfl

theorem sanitizeFields_cons (key : Text) (value : Json) (fields : Fields) :
    sanitizeFields ((key, value) :: fields) = (key, sanitize value) :: sanitizeFields fields := rfl

/-- `bool`. -/
def truthy : Json → Bool
  | .null => false
  | .bool value => value
  | .num n => !n.isZero
  | .str s => s ≠ []
  | .arr items => items ≠ []
  | .obj fields => fields ≠ []

end Json

/-- What the code takes from Python and does not define: `str.lower`, `str` of a list or dict,
`int` and `float`. -/
structure Python where
  lower : Text → Text
  container : Json → Text
  int : Json → Option ℤ
  float : Numeral → Numeral

def Python.str (py : Python) : Json → Text
  | .null => "None".toList
  | .bool true => "True".toList
  | .bool false => "False".toList
  | .num n => n.text
  | .str s => s
  | j => py.container j

/-- Python on ASCII texts and whole numbers, which is what the examples use. -/
def asciiPython : Python where
  lower := lower
  container := fun _ => "[]".toList
  int
    | .num n => if n.text.all Char.isDigit then some (n.text.foldl digit 0) else none
    | _ => none
  float := id
where
  digit (value : ℤ) (c : Char) : ℤ := 10 * value + (c.toNat - 48 : ℕ)

end DataQ
