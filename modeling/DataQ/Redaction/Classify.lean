import DataQ.Foundations.Entropy
import DataQ.Foundations.Json
import DataQ.Foundations.Scanning

/-! # Column classification

`services/column_classification.py`: what a column's name, its sampled values or the counts taken
over its failing rows say about it. -/

namespace DataQ.Redaction
open DataQ.Entropy DataQ.Scanning
set_option autoImplicit false

inductive ColumnClass
  | identifier | pii | safe
  deriving DecidableEq, Repr

/-! ## Names -/

def personTokens : List Text :=
  ["email".toList, "mail".toList, "phone".toList, "mobile".toList, "cell".toList, "fax".toList,
    "contact".toList, "ssn".toList, "sin".toList, "nid".toList, "passport".toList,
    "license".toList, "licence".toList, "dob".toList, "birth".toList, "birthdate".toList,
    "birthday".toList, "gender".toList, "username".toList, "login".toList, "password".toList,
    "iban".toList, "swift".toList, "bic".toList, "cvv".toList, "cvc".toList, "aadhaar".toList]

def addressTokens : List Text :=
  ["address".toList, "street".toList, "city".toList, "zip".toList, "zipcode".toList,
    "postal".toList, "postcode".toList]

def financialDomains : List Text :=
  ["account".toList, "card".toList, "credit".toList, "debit".toList, "cc".toList,
    "routing".toList, "sort".toList]

def numberTokens : List Text := ["number".toList, "no".toList, "num".toList]

def nationalIdDomains : List Text :=
  ["tax".toList, "vat".toList, "national".toList, "ssn".toList, "sin".toList, "tin".toList,
    "nino".toList]

def personNameTokens : List Text :=
  ["firstname".toList, "lastname".toList, "fullname".toList, "surname".toList,
    "forename".toList, "givenname".toList, "middlename".toList]

def personContextTokens : List Text :=
  ["customer".toList, "user".toList, "member".toList, "recipient".toList, "shipper".toList,
    "shipping".toList, "delivery".toList, "pickup".toList, "patient".toList, "client".toList,
    "guest".toList, "buyer".toList, "billing".toList, "employee".toList, "resident".toList,
    "tenant".toList, "subscriber".toList, "passenger".toList, "applicant".toList,
    "owner".toList, "contact".toList]

def nonPersonEntities : List Text :=
  ["product".toList, "category".toList, "brand".toList, "file".toList, "column".toList,
    "table".toList, "node".toList, "supplier".toList, "vendor".toList, "carrier".toList,
    "channel".toList, "store".toList, "warehouse".toList, "region".toList, "country".toList,
    "currency".toList, "status".toList, "type".toList, "event".toList, "step".toList,
    "role".toList, "tag".toList, "location".toList]

def identifierTokens : List Text :=
  ["id".toList, "uuid".toList, "guid".toList, "key".toList, "code".toList, "number".toList,
    "no".toList, "num".toList, "ref".toList, "reference".toList, "sku".toList, "isbn".toList,
    "upc".toList, "ean".toList, "serial".toList, "barcode".toList, "slug".toList]

def safeTokens : List Text :=
  ["ts".toList, "at".toList, "time".toList, "timestamp".toList, "date".toList,
    "datetime".toList, "day".toList, "month".toList, "year".toList, "created".toList,
    "updated".toList, "modified".toList, "loaded".toList, "load".toList, "amount".toList,
    "amt".toList, "qty".toList, "quantity".toList, "count".toList, "total".toList, "sum".toList,
    "price".toList, "cost".toList, "fee".toList, "rate".toList, "tax".toList,
    "discount".toList, "balance".toList, "score".toList, "rating".toList, "sentiment".toList,
    "pct".toList, "percent".toList, "ratio".toList, "status".toList, "state".toList,
    "flag".toList, "kind".toList, "method".toList, "currency".toList, "channel".toList,
    "carrier".toList, "enabled".toList, "active".toList, "valid".toList, "deleted".toList]

variable (py : Python)

/-- `re.sub(r"(?<=[a-z0-9])(?=[A-Z])", " ", name)`. -/
def spaced : Text → Text
  | [] => []
  | c :: cs =>
    if (c.isLower || c.isDigit) && cs.head?.any Char.isUpper then c :: ' ' :: spaced cs
    else c :: spaced cs

def tokens (name : Text) : List Text := runs Char.isAlphanum (py.lower (spaced name))

def anyOf (tokens vocabulary : List Text) : Bool := tokens.any vocabulary.contains

def nameSignal (name : Text) : Option ColumnClass :=
  let tokens := tokens py name
  let personQualified := anyOf tokens personContextTokens
  let place :=
    if personQualified then ColumnClass.pii
    else if anyOf tokens nonPersonEntities then .safe else .pii
  if tokens = [] then none
  else if anyOf tokens personTokens || anyOf tokens personNameTokens then some .pii
  else if anyOf tokens addressTokens then some place
  else if tokens.contains "name".toList then some place
  else if anyOf tokens financialDomains && anyOf tokens numberTokens then some .pii
  else if anyOf tokens nationalIdDomains && anyOf tokens identifierTokens then some .pii
  else if anyOf tokens identifierTokens then some .identifier
  else if anyOf tokens safeTokens then some .safe
  else none

/-! ## Values -/

def isHex (c : Char) : Bool := c.isDigit || ('a' ≤ c && c ≤ 'f') || ('A' ≤ c && c ≤ 'F')

def looksLikeUuid (value : Text) : Bool :=
  value.all (fun c => isHex c || c = '-') && (value.splitOn '-').map List.length = [8, 4, 4, 4, 12]

def looksLikeHash (value : Text) : Bool :=
  [32, 40, 56, 64, 96, 128].contains value.length && value.all isHex

/-- `_BASE64_RE`. -/
def base64 (value : Text) : Bool :=
  let body := value.rdropWhile (· = '=')
  body ≠ [] && body.all (fun c => c.isAlphanum || c = '+' || c = '/') &&
    value.length ≤ body.length + 2

/-- `_shannon_entropy(value) > 3.5`, both sides as powers of two times the length. -/
def highEntropy (value : Text) : Bool :=
  2 ^ (7 * value.length) * countPower value ^ 2 < value.length ^ (2 * value.length)

def looksEncoded (value : Text) : Bool :=
  16 ≤ value.length && highEntropy value && (base64 value || value.all isHex)

def looksLikeEmail (value : Text) : Bool :=
  value.all (!pySpace ·) &&
    match value.splitOn '@' with
    | [local', domain] => local' ≠ [] && domain.tail.dropLast.contains '.'
    | _ => false

def cleanValues (values : List Json) : List Text :=
  ((values.filter (· ≠ .null)).map fun v => pyStrip (py.str v)).filter fun s =>
    s ≠ [] && s.map Char.toUpper ≠ "NULL".toList

structure Counts where
  n : ℕ
  emailCount : ℕ
  idShapedCount : ℕ
  encodedCount : ℕ
  distinctCount : ℕ
  deriving DecidableEq, Repr

def valueSignalCounts (values : List Json) : Option Counts :=
  let cleaned := cleanValues py values
  if cleaned = [] then none
  else some
    { n := cleaned.length
      emailCount := cleaned.countP looksLikeEmail
      idShapedCount := cleaned.countP fun v => looksLikeUuid v || looksLikeHash v
      encodedCount := cleaned.countP looksEncoded
      distinctCount := cleaned.dedup.length }

inductive Detector
  | email | encoded
  deriving DecidableEq, Repr

def identifierShaped (counts : Counts) : Bool :=
  4 * counts.n ≤ 5 * counts.idShapedCount && 4 * counts.n ≤ 5 * counts.distinctCount

def valueDetector (counts : Counts) : Option Detector :=
  if counts.n = 0 then none
  else if counts.n ≤ 2 * counts.emailCount then some .email
  else if identifierShaped counts then none
  else if counts.n ≤ 2 * counts.encodedCount then some .encoded
  else none

def classifyCounts (counts : Counts) : Option ColumnClass :=
  if counts.n = 0 then none
  else if (valueDetector counts).isSome then some .pii
  else if identifierShaped counts then some .identifier
  else none

def validSummary (summary : Option Json) : Option Counts := do
  let summary ← summary.filter Json.isDict
  let count (key : Text) : Option ℤ := (summary.get? key).bind py.int
  let n ← count "n".toList
  let email ← count "email_count".toList
  let idShaped ← count "id_shaped_count".toList
  let encoded ← count "encoded_count".toList
  let distinct ← count "distinct_count".toList
  if n ≤ 0 || [email, idShaped, encoded, distinct].any (· < 0) then none
  else if [email, idShaped, encoded, distinct].any (n < ·) then none
  else some ⟨n.toNat, email.toNat, idShaped.toNat, encoded.toNat, distinct.toNat⟩

def valueSignal (values : List Json) (summary : Option Json) : Option ColumnClass :=
  match validSummary py summary with
  | some counts => classifyCounts counts
  | none => (valueSignalCounts py values).bind classifyCounts

/-- `classify_column_with_basis`. -/
def classifyColumn (name : Text) (values : List Json) (summary : Option Json) :
    ColumnClass × Bool :=
  let byName := nameSignal py name
  let byValue := valueSignal py values summary
  if byName = some .pii then (.pii, true)
  else if byValue = some .pii then (.pii, true)
  else
    match byName, byValue with
    | some known, _ => (known, false)
    | none, some known => (known, false)
    | none, none => (.pii, false)

def isSensitive (name : Text) (values : List Json) (summary : Option Json) : Bool :=
  nameSignal py name = some .pii || valueSignal py values summary = some .pii

theorem isSensitive_iff (name : Text) (values : List Json) (summary : Option Json) :
    isSensitive py name values summary = true ↔
      classifyColumn py name values summary = (.pii, true) := by
  simp only [isSensitive, classifyColumn, Bool.or_eq_true, decide_eq_true_eq]
  by_cases hname : nameSignal py name = some .pii
  · simp [hname]
  · by_cases hvalue : valueSignal py values summary = some .pii
    · simp [hname, hvalue]
    · simp only [hname, hvalue, or_self, if_false, false_iff]
      split <;> simp

/-! ## Numbers carry no personal signal -/

theorem highEntropy_digits {value : Text} (h : value.all Char.isDigit = true) :
    highEntropy value = false := by
  have hdigits : value.toFinset.card ≤ 10 := by
    have hsub : value.toFinset ⊆ "0123456789".toList.toFinset := by
      intro c hc
      rw [List.mem_toFinset] at hc ⊢
      exact mem_digits (List.all_eq_true.mp h c hc)
    exact (Finset.card_le_card hsub).trans (by decide)
  have hpow := length_pow_le value
  have hcard : value.toFinset.card ^ value.length ≤ 10 ^ value.length :=
    Nat.pow_le_pow_left hdigits _
  have hten : (10 ^ value.length) ^ 2 ≤ 2 ^ (7 * value.length) := by
    rw [← pow_mul, mul_comm value.length 2, pow_mul, pow_mul]
    exact Nat.pow_le_pow_left (by norm_num) _
  rw [highEntropy, decide_eq_false_iff_not, not_lt]
  calc
    value.length ^ (2 * value.length) = (value.length ^ value.length) ^ 2 := by
      rw [← pow_mul, mul_comm]
    _ ≤ (value.toFinset.card ^ value.length * countPower value) ^ 2 := Nat.pow_le_pow_left hpow 2
    _ ≤ (10 ^ value.length * countPower value) ^ 2 :=
      Nat.pow_le_pow_left (Nat.mul_le_mul_right _ hcard) 2
    _ = (10 ^ value.length) ^ 2 * countPower value ^ 2 := mul_pow _ _ 2
    _ ≤ 2 ^ (7 * value.length) * countPower value ^ 2 := Nat.mul_le_mul_right _ hten

theorem looksEncoded_of_mem {value : Text} {c : Char} (hmem : c ∈ value) (hc : c = '.' ∨ c = '-') :
    looksEncoded value = false := by
  have hhex : value.all isHex = false := by
    rw [List.all_eq_false]
    refine ⟨c, hmem, ?_⟩
    rcases hc with rfl | rfl <;> decide
  have hbody : c ∈ value.rdropWhile (· = '=') := by
    have hsplit := List.rdropWhile_append_rtakeWhile (p := (· = '=')) (l := value)
    rw [← hsplit, List.mem_append] at hmem
    refine hmem.resolve_right fun htail => ?_
    have hpad : decide (c = '=') = true := List.mem_rtakeWhile_imp (p := (· = '=')) htail
    rcases hc with rfl | rfl <;> exact absurd hpad (by decide)
  have hclass : (value.rdropWhile (· = '=')).all (fun c => c.isAlphanum || c = '+' || c = '/') =
      false := by
    rw [List.all_eq_false]
    refine ⟨c, hbody, ?_⟩
    rcases hc with rfl | rfl <;> decide
  have hbase : base64 value = false := by
    simp only [base64, hclass, Bool.and_false, Bool.false_and]
  rw [looksEncoded, hbase, hhex, Bool.or_false, Bool.and_false]

theorem looksEncoded_numeral (n : Numeral) : looksEncoded n.text = false := by
  have hprinted := n.printed
  rw [printsNumber, Bool.and_eq_true] at hprinted
  simp only [Bool.or_eq_true, List.contains_iff_mem, decide_eq_true_eq] at hprinted
  rcases hprinted.2 with ((hpoint | hsign) | hdigits) | hshort
  · exact looksEncoded_of_mem hpoint (.inl rfl)
  · exact looksEncoded_of_mem hsign (.inr rfl)
  · rw [looksEncoded, highEntropy_digits hdigits, Bool.and_false, Bool.false_and]
  · rw [looksEncoded, decide_eq_false (by omega), Bool.false_and, Bool.false_and]

theorem looksLikeEmail_numeral (n : Numeral) : looksLikeEmail n.text = false := by
  have hprinted := n.printed
  rw [printsNumber, Bool.and_eq_true, List.all_eq_true] at hprinted
  have hsplit : n.text.splitOn '@' = [n.text] := List.splitOnP_eq_singleton fun c hc => by
    have := hprinted.1 c hc
    simp_all
  rw [looksLikeEmail, hsplit, Bool.and_false]

theorem pyStrip_numeral (n : Numeral) : pyStrip n.text = n.text := by
  have hprinted := n.printed
  rw [printsNumber, Bool.and_eq_true, List.all_eq_true] at hprinted
  have hspace : ∀ c ∈ n.text, pySpace c = false := fun c hc => by
    have := hprinted.1 c hc
    simp_all
  have hdrop : n.text.dropWhile pySpace = n.text := by
    cases htext : n.text with
    | nil => rfl
    | cons c cs =>
      rw [List.dropWhile_cons, hspace c (by rw [htext]; exact List.mem_cons_self)]
      rfl
  rw [pyStrip, hdrop, List.rdropWhile_eq_self_iff]
  intro hne
  rw [hspace _ (List.getLast_mem hne)]
  exact Bool.false_ne_true

/-- A number is never taken for a personal value. -/
theorem valueSignal_numeral (n : Numeral) :
    valueSignal py [.num n] none ≠ some .pii := by
  have hsummary : validSummary py none = none := rfl
  have hvalues : cleanValues py [.num n] = [] ∨ cleanValues py [.num n] = [n.text] := by
    have hstr : pyStrip (py.str (.num n)) = n.text := pyStrip_numeral n
    rw [cleanValues, List.filter_cons_of_pos (by simp), List.filter_nil, List.map_cons, hstr,
      List.map_nil, List.filter_singleton]
    cases (decide (n.text ≠ []) && decide (List.map Char.toUpper n.text ≠ "NULL".toList))
    · exact .inl rfl
    · exact .inr rfl
  rw [valueSignal, hsummary]
  rcases hvalues with hnone | hone
  · simp [valueSignalCounts, hnone]
  · have hcounts : valueSignalCounts py [.num n] = some
        { n := 1
          emailCount := 0
          idShapedCount := [n.text].countP fun v => looksLikeUuid v || looksLikeHash v
          encodedCount := 0
          distinctCount := 1 } := by
      simp [valueSignalCounts, hone, looksLikeEmail_numeral, looksEncoded_numeral]
    rw [hcounts, Option.bind_some, classifyCounts, if_neg one_ne_zero]
    simp only [valueDetector]
    split <;> simp_all

end DataQ.Redaction
