import DataQ.Foundations.Text
import Mathlib.Tactic.Ring

/-! # UUIDs

The values of `uuid.UUID`: what `str` prints of one and which texts the constructor reads. -/

namespace DataQ
set_option autoImplicit false

abbrev Uuid := BitVec 128

instance : LawfulBEq Uuid := inferInstance

namespace Uuid

def hexChar (d : ℕ) : Char := "0123456789abcdef".toList.getD d '0'

def hexDigit (c : Char) : Option ℕ :=
  if c.isDigit then some (c.toNat - '0'.toNat)
  else if 'a' ≤ c && c ≤ 'f' then some (c.toNat - 'a'.toNat + 10)
  else if 'A' ≤ c && c ≤ 'F' then some (c.toNat - 'A'.toNat + 10)
  else none

/-- `"%0{width}x" % n`. -/
def hexText : (width : ℕ) → ℕ → Text
  | 0, _ => []
  | width + 1, n => hexText width (n / 16) ++ [hexChar (n % 16)]

def dashed (hex : Text) : Text :=
  hex.take 8 ++ '-' :: ((hex.drop 8).take 4 ++ '-' :: ((hex.drop 12).take 4 ++
    '-' :: ((hex.drop 16).take 4 ++ '-' :: hex.drop 20)))

/-- `UUID.__str__`. -/
def str (u : Uuid) : Text := dashed (hexText 32 u.toNat)

/-- The digits of `int(text, 16)`: single underscores may stand between two of them. -/
def hexDigits : (value : ℕ) → (afterDigit : Bool) → Text → Option ℕ
  | value, afterDigit, [] => if afterDigit then some value else none
  | value, afterDigit, c :: cs =>
    if c = '_' then if afterDigit then hexDigits value false cs else none
    else (hexDigit c).bind fun d => hexDigits (16 * value + d) true cs

/-- The value after the sign, with the `0x` it may begin with. -/
def hexMagnitude : Text → Option ℕ
  | '0' :: x :: cs =>
    if x = 'x' || x = 'X' then
      hexDigits 0 false (if cs.head? = some '_' then cs.tail else cs)
    else hexDigits 0 false ('0' :: x :: cs)
  | cs => hexDigits 0 false cs

/-- `int(text, 16)`. -/
def int16 (text : Text) : Option ℤ :=
  match pyStrip text with
  | '-' :: cs => (hexMagnitude cs).map fun n => -(n : ℤ)
  | '+' :: cs => (hexMagnitude cs).map Int.ofNat
  | cs => (hexMagnitude cs).map Int.ofNat

/-- `UUID.__init__` on a text. -/
def parse (text : Text) : Option Uuid :=
  let hex := replaceAll "uuid:".toList [] (replaceAll "urn:".toList [] text)
  let brace := fun c : Char => c = '\x7b' || c = '\x7d'
  let hex := ((hex.dropWhile brace).rdropWhile brace).filter (· ≠ '-')
  if hex.length ≠ 32 then none
  else (int16 hex).bind fun n => if 0 ≤ n ∧ n < 2 ^ 128 then some (BitVec.ofNat 128 n.toNat) else none

example : parse "urn:uuid:{00000000-0000-0000-0000-0000000000FF}".toList = some 255#128 := by
  decide

/-! ## What is printed is read back -/

theorem hexDigit_hexChar {d : ℕ} (h : d < 16) : hexDigit (hexChar d) = some d := by
  interval_cases d <;> rfl

theorem hexChar_mem (n : ℕ) : hexChar (n % 16) ∈ "0123456789abcdef".toList := by
  have hlt : n % 16 < 16 := Nat.mod_lt n (by omega)
  generalize n % 16 = d at hlt
  interval_cases d <;> decide

theorem hexText_length (width n : ℕ) : (hexText width n).length = width := by
  induction width generalizing n with
  | zero => rfl
  | succ width ih => rw [hexText, List.length_append, ih, List.length_singleton]

theorem hexText_mem {width n : ℕ} {c : Char} (h : c ∈ hexText width n) :
    c ∈ "0123456789abcdef".toList := by
  induction width generalizing n with
  | zero => simp [hexText] at h
  | succ width ih =>
    obtain h | h := List.mem_append.mp h
    · exact ih h
    · have hc : c = hexChar (n % 16) := by simpa using h
      rw [hc]
      exact hexChar_mem n

theorem hexDigits_hexText (width n value : ℕ) (afterDigit : Bool) (tail : Text) :
    hexDigits value afterDigit (hexText width n ++ tail) =
      hexDigits (value * 16 ^ width + n % 16 ^ width) (afterDigit || decide (0 < width)) tail := by
  induction width generalizing n tail with
  | zero => simp [hexText, Nat.mod_one]
  | succ width ih =>
    have hdigit : hexDigit (hexChar (n % 16)) = some (n % 16) :=
      hexDigit_hexChar (Nat.mod_lt n (by omega))
    have hline : hexChar (n % 16) ≠ '_' := by
      intro heq
      rw [heq] at hdigit
      cases hdigit
    have hvalue : 16 * (value * 16 ^ width + n / 16 % 16 ^ width) + n % 16 =
        value * 16 ^ (width + 1) + n % 16 ^ (width + 1) := by
      rw [Nat.pow_succ, Nat.mul_comm (16 ^ width) 16, Nat.mod_mul]
      ring
    rw [hexText, List.append_assoc, List.singleton_append, ih, hexDigits, if_neg hline, hdigit,
      Option.bind_some, hvalue]
    simp

theorem replaceFrom_absent {first : Char} {old new text : Text} (h : first ∉ text) :
    replaceFrom (first :: old) new 0 text = text := by
  induction text with
  | nil => rfl
  | cons c cs ih =>
    have hne : first ≠ c := fun heq => h (heq ▸ List.mem_cons_self)
    have hcs : first ∉ cs := fun hmem => h (List.mem_cons_of_mem c hmem)
    have hprefix : (first :: old).isPrefixOf (c :: cs) = false := by
      simp [List.isPrefixOf, hne]
    rw [replaceFrom, hprefix]
    simp [ih hcs]

/-- Neither end of a text of other characters is stripped. -/
theorem strip_eq_self {p : Char → Bool} {text : Text} (h : ∀ c ∈ text, p c = false) :
    (text.dropWhile p).rdropWhile p = text := by
  have hleft : text.dropWhile p = text := by
    cases text with
    | nil => rfl
    | cons c cs => simp [h c List.mem_cons_self]
  rw [hleft]
  refine List.rdropWhile_eq_self_iff.mpr fun hne => ?_
  simp [h _ (List.getLast_mem hne)]

theorem mem_dashed {hex : Text} {c : Char} (h : c ∈ dashed hex) : c = '-' ∨ c ∈ hex := by
  simp only [dashed, List.mem_append, List.mem_cons] at h
  obtain h | h | h | h | h | h | h | h | h := h
  · exact .inr (List.mem_of_mem_take h)
  · exact .inl h
  · exact .inr (List.mem_of_mem_drop (List.mem_of_mem_take h))
  · exact .inl h
  · exact .inr (List.mem_of_mem_drop (List.mem_of_mem_take h))
  · exact .inl h
  · exact .inr (List.mem_of_mem_drop (List.mem_of_mem_take h))
  · exact .inl h
  · exact .inr (List.mem_of_mem_drop h)

theorem filter_dashed {hex : Text} (h : '-' ∉ hex) : (dashed hex).filter (· ≠ '-') = hex := by
  have hkeep : ∀ s : Text, s ⊆ hex → s.filter (· ≠ '-') = s := by
    intro s hs
    refine List.filter_eq_self.mpr fun c hc => decide_eq_true fun heq => ?_
    rw [heq] at hc
    exact h (hs hc)
  have h20 : hex.drop 20 = (hex.drop 16).drop 4 := by rw [List.drop_drop]
  have h16 : hex.drop 16 = (hex.drop 12).drop 4 := by rw [List.drop_drop]
  have h12 : hex.drop 12 = (hex.drop 8).drop 4 := by rw [List.drop_drop]
  have hsub : ∀ k n, (hex.drop k).take n ⊆ hex := fun k n =>
    List.Subset.trans (List.take_subset n _) (List.drop_subset k hex)
  simp only [dashed, List.filter_append, List.filter_cons, hkeep _ (List.take_subset 8 hex),
    hkeep _ (hsub _ _), hkeep _ (List.drop_subset 20 hex), ne_eq, not_true_eq_false, decide_false,
    Bool.false_eq_true, if_false]
  rw [h20, List.take_append_drop, h16, List.take_append_drop, h12, List.take_append_drop,
    List.take_append_drop]

theorem mem_str {u : Uuid} {c : Char} (h : c ∈ u.str) : c ∈ "-0123456789abcdef".toList := by
  obtain rfl | hhex := mem_dashed h
  · decide
  · exact List.mem_cons_of_mem _ (hexText_mem hhex)

theorem not_mem_str {u : Uuid} {c : Char} (h : c ∉ "-0123456789abcdef".toList) : c ∉ u.str :=
  fun hmem => h (mem_str hmem)

/-- Lower-case digits are read as they stand: no sign, no prefix, nothing to strip. -/
theorem int16_hexText {width n : ℕ} (hwidth : 0 < width) (hn : n < 16 ^ width) :
    int16 (hexText width n) = some (n : ℤ) := by
  have hdigits : hexDigits 0 false (hexText width n) = some n := by
    have hall := hexDigits_hexText width n 0 false []
    rw [List.append_nil, Nat.zero_mul, Nat.zero_add, Nat.mod_eq_of_lt hn] at hall
    rw [hall]
    simp [hexDigits, hwidth]
  have hmem : ∀ c ∈ hexText width n, c ∈ "0123456789abcdef".toList := fun c => hexText_mem
  generalize hexText width n = hex at hdigits hmem
  have hspace : ∀ c ∈ hex, pySpace c = false := by
    intro c hc
    have hall : "0123456789abcdef".toList.all (fun c => !pySpace c) = true := by decide
    simpa using List.all_eq_true.mp hall c (hmem c hc)
  have hmagnitude : hexMagnitude hex = some n := by
    unfold hexMagnitude
    split
    · next x cs =>
      have hx : x ∈ "0123456789abcdef".toList := hmem x (by simp)
      have hnot : ¬ ((decide (x = 'x') || decide (x = 'X')) = true) := by
        have hall : "0123456789abcdef".toList.all (fun x => !(x = 'x' || x = 'X')) = true := by
          decide
        simpa using List.all_eq_true.mp hall x hx
      rw [if_neg hnot]
      exact hdigits
    · exact hdigits
  have hstrip : pyStrip hex = hex := strip_eq_self hspace
  unfold int16
  rw [hstrip]
  split
  · next cs =>
    exact absurd (hmem '-' (by simp)) (by decide)
  · next cs =>
    exact absurd (hmem '+' (by simp)) (by decide)
  · rw [hmagnitude]
    rfl

theorem parse_str (u : Uuid) : parse u.str = some u := by
  have hurn : replaceAll "urn:".toList [] u.str = u.str :=
    replaceFrom_absent (not_mem_str (by decide))
  have huuid : replaceAll "uuid:".toList [] u.str = u.str :=
    replaceFrom_absent (not_mem_str (by decide))
  have hbrace : ∀ c ∈ u.str, (decide (c = '\x7b') || decide (c = '\x7d')) = false := by
    intro c hc
    have hall : "-0123456789abcdef".toList.all (fun c => !(c = '\x7b' || c = '\x7d')) = true := by
      decide
    simpa using List.all_eq_true.mp hall c (mem_str hc)
  have hdash : '-' ∉ hexText 32 u.toNat := fun hmem => absurd (hexText_mem hmem) (by decide)
  have hvalue : int16 (hexText 32 u.toNat) = some (u.toNat : ℤ) :=
    int16_hexText (by omega) (lt_of_lt_of_le u.isLt (by norm_num))
  have hrange : (0 : ℤ) ≤ (u.toNat : ℤ) ∧ (u.toNat : ℤ) < 2 ^ 128 :=
    ⟨Int.natCast_nonneg _, by exact_mod_cast u.isLt⟩
  simp only [parse]
  rw [hurn, huuid, strip_eq_self hbrace, str, filter_dashed hdash, if_neg (by simp [hexText_length]),
    hvalue, Option.bind_some, if_pos hrange]
  simp

-- no proof compares two ids by computing what they print
attribute [irreducible] str parse

end Uuid
end DataQ
