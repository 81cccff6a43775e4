import Mathlib.Data.List.DropRight
import Mathlib.Tactic.IntervalCases

/-! # Texts

A text is the list of its characters; the classes of characters of `str` and `re`. -/

namespace DataQ
set_option autoImplicit false

abbrev Text := List Char

instance : LawfulBEq Text := inferInstanceAs (LawfulBEq (List Char))

instance : LawfulBEq (Text × Text) := inferInstance

/-- `str.isspace`, which is also `\s` of a `str` pattern. -/
def pySpace (c : Char) : Bool :=
  (9 ≤ c.toNat && c.toNat ≤ 13) || (28 ≤ c.toNat && c.toNat ≤ 32) || c.toNat = 0x85 ||
    c.toNat = 0xA0 || c.toNat = 0x1680 || (0x2000 ≤ c.toNat && c.toNat ≤ 0x200A) ||
    c.toNat = 0x2028 || c.toNat = 0x2029 || c.toNat = 0x202F || c.toNat = 0x205F ||
    c.toNat = 0x3000

/-- `string.whitespace`. -/
def asciiSpace (c : Char) : Bool := (9 ≤ c.toNat && c.toNat ≤ 13) || c.toNat = 32

/-- `str.strip`. -/
def pyStrip (s : Text) : Text := (s.dropWhile pySpace).rdropWhile pySpace

/-- `str.replace`, after that many characters that were replaced already. -/
def replaceFrom (old new : Text) : ℕ → Text → Text
  | _, [] => []
  | done + 1, _ :: cs => replaceFrom old new done cs
  | 0, c :: cs =>
    if old.isPrefixOf (c :: cs) then new ++ replaceFrom old new (old.length - 1) cs
    else c :: replaceFrom old new 0 cs

/-- `str.replace(old, new)` where `old` is not empty. -/
def replaceAll (old new text : Text) : Text := replaceFrom old new 0 text

/-- `str.lower` of ASCII letters. -/
def lower (s : Text) : Text := s.map Char.toLower

theorem replaceAll_single (c : Char) (new text : Text) :
    replaceAll [c] new text = text.flatMap fun d => if d = c then new else [d] := by
  unfold replaceAll
  induction text with
  | nil => rfl
  | cons d ds ih =>
    rw [replaceFrom, List.flatMap_cons]
    by_cases hd : d = c
    · subst hd
      simp [List.isPrefixOf, ih]
    · simp [List.isPrefixOf, Ne.symm hd, hd, ih]

theorem mem_digits {c : Char} (h : c.isDigit = true) : c ∈ "0123456789".toList := by
  have hc : 48 ≤ c.toNat ∧ c.toNat ≤ 57 := by
    simpa [Char.isDigit, UInt32.le_iff_toNat_le] using h
  rw [← Char.ofNat_toNat c]
  generalize c.toNat = n at hc
  obtain ⟨h1, h2⟩ := hc
  interval_cases n <;> decide

/-! ## Small letters -/

theorem isUpper_iff {c : Char} : c.isUpper = true ↔ 65 ≤ c.toNat ∧ c.toNat ≤ 90 := by
  have hupper : c.isUpper = decide (c.val ≥ 'A'.val ∧ c.val ≤ 'Z'.val) := rfl
  simp [hupper, UInt32.le_iff_toNat_le]

theorem isLower_iff {c : Char} : c.isLower = true ↔ 97 ≤ c.toNat ∧ c.toNat ≤ 122 := by
  have hlower : c.isLower = (decide (c.val ≥ 'a'.val) && decide (c.val ≤ 'z'.val)) := rfl
  simp [hlower, UInt32.le_iff_toNat_le]

theorem isAlpha_eq (c : Char) : c.isAlpha = (c.isUpper || c.isLower) := rfl

/-- `lower` writes a capital small and leaves the rest. -/
theorem toLower_cases (c : Char) :
    c.toLower = c ∨ c.isUpper = true ∧ c.toLower.isLower = true ∧ c.toLower.toLower = c.toLower := by
  by_cases hupper : c.isUpper = true
  · have hc := isUpper_iff.mp hupper
    refine .inr ⟨hupper, ?_⟩
    rw [← Char.ofNat_toNat c]
    generalize c.toNat = n at hc
    obtain ⟨h1, h2⟩ := hc
    interval_cases n <;> decide
  · refine .inl ?_
    rw [isUpper_iff] at hupper
    change dite (c.val ≥ 'A'.val ∧ c.val ≤ 'Z'.val) _ _ = c
    exact dif_neg fun h => hupper h

theorem toLower_toLower (c : Char) : c.toLower.toLower = c.toLower := by
  obtain hsame | ⟨-, -, hstays⟩ := toLower_cases c
  · rw [hsame, hsame]
  · exact hstays

/-- No other character is lowered to one that is no letter. -/
theorem toLower_eq_iff {c d : Char} (hd : d.isAlpha = false) : c.toLower = d ↔ c = d := by
  obtain hsame | ⟨hupper, hlower, -⟩ := toLower_cases c
  · rw [hsame]
  · rw [isAlpha_eq, Bool.or_eq_false_iff] at hd
    constructor
    · rintro rfl
      rw [hlower] at hd
      cases hd.2
    · rintro rfl
      rw [hupper] at hd
      cases hd.1

theorem lower_lower (s : Text) : lower (lower s) = lower s := by
  rw [lower, lower, List.map_map]
  exact List.map_congr_left fun c _ => toLower_toLower c

theorem mem_lower_iff {d : Char} (hd : d.isAlpha = false) {s : Text} : d ∈ lower s ↔ d ∈ s := by
  rw [lower, List.mem_map]
  simp only [toLower_eq_iff hd, exists_eq_right]

theorem toNat_toLower_lt {c : Char} (h : c.toNat < 128) : c.toLower.toNat < 128 := by
  obtain hsame | ⟨-, hlower, -⟩ := toLower_cases c
  · rwa [hsame]
  · have hc := isLower_iff.mp hlower
    omega

theorem pySpace_of_range {c : Char} (h : 65 ≤ c.toNat ∧ c.toNat ≤ 122) : pySpace c = false := by
  simp only [pySpace, Bool.or_eq_false_iff, Bool.and_eq_false_iff, decide_eq_false_iff_not]
  omega

theorem pySpace_toLower (c : Char) : pySpace c.toLower = pySpace c := by
  obtain hsame | ⟨hupper, hlower, -⟩ := toLower_cases c
  · rw [hsame]
  · have hc := isUpper_iff.mp hupper
    have hc' := isLower_iff.mp hlower
    rw [pySpace_of_range ⟨by omega, by omega⟩, pySpace_of_range ⟨by omega, by omega⟩]

theorem pyStrip_pyStrip (text : Text) : pyStrip (pyStrip text) = pyStrip text := by
  have hfirst : (pyStrip text).dropWhile pySpace = pyStrip text := by
    rw [List.dropWhile_eq_self_iff]
    intro hpos
    have hfront : pyStrip text <+: text.dropWhile pySpace := List.rdropWhile_prefix pySpace _
    have hpos' : 0 < (text.dropWhile pySpace).length := Nat.lt_of_lt_of_le hpos hfront.length_le
    rw [hfront.getElem hpos]
    have hdropped : (text.dropWhile pySpace).dropWhile pySpace = text.dropWhile pySpace :=
      List.dropWhile_idempotent pySpace text
    exact List.dropWhile_eq_self_iff.mp hdropped hpos'
  rw [pyStrip, hfirst]
  exact List.rdropWhile_idempotent pySpace _

theorem pyStrip_lower (text : Text) : pyStrip (lower text) = lower (pyStrip text) := by
  have hspace : pySpace ∘ Char.toLower = pySpace := funext pySpace_toLower
  simp only [pyStrip, lower, List.rdropWhile, List.dropWhile_map, ← List.map_reverse, hspace]

end DataQ
