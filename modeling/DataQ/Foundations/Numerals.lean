import DataQ.Foundations.Decimal
import DataQ.Foundations.Documents
import Mathlib.Algebra.Order.Field.Rat
import Mathlib.Tactic.FieldSimp
import Mathlib.Tactic.Ring

/-! # Decimal numerals

How a lexer reads a decimal numeral, and that it reads what Python prints of a whole number or of a
finite float. -/

namespace DataQ
set_option autoImplicit false

namespace Numerals

def naturalOf (digits : Text) : ℕ := Nat.ofDigitChars 10 digits 0

/-- `e[+-]digits`, and what follows. -/
def exponent : Text → ℤ × Text
  | [] => (0, [])
  | c :: cs =>
    let (negative, rest) := Decimal.splitSign cs
    let digits := rest.takeWhile Char.isDigit
    if (c = 'e' ∨ c = 'E') ∧ digits ≠ [] then
      (if negative then -(naturalOf digits : ℤ) else naturalOf digits, rest.dropWhile Char.isDigit)
    else (0, c :: cs)

/-- `digits[.digits][e[+-]digits]`, and what follows. -/
def readNumeral (text : Text) : ℚ × Text :=
  let units := text.takeWhile Char.isDigit
  let (tenths, after) := Decimal.fraction (text.dropWhile Char.isDigit)
  let (power, rest) := exponent after
  (naturalOf (units ++ tenths) * (10 : ℚ) ^ (power - tenths.length), rest)

/-- What follows a numeral and is no part of it. -/
structure Ends (rest : Text) : Prop where
  digit : ∀ c ∈ rest.head?, c.isDigit = false
  point : rest.head? ≠ some '.'
  small : rest.head? ≠ some 'e'
  large : rest.head? ≠ some 'E'

theorem takeWhile_digits {digits rest : Text} (h : ∀ c ∈ digits, c.isDigit = true)
    (hrest : ∀ c ∈ rest.head?, c.isDigit = false) :
    (digits ++ rest).takeWhile Char.isDigit = digits := by
  rw [List.takeWhile_append_of_pos h]
  cases rest with
  | nil => simp
  | cons c cs => simp [hrest c rfl]

theorem dropWhile_digits {digits rest : Text} (h : ∀ c ∈ digits, c.isDigit = true)
    (hrest : ∀ c ∈ rest.head?, c.isDigit = false) :
    (digits ++ rest).dropWhile Char.isDigit = rest := by
  rw [List.dropWhile_append_of_pos h]
  cases rest with
  | nil => rfl
  | cons c cs => simp [hrest c rfl]

theorem fraction_of_no_point {rest : Text} (h : rest.head? ≠ some '.') :
    Decimal.fraction rest = ([], rest) := by
  unfold Decimal.fraction
  split
  · exact absurd rfl h
  · rfl

theorem fraction_point (rest : Text) : Decimal.fraction ('.' :: rest) =
    (rest.takeWhile Char.isDigit, rest.dropWhile Char.isDigit) := rfl

theorem splitSign_minus (rest : Text) : Decimal.splitSign ('-' :: rest) = (true, rest) := rfl

theorem splitSign_plus (rest : Text) : Decimal.splitSign ('+' :: rest) = (false, rest) := rfl

theorem exponent_of_ends {rest : Text} (h : Ends rest) : exponent rest = (0, rest) := by
  unfold exponent
  cases rest with
  | nil => rfl
  | cons c cs =>
    have hsmall : c ≠ 'e' := fun hc => h.small (by rw [hc]; rfl)
    have hlarge : c ≠ 'E' := fun hc => h.large (by rw [hc]; rfl)
    dsimp only
    rw [if_neg (by simp [hsmall, hlarge])]

/-- A numeral without a point. -/
theorem readNumeral_plain {units tail rest : Text} {power : ℤ}
    (h : ∀ c ∈ units, c.isDigit = true) (hdigit : ∀ c ∈ tail.head?, c.isDigit = false)
    (hpoint : tail.head? ≠ some '.') (htail : exponent tail = (power, rest)) :
    readNumeral (units ++ tail) = (naturalOf units * (10 : ℚ) ^ power, rest) := by
  unfold readNumeral
  rw [takeWhile_digits h hdigit, dropWhile_digits h hdigit, fraction_of_no_point hpoint]
  dsimp only
  rw [htail]
  simp

/-- A numeral with a point. -/
theorem readNumeral_pointed {units tenths tail rest : Text} {power : ℤ}
    (h : ∀ c ∈ units, c.isDigit = true) (htenths : ∀ c ∈ tenths, c.isDigit = true)
    (hdigit : ∀ c ∈ tail.head?, c.isDigit = false) (htail : exponent tail = (power, rest)) :
    readNumeral (units ++ '.' :: (tenths ++ tail)) =
      (naturalOf (units ++ tenths) * (10 : ℚ) ^ (power - tenths.length), rest) := by
  have hfirst : ∀ c ∈ ('.' :: (tenths ++ tail)).head?, c.isDigit = false := by
    intro c hc
    obtain rfl := Option.some.inj hc
    rfl
  unfold readNumeral
  rw [takeWhile_digits h hfirst, dropWhile_digits h hfirst, fraction_point,
    takeWhile_digits htenths hdigit, dropWhile_digits htenths hdigit]
  dsimp only
  rw [htail]

theorem isDigit_toDigits (n : ℕ) : ∀ c ∈ Nat.toDigits 10 n, c.isDigit = true := fun _ hc =>
  Nat.isDigit_of_mem_toDigits (by decide) (by decide) hc

theorem isDigit_zeros (n : ℕ) : ∀ c ∈ List.replicate n '0', c.isDigit = true := by
  intro c hc
  rw [List.eq_of_mem_replicate hc]
  rfl

theorem naturalOf_toDigits (n : ℕ) : naturalOf (Nat.toDigits 10 n) = n :=
  Nat.ofDigitChars_ten_toDigits

theorem naturalOf_zeros_append (n : ℕ) (digits : Text) :
    naturalOf (List.replicate n '0' ++ digits) = naturalOf digits := by
  unfold naturalOf
  rw [Nat.ofDigitChars_append, Nat.ofDigitChars_replicate_zero, Nat.mul_zero]

theorem naturalOf_append_zeros (n : ℕ) (digits : Text) :
    naturalOf (digits ++ List.replicate n '0') = naturalOf digits * 10 ^ n := by
  unfold naturalOf
  rw [Nat.ofDigitChars_append, Nat.ofDigitChars_replicate_zero, Nat.mul_comm]

theorem ofInt_text (n : ℤ) : (Numeral.ofInt n).text =
    (if n < 0 then ['-'] else []) ++ Nat.toDigits 10 n.natAbs := by
  cases n with
  | ofNat n => rw [if_neg (by simp)]; rfl
  | negSucc n => rw [if_pos (Int.negSucc_lt_zero n)]; rfl

/-! ## Whole numbers in a text -/

/-- The digits that a text begins with, as a number, and the text after them. -/
def readNatural (text : Text) : ℕ × Text :=
  (naturalOf (text.takeWhile Char.isDigit), text.dropWhile Char.isDigit)

def readInteger (text : Text) : ℤ × Text :=
  let (negative, rest) := Decimal.splitSign text
  let (n, rest) := readNatural rest
  (if negative then -(n : ℤ) else n, rest)

theorem readNatural_digits {digits rest : Text} (h : ∀ c ∈ digits, c.isDigit = true)
    (hrest : ∀ c ∈ rest.head?, c.isDigit = false) :
    readNatural (digits ++ rest) = (naturalOf digits, rest) := by
  unfold readNatural
  rw [takeWhile_digits h hrest, dropWhile_digits h hrest]

theorem readNatural_toDigits (n : ℕ) {rest : Text} (hrest : ∀ c ∈ rest.head?, c.isDigit = false) :
    readNatural (Nat.toDigits 10 n ++ rest) = (n, rest) := by
  rw [readNatural_digits (isDigit_toDigits n) hrest, naturalOf_toDigits]

theorem splitSign_digit {text : Text} (h : ∃ c cs, text = c :: cs ∧ c.isDigit = true) :
    Decimal.splitSign text = (false, text) := by
  obtain ⟨c, cs, rfl, hc⟩ := h
  unfold Decimal.splitSign
  split
  · rename_i heq
    obtain ⟨rfl, rfl⟩ := List.cons.inj heq
    exact absurd hc (by decide)
  · rename_i heq
    obtain ⟨rfl, rfl⟩ := List.cons.inj heq
    exact absurd hc (by decide)
  · rfl

theorem natural_first (n : ℕ) : ∃ c cs, Nat.toDigits 10 n = c :: cs ∧ c.isDigit = true := by
  cases hdigits : Nat.toDigits 10 n with
  | nil => exact absurd hdigits Nat.toDigits_ne_nil
  | cons c cs =>
    have hmem : c ∈ Nat.toDigits 10 n := by
      rw [hdigits]
      exact List.mem_cons_self
    exact ⟨c, cs, rfl, isDigit_toDigits n c hmem⟩

theorem readInteger_ofInt (n : ℤ) {rest : Text} (hrest : ∀ c ∈ rest.head?, c.isDigit = false) :
    readInteger ((Numeral.ofInt n).text ++ rest) = (n, rest) := by
  unfold readInteger
  rw [ofInt_text]
  by_cases hn : n < 0
  · rw [if_pos hn, List.append_assoc, List.singleton_append, splitSign_minus]
    dsimp only
    rw [readNatural_toDigits _ hrest]
    simp only [if_true, Prod.mk.injEq, and_true]
    omega
  · obtain ⟨c, cs, hdigits, hc⟩ := natural_first n.natAbs
    have hfirst : ∃ d ds, Nat.toDigits 10 n.natAbs ++ rest = d :: ds ∧ d.isDigit = true :=
      ⟨c, cs ++ rest, by rw [hdigits]; rfl, hc⟩
    rw [if_neg hn, List.nil_append, splitSign_digit hfirst]
    dsimp only
    rw [readNatural_toDigits _ hrest]
    simp only [Bool.false_eq_true, if_false, Prod.mk.injEq, and_true]
    omega

/-- The exponent that `repr` prints. -/
theorem exponent_exponentText (n : ℤ) {rest : Text} (h : ∀ c ∈ rest.head?, c.isDigit = false) :
    exponent ('e' :: (Double.exponentText n ++ rest)) = (n, rest) := by
  have hdigits : ∀ c ∈ List.replicate (2 - (Nat.toDigits 10 n.natAbs).length) '0' ++
      Nat.toDigits 10 n.natAbs, c.isDigit = true := by
    intro c hc
    obtain hc | hc := List.mem_append.mp hc
    · exact isDigit_zeros _ c hc
    · exact isDigit_toDigits _ c hc
  have hne : List.replicate (2 - (Nat.toDigits 10 n.natAbs).length) '0' ++
      Nat.toDigits 10 n.natAbs ≠ [] := by
    simp [Nat.toDigits_ne_nil]
  have hvalue : naturalOf (List.replicate (2 - (Nat.toDigits 10 n.natAbs).length) '0' ++
      Nat.toDigits 10 n.natAbs) = n.natAbs := by
    rw [naturalOf_zeros_append, naturalOf_toDigits]
  unfold exponent Double.exponentText
  by_cases hneg : n < 0
  · rw [if_pos hneg, List.cons_append, List.cons_append]
    dsimp only
    rw [splitSign_minus, takeWhile_digits hdigits h,
      dropWhile_digits hdigits h, if_pos ⟨.inl rfl, hne⟩, hvalue]
    simp only [if_true]
    congr 1
    omega
  · rw [if_neg hneg, List.cons_append, List.cons_append]
    dsimp only
    rw [splitSign_plus, takeWhile_digits hdigits h,
      dropWhile_digits hdigits h, if_pos ⟨.inl rfl, hne⟩, hvalue]
    simp only [Bool.false_eq_true, if_false]
    congr 1
    omega

end Numerals

/-! ## Floats -/

namespace Double
open Numerals

def magnitude (f : Double) : ℚ := f.digits * (10 : ℚ) ^ f.exponent

def value (f : Double) : ℚ := if f.negative then -f.magnitude else f.magnitude

/-- `repr`, without the sign. -/
def body (f : Double) : Text :=
  let digits := Nat.toDigits 10 f.digits
  let place := f.exponent + digits.length
  if -4 < place ∧ place ≤ 16 then pointed digits place
  else digits.take 1 ++ (if 1 < digits.length then '.' :: digits.drop 1 else []) ++
    'e' :: exponentText (place - 1)

theorem text_eq (f : Double) : f.text = (if f.negative then ['-'] else []) ++ f.body := rfl

/-- The digits with their point are read as a power of ten of them. -/
theorem readNumeral_pointed {digits : Text} (h : ∀ c ∈ digits, c.isDigit = true) (place : ℤ)
    {rest : Text} (hrest : Ends rest) :
    readNumeral (pointed digits place ++ rest) =
      (naturalOf digits * (10 : ℚ) ^ (place - digits.length), rest) := by
  unfold pointed
  by_cases hlow : place ≤ 0
  · have hzero : ∀ c ∈ ['0'], c.isDigit = true := by simp
    have htenths : ∀ c ∈ List.replicate (-place).toNat '0' ++ digits, c.isDigit = true := by
      intro c hc
      obtain hc | hc := List.mem_append.mp hc
      · exact isDigit_zeros _ c hc
      · exact h c hc
    have hread := Numerals.readNumeral_pointed hzero htenths hrest.digit (exponent_of_ends hrest)
    have hvalue : naturalOf (['0'] ++ (List.replicate (-place).toNat '0' ++ digits)) =
        naturalOf digits := by
      rw [← naturalOf_zeros_append (1 + (-place).toNat) digits, List.replicate_add,
        List.append_assoc]
      rfl
    have hlength : ((List.replicate (-place).toNat '0' ++ digits).length : ℤ) =
        -place + digits.length := by
      rw [List.length_append, List.length_replicate]
      omega
    rw [if_pos hlow]
    rw [hvalue, hlength] at hread
    have htext : "0.".toList ++ List.replicate (-place).toNat '0' ++ digits ++ rest =
        ['0'] ++ '.' :: (List.replicate (-place).toNat '0' ++ digits ++ rest) := by
      simp
    rw [htext, hread]
    congr 3
    omega
  · rw [if_neg hlow]
    by_cases hwhole : (digits.length : ℤ) ≤ place
    · have hunits : ∀ c ∈ digits ++ List.replicate (place.toNat - digits.length) '0',
          c.isDigit = true := by
        intro c hc
        obtain hc | hc := List.mem_append.mp hc
        · exact h c hc
        · exact isDigit_zeros _ c hc
      have hzero : ∀ c ∈ ['0'], c.isDigit = true := by simp
      have hread := Numerals.readNumeral_pointed hunits hzero hrest.digit (exponent_of_ends hrest)
      have hvalue :
          naturalOf (digits ++ List.replicate (place.toNat - digits.length) '0' ++ ['0']) =
            naturalOf digits * 10 ^ (place.toNat - digits.length + 1) := by
        rw [← naturalOf_append_zeros, List.append_assoc, List.replicate_add]
        rfl
      rw [if_pos hwhole]
      rw [hvalue] at hread
      have htext :
          digits ++ List.replicate (place.toNat - digits.length) '0' ++ ".0".toList ++ rest =
            digits ++ List.replicate (place.toNat - digits.length) '0' ++
              '.' :: (['0'] ++ rest) := by
        simp
      rw [htext, hread]
      congr 1
      have hpower : (place - digits.length : ℤ) = ((place.toNat - digits.length : ℕ) : ℤ) := by
        omega
      rw [hpower, zpow_natCast, Nat.cast_mul, Nat.cast_pow, pow_succ]
      norm_num
      ring
    · rw [if_neg hwhole]
      have hunits : ∀ c ∈ digits.take place.toNat, c.isDigit = true := fun c hc =>
        h c (List.mem_of_mem_take hc)
      have htenths : ∀ c ∈ digits.drop place.toNat, c.isDigit = true := fun c hc =>
        h c (List.mem_of_mem_drop hc)
      have hread := Numerals.readNumeral_pointed hunits htenths hrest.digit (exponent_of_ends hrest)
      rw [List.take_append_drop] at hread
      have hlength : ((digits.drop place.toNat).length : ℤ) = digits.length - place := by
        rw [List.length_drop]
        omega
      rw [hlength] at hread
      rw [List.append_assoc, List.cons_append, hread]
      congr 3
      omega

/-- What `repr` prints of a float is read as that float. -/
theorem readNumeral_body (f : Double) {rest : Text} (hrest : Ends rest) :
    readNumeral (f.body ++ rest) = (f.magnitude, rest) := by
  have hdigits := isDigit_toDigits f.digits
  have hne : Nat.toDigits 10 f.digits ≠ [] := Nat.toDigits_ne_nil
  unfold body magnitude
  dsimp only
  by_cases hplain : -4 < f.exponent + (Nat.toDigits 10 f.digits).length ∧
      f.exponent + (Nat.toDigits 10 f.digits).length ≤ 16
  · rw [if_pos hplain, readNumeral_pointed hdigits _ hrest, naturalOf_toDigits]
    congr 3
    omega
  · rw [if_neg hplain]
    have hunits : ∀ c ∈ (Nat.toDigits 10 f.digits).take 1, c.isDigit = true := fun c hc =>
      hdigits c (List.mem_of_mem_take hc)
    have htail := exponent_exponentText (f.exponent + (Nat.toDigits 10 f.digits).length - 1)
      hrest.digit
    have hfirst : ∀ c ∈ ('e' :: (exponentText
        (f.exponent + (Nat.toDigits 10 f.digits).length - 1) ++ rest)).head?,
        c.isDigit = false := by
      intro c hc
      obtain rfl := Option.some.inj hc
      rfl
    by_cases hmany : 1 < (Nat.toDigits 10 f.digits).length
    · have htenths : ∀ c ∈ (Nat.toDigits 10 f.digits).drop 1, c.isDigit = true := fun c hc =>
        hdigits c (List.mem_of_mem_drop hc)
      have hread := Numerals.readNumeral_pointed hunits htenths hfirst htail
      rw [List.take_append_drop, naturalOf_toDigits, List.length_drop] at hread
      rw [if_pos hmany]
      simp only [List.append_assoc, List.cons_append] at hread ⊢
      rw [hread]
      congr 3
      omega
    · have hone : (Nat.toDigits 10 f.digits).length = 1 := by
        have := List.length_pos_of_ne_nil hne
        omega
      have hread := readNumeral_plain hunits hfirst (by simp) htail
      rw [List.take_of_length_le (by omega), naturalOf_toDigits] at hread
      rw [if_neg hmany]
      rw [List.take_of_length_le (by omega), List.append_nil, List.append_assoc, List.cons_append,
        hread, hone]
      congr 3
      omega

end Double

end DataQ
