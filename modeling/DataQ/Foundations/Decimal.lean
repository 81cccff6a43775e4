import Mathlib.Data.Nat.Digits.Defs
import DataQ.Foundations.Json

/-! # Decimal numbers

`decimal.Decimal` where it is finite: the sign, the digits and the exponent that it was written
with, in ASCII digits. Two decimals of one value are two decimals here (`1E+1` and `10`). -/

namespace DataQ
set_option autoImplicit false

structure Decimal where
  negative : Bool
  digits : ℕ
  exponent : ℤ
  deriving DecidableEq, Repr

namespace Decimal

def ofNat (n : ℕ) : Decimal := ⟨false, n, 0⟩

def signed (d : Decimal) : ℤ := if d.negative then -d.digits else d.digits

def isZero (d : Decimal) : Bool := d.digits = 0

def positive (d : Decimal) : Bool := !d.negative && d.digits ≠ 0

def floor (d : Decimal) : ℤ :=
  match d.exponent with
  | .ofNat n => d.signed * 10 ^ n
  | .negSucc n => d.signed / 10 ^ (n + 1)

def ceil (d : Decimal) : ℤ := -floor { d with negative := !d.negative }

/-- `d == d.to_integral_value()`. -/
def whole (d : Decimal) : Bool := d.floor = d.ceil

/-- `d == n`. -/
def isInt (d : Decimal) (n : ℤ) : Bool := d.whole && d.floor = n

/-- `d < e`. -/
def lt (d e : Decimal) : Bool :=
  let low := min d.exponent e.exponent
  d.signed * 10 ^ (d.exponent - low).toNat < e.signed * 10 ^ (e.exponent - low).toNat

/-! ## Reading -/

def digitValue (n : ℕ) (c : Char) : ℕ := 10 * n + (c.toNat - 48)

def splitSign : Text → Bool × Text
  | '-' :: rest => (true, rest)
  | '+' :: rest => (false, rest)
  | rest => (false, rest)

/-- The exponent part, where that is all there is. -/
def readExponent : Text → Option ℤ
  | [] => some 0
  | c :: rest =>
    let (negative, digits) := splitSign rest
    if (c = 'e' ∨ c = 'E') ∧ digits ≠ [] ∧ digits.all Char.isDigit then
      some (if negative then -(digits.foldl digitValue 0 : ℕ) else (digits.foldl digitValue 0 : ℕ))
    else none

def fraction : Text → Text × Text
  | '.' :: rest => (rest.takeWhile Char.isDigit, rest.dropWhile Char.isDigit)
  | rest => ([], rest)

/-- `Decimal(text)`; `none` where it raises or is not finite. -/
def ofText (text : Text) : Option Decimal :=
  let (negative, body) := splitSign ((pyStrip text).filter (· ≠ '_'))
  let units := body.takeWhile Char.isDigit
  let (tenths, rest) := fraction (body.dropWhile Char.isDigit)
  if units = [] ∧ tenths = [] then none
  else
    (readExponent rest).map fun exponent =>
      ⟨negative, (units ++ tenths).foldl digitValue 0, exponent - tenths.length⟩

/-! ## Printing -/

/-- `'%+d'`. -/
def signedText (n : ℤ) : Text :=
  (if n < 0 then '-' else '+') :: Nat.toDigits 10 n.natAbs

def pointed (digits : Text) (place : ℤ) : Text :=
  if place ≤ 0 then "0.".toList ++ List.replicate (-place).toNat '0' ++ digits
  else if digits.length ≤ place then
    digits ++ List.replicate (place.toNat - digits.length) '0'
  else digits.take place.toNat ++ '.' :: digits.drop place.toNat

/-- `str`. -/
def text (d : Decimal) : Text :=
  let digits := Nat.toDigits 10 d.digits
  let left := d.exponent + digits.length
  let plain := decide (d.exponent ≤ 0 ∧ -6 < left)
  let place := if plain then left else 1
  (if d.negative then ['-'] else []) ++ pointed digits place ++
    if left = place then [] else 'E' :: signedText (left - place)

/-! ## Multiplying -/

/-- `n / 10 ^ k`, a half to the even digit. -/
def halfEven (n k : ℕ) : ℕ :=
  let low := n / 10 ^ k
  let rest := 2 * (n % 10 ^ k)
  if rest < 10 ^ k ∨ (rest = 10 ^ k ∧ low % 2 = 0) then low else low + 1

/-- The default context's precision. -/
def precision : ℕ := 28

def rounded (d : Decimal) : Decimal :=
  let excess := (Nat.toDigits 10 d.digits).length - precision
  let digits := halfEven d.digits excess
  if digits = 10 ^ precision then ⟨d.negative, digits / 10, d.exponent + excess + 1⟩
  else ⟨d.negative, digits, d.exponent + excess⟩

def mul (d e : Decimal) : Decimal :=
  rounded ⟨d.negative != e.negative, d.digits * e.digits, d.exponent + e.exponent⟩

end Decimal
end DataQ
