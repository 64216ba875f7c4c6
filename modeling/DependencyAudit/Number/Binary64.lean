import DependencyAudit.Number.Power

/-!
# Double-precision numbers

Finite double-precision numbers as exact numbers: a sign, a mantissa below 2^53 and a binary
exponent. Ratios are rounded to the nearest such number, a tie to the even mantissa.
-/

namespace DependencyAudit

/-- The number `± mantissa · 2 ^ exponent`. -/
structure Binary64 where
  negative : Bool
  mantissa : Nat
  exponent : Int
  deriving DecidableEq, Repr

namespace Binary64

/-- The least exponent. -/
def minExponent : Int := -1074

/-- The greatest exponent. -/
def maxExponent : Int := 971

/-- Zero, of either sign. -/
def zero (negative : Bool) : Binary64 := ⟨negative, 0, minExponent⟩

/-- The quotient `num / den` rounded to an integer, a tie to the even one. -/
def roundDiv (num den : Nat) : Nat :=
  let q := num / den
  let r := num % den
  if 2 * r > den || (2 * r == den && q % 2 == 1) then q + 1 else q

/-- Numerator and denominator of `num / (den · 2 ^ e)`. -/
def scale (num den : Nat) (e : Int) : Nat × Nat :=
  if 0 ≤ e then (num, den * twoPow e.toNat) else (num * twoPow (-e).toNat, den)

/-- The exponent at which `num / den` has a mantissa of 53 bits, or the least one. -/
def exponentFor (num den : Nat) : Int :=
  let guess : Int := max minExponent (Nat.log2 num - Nat.log2 den - 52)
  let (n, d) := scale num den guess
  if n / d ≥ twoPow 53 then guess + 1
  else if n / d < twoPow 52 && guess > minExponent then guess - 1
  else guess

/-- The number nearest to `num / den`; none if it is too large. -/
def ofRatio? (negative : Bool) (num den : Nat) : Option Binary64 :=
  if num = 0 then some (zero negative)
  else
    let e := exponentFor num den
    let (n, d) := scale num den e
    let m := roundDiv n d
    let (m, e) := if m = twoPow 53 then (twoPow 52, e + 1) else (m, e)
    if e > maxExponent then none else some ⟨negative, m, e⟩

/-- The number nearest to `digits · 10 ^ exponent`; none if it is too large. -/
def ofDecimal? (negative : Bool) (digits : Nat) (exponent : Int) : Option Binary64 :=
  if digits = 0 then some (zero negative)
  else
    let magnitude : Int := (Nat.toDigits 10 digits).length + exponent
    if magnitude > 310 then none
    else if magnitude < -330 then some (zero negative)
    else if 0 ≤ exponent then ofRatio? negative (digits * tenPow exponent.toNat) 1
    else ofRatio? negative digits (tenPow (-exponent).toNat)

/-- The number nearest to the product with a natural number; none if it is too large. -/
def mulNat? (x : Binary64) (k : Nat) : Option Binary64 :=
  if 0 ≤ x.exponent then ofRatio? x.negative (x.mantissa * k * twoPow x.exponent.toNat) 1
  else ofRatio? x.negative (x.mantissa * k) (twoPow (-x.exponent).toNat)

/-- The magnitude without its fractional part. -/
def truncate (x : Binary64) : Nat :=
  if 0 ≤ x.exponent then x.mantissa * twoPow x.exponent.toNat
  else x.mantissa / twoPow (-x.exponent).toNat

/-- The integer part, toward zero. -/
def toInt (x : Binary64) : Int :=
  if x.negative then -(x.truncate : Int) else x.truncate

/-- Is the number an integer? -/
def isInteger (x : Binary64) : Bool :=
  0 ≤ x.exponent || x.mantissa % twoPow (-x.exponent).toNat == 0

end Binary64

end DependencyAudit
