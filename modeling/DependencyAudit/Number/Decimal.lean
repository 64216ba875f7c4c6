import DependencyAudit.Number.Binary64
import DependencyAudit.Number.Power
import DependencyAudit.Text.Basic

/-!
# Decimal texts of doubles

A double is written with the fewest decimal digits that read back as the same number, and of
those the nearest to it. What surrounds the digits differs from format to format: `general`
for messages, `json` for JSON documents and `positional` without any exponent.
-/

namespace DependencyAudit

/-- The decimal number `0.d₁d₂…dₙ · 10 ^ point`, with digits `d₁d₂…dₙ`. -/
structure Decimal where
  digits : Text
  point : Int
  deriving DecidableEq, Repr

namespace Decimal

/-- The number of decimal digits of a positive number. -/
def digitCount (n : Nat) : Nat := (Nat.toDigits 10 n).length

/-- The `k` with `10 ^ (k - 1) ≤ num / den < 10 ^ k`. -/
def magnitude (num den : Nat) : Int :=
  if num ≥ den then digitCount (num / den)
  else 1 - (digitCount ((den + num - 1) / num - 1) : Int)

/-- Numerator and denominator of `num / den · 10 ^ (-k)`. -/
def scale (num den : Nat) (k : Int) : Nat × Nat :=
  if 0 ≤ k then (num, den * tenPow k.toNat) else (num * tenPow (-k).toNat, den)

/-- The interval of ratios that round to a double: its ends over a common denominator, and
whether the ends belong to it. -/
structure Basin where
  lower : Nat
  upper : Nat
  denominator : Nat
  closed : Bool

/-- The basin of a positive double, together with the double itself as a numerator. -/
def basin (x : Binary64) : Basin × Nat :=
  let below := if x.mantissa = twoPow 52 && x.exponent > Binary64.minExponent then 1 else 2
  let e := x.exponent - 2
  let (unit, denominator) := if 0 ≤ e then (twoPow e.toNat, 1) else (1, twoPow (-e).toNat)
  (⟨(4 * x.mantissa - below) * unit, (4 * x.mantissa + 2) * unit, denominator,
    x.mantissa % 2 == 0⟩, 4 * x.mantissa * unit)

/-- Does `c · 10 ^ k` lie in the basin? -/
def Basin.holds (b : Basin) (c : Nat) (k : Int) : Bool :=
  let (left, right) := if 0 ≤ k then (c * tenPow k.toNat * b.denominator, 1)
    else (c * b.denominator, tenPow (-k).toNat)
  if b.closed then b.lower * right ≤ left && left ≤ b.upper * right
  else b.lower * right < left && left < b.upper * right

/-- The nearest number with `n` digits in the basin of a double, as its digits, if there is
one. `top` is the magnitude of the double. -/
def withDigits? (b : Basin) (value : Nat) (top : Int) (n : Nat) : Option (Nat × Int) :=
  let k := top - n
  let (p, q) := scale value b.denominator k
  let floor := p / q
  let hits := [floor, floor + 1].filter (b.holds · k)
  match hits with
  | [c] => some (c, k)
  | [c, d] => some (if 2 * (p % q) ≤ q then c else d, k)
  | _ => none

/-- Searches for the least number of digits, from `n` up. -/
def search (b : Basin) (value : Nat) (top : Int) (n : Nat) : Nat → Nat × Int
  | 0 => (value / b.denominator, 0)
  | fuel + 1 =>
    match withDigits? b value top n with
    | some r => r
    | none => search b value top (n + 1) fuel

/-- The shortest decimal number that rounds to the magnitude of a double. -/
def shortest (x : Binary64) : Decimal :=
  if x.mantissa = 0 then ⟨[Ascii.zero], 1⟩
  else
    let (b, value) := basin x
    let (c, k) := search b value (magnitude value b.denominator) 1 17
    let digits := Text.ofNat c
    ⟨digits.dropRightWhile (· = Ascii.zero), digits.length + k⟩

/-- Digits with a decimal point where there is a fraction. -/
def positional (d : Decimal) : Text :=
  if d.point ≤ 0 then
    [Ascii.zero, Ascii.dot] ++ List.replicate (-d.point).toNat Ascii.zero ++ d.digits
  else if d.digits.length ≤ d.point.toNat then
    d.digits ++ List.replicate (d.point.toNat - d.digits.length) Ascii.zero
  else d.digits.take d.point.toNat ++ Ascii.dot :: d.digits.drop d.point.toNat

/-- One digit, a fraction, and an exponent of at least `width` digits. -/
def scientific (width : Nat) (d : Decimal) : Text :=
  let exponent := d.point - 1
  let mantissa :=
    d.digits.take 1 ++ if d.digits.length > 1 then Ascii.dot :: d.digits.drop 1 else []
  let written := Text.ofNat exponent.natAbs
  mantissa ++ [Text.byte 'e', if exponent < 0 then Ascii.dash else Ascii.plus] ++
    List.replicate (width - written.length) Ascii.zero ++ written

end Decimal

namespace Binary64

/-- Puts the sign in front. -/
def signed (x : Binary64) (t : Text) : Text := if x.negative then Ascii.dash :: t else t

/-- The text of a double without any exponent. -/
def positional (x : Binary64) : Text :=
  if x.mantissa = 0 then x.signed [Ascii.zero] else x.signed (Decimal.shortest x).positional

/-- The text of a double in messages: with an exponent of two digits or more when the number
is below `0.0001` or at least a million. -/
def general (x : Binary64) : Text :=
  if x.mantissa = 0 then x.signed [Ascii.zero]
  else
    let d := Decimal.shortest x
    if d.point - 1 < -4 || d.point - 1 ≥ 6 then x.signed (d.scientific 2)
    else x.signed d.positional

/-- The text of a double in JSON documents: with an exponent when the number is below
`0.000001` or at least `1e21`. Negative exponents have no leading zero. -/
def json (x : Binary64) : Text :=
  if x.mantissa = 0 then x.signed [Ascii.zero]
  else
    let d := Decimal.shortest x
    if d.point - 1 < -6 || d.point - 1 ≥ 21 then
      x.signed (d.scientific (if d.point - 1 < 0 then 1 else 2))
    else x.signed d.positional

end Binary64

end DependencyAudit
