import DependencyAudit.Number.Binary64
import DependencyAudit.Number.Power
import DependencyAudit.Text.Basic

/-!
# JSON numbers

The exact decimal number that the source text of a JSON number writes.
-/

namespace DependencyAudit

/-- The number `± digits · 10 ^ exponent`. -/
structure JsonNumber where
  negative : Bool
  /-- The digits before and behind the point. -/
  digits : Nat
  /-- The power of ten by which the digits are multiplied. -/
  exponent : Int
  /-- The exponent as it is written, without the shift by the digits behind the point. -/
  written : Int
  deriving DecidableEq, Repr

namespace JsonNumber

/-- Is the byte the mark of an exponent? -/
def isMark (b : UInt8) : Bool := b = Text.byte 'e' || b = Text.byte 'E'

/-- The number with the given source text. -/
def ofSource (source : Text) : JsonNumber :=
  let negative := source.head? = some Ascii.dash
  let body := if negative then source.tail else source
  let mantissa := body.takeWhile (!isMark ·)
  let mark := (body.dropWhile (!isMark ·)).tail
  let power : Int := Text.digitsValue (mark.filter Text.isDigit)
  let written := if mark.head? = some Ascii.dash then -power else power
  let (whole, fraction) := Text.cutAtByte Ascii.dot mantissa
  let fraction := fraction.getD []
  ⟨negative, Text.digitsValue (whole ++ fraction), written - fraction.length, written⟩

/-- The largest exponent of ten for which a number is looked at exactly. -/
def maxExponent : Nat := 1000000

/-- Does the exponent that is written fit 64 bits? -/
def fitsExponent (n : JsonNumber) : Bool :=
  -(signedLimit : Int) ≤ n.written && n.written < signedLimit

/-- Is the number an integer? One with an exponent out of all proportion is not taken for one. -/
def isInteger (n : JsonNumber) : Bool :=
  n.fitsExponent &&
    (n.digits = 0 ||
      (n.exponent.natAbs ≤ maxExponent &&
        (0 ≤ n.exponent || n.digits % tenPow n.exponent.natAbs = 0)))

/-- Is the number below zero? -/
def isNegative (n : JsonNumber) : Bool :=
  n.negative && n.digits != 0

/-- The nearest double; none if the number is too large. -/
def toBinary64? (n : JsonNumber) : Option Binary64 :=
  Binary64.ofDecimal? n.negative n.digits n.exponent

end JsonNumber

end DependencyAudit
