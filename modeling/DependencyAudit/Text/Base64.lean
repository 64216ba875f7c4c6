import DependencyAudit.Text.Basic

/-!
# Base 64

The encoding of bytes by 64 printable characters, three bytes in four characters, padded with
equals signs.
-/

namespace DependencyAudit.Base64

/-- The character of a six-bit value. -/
def digit (n : Nat) : UInt8 :=
  if n < 26 then (65 + n).toUInt8
  else if n < 52 then (71 + n).toUInt8
  else if n < 62 then (n - 4).toUInt8
  else if n = 62 then Ascii.plus
  else Ascii.slash

/-- The six-bit value of a character. -/
def value? (b : UInt8) : Option Nat :=
  if Text.isUpper b then some (b.toNat - 65)
  else if Text.isLower b then some (b.toNat - 71)
  else if Text.isDigit b then some (b.toNat + 4)
  else if b = Ascii.plus then some 62
  else if b = Ascii.slash then some 63
  else none

/-- Encodes a text. -/
def encode : Text → Text
  | a :: b :: c :: rest =>
    let n := a.toNat * 65536 + b.toNat * 256 + c.toNat
    digit (n / 262144) :: digit (n / 4096 % 64) :: digit (n / 64 % 64) :: digit (n % 64) ::
      encode rest
  | [a, b] =>
    let n := a.toNat * 1024 + b.toNat * 4
    [digit (n / 4096), digit (n / 64 % 64), digit (n % 64), Ascii.equals]
  | [a] =>
    let n := a.toNat * 16
    [digit (n / 64), digit (n % 64), Ascii.equals, Ascii.equals]
  | [] => []

/-- Decodes a text; characters that are no digits end it. -/
def decode (text : Text) : Text :=
  go ((text.takeWhile (value? · |>.isSome)).map fun b => (value? b).getD 0)
where
  /-- Decodes six-bit values in groups of four. -/
  go : List Nat → Text
    | a :: b :: c :: d :: rest =>
      (a * 4 + b / 16).toUInt8 :: (b % 16 * 16 + c / 4).toUInt8 :: (c % 4 * 64 + d).toUInt8 ::
        go rest
    | [a, b, c] => [(a * 4 + b / 16).toUInt8, (b % 16 * 16 + c / 4).toUInt8]
    | [a, b] => [(a * 4 + b / 16).toUInt8]
    | _ => []

end DependencyAudit.Base64
