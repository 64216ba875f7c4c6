import DependencyAudit.Number.Power
import DependencyAudit.Text.Basic

/-!
# Scalars in texts

Integers and truth values as they are written in environment variables and on the command
line. An integer may have a sign, a base (`0x`, `0o`, `0b`, or a leading zero for octal) and
single underscores between its digits; it has to fit into 64 bits.
-/

namespace DependencyAudit.Scalar

/-- Why a text is not an integer. -/
inductive IntegerProblem
  | malformed
  /-- It does not fit into 64 bits. -/
  | tooLarge
  deriving DecidableEq, Repr

namespace IntegerProblem

/-- The wording of a problem. -/
def reason : IntegerProblem → Text
  | malformed => "invalid syntax"
  | tooLarge => "value out of range"

end IntegerProblem

/-- The value of a digit or letter of either case. -/
def digitValue? (b : UInt8) : Option Nat :=
  if Text.isDigit b then some (b.toNat - 48)
  else if Text.isLetter b then some ((Text.lowerByte b).toNat - 87)
  else none

/-- Continues the number `n` with digits of a base; underscores are skipped. A number that
outgrows 64 bits is given up at that digit, whatever follows it. -/
def digits (base : Nat) (n : Nat) : Text → Except IntegerProblem Nat
  | [] => .ok n
  | b :: rest =>
    if b = Ascii.underscore then digits base n rest
    else
      match digitValue? b with
      | none => .error .malformed
      | some d =>
        if d ≥ base then .error .malformed
        else if base * n + d ≥ unsignedLimit then .error .tooLarge
        else digits base (base * n + d) rest

/-- Splits off the mark of a base. -/
def splitBase : Text → Nat × Text
  | Ascii.zero :: mark :: rest =>
    let m := Text.lowerByte mark
    if m = Text.byte 'x' then (16, rest)
    else if m = Text.byte 'b' then (2, rest)
    else if m = Text.byte 'o' then (8, rest)
    else (8, mark :: rest)
  | text => (10, text)

/-- Does every underscore stand behind a digit or the mark of a base, and before a digit?
`behindDigit` tells whether an underscore may come next. -/
def underscoresOk (behindDigit : Bool) : Text → Bool
  | [] => true
  | [b] => b != Ascii.underscore
  | b :: c :: rest =>
    if b = Ascii.underscore then
      behindDigit && c != Ascii.underscore && underscoresOk false (c :: rest)
    else underscoresOk true (c :: rest)

/-- The magnitude that a text without a sign writes. -/
def magnitude (text : Text) : Except IntegerProblem Nat :=
  let (base, body) := splitBase text
  if body.isEmpty then .error .malformed
  else
    match digits base 0 body with
    | .error p => .error p
    | .ok n => if underscoresOk (base != 10) body then .ok n else .error .malformed

/-- Reads an integer. -/
def integer (text : Text) : Except IntegerProblem Int :=
  let (negative, body) : Bool × Text := match text with
    | Ascii.dash :: rest => (true, rest)
    | Ascii.plus :: rest => (false, rest)
    | rest => (false, rest)
  match magnitude body with
  | .error p => .error p
  | .ok n =>
    if negative then if n ≤ signedLimit then .ok (-(n : Int)) else .error .tooLarge
    else if n < signedLimit then .ok n else .error .tooLarge

/-- Reads a truth value. -/
def bool? (text : Text) : Option Bool :=
  if (["1", "t", "T", "TRUE", "true", "True"] : List Text).contains text then some true
  else if (["0", "f", "F", "FALSE", "false", "False"] : List Text).contains text then some false
  else none

end DependencyAudit.Scalar
