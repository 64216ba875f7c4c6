import DependencyAudit.Config.Basic
import DependencyAudit.Number.Binary64
import DependencyAudit.Number.Power
import DependencyAudit.Text.Blank
import DependencyAudit.Text.Case
import DependencyAudit.Text.Digit
import DependencyAudit.Text.Quoted

/-!
# Sizes

A size is a decimal number with an optional unit, such as `1MB`, `2.5 KiB` or `1,024`. The
unit is case-insensitive; `k`, `m`, … are powers of 1000 and `ki`, `mi`, … powers of 1024.
-/

namespace DependencyAudit.Size

/-- Why a text is no size. -/
inductive Problem
  /-- The number is malformed. -/
  | badNumber (number : Text)
  /-- The number does not fit a double. -/
  | numberRange (number : Text)
  /-- The unit is unknown. -/
  | badUnit (unit : Text)
  /-- The size does not fit 64 bits. -/
  | tooLarge (size : Text)
  deriving DecidableEq, Repr

/-- The wording of a problem. -/
def Problem.message : Problem → Text
  | badNumber n =>
    Text.concat ["strconv.ParseFloat: parsing ", Quoted.encode n, ": invalid syntax"]
  | numberRange n =>
    Text.concat ["strconv.ParseFloat: parsing ", Quoted.encode n, ": value out of range"]
  | badUnit u => Text.concat ["unhandled size name: ", u]
  | tooLarge s => Text.concat ["too large: ", s]

/-- The number of bytes that a unit, in lower case, stands for. -/
def unitBytes? (unit : Text) : Option Nat :=
  if unit.isEmpty || unit = Text.ofString "b" then some 1
  else
    let letters : List Char := ['k', 'm', 'g', 't', 'p', 'e']
    match unit with
    | [] => some 1
    | first :: rest =>
      match letters.findIdx? (fun c => Text.byte c = first) with
      | none => none
      | some i =>
        if rest.isEmpty || rest = Text.ofString "b" then some (Nat.pow 1000 (i + 1))
        else if rest = Text.ofString "i" || rest = Text.ofString "ib" then
          some (Nat.pow 1024 (i + 1))
        else none

/-- The decimal number written by digits with at most one point: its digits and the number of
them behind the point. -/
def decimal? (text : Text) : Option (Nat × Nat) :=
  match text.cutAtByte Ascii.dot with
  | (whole, none) =>
    if !whole.isEmpty && whole.all Text.isDigit then some (Text.digitsValue whole, 0) else none
  | (whole, some fraction) =>
    if (!whole.isEmpty || !fraction.isEmpty) && (whole ++ fraction).all Text.isDigit then
      some (Text.digitsValue (whole ++ fraction), fraction.length)
    else none

/-- The number of leading characters that are digits, points or commas. -/
def numberLength (text : Text) : Nat :=
  ((Utf8.glyphs text).takeWhile fun g =>
    g.isDigit || g.code? = some 46 || g.code? = some 44).length

/-- Reads a size in bytes. The number takes as many bytes as it has characters. -/
def parse (text : Text) : Except Problem Nat :=
  let n := numberLength text
  let number := (text.take n).filter (· != Ascii.comma)
  match decimal? number with
  | none => .error (.badNumber number)
  | some (digits, places) =>
    match Binary64.ofDecimal? false digits (-(places : Int)) with
    | none => .error (.numberRange number)
    | some x =>
      let unit := Text.lower (Text.trim (text.drop n))
      match unitBytes? unit with
      | none => .error (.badUnit unit)
      | some bytes =>
        match x.mulNat? bytes with
        | none => .error (.tooLarge text)
        | some y => if y.truncate ≥ unsignedLimit then .error (.tooLarge text) else .ok y.truncate

end DependencyAudit.Size

namespace DependencyAudit

/-- Reads sizes in bytes, such as `Size.parse`. -/
abbrev SizeReader := Text → Except Size.Problem Nat

/-- The size limit in bytes; zero means no limit. -/
def ScanSettings.maxBytes (s : ScanSettings) (sizes : SizeReader) : Except Size.Problem Nat :=
  if s.maxFileSize.trim.isEmpty then .ok 0 else sizes s.maxFileSize

end DependencyAudit
