import DependencyAudit.Number.Binary64
import DependencyAudit.Number.Power
import DependencyAudit.Text.Scalar

/-!
# What plain YAML scalars mean

A text that is written without quotes in a YAML document may be read as something else than a
text: as a truth value, a number, a date or as nothing. `Yaml.isAmbiguous` tells which texts
need quotes for that reason. Besides what YAML 1.2 reads differently, it counts the words for
truth values and the sexagesimal numbers of YAML 1.1.
-/

namespace DependencyAudit.Yaml

/-- Words that stand for truth values, numbers that are none, and nothing. -/
def reservedWords : List Text :=
  ["true", "True", "TRUE", "false", "False", "FALSE", "", "~", "null", "Null", "NULL",
   ".nan", ".NaN", ".NAN", ".inf", ".Inf", ".INF", "+.inf", "+.Inf", "+.INF",
   "-.inf", "-.Inf", "-.INF"]

/-- Words that used to stand for truth values. -/
def formerWords : List Text :=
  ["y", "Y", "yes", "Yes", "YES", "on", "On", "ON", "n", "N", "no", "No", "NO",
   "off", "Off", "OFF"]

/-- Is the byte a sign? -/
def isSign (b : UInt8) : Bool := b = Ascii.plus || b = Ascii.dash

/-- The text behind a sign, if it starts with one. -/
def dropSign : Text → Text
  | b :: rest => if isSign b then rest else b :: rest
  | [] => []

/-- Digits of a base behind a mark, with a sign between the mark and the digits. -/
def isMarkedSigned (mark : Text) (base : Nat) (text : Text) : Bool :=
  match Text.dropPrefix? mark text with
  | some (sign :: digits) =>
    isSign sign && !digits.isEmpty &&
      match Scalar.digits base 0 digits with
      | .ok n => n < signedLimit || (sign = Ascii.dash && n = signedLimit)
      | .error _ => false
  | _ => false

/-- Is a text without underscores an integer? -/
def isInteger (text : Text) : Bool :=
  (Scalar.integer text).isOk || (Scalar.magnitude text).isOk ||
    isMarkedSigned "0b" 2 text || isMarkedSigned "0o" 8 text

/-- The digits of an exponent with its sign; nothing if the text is empty. -/
def exponent? : Text → Option Int
  | [] => some 0
  | mark :: rest =>
    let digits := dropSign rest
    if (mark = Text.byte 'e' || mark = Text.byte 'E') && !digits.isEmpty &&
        digits.all Text.isDigit then
      some (if rest.head? = some Ascii.dash then -(Text.digitsValue digits : Int)
        else Text.digitsValue digits)
    else none

/-- Is a text without underscores a decimal number that fits into a double? There are digits
on at least one side of the point; without digits before it there are some behind it. -/
def isDecimal (text : Text) : Bool :=
  let body := dropSign text
  let whole := body.takeWhile Text.isDigit
  let rest := body.dropWhile Text.isDigit
  let (fraction, rest) : Text × Text := match rest with
    | Ascii.dot :: more => (more.takeWhile Text.isDigit, more.dropWhile Text.isDigit)
    | rest => ([], rest)
  match exponent? rest with
  | none => false
  | some e =>
    !(whole ++ fraction).isEmpty &&
      (Binary64.ofDecimal? false (Text.digitsValue (whole ++ fraction))
        (e - fraction.length)).isSome

/-- Does every underscore stand between two digits? -/
def underscoresBetweenDigits : Text → Bool
  | a :: Ascii.underscore :: c :: rest =>
    Text.isDigit a && Text.isDigit c && underscoresBetweenDigits (c :: rest)
  | a :: rest =>
    a != Ascii.underscore && rest != [Ascii.underscore] && underscoresBetweenDigits rest
  | [] => true

/-- Is the text a number in base sixty, such as `12:30`? -/
def isSexagesimal (text : Text) : Bool :=
  let isPlace (b : UInt8) : Bool := Text.isDigit b || b = Ascii.underscore
  let (main, fraction) := Text.cutAtByte Ascii.dot (dropSign text)
  (fraction.getD []).all isPlace &&
    match main.splitOnByte Ascii.colon with
    | first :: second :: more =>
      (match first with
        | d :: rest => Text.isDigit d && rest.all isPlace
        | [] => false) &&
      (second :: more).all fun piece =>
        match piece with
        | [d] => Text.isDigit d
        | [t, d] => Ascii.zero ≤ t && t ≤ Text.byte '5' && Text.isDigit d
        | _ => false
    | _ => false

/-- Reads one or two digits. -/
def number? : Text → Option (Nat × Text)
  | a :: b :: rest =>
    if !Text.isDigit a then none
    else if Text.isDigit b then some (Text.digitsValue [a, b], rest)
    else some (Text.digitsValue [a], b :: rest)
  | [a] => if Text.isDigit a then some (Text.digitsValue [a], []) else none
  | [] => none

/-- The number of days of a month. -/
def daysIn (year month : Nat) : Nat :=
  if month = 2 then
    if year % 4 = 0 && (year % 100 != 0 || year % 400 = 0) then 29 else 28
  else if month = 4 || month = 6 || month = 9 || month = 11 then 30
  else 31

/-- Reads a date: a year of four digits, a month and a day. -/
def date? : Text → Option Text
  | a :: b :: c :: d :: Ascii.dash :: rest => do
    guard ([a, b, c, d].all Text.isDigit)
    let (month, rest) ← number? rest
    guard (1 ≤ month ∧ month ≤ 12)
    let rest ← Text.dropPrefix? "-" rest
    let (day, rest) ← number? rest
    guard (1 ≤ day ∧ day ≤ daysIn (Text.digitsValue [a, b, c, d]) month)
    some rest
  | _ => none

/-- Drops a fraction of a second. -/
def dropFraction : Text → Text
  | mark :: d :: rest =>
    if (mark = Ascii.dot || mark = Ascii.comma) && Text.isDigit d then rest.dropWhile Text.isDigit
    else mark :: d :: rest
  | text => text

/-- Reads a time of day, with a fraction if there is one. -/
def time? (text : Text) : Option Text := do
  let (hour, rest) ← number? text
  guard (hour < 24)
  let rest ← Text.dropPrefix? ":" rest
  let (minute, rest) ← number? rest
  guard (minute < 60)
  let rest ← Text.dropPrefix? ":" rest
  let (second, rest) ← number? rest
  guard (second < 60)
  some (dropFraction rest)

/-- Is the text an offset from universal time? -/
def isZone : Text → Bool
  | [Ascii.upperZ] => true
  | [sign, a, b, Ascii.colon, c, d] =>
    isSign sign && [a, b, c, d].all Text.isDigit && Text.digitsValue [a, b] ≤ 24 &&
      Text.digitsValue [c, d] ≤ 60
  | _ => false

/-- Is the text a date, alone or with a time of day? -/
def isTimestamp (text : Text) : Bool :=
  match date? text with
  | none => false
  | some [] => true
  | some (mark :: rest) =>
    if mark = Text.byte 'T' || mark = Text.byte 't' then
      match time? rest with
      | some zone => isZone zone
      | none => false
    else mark = Ascii.space && time? (rest.dropWhile (· = Ascii.space)) = some []

/-- Is the text read as something else than a text when it stands without quotes? -/
def isAmbiguous (text : Text) : Bool :=
  reservedWords.contains text || formerWords.contains text ||
    match text with
    | [] => true
    | b :: _ =>
      if b = Ascii.dot then
        underscoresBetweenDigits text && isDecimal (text.filter (· != Ascii.underscore))
      else if isSign b || Text.isDigit b then
        let digits := text.filter (· != Ascii.underscore)
        isTimestamp text || isInteger digits || isDecimal digits || isSexagesimal text
      else false

end DependencyAudit.Yaml
