import DependencyAudit.Text.Ascii

/-!
# Byte texts

Source files, manifests and messages are byte sequences: a file need not be valid UTF-8, and
what is read is written back byte for byte. This module fixes the type `Text` and the few
operations on it that the rest of the library is written with: literals, splitting, cutting,
joining and replacing.
-/

namespace DependencyAudit

/-- A text is its sequence of bytes. -/
abbrev Text := List UInt8

namespace Text

/-- The UTF-8 bytes of a string literal. -/
def ofString (s : String) : Text :=
  s.toList.flatMap String.utf8EncodeChar

instance : Coe String Text where
  coe := ofString

/-- The byte of an ASCII character. -/
abbrev byte (c : Char) : UInt8 := c.toUInt8

/-- The decimal digits of a natural number. -/
def ofNat (n : Nat) : Text :=
  (Nat.toDigits 10 n).map byte

/-- The decimal digits of an integer, with a leading minus sign below zero. -/
def ofInt : Int → Text
  | .ofNat n => ofNat n
  | .negSucc n => byte '-' :: ofNat (n + 1)

/-- A digit of value below sixteen, in lower case. -/
def hexDigit (n : Nat) : UInt8 :=
  if n < 10 then (48 + n).toUInt8 else (87 + n).toUInt8

/-- The last `width` hexadecimal digits of a number, in lower case. -/
def hex : Nat → Nat → Text
  | 0, _ => []
  | width + 1, n => hex width (n / 16) ++ [hexDigit (n % 16)]

@[simp]
theorem length_hex (width n : Nat) : (hex width n).length = width := by
  induction width generalizing n with
  | zero => rfl
  | succ width ih => simp [hex, ih]

/-- Drops `head` from the front of a text, if it stands there. -/
def dropPrefix? : (head text : Text) → Option Text
  | [], text => some text
  | _ :: _, [] => none
  | a :: head, b :: text => if a = b then dropPrefix? head text else none

theorem dropPrefix?_eq_some_iff {head text rest : Text} :
    dropPrefix? head text = some rest ↔ text = head ++ rest := by
  induction head generalizing text with
  | nil => simp [dropPrefix?]
  | cons a head ih =>
    cases text with
    | nil => simp [dropPrefix?]
    | cons b text =>
      by_cases h : a = b
      · simp [dropPrefix?, h, ih]
      · simp [dropPrefix?, h, Ne.symm h]

/-- Does a text begin with `head`? -/
def startsWith (text head : Text) : Bool :=
  head.isPrefixOf text

/-- Does a text end with `tail`? -/
def endsWith (text tail : Text) : Bool :=
  tail.isSuffixOf text

/-- Does `part` occur somewhere in a text? -/
def containsText (part : Text) : Text → Bool
  | [] => part.isEmpty
  | b :: rest => part.isPrefixOf (b :: rest) || containsText part rest

/-- Splits a text at every occurrence of a separator byte. There is always one piece more
than there are separators. -/
def splitOnByte (sep : UInt8) (text : Text) : List Text :=
  text.foldr
    (fun b pieces =>
      if b = sep then [] :: pieces
      else match pieces with
        | [] => [[b]]
        | piece :: more => (b :: piece) :: more)
    [[]]

/-- The part before the first separator byte, and the part after it if there is one. -/
def cutAtByte (sep : UInt8) (text : Text) : Text × Option Text :=
  match text.dropWhile (· != sep) with
  | [] => (text, none)
  | _ :: after => (text.takeWhile (· != sep), some after)

/-- Concatenates texts with a separator between neighbours. -/
def join (sep : Text) : List Text → Text
  | [] => []
  | [piece] => piece
  | piece :: more => piece ++ sep ++ join sep more

/-- Concatenates the parts of a message. -/
def concat (parts : List Text) : Text :=
  parts.flatten

/-- Splits off the final segment after the last separator byte: what precedes the separator
(or `none` if there is no separator) and what follows it. -/
def cutAtLastByte (sep : UInt8) (text : Text) : Option Text × Text :=
  match cutAtByte sep text.reverse with
  | (last, none) => (none, last.reverse)
  | (last, some before) => (some before.reverse, last.reverse)

/-- Replaces every byte `a` by `b`. -/
def replaceByte (a b : UInt8) (text : Text) : Text :=
  text.map fun c => if c = a then b else c

/-- Removes the trailing bytes that satisfy `p`. -/
def dropRightWhile (p : UInt8 → Bool) (text : Text) : Text :=
  (text.reverse.dropWhile p).reverse

/-- Removes the leading and trailing bytes that satisfy `p`. -/
def stripWhile (p : UInt8 → Bool) (text : Text) : Text :=
  dropRightWhile p (text.dropWhile p)

/-- Replaces the occurrences of a non-empty `part`, from left to right and without overlap.
`skip` counts the bytes of a replaced occurrence that are still to be passed over. -/
def replaceAll.go (part new : Text) : (skip : Nat) → Text → Text
  | _, [] => []
  | skip + 1, _ :: rest => go part new skip rest
  | 0, b :: rest =>
    if part.isPrefixOf (b :: rest) then new ++ go part new (part.length - 1) rest
    else b :: go part new 0 rest

/-- Replaces the occurrences of `part`, from left to right and without overlap; an empty
`part` replaces nothing. -/
def replaceAll (part new text : Text) : Text :=
  if part.isEmpty then text else replaceAll.go part new 0 text

/-- Byte-wise lexicographic order, a proper beginning first. -/
def le : Text → Text → Bool
  | [], _ => true
  | _ :: _, [] => false
  | a :: s, b :: t => if a < b then true else if b < a then false else le s t

/-- Does the text hold only bytes below 128? -/
def isAscii (text : Text) : Bool :=
  text.all (· < 128)

/-- Is the byte an ASCII decimal digit? -/
def isDigit (b : UInt8) : Bool := byte '0' ≤ b && b ≤ byte '9'

/-- Is the byte an ASCII capital letter? -/
def isUpper (b : UInt8) : Bool := byte 'A' ≤ b && b ≤ byte 'Z'

/-- Is the byte an ASCII small letter? -/
def isLower (b : UInt8) : Bool := byte 'a' ≤ b && b ≤ byte 'z'

/-- Is the byte an ASCII letter? -/
def isLetter (b : UInt8) : Bool := isUpper b || isLower b

/-- The lower-case form of an ASCII letter; any other byte is kept. -/
def lowerByte (b : UInt8) : UInt8 := if isUpper b then b + 32 else b

/-- The upper-case form of an ASCII letter; any other byte is kept. -/
def upperByte (b : UInt8) : UInt8 := if isLower b then b - 32 else b

/-- The value of a hexadecimal digit of either case. -/
def hexValue? (b : UInt8) : Option Nat :=
  if isDigit b then some (b.toNat - 48)
  else if byte 'a' ≤ b && b ≤ byte 'f' then some (b.toNat - 87)
  else if byte 'A' ≤ b && b ≤ byte 'F' then some (b.toNat - 55)
  else none

/-- The number written by a run of decimal digits. -/
def digitsValue (digits : Text) : Nat :=
  digits.foldl (fun n b => 10 * n + (b.toNat - 48)) 0

end Text

end DependencyAudit
