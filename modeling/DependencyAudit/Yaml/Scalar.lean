import DependencyAudit.Text.Base64
import DependencyAudit.Text.Utf8
import DependencyAudit.Yaml.Resolve

/-!
# YAML scalars

Writing a text as a YAML scalar: without quotes where it can be read back, as a literal block
if it has several lines, and otherwise between single or double quotes. Lines are never
folded. A text that is not UTF-8 is written as tagged binary data.
-/

namespace DependencyAudit.Yaml

/-- The ways to write a scalar. -/
inductive Style
  | plain
  | singleQuoted
  | doubleQuoted
  | literal
  deriving DecidableEq, Repr

/-- Does the character end a line? -/
def isBreak (c : Nat) : Bool :=
  c = 10 || c = 13 || c = 0x85 || c = 0x2028 || c = 0x2029

/-- Is the character white space, the end of a line or null? -/
def isBlankCode (c : Nat) : Bool :=
  c = 32 || c = 9 || isBreak c || c = 0

/-- Can the character stand for itself? -/
def isPrintableCode (c : Nat) : Bool :=
  c = 10 || (0x20 ≤ c && c ≤ 0x7E) || (0xA0 ≤ c && c ≤ 0xD7FF) ||
    (0xE000 ≤ c && c ≤ 0xFFFD && c != 0xFEFF)

/-- Does a character of one kind stand right before one of another? -/
def hasNeighbours (p q : Nat → Bool) : List Nat → Bool
  | a :: b :: rest => (p a && q b) || hasNeighbours p q (b :: rest)
  | _ => false

/-- Is there white space or nothing at the front? -/
def startsBlank : List Nat → Bool
  | [] => true
  | c :: _ => isBlankCode c

/-- Characters that mean something at the start of a scalar. -/
def leadingIndicators : List Nat :=
  "#,[]\x7b\x7d&*!|>'\"%@`".toList.map Char.toNat

/-- Is there a colon at the end of a word, or a hash sign at the start of one? `behindBlank`
tells whether the first character stands behind white space. -/
def hasInnerIndicator (behindBlank : Bool) : List Nat → Bool
  | [] => false
  | c :: rest =>
    (c = 58 && startsBlank rest) || (c = 35 && behindBlank) ||
      hasInnerIndicator (isBlankCode c) rest

/-- Would the text be taken for something else than a scalar at its start? -/
def hasLeadingIndicator : List Nat → Bool
  | [] => false
  | c :: rest =>
    leadingIndicators.contains c || ((c = 63 || c = 58 || c = 45) && startsBlank rest) ||
      [45, 45, 45].isPrefixOf (c :: rest) || [46, 46, 46].isPrefixOf (c :: rest)

/-- Does the text hold a character that has to be escaped? A tab is a case of its own. -/
def hasSpecial (codes : List Nat) : Bool :=
  codes.any fun c => c != 9 && !isPrintableCode c

/-- May the text stand without quotes? -/
def plainAllowed (codes : List Nat) : Bool :=
  !(hasLeadingIndicator codes || hasInnerIndicator true codes || codes.any isBreak ||
    codes.contains 9 || hasSpecial codes || codes.head? = some 32 || codes.getLast? = some 32)

/-- May the text stand between single quotes? -/
def singleAllowed (codes : List Nat) : Bool :=
  !(hasNeighbours isBreak (· = 32) codes || hasNeighbours (· = 32) isBreak codes ||
    codes.contains 9 || hasSpecial codes)

/-- May the text be a literal block? -/
def literalAllowed (codes : List Nat) : Bool :=
  !(codes.getLast? = some 32 || hasNeighbours (· = 32) isBreak codes || hasSpecial codes)

/-- The style of a text. -/
def styleOf (ambiguous : Bool) (codes : List Nat) : Style :=
  if codes.contains 10 then if literalAllowed codes then .literal else .doubleQuoted
  else if ambiguous then .doubleQuoted
  else if plainAllowed codes then .plain
  else if singleAllowed codes then .singleQuoted
  else .doubleQuoted

/-- Some spaces. -/
def spaces (n : Nat) : Text := List.replicate n Ascii.space

/-- The inside of single quotes. Behind a line end the text goes on at the indentation. -/
def singleBody (indent : Nat) (behindBreak : Bool) : List Nat → Text
  | [] => []
  | c :: rest =>
    if isBreak c then Utf8.encode c ++ singleBody indent true rest
    else if c = 32 then Ascii.space :: singleBody indent behindBreak rest
    else
      (if behindBreak then spaces indent else []) ++
        (if c = 39 then [Ascii.apostrophe, Ascii.apostrophe] else Utf8.encode c) ++
        singleBody indent false rest

/-- The escape of a character between double quotes. -/
def escape (c : Nat) : Text :=
  match ([(0, "0"), (7, "a"), (8, "b"), (9, "t"), (10, "n"), (11, "v"), (12, "f"), (13, "r"),
      (27, "e"), (34, "\""), (92, "\\"), (0x85, "N"), (0xA0, "_"), (0x2028, "L"),
      (0x2029, "P")] : List (Nat × Text)).lookup c with
  | some short => Ascii.backslash :: short
  | none =>
    let hex (width : Nat) : Text := (Text.hex width c).map Text.upperByte
    if c ≤ 0xFF then Text.ofString "\\x" ++ hex 2
    else if c ≤ 0xFFFF then Text.ofString "\\u" ++ hex 4
    else Text.ofString "\\U" ++ hex 8

/-- The inside of double quotes. -/
def doubleBody (codes : List Nat) : Text :=
  codes.flatMap fun c =>
    if !isPrintableCode c || isBreak c || c = 34 || c = 92 then escape c else Utf8.encode c

/-- What stands behind the mark of a literal block: the indentation if the text does not show
it, and what becomes of the line ends at its end. -/
def literalHints (codes : List Nat) : Text :=
  let indent : Text := if codes.head?.any fun c => c = 32 || isBreak c then "4" else ""
  let chomp : Text := match codes.reverse with
    | last :: before =>
      if !isBreak last then "-"
      else match before with
        | [] => "+"
        | c :: _ => if isBreak c then "+" else ""
    | [] => "-"
  indent ++ chomp

/-- The lines of a literal block. A line end at the start takes the place of the one behind the
mark. -/
def literalBody (indent : Nat) (behindBreak atStart : Bool) : List Nat → Text
  | [] => []
  | c :: rest =>
    if isBreak c then Utf8.encode c ++ literalBody indent true false rest
    else
      (if behindBreak then (if atStart then [Ascii.newline] else []) ++ spaces indent else []) ++
        Utf8.encode c ++ literalBody indent false false rest

/-- Writes characters in a style. -/
def write (indent : Nat) (codes : List Nat) : Style → Text
  | .plain => codes.flatMap Utf8.encode
  | .singleQuoted => Ascii.apostrophe :: (singleBody indent false codes ++ [Ascii.apostrophe])
  | .doubleQuoted => Ascii.quote :: (doubleBody codes ++ [Ascii.quote])
  | .literal => Ascii.bar :: (literalHints codes ++ literalBody indent true true codes)

/-- Cuts a text into lines of 70 bytes, each with its line end. -/
def cutLines : (fuel : Nat) → Text → Text
  | 0, _ => []
  | _, [] => []
  | fuel + 1, text => text.take 70 ++ Ascii.newline :: cutLines fuel (text.drop 70)

/-- Base64 for a document, in lines if it is long. -/
def binaryText (text : Text) : Text :=
  let encoded := Base64.encode text
  if encoded.length < 70 then encoded else cutLines encoded.length encoded

/-- The characters of a text that is UTF-8. -/
def codesOf (text : Text) : List Nat :=
  (Utf8.glyphs text).map fun g => g.code?.getD Utf8.replacement

/-- A text as a scalar whose further lines are indented. -/
def scalar (indent : Nat) (text : Text) : Text :=
  if Utf8.isValid text then
    let codes := codesOf text
    write indent codes (styleOf (isAmbiguous text) codes)
  else
    let codes := codesOf (binaryText text)
    Text.ofString "!!binary " ++ write indent codes (styleOf false codes)

end DependencyAudit.Yaml
