import DependencyAudit.Text.Basic
import DependencyAudit.Text.Blank

/-!
# Cursors

A cursor walks over a source text and counts the bytes that it has passed. Each step either
fails or passes a definite piece of text.
-/

namespace DependencyAudit.Import

/-- The three characters that may delimit a specifier. -/
def isQuote (b : UInt8) : Bool := b = Ascii.apostrophe || b = Ascii.quote || b = Ascii.backtick

/-- Letters, digits and the underscore. -/
def isWordByte (b : UInt8) : Bool := Text.isLetter b || Text.isDigit b || b = Ascii.underscore

/-- Word characters and the dollar sign. -/
def isNameByte (b : UInt8) : Bool := isWordByte b || b = Ascii.dollar

/-- A character that may stand between the quotes of a specifier. -/
def isSpecifierByte (b : UInt8) : Bool := !isQuote b && b != Ascii.newline

/-- A place in a text: how much has been passed, and what is still ahead. -/
structure Cursor where
  passed : Nat
  ahead : Text

namespace Cursor

/-- The cursor in front of a text. -/
def start (text : Text) : Cursor := ⟨0, text⟩

/-- Passes the longest run of bytes that satisfy `p`, and returns it. -/
def run (p : UInt8 → Bool) (c : Cursor) : Text × Cursor :=
  let eaten := c.ahead.takeWhile p
  (eaten, ⟨c.passed + eaten.length, c.ahead.dropWhile p⟩)

/-- Passes white space. -/
def blanks (c : Cursor) : Cursor := (c.run isBlank).2

/-- Passes at least one white-space character. -/
def someBlanks? (c : Cursor) : Option Cursor :=
  match c.ahead with
  | b :: _ => if isBlank b then some c.blanks else none
  | [] => none

/-- Passes a fixed word. -/
def expect? (word : Text) (c : Cursor) : Option Cursor :=
  (Text.dropPrefix? word c.ahead).map (⟨c.passed + word.length, ·⟩)

/-- Passes the first of some words that stands here. -/
def expectAny? (words : List Text) (c : Cursor) : Option Cursor :=
  words.findSome? (c.expect? ·)

/-- Passes one quote character. -/
def quote? (c : Cursor) : Option Cursor :=
  match c.ahead with
  | b :: rest => if isQuote b then some ⟨c.passed + 1, rest⟩ else none
  | [] => none

/-- Passes a quoted specifier, which is not empty and lies on one line, and returns it. The
two quotes need not be alike. -/
def quoted? (c : Cursor) : Option (Text × Cursor) := do
  let c ← c.quote?
  let (specifier, c) := c.run isSpecifierByte
  if specifier.isEmpty then none
  else
    let c ← c.quote?
    some (specifier, c)

/-- Passes a parenthesised call argument that is a single quoted specifier. -/
def argument? (c : Cursor) : Option (Text × Cursor) := do
  let c ← c.blanks.expect? "("
  let (specifier, c) ← c.blanks.quoted?
  let c ← c.blanks.expect? ")"
  some (specifier, c)

/-- Passes the target of an assignment: a name, or everything between braces. -/
def target? (c : Cursor) : Option (Text × Cursor) :=
  match c.ahead with
  | [] => none
  | b :: rest =>
    if isNameByte b then some (c.run isNameByte)
    else if b = Ascii.openBrace then
      match rest.dropWhile (· != Ascii.closeBrace) with
      | [] => none
      | _ :: after =>
        let body := rest.takeWhile (· != Ascii.closeBrace)
        some (Ascii.openBrace :: (body ++ [Ascii.closeBrace]), ⟨c.passed + body.length + 2, after⟩)
    else none

end Cursor

end DependencyAudit.Import
