import DependencyAudit.Text.Utf8

/-!
# Strings and comments of TOML

Readers for the four kinds of strings and for comments. A reader gets the text from some place
on and returns what it has read together with the rest, or fails. Control characters other
than the tab, and bytes that are not UTF-8, are allowed nowhere.
-/

namespace DependencyAudit.Toml

/-- Space or tab. -/
def isBlank (b : UInt8) : Bool := b = Ascii.space || b = Ascii.tab

/-- A control character that may not occur. -/
def isForbidden (b : UInt8) : Bool :=
  (b < Ascii.space && b != Ascii.tab && b != Ascii.newline && b != Ascii.carriageReturn) ||
    b = Ascii.delete

/-- Reads one character that may occur in strings and comments. -/
def character? : Text → Option (Text × Text)
  | [] => none
  | b :: rest =>
    let g := Utf8.first b rest
    if g.code?.isNone || isForbidden b then none
    else some (g.bytes, rest.drop (g.bytes.length - 1))

/-- Reads characters up to the end of the line, which is left in place. -/
def comment? : (fuel : Nat) → Text → Option Text
  | 0, _ => none
  | _, [] => some []
  | fuel + 1, b :: rest =>
    if b = Ascii.newline then some (b :: rest)
    else if b = Ascii.carriageReturn then
      if rest.head? = some Ascii.newline then some (b :: rest) else none
    else (character? (b :: rest)).bind fun (_, after) => comment? fuel after

/-- The code point of a run of hexadecimal digits. -/
def codePoint? (digits : Text) : Option Nat := do
  let code ← digits.foldlM (fun n b => (Text.hexValue? b).map (16 * n + ·)) 0
  if code > 0x10FFFF || (0xD800 ≤ code && code < 0xE000) then none else some code

/-- Reads an escape behind its backslash. -/
def escape? : Text → Option (Text × Text)
  | [] => none
  | e :: rest =>
    if e = Ascii.quote || e = Ascii.backslash then some ([e], rest)
    else if e = Text.byte 'b' then some ([Ascii.backspace], rest)
    else if e = Text.byte 'e' then some ([Ascii.escape], rest)
    else if e = Text.byte 'f' then some ([Ascii.formFeed], rest)
    else if e = Text.byte 'n' then some ([Ascii.newline], rest)
    else if e = Text.byte 'r' then some ([Ascii.carriageReturn], rest)
    else if e = Text.byte 't' then some ([Ascii.tab], rest)
    else if e = Ascii.lowerU || e = Text.byte 'U' then
      let width := if e = Ascii.lowerU then 4 else 8
      let digits := rest.take width
      if digits.length < width then none
      else (codePoint? digits).map fun code => (Utf8.encode code, rest.drop width)
    else none

/-- Passes white space and line ends; a carriage return has to be followed by a newline. -/
def skipLines? : Text → Option Text
  | [] => some []
  | Ascii.carriageReturn :: Ascii.newline :: rest => skipLines? rest
  | b :: rest =>
    if b = Ascii.carriageReturn then none
    else if isBlank b || b = Ascii.newline then skipLines? rest
    else some (b :: rest)

/-- Reads a backslash at the end of a line, behind which white space and line ends are
dropped. -/
def lineEnd? (text : Text) : Option (Option Text) :=
  match text.dropWhile isBlank with
  | Ascii.newline :: rest => some (skipLines? rest)
  | Ascii.carriageReturn :: Ascii.newline :: rest => some (skipLines? rest)
  | _ => none

/-- How a string goes on and ends. -/
structure StringForm where
  /-- The quote character. -/
  quote : UInt8
  /-- Three quotes end the string, and it may hold line ends. -/
  multiline : Bool
  /-- A backslash starts an escape. -/
  escapes : Bool

/-- Reads the end of a string, if it is here: the quotes that still belong to the string, and
the rest. Up to two quotes may stand in front of the three that end a string of several
lines. -/
def StringForm.ending? (f : StringForm) (text : Text) : Option (Option (Text × Text)) :=
  if !f.multiline then
    match text with
    | b :: rest => if b = f.quote then some (some ([], rest)) else none
    | [] => none
  else
    let quotes := (text.takeWhile (· = f.quote)).length
    if quotes < 3 then none
    else if quotes > 5 then some none
    else some (some (List.replicate (quotes - 3) f.quote, text.drop quotes))

/-- Reads a string behind its opening quotes. -/
def body? (f : StringForm) : (fuel : Nat) → Text → Option (Text × Text)
  | 0, _ => none
  | fuel + 1, text =>
    match f.ending? text with
    | some result => result
    | none =>
      match text with
      | [] => none
      | b :: rest =>
        let continueWith (piece : Text × Text) : Option (Text × Text) :=
          (body? f fuel piece.2).map fun (more, after) => (piece.1 ++ more, after)
        if b = Ascii.backslash && f.escapes then
          match if f.multiline then lineEnd? rest else none with
          | some skipped => skipped.bind fun after => continueWith ([], after)
          | none => (escape? rest).bind continueWith
        else if b = Ascii.carriageReturn then
          if f.multiline && rest.head? = some Ascii.newline then
            continueWith ([Ascii.carriageReturn, Ascii.newline], rest.tail)
          else none
        else if b = Ascii.newline && !f.multiline then none
        else (character? (b :: rest)).bind continueWith

/-- Drops the newline directly behind the opening quotes of a string of several lines. -/
def dropFirstNewline : Text → Text
  | Ascii.newline :: rest => rest
  | Ascii.carriageReturn :: Ascii.newline :: rest => rest
  | text => text

/-- Reads a string on one line, quotes included. -/
def simpleString? (text : Text) : Option (Text × Text) :=
  match text with
  | Ascii.quote :: rest => body? ⟨Ascii.quote, false, true⟩ (rest.length + 1) rest
  | Ascii.apostrophe :: rest => body? ⟨Ascii.apostrophe, false, false⟩ (rest.length + 1) rest
  | _ => none

/-- Reads a string of any kind, quotes included. -/
def string? (text : Text) : Option (Text × Text) :=
  match text with
  | Ascii.quote :: Ascii.quote :: Ascii.quote :: rest =>
    body? ⟨Ascii.quote, true, true⟩ (rest.length + 1) (dropFirstNewline rest)
  | Ascii.apostrophe :: Ascii.apostrophe :: Ascii.apostrophe :: rest =>
    body? ⟨Ascii.apostrophe, true, false⟩ (rest.length + 1) (dropFirstNewline rest)
  | text => simpleString? text

end DependencyAudit.Toml
