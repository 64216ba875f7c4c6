import DependencyAudit.Text.Width

/-!
# Tables

Text tables without lines: a header in capitals, each cell padded to the width of its column
and with one space on both sides. The lines of a cell stand on successive rows.
-/

namespace DependencyAudit.Table

/-- Are we inside of an escape sequence of a terminal? -/
inductive EscapeState
  | outside
  /-- Behind the escape character. -/
  | opened
  /-- In a sequence that ends with `m`. -/
  | attributes
  /-- In a sequence that ends with a backslash. -/
  | command
  deriving DecidableEq, Repr

namespace EscapeState

/-- The state behind a character. -/
def next : EscapeState → Nat → EscapeState
  | outside, c => if c = 27 then opened else outside
  | opened, c => if c = 91 then attributes else if c = 93 then command else opened
  | attributes, c => if c = 109 then outside else attributes
  | command, c => if c = 92 then outside else command

end EscapeState

/-- The columns that glyphs take; escape sequences take none. -/
def glyphsWidth (state : EscapeState) : List Glyph → Nat
  | [] => 0
  | g :: rest =>
    let after := state.next (g.code?.getD Utf8.replacement)
    (if state = .outside && after = .outside then g.columns else 0) + glyphsWidth after rest

/-- The columns that a line takes. -/
def lineWidth (line : Text) : Nat :=
  glyphsWidth .outside (Utf8.glyphs line)

/-- Writes glyphs over the start of a line. -/
def overwrite : (old new : List Glyph) → List Glyph
  | old, [] => old
  | [], new => new
  | _ :: old, g :: new => g :: overwrite old new

/-- What a line shows where each carriage return goes back to its start. -/
def carriage (line : Text) : Text :=
  if line.contains Ascii.carriageReturn then
    let parts := (line.splitOnByte Ascii.carriageReturn).map Utf8.glyphs
    (parts.foldl overwrite []).flatMap fun g =>
      if g.code?.isSome then g.bytes else Utf8.encode Utf8.replacement
  else line

/-- The lines of a cell. A tab is shown as four spaces. -/
def cellLines (cell : Text) : List Text :=
  let untabbed := Text.replaceAll "\t" "    " cell
  ((Text.replaceAll "\r\n" "\n" untabbed).splitOnByte Ascii.newline).map carriage

/-- The width of a column of cells. -/
def columnWidth (cells : List (List Text)) : Nat :=
  (cells.flatten.map lineWidth).foldl max 0

/-- A line of a cell, padded to the width of its column and with a space on both sides. -/
def pad (width : Nat) (line : Text) : Text :=
  let trimmed := line.dropRightWhile (· = Ascii.space)
  Text.concat [" ", trimmed, List.replicate (width - lineWidth trimmed) Ascii.space, " "]

/-- The rows of text of one row of two cells. -/
def rowLines (left right : Nat) (row : List Text × List Text) : List Text :=
  (List.range (max row.1.length row.2.length)).map fun i =>
    pad left (row.1.getD i []) ++ pad right (row.2.getD i [])

/-- A table of two columns. -/
def render (header : Text × Text) (rows : List (Text × Text)) : Text :=
  let capitals (t : Text) := (cellLines t).map (·.map Text.upperByte)
  let cells := (capitals header.1, capitals header.2) ::
    rows.map fun (a, b) => (cellLines a, cellLines b)
  let left := columnWidth (cells.map (·.1))
  let right := columnWidth (cells.map (·.2))
  Text.join "\n" (cells.flatMap (rowLines left right))

end DependencyAudit.Table
