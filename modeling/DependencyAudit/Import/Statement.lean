import DependencyAudit.Import.Cursor

/-!
# Import statements

The statement `import CLAUSE from 'SPECIFIER'` is recognised in plain text, without parsing.
The clause is a run of names, braces, commas, stars, white space and comments; the shortest
clause that is followed by `from` and a specifier counts, and a block comment may be stretched
past its first `*/` when nothing else fits.

Whether a clause fits at some place depends only on the text behind that place, so one pass
from right to left (`Outlook.extend`) records for every place what can be read there. This
keeps the search linear although it is defined by trying alternatives.
-/

namespace DependencyAudit.Import

/-- A successful reading: the clause, the specifier and the number of bytes read. -/
structure Reading where
  clause : Text
  specifier : Text
  size : Nat
  deriving DecidableEq, Repr

namespace Reading

/-- The reading that starts `head` earlier, where `head` belongs to the clause. -/
def grow (head : Text) (r : Reading) : Reading :=
  { r with clause := head ++ r.clause, size := head.length + r.size }

/-- The reading that starts `n` bytes earlier, where those bytes do not belong to the
clause. -/
def shift (n : Nat) (r : Reading) : Reading :=
  { r with size := n + r.size }

end Reading

/-- What can be read from one place of the text on. -/
structure Outlook where
  /-- The text from this place on. -/
  ahead : Text
  /-- White space, `from` and a specifier. -/
  source : Option Reading
  /-- One clause item, then as few further items as possible, then `source`. -/
  items : Option Reading
  /-- As few clause items as possible, then `source`. -/
  clause : Option Reading
  /-- The rest of a line comment, then `clause`. -/
  inLine : Option Reading
  /-- The rest of a block comment, then `clause`. -/
  inBlock : Option Reading
  /-- At least one white-space character, then `items`. -/
  spaced : Option Reading

namespace Outlook

/-- Nothing can be read at the end of the text. -/
def atEnd : Outlook := ⟨[], none, none, none, none, none, none⟩

/-- A character that may stand in a clause outside comments. -/
def isClauseByte (b : UInt8) : Bool :=
  isNameByte b || b = Ascii.star || b = Ascii.openBrace || b = Ascii.closeBrace ||
    b = Ascii.comma || isBlank b

/-- The keyword `from` and a specifier, read at a place that is not white space. -/
def fromSource? (text : Text) : Option Reading := do
  let c ← (Cursor.start text).expect? "from"
  let (specifier, c) ← c.blanks.quoted?
  some ⟨[], specifier, c.passed⟩

/-- The outlook one byte further to the left, from the outlooks at the next place and at the
place after it. -/
def extend (b : UInt8) (next after : Outlook) : Outlook :=
  let ahead := b :: next.ahead
  let follower := next.ahead.head?
  let source :=
    if isBlank b then next.source.map (Reading.shift 1) else fromSource? ahead
  let items :=
    if isClauseByte b then next.clause.map (Reading.grow [b])
    else if b = Ascii.slash && follower = some Ascii.slash then
      after.inLine.map (Reading.grow "//")
    else if b = Ascii.slash && follower = some Ascii.star then
      after.inBlock.map (Reading.grow "/*")
    else none
  let clause := source <|> items
  let inLine :=
    (if b = Ascii.newline then next.clause else next.inLine).map (Reading.grow [b])
  let inBlock :=
    (if b = Ascii.star && follower = some Ascii.slash then
        after.clause.map (Reading.grow "*/")
      else none)
      <|> next.inBlock.map (Reading.grow [b])
  let spaced :=
    if isBlank b then
      if follower.any isBlank then
        next.spaced.map (Reading.shift 1)
          -- the clause may also be the last of several white-space characters
          <|> next.source.map fun r => ⟨[Ascii.space], r.specifier, r.size + 1⟩
      else next.items.map (Reading.shift 1)
    else none
  ⟨ahead, source, items, clause, inLine, inBlock, spaced⟩

end Outlook

/-- For every place of the text, what can be read there after white space. -/
def spacedReadings (text : Text) : List (Option Reading) :=
  (text.foldr
    (fun b (next, after, readings) =>
      let here := Outlook.extend b next after
      (here, next, here.spaced :: readings))
    ((Outlook.atEnd, Outlook.atEnd, []) : Outlook × Outlook × List (Option Reading))).2.2

/-- An import statement at the front of the text, where `readings` are the spaced readings of
this text. Returns its clause and specifier and its length. -/
def importStatement? (text : Text) (readings : List (Option Reading)) :
    Option ((Text × Text) × Nat) :=
  if text.startsWith "import" then
    match (readings.drop 6).head? with
    | some (some r) => some ((r.clause, r.specifier), r.size + 6)
    | _ => none
  else none

end DependencyAudit.Import
