import DependencyAudit.Analysis.Report
import DependencyAudit.Import.Declaration

/-!
# Import and require programs

The programs whose declarations can be read off without parsing: lists of statements of the
forms

* `import CLAUSE from 'SPECIFIER';`
* `const TARGET = require('SPECIFIER');`, also with `let` and `var`,
* `require('SPECIFIER');` and `import('SPECIFIER');`

with any white space between their tokens, and with comments in the clause. A program is its
syntax together with its layout, so that every such text is the text of one, and each part
carries the conditions that make it one: names have name characters only, a comment ends where
it should, a specifier lies between its quotes.

## Main definitions

* `Clause`, `Target`, `Form` and `Statement`: the syntax;
* `Program.text`: the text of a program;
* `Program.bindings`: the packages that a program declares, with the names that it binds;
* `Statement.isReadable`: what is asked of a statement so that matching finds what it says.
-/

namespace DependencyAudit.Import

/-- Whether all bytes of a text satisfy a condition is decided along the text. There are finitely
many bytes, but it is not decided by trying all of them. -/
scoped instance (priority := high) decidableForallMem (p : UInt8 → Prop) [DecidablePred p]
    (text : Text) : Decidable (∀ b ∈ text, p b) :=
  List.decidableBAll p text

/-! ## Layout -/

/-- A run of white space. -/
structure Blanks where
  text : Text
  /-- Blanks are white space in ASCII. -/
  blank : ∀ b ∈ text, isBlank b = true

/-- No white space. -/
def noBlanks : Blanks := ⟨[], by decide⟩

/-- A run of white space that separates two words. -/
structure Space extends Blanks where
  /-- There is a blank at least. -/
  ne_nil : text ≠ []

/-- A comment without quote characters. -/
inductive Comment
  /-- `// BODY`, up to the end of the line. -/
  | line (body : Text) (unquoted : ∀ b ∈ body, isQuote b = false) (oneLine : Ascii.newline ∉ body)
  /-- `/* BODY */`. -/
  | block (body : Text) (unquoted : ∀ b ∈ body, isQuote b = false)
    (unclosed : Text.containsText "*/" body = false)

/-- The text of a comment. -/
def Comment.text : Comment → Text
  | line body _ _ => Text.ofString "//" ++ (body ++ [Ascii.newline])
  | block body _ _ => Text.ofString "/*" ++ (body ++ Text.ofString "*/")

/-- A clause is written in bytes and comments. -/
inductive Piece
  | byte (b : UInt8)
  | comment (c : Comment)

/-- The text of a piece. -/
def Piece.text : Piece → Text
  | byte b => [b]
  | comment c => c.text

/-- The text of several pieces. -/
def Piece.texts (pieces : List Piece) : Text :=
  pieces.flatMap Piece.text

/-- White space or a comment. -/
def Piece.isFiller : Piece → Bool
  | byte b => isBlank b
  | comment _ => true

/-- White space and comments. -/
structure Gap where
  pieces : List Piece
  /-- The pieces are blanks and comments. -/
  filler : ∀ p ∈ pieces, p.isFiller = true

/-- White space and comments that separate two words. -/
structure WideGap extends Gap where
  /-- There is a blank or a comment at least. -/
  ne_nil : pieces ≠ []

/-- Elements that are separated by commas; a comma may also follow the last of them. -/
structure Listing (α : Type) where
  /-- The elements with a comma behind them. -/
  items : List α
  /-- The element without one. -/
  last : Option α

namespace Listing

variable {α β : Type}

/-- The elements in order. -/
def toList (l : Listing α) : List α :=
  l.items ++ l.last.toList

/-- The elements as they are written, with the commas. -/
def write (comma : β) (f : α → List β) (l : Listing α) : List β :=
  l.items.flatMap (fun a => f a ++ [comma]) ++ l.last.toList.flatMap f

end Listing

/-! ## Clauses -/

/-- A name of letters, digits, underscores and dollar signs. -/
structure Name where
  text : Text
  ne_nil : text ≠ []
  nameByte : ∀ b ∈ text, isNameByte b = true

/-- The pieces of a text without comments. -/
def bytes (text : Text) : List Piece :=
  text.map Piece.byte

/-- An element in braces: `a` or `a as b`. -/
inductive Element
  | plain (name : Name)
  | renamed (name : Name) (before after : WideGap) (localName : Name)

namespace Element

def pieces : Element → List Piece
  | plain name => bytes name.text
  | renamed name before after localName =>
    bytes name.text ++ (before.pieces ++ (bytes (Text.ofString "as") ++
      (after.pieces ++ bytes localName.text)))

/-- The local name that the element binds. -/
def binds : Element → Text
  | plain name => name.text
  | renamed _ _ _ localName => localName.text

/-- An element `type as b` is taken for the name `as` with a modifier. -/
def isReadable : Element → Bool
  | plain _ => true
  | renamed name _ _ localName =>
    name.text != Text.ofString "type" || localName.text == Text.ofString "as"

end Element

/-- An element with the layout around it. -/
structure Slot where
  before : Gap
  element : Element
  after : Gap

def Slot.pieces (s : Slot) : List Piece :=
  s.before.pieces ++ (s.element.pieces ++ s.after.pieces)

/-- `{ a, b as c }` or `* as ns`. -/
inductive Group
  | braces (elements : Listing Slot) (inner : Gap)
  | star (before after : WideGap) (name : Name)

namespace Group

def pieces : Group → List Piece
  | braces elements inner =>
    Piece.byte Ascii.openBrace :: (elements.write (Piece.byte Ascii.comma) Slot.pieces ++
      (inner.pieces ++ [Piece.byte Ascii.closeBrace]))
  | star before after name =>
    Piece.byte Ascii.star :: (before.pieces ++ (bytes (Text.ofString "as") ++
      (after.pieces ++ bytes name.text)))

/-- The local names that the group binds. -/
def names : Group → List Text
  | braces elements _ => elements.toList.map (·.element.binds)
  | star _ _ name => [name.text]

/-- Every element in braces is read as it is meant. -/
def isReadable : Group → Bool
  | braces elements _ => elements.toList.all (·.element.isReadable)
  | star _ _ _ => true

end Group

/-- What stands between `import` and `from`: a default name, a group, or both. -/
inductive Clause
  | default (name : Name)
  | group (group : Group)
  | both (name : Name) (before after : Gap) (group : Group)

namespace Clause

def pieces : Clause → List Piece
  | default name => bytes name.text
  | group g => g.pieces
  | both name before after g =>
    bytes name.text ++ (before.pieces ++ (Piece.byte Ascii.comma :: (after.pieces ++ g.pieces)))

/-- The local names that the clause binds. -/
def names : Clause → List Text
  | default name => [name.text]
  | group g => g.names
  | both name _ _ g => name.text :: g.names

/-- Every element in braces is read as it is meant. -/
def isReadable : Clause → Bool
  | default _ => true
  | group g => g.isReadable
  | both _ _ _ g => g.isReadable

end Clause

/-! ## Targets -/

/-- A colon or an equals sign with a name behind it. -/
structure Attached where
  before : Blanks
  after : Blanks
  name : Name

def Attached.text (sign : UInt8) (a : Attached) : Text :=
  a.before.text ++ (sign :: (a.after.text ++ a.name.text))

/-- An element of an object pattern: `a`, `a: b`, `a = 1`, `a: b = 1` or `...rest`. -/
inductive Binder
  | field (key : Name) (newName value : Option Attached)
  | rest (before : Blanks) (name : Name)

namespace Binder

def text : Binder → Text
  | field key newName value =>
    key.text ++ (newName.toList.flatMap (Attached.text Ascii.colon) ++
      value.toList.flatMap (Attached.text Ascii.equals))
  | rest before name => Text.ofString "..." ++ (before.text ++ name.text)

/-- The name that the element binds. -/
def binds : Binder → Text
  | field key none _ => key.text
  | field _ (some newName) _ => newName.name.text
  | rest _ name => name.text

end Binder

/-- An element of a pattern with the white space around it. -/
structure BinderSlot where
  before : Blanks
  binder : Binder
  after : Blanks

def BinderSlot.text (s : BinderSlot) : Text :=
  s.before.text ++ (s.binder.text ++ s.after.text)

/-- What a required module is assigned to: a name or an object pattern. -/
inductive Target
  | name (name : Name)
  | pattern (elements : Listing BinderSlot) (inner : Blanks)

namespace Target

def text : Target → Text
  | name n => n.text
  | pattern elements inner =>
    Ascii.openBrace :: (elements.write Ascii.comma BinderSlot.text ++
      (inner.text ++ [Ascii.closeBrace]))

/-- The names that the target binds. -/
def names : Target → List Text
  | name n => [n.text]
  | pattern elements _ => elements.toList.map (·.binder.binds)

end Target

/-! ## Statements -/

/-- A quoted specifier. -/
structure Literal where
  opening : UInt8
  specifier : Text
  closing : UInt8
  /-- The specifier begins with a quote character of any kind. -/
  opening_isQuote : isQuote opening = true
  /-- It may end with one of another kind. -/
  closing_isQuote : isQuote closing = true
  /-- The specifier is not empty. -/
  ne_nil : specifier ≠ []
  /-- The specifier is on one line and has no quote characters in it. -/
  specifierByte : ∀ b ∈ specifier, isSpecifierByte b = true

/-- The white space of a call `( 'SPECIFIER' )`. -/
structure Parens where
  before : Blanks
  inner : Blanks
  after : Blanks

def Parens.opening (p : Parens) : Text :=
  p.before.text ++ (Text.byte '(' :: p.inner.text)

def Parens.closing (p : Parens) : Text :=
  p.after.text ++ [Text.byte ')']

/-- The words that may introduce an assignment. -/
def declarators : List Text :=
  ["const", "let", "var"]

/-- The words that may be called with a specifier. -/
def callees : List Text :=
  ["require", "import"]

/-- A statement apart from its specifier. -/
inductive Form
  | clause (space : Space) (before : Gap) (clause : Clause) (after : Gap) (inner : Blanks)
  | assignment (word : Text) (isDeclarator : word ∈ declarators) (space : Space) (target : Target)
    (before after : Blanks) (parens : Parens)
  | call (word : Text) (isCallee : word ∈ callees) (parens : Parens)

namespace Form

/-- The text in front of the specifier. -/
def opening : Form → Text
  | clause space before c after inner =>
    Text.ofString "import" ++ (Piece.texts (bytes space.text ++ (before.pieces ++
      (c.pieces ++ after.pieces))) ++ (Text.ofString "from" ++ inner.text))
  | assignment word _ space target before after parens =>
    word ++ (space.text ++ (target.text ++ (before.text ++ (Ascii.equals :: (after.text ++
      (Text.ofString "require" ++ parens.opening))))))
  | call word _ parens => word ++ parens.opening

/-- The text behind the specifier. -/
def closing : Form → Text
  | clause .. => []
  | assignment _ _ _ _ _ _ parens => parens.closing
  | call _ _ parens => parens.closing

/-- The names that the statement binds to a package. A call stands for the package itself. -/
def names (package : Text) : Form → List Text
  | clause _ _ c _ _ => c.names
  | assignment _ _ _ target _ _ _ => target.names ++ [package]
  | call .. => [package]

def kind : Form → DeclarationKind
  | clause .. => .staticImport
  | assignment .. => .dynamicRequire
  | call .. => .dynamicRequire

/-- Every element in braces is read as it is meant. -/
def isReadable : Form → Bool
  | clause _ _ c _ _ => c.isReadable
  | assignment .. => true
  | call .. => true

end Form

/-- A statement with the white space around it. -/
structure Statement where
  before : Blanks
  form : Form
  literal : Literal
  after : Blanks

namespace Statement

/-- The text in front of the specifier. -/
def opening (s : Statement) : Text :=
  s.before.text ++ s.form.opening

/-- The text behind the specifier, through the end of the statement. -/
def closing (s : Statement) : Text :=
  s.form.closing ++ (s.after.text ++ Text.ofString ";\n")

def text (s : Statement) : Text :=
  s.opening ++ (s.literal.opening :: (s.literal.specifier ++ (s.literal.closing :: s.closing)))

/-- The package that the statement declares, if the specifier names one. -/
def package? (s : Statement) : Option Text :=
  Specifier.packageName? s.literal.specifier

end Statement

/-- A list of statements. -/
abbrev Program := List Statement

namespace Program

def text (p : Program) : Text :=
  p.flatMap Statement.text

/-- The statements that declare a package. -/
def declaring (p : Program) (package : Text) : Program :=
  p.filter fun s => s.package? = some package

/-- The packages that a program declares, in the order of their first statement, each with the
names and the forms of its statements in the order of first sight. -/
def bindings (path : Text) (p : Program) : List Binding :=
  (firstOccurrences (p.filterMap Statement.package?)).map fun package =>
    { dependency := package
      symbols := firstOccurrences ((p.declaring package).flatMap (·.form.names package))
      path := path
      kinds := firstOccurrences ((p.declaring package).map (·.form.kind)) }

end Program

/-! ## Readable statements -/

/-- Does some rest of the text satisfy `p`? -/
def somewhere (p : Text → Bool) : Text → Bool
  | [] => p []
  | b :: rest => p (b :: rest) || somewhere p rest

/-- The words that introduce an assignment to the reader. -/
def assignmentWords : List Text :=
  ["const", "let", "var", "import"]

/-- An object pattern that is not closed again: `const {`, and no closing brace behind it. -/
def opensPattern (text : Text) : Bool :=
  assignmentWords.any fun word =>
    match Text.dropPrefix? word text with
    | some (b :: rest) =>
      isBlank b && (rest.dropWhile isBlank).head? == some Ascii.openBrace &&
        !rest.contains Ascii.closeBrace
    | _ => false

/-- A clause that runs into a comment: `import a, //` or `import /*`. -/
def opensComment (text : Text) : Bool :=
  match Text.dropPrefix? "import" text with
  | some (b :: rest) =>
    isBlank b &&
      match rest.dropWhile Outlook.isClauseByte with
      | c :: d :: _ => c == Ascii.slash && (d == Ascii.slash || d == Ascii.star)
      | _ => false
  | _ => false

/-- The statement holds nothing that the reader takes for the beginning of another one: no
comment or specifier leaves an object pattern open, no specifier opens a clause with a comment
in it, and no element in braces renames a name `type`. -/
def Statement.isReadable (s : Statement) : Bool :=
  s.form.isReadable && !somewhere opensPattern s.opening &&
    !somewhere opensPattern s.literal.specifier && !somewhere opensComment s.literal.specifier

end DependencyAudit.Import
