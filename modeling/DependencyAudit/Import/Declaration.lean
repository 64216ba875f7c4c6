import DependencyAudit.Binding
import DependencyAudit.Specifier
import DependencyAudit.Import.Clause
import DependencyAudit.Import.Statement

/-!
# Declarations of packages in source text

A source file declares the packages that it imports or requires. `declarations` finds the
declarations by text matching alone, so it also works on files that do not parse, and
`bindings` unites them, one binding per package.
-/

namespace DependencyAudit.Import

/-- One declaration found in a text. -/
structure Declaration where
  /-- Where the declaration starts. -/
  offset : Nat
  /-- The quoted module specifier. -/
  specifier : Text
  /-- The local names that it binds. -/
  symbols : List Text
  /-- The form of the declaration. -/
  kind : DeclarationKind
  deriving DecidableEq, Repr

/-- Walks over a text and collects the places where `f` succeeds. A place inside a word is
passed over, and so is what the last success has read (`skip` bytes are left of it). The
annotations run in step with the text; `found` is in reverse order. -/
def findAll.go {ν α : Type} (f : Text → List ν → Option (α × Nat)) :
    Text → List ν → (offset : Nat) → (inWord : Bool) → (skip : Nat) → List (Nat × α) →
      List (Nat × α)
  | [], _, _, _, _, found => found.reverse
  | b :: rest, notes, offset, _, skip + 1, found =>
    go f rest notes.tail (offset + 1) (isWordByte b) skip found
  | b :: rest, notes, offset, inWord, 0, found =>
    match if inWord then none else f (b :: rest) notes with
    | some (a, size) =>
      go f rest notes.tail (offset + 1) (isWordByte b) (size - 1) ((offset, a) :: found)
    | none => go f rest notes.tail (offset + 1) (isWordByte b) 0 found

/-- The leftmost matches that do not overlap, each with its offset. -/
def findAll {ν α : Type} (f : Text → List ν → Option (α × Nat)) (text : Text)
    (notes : List ν) : List (Nat × α) :=
  findAll.go f text notes 0 false 0 []

/-- A call `KEYWORD('SPECIFIER')` at the front of the text. -/
def call? (keyword : Text) (text : Text) : Option (Text × Nat) := do
  let c ← (Cursor.start text).expect? keyword
  let (specifier, c) ← c.argument?
  some (specifier, c.passed)

/-- An assignment `const TARGET = require('SPECIFIER')` at the front of the text, with its
variants. Returns target and specifier. -/
def assignment? (text : Text) : Option ((Text × Text) × Nat) := do
  let c ← (Cursor.start text).expectAny? ["const", "let", "var", "import"]
  let c ← c.someBlanks?
  let (target, c) ← c.target?
  let c ← c.blanks.expect? "="
  let c := c.blanks
  let c := ((c.expect? "await").bind Cursor.someBlanks?).getD c
  let c ← c.expectAny? ["require", "import"]
  let (specifier, c) ← c.argument?
  some ((target, specifier), c.passed)

/-- The package name stands in for the names that a bare call does not bind. -/
def implicitSymbols (specifier : Text) : List Text :=
  (Specifier.packageName? specifier).toList

/-- The `import … from` statements of a text. -/
def staticImports (text : Text) : List Declaration :=
  (findAll importStatement? text (spacedReadings text)).map fun (offset, clause, specifier) =>
    ⟨offset, specifier, clauseNames clause, .staticImport⟩

/-- The calls of a keyword with a literal specifier. -/
def calls (keyword : Text) (text : Text) : List Declaration :=
  (findAll (fun t (_ : List Unit) => call? keyword t) text []).map fun (offset, specifier) =>
    ⟨offset, specifier, implicitSymbols specifier, .dynamicRequire⟩

/-- The assignments of a literal `require` or `import` call. -/
def assignments (text : Text) : List Declaration :=
  (findAll (fun t (_ : List Unit) => assignment? t) text []).map
    fun (offset, target, specifier) =>
      ⟨offset, specifier, patternNames target, .dynamicRequire⟩

/-- All declarations in the order of their places. Of two at one place, an import statement
comes before a call and a call before an assignment. -/
def declarations (text : Text) : List Declaration :=
  (staticImports text ++ calls "require" text ++ calls "import" text ++
    assignments text).mergeSort fun a b => a.offset ≤ b.offset

/-- Adds a declaration of the package `name` to the bindings of a file. -/
def addDeclaration (path name : Text) (d : Declaration) : List Binding → List Binding
  | [] => [d.symbols.foldl Binding.addSymbol (Binding.addKind ⟨name, [], path, []⟩ d.kind)]
  | b :: more =>
    if b.dependency = name then d.symbols.foldl Binding.addSymbol (b.addKind d.kind) :: more
    else b :: addDeclaration path name d more

/-- The packages that a file declares, in the order of their first declaration. -/
def bindings (path text : Text) : List Binding :=
  (declarations text).foldl
    (fun found d =>
      match Specifier.packageName? d.specifier with
      | some name => addDeclaration path name d found
      | none => found)
    []

end DependencyAudit.Import
