import DependencyAudit.Import.Comment
import DependencyAudit.Text.Blank

/-!
# Binding clauses and binding patterns

`clauseNames` lists the local names that the clause of an import statement binds, and
`patternNames` those of the target of an assignment.

* `React` binds `React`;
* `{ useState, useRef as r }` binds `useState` and `r`;
* `* as utils` binds `utils`;
* `Default, { type Props }` binds `Default` and `Props`.
-/

namespace DependencyAudit.Import

/-- The words of a clause element without a leading `type` modifier. A lone `type` is a
name. -/
def dropTypeModifier : List Text → List Text
  | first :: second :: more =>
    if first = Text.ofString "type" then second :: more else first :: second :: more
  | words => words

/-- The name after `as`, when at least one word precedes the `as`. -/
def aliasName? (words : List Text) : Option Text :=
  match words.reverse with
  | name :: middle :: _ :: _ => if middle = Text.ofString "as" then some name else none
  | _ => none

/-- The name bound by one element of a clause, given as its words. -/
def elementName? (words : List Text) : Option Text :=
  let words := dropTypeModifier words
  match aliasName? words with
  | some name => some name
  | none =>
    match words with
    | [] => none
    | first :: _ => if first = Text.ofString "*" then none else some first

/-- Is the byte a brace? -/
def isBrace (b : UInt8) : Bool := b = Ascii.openBrace || b = Ascii.closeBrace

/-- Writes a space for every brace. -/
def blankBraces (text : Text) : Text :=
  text.map fun b => if isBrace b then Ascii.space else b

/-- The local names that an import clause binds, in order. -/
def clauseNames (clause : Text) : List Text :=
  ((stripComments clause).splitOnByte Ascii.comma).filterMap fun element =>
    elementName? (blankBraces element).fields

/-- The name bound by one element of an object pattern: `a`, `a: b`, `a = 1`, `a: b = 1` or
`...rest`. -/
def patternElementName? (element : Text) : Option Text :=
  let element := element.trim
  let target :=
    match element.cutAtByte Ascii.colon with
    | (_, some newName) => newName
    | (_, none) => element
  let target := target.trim
  let target := (Text.dropPrefix? "..." target).getD target
  let name := (target.cutAtByte Ascii.equals).1.trim
  if name.isEmpty then none else some name

/-- The names bound by `x` or by `{ a, b: c, ...rest }`. -/
def patternNames (pattern : Text) : List Text :=
  let pattern := (stripComments pattern).trim
  if pattern.head? != some Ascii.openBrace then [pattern]
  else
    ((pattern.stripWhile isBrace).splitOnByte Ascii.comma).filterMap patternElementName?

end DependencyAudit.Import
