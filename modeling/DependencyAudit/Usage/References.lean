import DependencyAudit.Syntax.Tree
import DependencyAudit.Binding

/-!
# References

An identifier is in use where its value is: `x.member`, `x(…)`, `new X(…)` and `<X/>`.
Declarations, parameters and plain reads are no uses, and neither is the callee of a
`require` call. `References.ofTree` collects the identifiers in use, and whether any markup
occurs.
-/

namespace DependencyAudit

/-- What one walk over a syntax tree collects. -/
structure References where
  /-- The identifiers in use, in the order of first sight. -/
  names : List Text
  /-- Some element or fragment occurs. -/
  markup : Bool
  deriving DecidableEq, Repr

namespace References

/-- No references. -/
def empty : References := ⟨[], false⟩

/-- Records a name. -/
def add (r : References) (name : Text) : References :=
  if name.isEmpty then r else { r with names := insertNew r.names name }

/-- Records that markup occurs. -/
def withMarkup (r : References) : References := { r with markup := true }

end References

namespace SyntaxTree

/-- The text of a bare identifier. -/
def identifier? (source : Text) (t : SyntaxTree) : Option Text :=
  if t.isA "identifier" then some (t.content source) else none

/-- The object of a member expression. Where no child has that role, it is the first named
child. -/
def memberObject? (t : SyntaxTree) : Option SyntaxTree :=
  t.childInRole? "object" <|> t.namedChildren.head?

/-- The leftmost part of a dotted name. -/
def leftmost : SyntaxTree → SyntaxTree
  | node top children =>
    if top.category = Text.ofString "nested_identifier" then leftmostOr (node top children) children
    else node top children
where
  /-- The leftmost part of the first named child, or `whole` if there is none. -/
  leftmostOr (whole : SyntaxTree) : List SyntaxTree → SyntaxTree
    | [] => whole
    | t :: more => if t.top.named then leftmost t else leftmostOr whole more

/-- The component that an element name refers to. Names in lower case are plain elements. -/
def elementComponent? (source : Text) (t : SyntaxTree) : Option Text :=
  if t.isA "identifier" then
    let name := t.content source
    match name with
    | b :: _ => if Text.isUpper b then some name else none
    | [] => none
  else if t.isA "nested_identifier" then
    if t.namedChildren.isEmpty then none else t.leftmost.identifier? source
  else none

/-- The identifier that a single node puts to use, given the tree below the node. -/
def usedName? (source : Text) (t : SyntaxTree) : Option Text :=
  if t.isA "member_expression" then t.memberObject?.bind (identifier? source)
  else if t.isA "call_expression" then
    match (t.childInRole? "function").bind (identifier? source) with
    | some name => if name = "require" then none else some name
    | none => none
  else if t.isA "new_expression" then (t.childInRole? "constructor").bind (identifier? source)
  else if t.isA "jsx_self_closing_element" || t.isA "jsx_opening_element" then
    (t.childInRole? "name").bind (elementComponent? source)
  else none

/-- Is the topmost node an element or a fragment? -/
def isMarkup (t : SyntaxTree) : Bool :=
  t.isA "jsx_element" || t.isA "jsx_fragment" || t.isA "jsx_self_closing_element"

/-- What a single node contributes. -/
def reference (source : Text) (t : SyntaxTree) (refs : References) : References :=
  let refs := if t.isMarkup then refs.withMarkup else refs
  match t.usedName? source with
  | some name => refs.add name
  | none => refs

mutual

/-- Adds the references of a tree. Only named nodes are visited below the top. -/
def collect (source : Text) : SyntaxTree → References → References
  | node top children, refs =>
    collectList source children (reference source (node top children) refs)

/-- Adds the references of a row of trees. -/
def collectList (source : Text) : List SyntaxTree → References → References
  | [], refs => refs
  | t :: more, refs =>
    collectList source more (if t.top.named then collect source t refs else refs)

end

end SyntaxTree

/-- The references of a whole tree. -/
def References.ofTree (source : Text) (t : SyntaxTree) : References :=
  t.collect source References.empty

end DependencyAudit
