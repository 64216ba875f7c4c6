import DependencyAudit.Text.Basic

/-!
# Syntax trees

A syntax tree is a rose tree of nodes over a source text. A node covers the bytes from
`start` up to `stop`, and knows whether something below it did not parse.
-/

namespace DependencyAudit

/-- One node of a syntax tree, without its children. -/
structure SyntaxNode where
  /-- The grammatical category, such as `call_expression`. -/
  category : Text
  /-- Named nodes carry meaning; the others are punctuation and keywords. -/
  named : Bool
  /-- This node or one below it is erroneous. -/
  hasError : Bool
  /-- The node was not in the text and has been supplied. -/
  missing : Bool
  /-- The role that the node has for its parent, if any. -/
  role : Text
  /-- The offset of the first byte. -/
  start : Nat
  /-- The offset behind the last byte. -/
  stop : Nat
  deriving DecidableEq, Repr

/-- A node with its children from left to right. -/
inductive SyntaxTree
  | node (top : SyntaxNode) (children : List SyntaxTree)
  deriving Repr

namespace SyntaxTree

/-- The topmost node. -/
def top : SyntaxTree → SyntaxNode
  | node top _ => top

/-- The subtrees below the topmost node. -/
def children : SyntaxTree → List SyntaxTree
  | node _ children => children

/-- The subtrees below the topmost node that are named. -/
def namedChildren (t : SyntaxTree) : List SyntaxTree :=
  t.children.filter (·.top.named)

/-- The child that has the given role. -/
def childInRole? (t : SyntaxTree) (role : Text) : Option SyntaxTree :=
  t.children.find? (·.top.role = role)

/-- Is the topmost node of the given category? -/
def isA (t : SyntaxTree) (category : Text) : Bool :=
  t.top.category = category

/-- The text that a node covers. -/
def content (t : SyntaxTree) (source : Text) : Text :=
  (source.drop t.top.start).take (t.top.stop - t.top.start)

mutual

/-- The nodes of a tree, each before its children. -/
def preorder : SyntaxTree → List SyntaxNode
  | node top children => top :: preorderList children

/-- The nodes of a row of trees, from left to right. -/
def preorderList : List SyntaxTree → List SyntaxNode
  | [] => []
  | t :: more => preorder t ++ preorderList more

end

/-- Builds trees from nodes listed in pre-order with their depths. The result is the row of
trees at the front, each with its depth. -/
def forestOfPreorder (nodes : List (Nat × SyntaxNode)) : List (Nat × SyntaxTree) :=
  nodes.foldr
    (fun (depth, top) later =>
      let below := later.takeWhile (depth < ·.1)
      (depth, node top (below.map (·.2))) :: later.dropWhile (depth < ·.1))
    []

/-- The tree whose nodes, listed in pre-order with their depths, are given. -/
def ofPreorder? (nodes : List (Nat × SyntaxNode)) : Option SyntaxTree :=
  (forestOfPreorder nodes).head?.map (·.2)

/-- Is the node itself at fault? -/
def isFault (t : SyntaxTree) : Bool :=
  t.isA "ERROR" || t.top.missing

mutual

/-- The first faulty node, searched depth first. Subtrees without errors are not entered. -/
def firstFault? : SyntaxTree → Option SyntaxNode
  | node top children =>
    if isFault (node top children) then some top
    else if top.hasError then firstFaultList? children
    else none

/-- The first faulty node in a row of trees. -/
def firstFaultList? : List SyntaxTree → Option SyntaxNode
  | [] => none
  | t :: more =>
    match firstFault? t with
    | some bad => some bad
    | none => firstFaultList? more

end

end SyntaxTree

/-- A place in a text: row and column, both counted from one, the column in bytes. -/
structure Position where
  row : Nat
  column : Nat
  deriving DecidableEq, Repr

/-- The position of a byte offset. -/
def Position.ofOffset (source : Text) (offset : Nat) : Position :=
  let before := source.take offset
  ⟨before.count Ascii.newline + 1, (before.reverse.takeWhile (· != Ascii.newline)).length + 1⟩

end DependencyAudit
