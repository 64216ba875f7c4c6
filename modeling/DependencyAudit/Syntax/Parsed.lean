import DependencyAudit.Fault
import DependencyAudit.Syntax.Grammar
import DependencyAudit.Syntax.Tree

/-!
# Parsed sources

Syntax trees come from outside. Every text has one, but a tree with an erroneous or supplied
node is refused, and the refusal names the place of the first such node.
-/

namespace DependencyAudit

/-- A text together with its faultless syntax tree. -/
structure ParsedSource where
  tree : SyntaxTree
  /-- The text that the ranges of the tree refer to. -/
  source : Text
  grammar : Grammar

/-- The fault of a text that does not parse, with the place of its first bad node. -/
def syntaxFault (source : Text) (bad : Option SyntaxNode) : Fault :=
  match bad with
  | some node =>
    let p := Position.ofOffset source node.start
    .ofCode .parse
      (Text.concat ["syntax error at ", Text.ofNat p.row, ":", Text.ofNat p.column]) none
  | none => .ofCode .parse "syntax error" none

/-- Accepts a syntax tree unless something in it is erroneous. -/
def ParsedSource.ofTree (source : Text) (options : ParseOptions) (tree : SyntaxTree) :
    Except Fault ParsedSource :=
  if tree.top.hasError then .error (syntaxFault source tree.firstFault?)
  else .ok ⟨tree, source, options.grammar⟩

/-- Where syntax trees come from: from nowhere, or from a parser that is asked for the tree of
a file. -/
inductive TreeSource
  | unavailable
  | available (treeOf : (path source : Text) → Grammar → Option SyntaxTree)

namespace TreeSource

/-- Are there syntax trees at all? -/
def isAvailable : TreeSource → Bool
  | unavailable => false
  | available _ => true

/-- Parses a file. -/
def parse (t : TreeSource) (path source : Text) (options : ParseOptions) :
    Except Fault ParsedSource :=
  match t with
  | unavailable => .error (.ofCode .parse "syntax trees require CGO (tree-sitter)" none)
  | available treeOf =>
    match treeOf path source options.grammar with
    | some tree => ParsedSource.ofTree source options tree
    | none => .error (.ofCode .parse "parse aborted" none)

end TreeSource

end DependencyAudit
