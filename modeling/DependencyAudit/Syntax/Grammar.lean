import DependencyAudit.Text.Case

/-!
# Grammars

Which grammar a source file is parsed with, by its extension and by whether it may hold
markup.
-/

namespace DependencyAudit

/-- The grammars of source files. -/
inductive Grammar
  | javascript
  | typescript
  | tsx
  deriving DecidableEq, Repr

namespace Grammar

/-- The name of a grammar. -/
def name : Grammar → Text
  | javascript => "javascript"
  | typescript => "typescript"
  | tsx => "tsx"

/-- The grammar of a file extension, if the extension is a known one. -/
def ofExtension? (extension : Text) : Option Grammar :=
  let ext := extension.lower
  if [".js", ".jsx", ".mjs", ".cjs"].any (ext = Text.ofString ·) then some javascript
  else if [".ts", ".mts", ".cts"].any (ext = Text.ofString ·) then some typescript
  else if ext = ".tsx" then some tsx
  else none

end Grammar

/-- How a file is parsed. -/
structure ParseOptions where
  /-- Markup may occur. -/
  markup : Bool
  /-- Type annotations may occur. -/
  typed : Bool
  deriving DecidableEq, Repr

namespace ParseOptions

/-- The options for a file, by its extension and by whether it may hold markup. -/
def ofExtension (extension : Text) (markup : Bool) : ParseOptions :=
  let ext := extension.lower
  ⟨markup, [".ts", ".tsx", ".mts", ".cts"].any (ext = Text.ofString ·)⟩

/-- The grammar that the options select. Only the typed language has a separate grammar for
markup. -/
def grammar (o : ParseOptions) : Grammar :=
  if o.typed then if o.markup then .tsx else .typescript else .javascript

end ParseOptions

end DependencyAudit
