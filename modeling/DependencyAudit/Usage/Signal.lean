import DependencyAudit.Usage.References
import DependencyAudit.Config.Basic

/-!
# Usage signals

A signal is the verdict on one binding of one file: whether the file puts the package to use,
and what shows it.
-/

namespace DependencyAudit

/-- What shows that a package is used. -/
inductive Evidence
  /-- Nothing does. -/
  | absent
  /-- A bound name is referenced. -/
  | symbol
  /-- A referenced identifier starts with the package name. -/
  | nameStart
  /-- Markup calls the runtime implicitly. -/
  | markup
  deriving DecidableEq, Repr

namespace Evidence

/-- The word that stands for the evidence in reports. -/
def word : Evidence → Text
  | absent => ""
  | symbol => "symbol"
  | nameStart => "prefix"
  | markup => "markup"

end Evidence

/-- The verdict on one binding in one file. -/
structure Signal where
  dependency : Text
  path : Text
  confirmed : Bool
  evidence : Evidence
  deriving DecidableEq, Repr

/-- May the byte start an identifier? -/
def startsIdentifier (b : UInt8) : Bool :=
  Text.isLetter b || b = Ascii.underscore || b = Ascii.dollar

/-- Is the name written as an identifier? -/
def isIdentifierName (name : Text) : Bool :=
  match name with
  | [] => false
  | first :: more =>
    startsIdentifier first && more.all fun b => startsIdentifier b || Text.isDigit b

namespace UsageSettings

/-- Does markup call this package implicitly? -/
def isMarkupRuntime (s : UsageSettings) (b : Binding) : Bool :=
  (!s.markupRuntimeSymbol.isEmpty && b.hasSymbol s.markupRuntimeSymbol) ||
    (!s.markupRuntimePackage.isEmpty && b.dependency == s.markupRuntimePackage)

/-- The strongest evidence that a binding is used: a bound name first, then an identifier that
starts with the package name, then markup. -/
def evidence (s : UsageSettings) (refs : References) (markupFile : Bool) (b : Binding) :
    Evidence :=
  if b.symbols.any refs.names.contains then .symbol
  else if s.prefixMatch && isIdentifierName b.dependency &&
      refs.names.any (·.startsWith b.dependency) then .nameStart
  else if markupFile && refs.markup && s.isMarkupRuntime b then .markup
  else .absent

/-- The verdicts on the bindings of a file, in their order. -/
def signals (s : UsageSettings) (refs : References) (markupFile : Bool)
    (bindings : List Binding) : List Signal :=
  bindings.map fun b =>
    let evidence := s.evidence refs markupFile b
    ⟨b.dependency, b.path, evidence != .absent, evidence⟩

end UsageSettings

end DependencyAudit
