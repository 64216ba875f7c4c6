import DependencyAudit.Binding
import DependencyAudit.Usage.Signal

/-!
# Facts of a file

What one source file contributes to an audit: the packages that it declares, the verdicts on
their use, and the problems that were met on the way.
-/

namespace DependencyAudit

/-- The kind of a problem that a single file has, by the word that stands for it in reports. -/
structure DiagnosticKind where
  word : Text
  deriving DecidableEq, Repr

namespace DiagnosticKind

/-- The file could not be read. -/
def read : DiagnosticKind := ⟨"read"⟩

/-- The file did not parse; its declarations still count. -/
def parse : DiagnosticKind := ⟨"parse"⟩

/-- The file was left out on purpose. -/
def skipped : DiagnosticKind := ⟨"skipped"⟩

/-- Any other kind, by its word. -/
def other (word : Text) : DiagnosticKind := ⟨word⟩

end DiagnosticKind

/-- A problem with one file that does not stop the audit. -/
structure Diagnostic where
  path : Text
  kind : DiagnosticKind
  message : Text
  deriving DecidableEq, Repr

/-- Everything that one file contributes. -/
structure FileFacts where
  /-- The file, relative to the project root. -/
  path : Text
  /-- The packages that the text declares; they do not depend on a successful parse. -/
  bindings : List Binding
  /-- The verdicts on the bindings; none when the file did not parse. -/
  signals : List Signal
  /-- The problems met with this file. -/
  diagnostics : List Diagnostic
  deriving DecidableEq, Repr

end DependencyAudit
