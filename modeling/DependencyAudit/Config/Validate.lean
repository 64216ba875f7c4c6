import DependencyAudit.Config.Size
import DependencyAudit.Fault
import DependencyAudit.Log.Level

/-!
# Valid settings

The rules that settings have to obey, whatever they were read from. The first rule that is
broken is reported.
-/

namespace DependencyAudit.Config

/-- The package managers that a setting may name. -/
def managerChoices : List Text := ["auto", "npm", "yarn", "pnpm"]

/-- A broken rule: the field that it is about and what is wrong with it. -/
structure Violation where
  field : Text
  text : Text
  deriving DecidableEq, Repr

/-- The first rule that the settings break. -/
def violation? (c : Config) (sizes : SizeReader) : Option Violation :=
  let extensions := c.scan.extensions.getD []
  if c.version ≠ 1 then some ⟨"version", "unsupported config version"⟩
  else if extensions.isEmpty then
    some ⟨"scan.extensions", "at least one extension is required"⟩
  else
    match (extensions ++ c.usage.markupExtensions.getD []).find? (!Text.startsWith · ".") with
    | some ext =>
      some ⟨"extensions", Text.concat ["extension ", ext, " must start with '.'"]⟩
    | none =>
      match c.scan.maxBytes sizes with
      | .error problem => some ⟨"scan.maxFileSize", problem.message⟩
      | .ok _ =>
        if c.scan.workers < 0 then some ⟨"scan.workers", "must not be negative"⟩
        else if c.usage.markupRuntimeSymbol.isEmpty then
          some ⟨"usage.markupRuntimeSymbol", "must not be empty"⟩
        else if !managerChoices.contains c.manifest.packageManager then
          some ⟨"manifest.packageManager", "must be one of auto, npm, yarn, pnpm"⟩
        else if (LogLevel.ofName? c.logging.level).isNone then
          some ⟨"logging.level", Text.concat ["unknown level ", c.logging.level]⟩
        else if c.logging.format ≠ LogFormat.human.word ∧
            c.logging.format ≠ LogFormat.json.word then
          some ⟨"logging.format", "must be human or json"⟩
        else none

/-- Accepts valid settings. -/
def validate (c : Config) (sizes : SizeReader) : Except Fault Unit :=
  match c.violation? sizes with
  | some v => .error (.setting v.field v.text)
  | none => .ok ()

end DependencyAudit.Config
