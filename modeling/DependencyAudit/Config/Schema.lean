import DependencyAudit.Fault
import DependencyAudit.Json.String

/-!
# The schema of settings files

Which parts a settings file has and what each of them may be. Unknown keys are violations, so that
a misspelt setting does not pass silently.
-/

namespace DependencyAudit

/-- What a single setting may be. -/
inductive SettingSchema
  | integer
  | nonNegative
  | text
  | bool
  | texts
  /-- One of some words. -/
  | oneOf (words : List Text)
  deriving DecidableEq, Repr

/-- A part of a settings file: one setting, or a group of them. -/
inductive PartSchema
  | setting (s : SettingSchema)
  | group (settings : List (Text × SettingSchema))
  deriving DecidableEq, Repr

/-- A violation of the schema: where it is, and what is wrong there. -/
structure SchemaViolation where
  /-- The keys and positions that lead to the value. -/
  path : List Text
  description : Text
  deriving DecidableEq, Repr

namespace SchemaViolation

/-- The place of a violation in words. -/
def place (path : List Text) : Text :=
  if path.isEmpty then "(root)" else Text.join "." path

/-- A violation in words. -/
def message (v : SchemaViolation) : Text :=
  Text.concat [place v.path, ": ", v.description]

end SchemaViolation

namespace Config

/-- The parts of a settings file. -/
def schema : List (Text × PartSchema) :=
  [("version", .setting .integer),
   ("scan", .group
    [("extensions", .texts), ("ignoreDirs", .texts), ("maxFileSize", .text),
     ("workers", .nonNegative), ("ignoreBuiltins", .bool)]),
   ("usage", .group
    [("prefixMatch", .bool), ("markupExtensions", .texts), ("markupRuntimeSymbol", .text),
     ("markupRuntimePackage", .text)]),
   ("manifest", .group
    [("path", .text), ("packageManager", .oneOf ["auto", "npm", "yarn", "pnpm"]),
     ("keepFile", .text)]),
   ("logging", .group [("format", .oneOf ["human", "json"]), ("level", .text)])]

/-- The fault of a document with violations: the only one, or all of them in byte order. -/
def schemaFault? : List SchemaViolation → Option Fault
  | [] => none
  | [v] => some (.setting (SchemaViolation.place v.path) v.message)
  | vs => some (.violations ((vs.map SchemaViolation.message).mergeSort Text.le))

end Config

end DependencyAudit
