import DependencyAudit.Config.Load
import DependencyAudit.Json.Value

/-!
# Saving settings

Settings as a JSON document, and writing them to the settings file of a project.
-/

namespace DependencyAudit

namespace JsonValue

/-- The string with the given text. -/
def ofText (t : Text) : JsonValue := string (JsonString.encode .document t)

/-- The integer of the given value. -/
def ofInt (n : Int) : JsonValue := number (Text.ofInt n)

/-- The list of the given texts; `null` where no list is set. -/
def ofTexts : Option (List Text) → JsonValue
  | none => null
  | some ts => array (ts.map ofText)

/-- The object with the given members. -/
def ofMembers (members : List (Text × JsonValue)) : JsonValue :=
  object (members.map fun (key, v) => (JsonString.encode .document key, v))

end JsonValue

namespace Config

/-- The settings as a JSON document. -/
def toJson (c : Config) : JsonValue :=
  .ofMembers
    [("version", .ofInt c.version),
     ("scan", .ofMembers
      [("extensions", .ofTexts c.scan.extensions), ("ignoreDirs", .ofTexts c.scan.ignoreDirs),
       ("maxFileSize", .ofText c.scan.maxFileSize), ("workers", .ofInt c.scan.workers),
       ("ignoreBuiltins", .bool c.scan.ignoreBuiltins)]),
     ("usage", .ofMembers
      [("prefixMatch", .bool c.usage.prefixMatch),
       ("markupExtensions", .ofTexts c.usage.markupExtensions),
       ("markupRuntimeSymbol", .ofText c.usage.markupRuntimeSymbol),
       ("markupRuntimePackage", .ofText c.usage.markupRuntimePackage)]),
     ("manifest", .ofMembers
      [("path", .ofText c.manifest.path), ("packageManager", .ofText c.manifest.packageManager),
       ("keepFile", .ofText c.manifest.keepFile)]),
     ("logging", .ofMembers
      [("format", .ofText c.logging.format), ("level", .ofText c.logging.level)])]

/-- The text of the settings file. -/
def document (c : Config) : Text :=
  c.toJson.layout "  " 0

/-- Writes the settings file of a project. -/
def save (c : Config) (fs : FileSystem) (root : Text) : Except Fault FileSystem :=
  match fs.makeDirectory (directory root) with
  | .error e => .error (.system e)
  | .ok fs =>
    match fs.replaceContent (file root) c.document with
    | .error e => .error (.system e)
    | .ok fs => .ok fs

end Config

end DependencyAudit
