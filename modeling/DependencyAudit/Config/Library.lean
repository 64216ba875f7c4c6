import DependencyAudit.Config.Schema
import DependencyAudit.Config.Setting
import DependencyAudit.Text.Case

/-!
# What checks and reads settings files

The tool leaves it to libraries to check a settings file against a schema, to find the file and to
give each setting the value of one of several layers: an environment variable goes before the
settings file, and the file before the defaults. Here is what the tool asks them.
-/

namespace DependencyAudit

/-- The variables of an environment with their values. -/
abbrev Environment := List (Text × Text)

/-- A default for a setting of some kind. -/
structure SettingDefault where
  kind : SettingKind
  value : kind.Value

/-- The layers of the settings. -/
structure SettingLayers where
  /-- The lowest layer: the defaults, each under the dotted path of its setting. -/
  defaults : List (Text × SettingDefault)
  /-- What the names of all variables start with. -/
  variablePrefix : Text
  /-- What stands in the name of a variable for the dot of a path. -/
  dotReplacement : Text
  environment : Environment
  /-- The text of the settings file, if there is one. -/
  file : Option Text

namespace SettingLayers

/-- The name of the variable for a path of keys. -/
def variableName (l : SettingLayers) (keys : List Text) : Text :=
  Text.upperAscii (Text.concat [l.variablePrefix, "_", Text.join l.dotReplacement keys])

/-- The value of the variable for a path of keys. A variable that is empty counts as not set. -/
def variableValue? (l : SettingLayers) (keys : List Text) : Option Text :=
  (l.environment.lookup (l.variableName keys)).filter (!·.isEmpty)

end SettingLayers

/-- The libraries that check and read settings files. -/
structure SettingsLibrary where
  /-- The violations of a schema by the first value of a JSON text; none if it has no value. -/
  violations? : List (Text × PartSchema) → Text → Option (List SchemaViolation)
  /-- The file of settings with the given name, without regard to its extension, that is found for
  a directory. -/
  find? : FileSystem → Environment → (directory name : Text) → Option Text
  /-- Can the text of a settings file be read? -/
  isReadable : Text → Bool
  /-- The value of the setting at a path, decoded to its kind; none if it cannot be decoded. -/
  value? : SettingLayers → SettingPath → (kind : SettingKind) → Option kind.Value

end DependencyAudit
