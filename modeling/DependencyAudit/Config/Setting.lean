import DependencyAudit.Config.Basic

/-!
# The settings one by one

Each setting by its group, its key and the kind of its values. The settings as a whole are no more
than the values of all of them.
-/

namespace DependencyAudit

/-- What the values of a setting are. -/
inductive SettingKind
  | integer
  | truth
  | text
  | texts
  deriving DecidableEq, Repr

/-- The values of a kind. -/
def SettingKind.Value : SettingKind → Type
  | integer => Int
  | truth => Bool
  | text => Text
  | texts => Option (List Text)

/-- The value of a setting that nothing gives a value. -/
def SettingKind.zero : (k : SettingKind) → k.Value
  | integer => (0 : Int)
  | truth => false
  | text => ([] : Text)
  | texts => none

/-- Where a setting is found: its key, and the group that holds it unless it stands outside of all
groups. -/
structure SettingPath where
  /-- `none` if the setting stands outside of all groups. -/
  group : Option Text
  key : Text
  deriving DecidableEq, Repr

namespace SettingPath

/-- The keys that lead to the setting. -/
def keys (p : SettingPath) : List Text :=
  p.group.toList ++ [p.key]

/-- The path as one text, with a dot between the group and the key. -/
def dotted (p : SettingPath) : Text :=
  Text.join "." p.keys

end SettingPath

/-- The settings. -/
inductive Setting
  | version
  | extensions
  | ignoreDirs
  | maxFileSize
  | workers
  | ignoreBuiltins
  | prefixMatch
  | markupExtensions
  | markupRuntimeSymbol
  | markupRuntimePackage
  | manifestPath
  | packageManager
  | keepFile
  | logFormat
  | logLevel
  deriving DecidableEq, Repr

namespace Setting

/-- The group of a setting. -/
def group : Setting → Option Text
  | version => none
  | extensions | ignoreDirs | maxFileSize | workers | ignoreBuiltins => some "scan"
  | prefixMatch | markupExtensions | markupRuntimeSymbol | markupRuntimePackage => some "usage"
  | manifestPath | packageManager | keepFile => some "manifest"
  | logFormat | logLevel => some "logging"

/-- The key of a setting in its group. -/
def key : Setting → Text
  | version => "version"
  | extensions => "extensions"
  | ignoreDirs => "ignoreDirs"
  | maxFileSize => "maxFileSize"
  | workers => "workers"
  | ignoreBuiltins => "ignoreBuiltins"
  | prefixMatch => "prefixMatch"
  | markupExtensions => "markupExtensions"
  | markupRuntimeSymbol => "markupRuntimeSymbol"
  | markupRuntimePackage => "markupRuntimePackage"
  | manifestPath => "path"
  | packageManager => "packageManager"
  | keepFile => "keepFile"
  | logFormat => "format"
  | logLevel => "level"

/-- The place of a setting. -/
def path (s : Setting) : SettingPath :=
  ⟨s.group, s.key⟩

/-- The kind of the values of a setting. -/
def kind : Setting → SettingKind
  | version | workers => .integer
  | ignoreBuiltins | prefixMatch => .truth
  | extensions | ignoreDirs | markupExtensions => .texts
  | maxFileSize | markupRuntimeSymbol | markupRuntimePackage | manifestPath | packageManager
  | keepFile | logFormat | logLevel => .text

end Setting

namespace Config

/-- The value of a setting. -/
def get (c : Config) : (s : Setting) → s.kind.Value
  | .version => c.version
  | .extensions => c.scan.extensions
  | .ignoreDirs => c.scan.ignoreDirs
  | .maxFileSize => c.scan.maxFileSize
  | .workers => c.scan.workers
  | .ignoreBuiltins => c.scan.ignoreBuiltins
  | .prefixMatch => c.usage.prefixMatch
  | .markupExtensions => c.usage.markupExtensions
  | .markupRuntimeSymbol => c.usage.markupRuntimeSymbol
  | .markupRuntimePackage => c.usage.markupRuntimePackage
  | .manifestPath => c.manifest.path
  | .packageManager => c.manifest.packageManager
  | .keepFile => c.manifest.keepFile
  | .logFormat => c.logging.format
  | .logLevel => c.logging.level

/-- The settings with the given values. -/
def ofValues (value : (s : Setting) → s.kind.Value) : Config where
  version := value .version
  scan :=
    { extensions := value .extensions
      ignoreDirs := value .ignoreDirs
      maxFileSize := value .maxFileSize
      workers := value .workers
      ignoreBuiltins := value .ignoreBuiltins }
  usage :=
    { prefixMatch := value .prefixMatch
      markupExtensions := value .markupExtensions
      markupRuntimeSymbol := value .markupRuntimeSymbol
      markupRuntimePackage := value .markupRuntimePackage }
  manifest :=
    { path := value .manifestPath
      packageManager := value .packageManager
      keepFile := value .keepFile }
  logging :=
    { format := value .logFormat
      level := value .logLevel }

@[simp]
theorem get_ofValues (value : (s : Setting) → s.kind.Value) (s : Setting) :
    (ofValues value).get s = value s := by
  cases s <;> rfl

/-- A configuration is no more than the values of its settings. -/
theorem ext_get {c d : Config} (h : ∀ s, c.get s = d.get s) : c = d :=
  show ofValues c.get = ofValues d.get from congrArg ofValues (funext h)

end Config

end DependencyAudit
