import DependencyAudit.Config.Library
import DependencyAudit.FileSystem.Basic
import DependencyAudit.Path

/-!
# Loading settings

The settings file lies in the directory `.deptrim` of a project. It is checked against the schema
first, since unknown keys would be dropped silently when it is read.
-/

namespace DependencyAudit.Config

/-- The directory of the settings of a project. -/
def directory (root : Text) : Text := Path.join root ".deptrim"

/-- The name of the settings file without its extension. -/
def fileName : Text := "config"

/-- The settings file that is checked against the schema. -/
def file (root : Text) : Text := Path.join (directory root) "config.json"

/-- The defaults by the paths of their settings. Every setting has one, so that files and variables
are laid over them and the rest is not lost. -/
def defaults (d : Config) : List (Text × SettingDefault) :=
  [("version", ⟨.integer, d.version⟩),
   ("scan.extensions", ⟨.texts, d.scan.extensions⟩),
   ("scan.ignoreDirs", ⟨.texts, d.scan.ignoreDirs⟩),
   ("scan.maxFileSize", ⟨.text, d.scan.maxFileSize⟩),
   ("scan.workers", ⟨.integer, d.scan.workers⟩),
   ("scan.ignoreBuiltins", ⟨.truth, d.scan.ignoreBuiltins⟩),
   ("usage.prefixMatch", ⟨.truth, d.usage.prefixMatch⟩),
   ("usage.markupExtensions", ⟨.texts, d.usage.markupExtensions⟩),
   ("usage.markupRuntimeSymbol", ⟨.text, d.usage.markupRuntimeSymbol⟩),
   ("usage.markupRuntimePackage", ⟨.text, d.usage.markupRuntimePackage⟩),
   ("manifest.path", ⟨.text, d.manifest.path⟩),
   ("manifest.packageManager", ⟨.text, d.manifest.packageManager⟩),
   ("manifest.keepFile", ⟨.text, d.manifest.keepFile⟩),
   ("logging.format", ⟨.text, d.logging.format⟩),
   ("logging.level", ⟨.text, d.logging.level⟩)]

/-- The layers over some defaults. -/
def layers (d : Config) (environment : Environment) (file : Option Text) : SettingLayers where
  defaults := d.defaults
  variablePrefix := "DEPTRIM"
  dotReplacement := "_"
  environment := environment
  file := file

/-- Checks the settings file at `path`; a missing file is fine. -/
def checkSchema (lib : SettingsLibrary) (fs : FileSystem) (path : Text) : Except Fault Unit :=
  match fs.content path with
  | .error e => if e.refusal = .notFound then .ok () else .error (.system e)
  | .ok text =>
    match lib.violations? schema text with
    | none => .error .unreadableSettings
    | some violations =>
      match schemaFault? violations with
      | some f => .error f
      | none => .ok ()

/-- The text of the settings file that is found for a directory. -/
def readFile (lib : SettingsLibrary) (fs : FileSystem) (environment : Environment)
    (directory : Text) : Except Fault (Option Text) :=
  match lib.find? fs environment directory fileName with
  | none => .ok none
  | some path =>
    match fs.content path with
    | .error e => .error (.system e)
    | .ok text => if lib.isReadable text then .ok (some text) else .error (.defect .settings)

/-- The value of a setting by some layers. -/
def valueOf (lib : SettingsLibrary) (l : SettingLayers) (s : Setting) :
    Except Fault s.kind.Value :=
  match lib.value? l s.path s.kind with
  | some a => .ok a
  | none => .error (.defect .setting)

/-- The settings by some layers. -/
def ofLayers (lib : SettingsLibrary) (l : SettingLayers) : Except Fault Config := do
  let version ← valueOf lib l .version
  let extensions ← valueOf lib l .extensions
  let ignoreDirs ← valueOf lib l .ignoreDirs
  let maxFileSize ← valueOf lib l .maxFileSize
  let workers ← valueOf lib l .workers
  let ignoreBuiltins ← valueOf lib l .ignoreBuiltins
  let prefixMatch ← valueOf lib l .prefixMatch
  let markupExtensions ← valueOf lib l .markupExtensions
  let markupRuntimeSymbol ← valueOf lib l .markupRuntimeSymbol
  let markupRuntimePackage ← valueOf lib l .markupRuntimePackage
  let path ← valueOf lib l .manifestPath
  let packageManager ← valueOf lib l .packageManager
  let keepFile ← valueOf lib l .keepFile
  let format ← valueOf lib l .logFormat
  let level ← valueOf lib l .logLevel
  .ok
    { version
      scan := ⟨extensions, ignoreDirs, maxFileSize, workers, ignoreBuiltins⟩
      usage := ⟨prefixMatch, markupExtensions, markupRuntimeSymbol, markupRuntimePackage⟩
      manifest := ⟨path, packageManager, keepFile⟩
      logging := ⟨format, level⟩ }

/-- Loads the settings of a project. -/
def load (lib : SettingsLibrary) (processors : Nat) (fs : FileSystem) (environment : Environment)
    (root : Text) : Except Fault Config := do
  checkSchema lib fs (file root)
  let text ← readFile lib fs environment (directory root)
  ofLayers lib ((default processors).layers environment text)

end DependencyAudit.Config
