import DependencyAudit.Analysis.Run
import DependencyAudit.CommandLine.Invocation
import DependencyAudit.Config.Load
import DependencyAudit.Config.Validate
import DependencyAudit.KeepList
import DependencyAudit.Log.File
import DependencyAudit.Manifest.File
import DependencyAudit.PackageManager

/-!
# Sessions

Everything that a command needs once its options are resolved: the project root, the settings,
where the log goes, the manifest and the keep list. An option goes before an environment
variable, a variable before the settings file, and the file before the defaults.
-/

namespace DependencyAudit

/-- Which build of the tool is running. -/
structure Build where
  version : Text
  /-- The revision that it was built from, or empty. -/
  commit : Text
  /-- Were there changes on top of the revision? -/
  dirty : Bool
  deriving DecidableEq, Repr

namespace Build

/-- The version with a short revision, where one is known. -/
def label (b : Build) : Text :=
  if b.commit.isEmpty then b.version
  else
    let dirty : Text := if b.dirty then "-dirty" else ""
    Text.concat [b.version, " (", b.commit.take 7, dirty, ")"]

end Build

/-- The world that a command runs in. -/
structure World where
  files : FileSystem
  environment : Environment
  /-- What checks and reads settings files. -/
  library : SettingsLibrary
  /-- The executables on the search path. -/
  programs : Programs
  /-- What an audit takes from its surroundings. -/
  context : AuditContext
  /-- How the readers of an audit come to their turns. -/
  schedule : Schedule
  /-- The number of processors. -/
  processors : Nat
  /-- Can the output be painted? -/
  color : Bool
  build : Build

/-- A command's surroundings before the project has been looked at. -/
structure Setup where
  /-- The absolute path of the project root. -/
  root : Text
  config : Config
  /-- The writer of the log on standard error. -/
  handler : LogHandler
  /-- The files, with the log file in place. -/
  files : FileSystem
  /-- The log file. -/
  log : LogFile

/-- A command's surroundings, once its options are resolved. -/
structure Session extends Setup where
  manifest : ManifestFile
  keep : KeepList

namespace Session

/-- Lays the options over the settings. -/
def applyOptions (c : Config) (s : Options) : Config :=
  { c with
    usage := { c.usage with prefixMatch := c.usage.prefixMatch && !s.noPrefixMatch }
    scan := { c.scan with workers := if s.workers > 0 then s.workers else c.scan.workers }
    manifest :=
      { c.manifest with
        packageManager :=
          if s.packageManager.isEmpty then c.manifest.packageManager else s.packageManager } }

/-- The lowest level that is logged on standard error. -/
def level (c : Config) (s : Options) : LogLevel :=
  if s.verbosity > 0 || s.quiet then .ofVerbosity s.verbosity s.quiet
  else (LogLevel.ofName? c.logging.level).getD .warn

/-- Opens the log file, if there is to be one. -/
def openLog (fs : FileSystem) (path : Text) : Except Fault (FileSystem × LogFile) :=
  if path.isEmpty then .ok (fs, .none)
  else
    match LogFile.openAt fs path with
    | .ok opened => .ok opened
    | .error e => .error (.coded .io "cannot open log file" path (some (.system e)))

/-- The settings of a project with the options laid over them. -/
def settings (w : World) (s : Options) (root : Text) : Except Fault Config :=
  match Config.load w.library w.processors w.files w.environment root with
  | .error f => .error (.ofCode .config "cannot load configuration" (some f))
  | .ok c =>
    let c := applyOptions c s
    match c.validate w.context.sizes with
    | .error f => .error (.ofCode .config "invalid configuration" (some f))
    | .ok () => .ok c

/-- Loads the manifest that the settings name. -/
def loadManifest (fs : FileSystem) (root : Text) (c : Config) : Except Fault ManifestFile :=
  match fs.confine root c.manifest.path with
  | .error f =>
    .error (.coded .config "manifest.path must stay inside the project root" c.manifest.path
      (some f))
  | .ok path => ManifestFile.load fs path

/-- Loads the keep list that the settings name. -/
def loadKeepList (fs : FileSystem) (root : Text) (c : Config) : Except Fault KeepList :=
  match KeepList.load fs root c.manifest.keepFile with
  | .error f => .error (.coded .config "invalid keep list" c.manifest.keepFile (some f))
  | .ok list => .ok list

/-- Resolves the options in a world. -/
def setUp (w : World) (s : Options) : Except Fault Setup := do
  let root := if s.dir.isEmpty then w.files.current else Path.absolute w.files.current s.dir
  let config ← settings w s root
  let (files, log) ← openLog w.files s.logFile
  let handler := LogHandler.ofFormat (.ofName config.logging.format) (level config s)
    (w.color && !s.noColor)
  .ok ⟨root, config, handler, files, log⟩

/-- Loads what the project itself says. -/
def load (setup : Setup) : Except Fault Session := do
  let manifest ← loadManifest setup.files setup.root setup.config
  let keep ← loadKeepList setup.files setup.root setup.config
  .ok ⟨setup, manifest, keep⟩

/-- The files of a session after some records have been logged. -/
def after (session : Session) (records : List LogRecord) : FileSystem :=
  session.log.writeAll session.files records

end Session

end DependencyAudit
