import DependencyAudit.Log.File
import DependencyAudit.Manifest.File
import DependencyAudit.PackageManager

/-!
# Removals

Removing packages from a project: the package manager uninstalls them, and what it leaves in
the manifest is pruned. The manifest is edited only after the package manager has succeeded.
What is logged goes to the log file at once.
-/

namespace DependencyAudit

/-- A request to a package manager. -/
structure UninstallCall where
  directory : Text
  names : List Text
  deriving DecidableEq, Repr

/-- What came of a removal. -/
structure Removal where
  /-- The files afterwards. -/
  files : FileSystem
  log : List LogRecord
  /-- What the package manager was asked for, if it was asked. -/
  call : Option UninstallCall
  /-- The command line that was run, if one was. -/
  command : Option Text
  /-- The removed packages, or why the removal failed. -/
  outcome : Except Fault (List Text)

namespace Removal

/-- The names that the manifest declares, each once. -/
def targets (m : Manifest) (names : List Text) : List Text :=
  firstOccurrences (names.filter m.has)

/-- Drops from the manifest what a package manager has left of the targets. -/
def pruneLeftovers (log : LogFile) (time : Option Int) (fs : FileSystem) (path : Text)
    (targets : List Text) : FileSystem × List LogRecord × Except Fault (List Text) :=
  match ManifestFile.load fs path with
  | .error f => (fs, [], .error f)
  | .ok after =>
    let leftover := targets.filter after.manifest.has
    if leftover.isEmpty then (fs, [], .ok targets)
    else
      let note : LogRecord :=
        ⟨.debug, "Pruning manifest entries", time, [("packages", .texts leftover)]⟩
      match after.save (log.write fs note) leftover with
      | .error f => (log.write fs note, [note], .error f)
      | .ok fs => (fs, [note], .ok targets)

/-- What is logged before the package manager is asked. -/
def announcement (time : Option Int) (pm : PackageManager) (targets : List Text) : LogRecord :=
  ⟨.info, "Uninstalling dependencies", time,
    [("manager", .text pm.name), ("packages", .texts targets)]⟩

/-- What comes of a call of the package manager. -/
def answer (log : LogFile) (time : Option Int) (pm : PackageManager) (fs : FileSystem)
    (call : UninstallCall) : Uninstallation :=
  pm.uninstall (log.write fs (announcement time pm call.names)) call.directory call.names

/-- Removes the named packages from the project whose manifest is at `path`, while a log file is
being written. Names that the manifest does not declare are ignored. -/
def runLogging (log : LogFile) (time : Option Int) (pm : PackageManager) (fs : FileSystem)
    (path : Text) (names : List Text) : Removal :=
  match ManifestFile.load fs path with
  | .error f => ⟨fs, [], none, none, .error f⟩
  | .ok m =>
    let targets := targets m.manifest names
    if targets.isEmpty then
      let note : LogRecord := ⟨.info, "Nothing to remove", time, []⟩
      ⟨log.write fs note, [note], none, none, .ok []⟩
    else
      let call : UninstallCall := ⟨Path.directory path, targets⟩
      let start := announcement time pm targets
      let done := answer log time pm fs call
      let log := log.follow done.moved
      match done.failure with
      | some f =>
        let stop : LogRecord := ⟨.error, "Uninstall failed; manifest left untouched", time,
          [("error", .text f.message)]⟩
        ⟨log.write done.files stop, [start, stop], some call, done.command,
          .error (.coded .removal
            (Text.concat [pm.name, " could not remove ", Text.join ", " targets]) path (some f))⟩
      | none =>
        let (files, notes, outcome) := pruneLeftovers log time done.files path targets
        ⟨files, start :: notes, some call, done.command, outcome⟩

/-- Removes the named packages from the project whose manifest is at `path`, with nothing logged
to its files. -/
def run (time : Option Int) (pm : PackageManager) (fs : FileSystem) (path : Text)
    (names : List Text) : Removal :=
  runLogging .none time pm fs path names

end Removal

end DependencyAudit
