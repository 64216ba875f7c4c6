import DependencyAudit.CommandLine.Session
import DependencyAudit.Output.Format
import DependencyAudit.Project
import DependencyAudit.Removal

/-!
# Running commands

The commands as functions of the world: what they print, what they log, what they do to the
files and with which code they end.
-/

namespace DependencyAudit

/-- What a command has done when it ends or fails. -/
structure CommandResult where
  /-- The files afterwards, with what has been logged to them. -/
  files : FileSystem
  log : List LogRecord
  /-- What the package manager was asked for, if it was asked. -/
  call : Option UninstallCall
  /-- The command line of the package manager, if it was run. -/
  command : Option Text
  /-- The response in its format, or why the command failed. -/
  outcome : Except Fault Text

namespace Command

/-- Audits the project of a session against its manifest. -/
def audit (w : World) (session : Session) : Analysis.Result :=
  Analysis.runLogging session.log w.schedule session.config w.context session.files session.root
    session.manifest.manifest.declared

/-- A command that has done no more than log some records. -/
def stopped (session : Session) (log : List LogRecord) (outcome : Except Fault Text) :
    CommandResult :=
  ⟨session.after log, log, none, none, outcome⟩

/-- Analyses the project of a session. -/
def analyze (w : World) (s : Options) (session : Session) : CommandResult :=
  let audit := audit w session
  match audit.outcome with
  | .error f => stopped session audit.log (.error f)
  | .ok report =>
    let kept :=
      (session.keep.split (report.removalCandidates session.manifest.manifest.declared)).2
    let response := AnalysisResponse.ofReport w.build.label session.root
      session.config.manifest.path report (session.keep.keptPackages kept)
    stopped session audit.log ((Response.analysis response).render (w.color && !s.noColor) s.format)

/-- The package manager of the settings, with what there is to log about it. `auto` stands for
the one that the lockfile next to the manifest belongs to. -/
def managerName (w : World) (session : Session) (files : FileSystem) : Text × List LogRecord :=
  let name := session.config.manifest.packageManager
  if name != Text.ofString "auto" then (name, [])
  else
    let setup := ProjectSetup.detect files (Path.directory session.manifest.path)
    (setup.packageManager,
      if setup.lockfile.isEmpty then []
      else [⟨.debug, "Detected package manager", w.context.time,
        [("manager", .text setup.packageManager), ("lockfile", .text setup.lockfile)]⟩])

/-- The package manager of a removal, with what there is to log about the choice: the given one,
or else the one of the settings. -/
def chooseManager (given : Option PackageManager) (w : World) (session : Session)
    (files : FileSystem) : List LogRecord × Except Fault PackageManager :=
  match given with
  | some pm => ([], .ok pm)
  | none =>
    let (name, detected) := managerName w session files
    (detected, (ManagerKind.ofName name).map (·.manager w.programs))

/-- The response of a removal by `pm`, in the format of the options. -/
def removalText (w : World) (s : Options) (pm : PackageManager) (candidates removed : List Text)
    (kept : List KeptPackage) : Except Fault Text :=
  let command := if candidates.isEmpty then [] else (pm.commandLine? candidates).getD []
  (Response.removal ⟨s.dryRun, pm.name, command, some candidates, some removed, kept⟩).render
    (w.color && !s.noColor) s.format

/-- Removes the packages that are not used and not kept, with the given package manager or else
with the one of the settings. -/
def remove (given : Option PackageManager) (w : World) (s : Options) (session : Session) :
    CommandResult :=
  let audit := audit w session
  match audit.outcome with
  | .error f => stopped session audit.log (.error f)
  | .ok report =>
    let (candidates, kept) :=
      session.keep.split (report.removalCandidates session.manifest.manifest.declared)
    let (detected, choice) := chooseManager given w session (session.after audit.log)
    let log := audit.log ++ detected
    match choice with
    | .error f => stopped session log (.error f)
    | .ok pm =>
      let respond (removed : List Text) : Except Fault Text :=
        removalText w s pm candidates removed (session.keep.keptPackages kept)
      if s.dryRun || candidates.isEmpty then stopped session log (respond [])
      else
        let removal := Removal.runLogging session.log w.context.time pm (session.after log)
          session.manifest.path candidates
        ⟨removal.files, log ++ removal.log, removal.call, removal.command,
          removal.outcome.bind respond⟩

/-- Runs a command in the session that the options describe, and tells where its log goes. A
session that cannot be set up is the failure of the command. -/
def inSession (w : World) (s : Options) (run : World → Options → Session → CommandResult) :
    Option LogHandler × CommandResult :=
  match Session.setUp w s with
  | .error f => (none, ⟨w.files, [], none, none, .error f⟩)
  | .ok setup =>
    match Session.load setup with
    | .error f => (some setup.handler, ⟨setup.files, [], none, none, .error f⟩)
    | .ok session => (some session.handler, run w s session)

end Command

/-- What a finished process leaves behind. -/
structure ProcessResult where
  exitCode : Nat
  stdout : Text
  stderr : Text
  files : FileSystem
  /-- The command line of the package manager, if it was run. -/
  command : Option Text

namespace CommandLine

/-- The text for a failed command: the fault, and what to do about it. -/
def failureText (f : Fault) : Text :=
  Text.concat
    ["Error: ", f.message, "\n",
     f.fixes.flatMap fun fix => Text.concat ["  hint: ", fix.hint, "\n"]]

/-- The text for the version. -/
def versionText (w : World) : Text :=
  let note : Text := if w.context.trees.isAvailable then ""
    else "built without cgo: usage detection is disabled\n"
  Text.concat ["deptrim version ", w.build.label, "\n", note]

/-- The text for those who ask for help. -/
def helpText : Text :=
  "Usage:\n  deptrim analyze [flags]\n  deptrim remove [--dry-run] [flags]\n"

/-- A process that ends without running a command. -/
def quietly (files : FileSystem) (exitCode : Nat) (stdout stderr : Text) : ProcessResult :=
  ⟨exitCode, stdout, stderr, files, none⟩

/-- Runs a command and tells how the process ends. -/
def execute (w : World) (s : Options) (run : World → Options → Session → CommandResult) :
    ProcessResult :=
  let (handler, result) := Command.inSession w s run
  let logged : Text := match handler with
    | some handler => handler.writeAll result.log
    | none => []
  match result.outcome with
  | .ok text => ⟨0, text ++ [Ascii.newline], logged, result.files, result.command⟩
  | .error f => ⟨1, [], logged ++ failureText f, result.files, result.command⟩

/-- Runs the tool with some arguments. -/
def run (w : World) (arguments : List Text) : ProcessResult :=
  match Invocation.parse arguments with
  | .error p => quietly w.files 1 [] (failureText (.plain p.message))
  | .ok .showHelp => quietly w.files 0 helpText []
  | .ok .showVersion => quietly w.files 0 (versionText w) []
  | .ok (.analyze s) => execute w s Command.analyze
  | .ok (.remove s) => execute w s (Command.remove none)

end CommandLine

end DependencyAudit
