import DependencyAudit.Analysis.State
import DependencyAudit.Analysis.Turns
import DependencyAudit.Collector
import DependencyAudit.Import.Declaration
import DependencyAudit.Log.File
import DependencyAudit.Syntax.Parsed

/-!
# Audits

An audit reads every source file of a project, gathers the facts of each and classifies the
declared packages. Problems with single files become diagnostics; only a missing root or an
interruption stops an audit. What is logged goes to the log file at once, which may be one of the
source files.
-/

namespace DependencyAudit

/-- What an audit takes from the world around the project. -/
structure AuditContext where
  /-- The syntax trees. -/
  trees : TreeSource
  /-- How sizes are read. -/
  sizes : SizeReader
  /-- Has the audit been interrupted? -/
  canceled : Bool
  /-- The name of this audit in the log. -/
  runId : Text
  /-- How long the audit takes. -/
  elapsed : Nanoseconds
  /-- When messages are logged. -/
  time : Option Int

namespace Analysis

/-- The facts of a file that could not be read. -/
def unreadable (path : Text) (f : Fault) : FileFacts :=
  if f.isTooLarge then ⟨path, [], [], [⟨path, .skipped, f.message⟩]⟩
  else
    let fault := Fault.ofCode .fileRead "cannot read file" (some f)
    ⟨path, [], [], [⟨path, .read, fault.message⟩]⟩

/-- The facts of a source file. A file that declares no packages is not parsed. -/
def factsOf (config : Config) (trees : TreeSource) (file : SourceFile) : FileFacts :=
  let bindings := Import.bindings file.relative file.text
  if bindings.isEmpty then ⟨file.relative, [], [], []⟩
  else
    let options := ParseOptions.ofExtension file.extension (file.kind = .markup)
    match trees.parse file.relative file.text options with
    | .error f => ⟨file.relative, bindings, [], [⟨file.relative, .parse, f.message⟩]⟩
    | .ok parsed =>
      let refs := References.ofTree parsed.source parsed.tree
      ⟨file.relative, bindings, config.usage.signals refs (file.kind = .markup) bindings, []⟩

/-- Reads a file and gathers its facts. -/
def analyzeFile (sizes : SizeReader) (config : Config) (trees : TreeSource) (fs : FileSystem)
    (path root : Text) : FileFacts :=
  let collector := Collector.ofSettings sizes config.scan config.usage
  match collector.read fs path root with
  | .error f => unreadable (fs.displayPath root path) f
  | .ok file => factsOf config trees file

/-- A record of an audit. -/
def record (context : AuditContext) (level : LogLevel) (message : Text)
    (attributes : List LogAttribute) : LogRecord :=
  ⟨level, message, context.time, ("run", .text context.runId) :: attributes⟩

/-- What is logged when the source files have been found. -/
def openingRecords (context : AuditContext) (root : Text) (files : List Text) : List LogRecord :=
  record context .info "Collected source files"
      [("root", .text root), ("files", .int files.length)] ::
    if !files.isEmpty && !context.trees.isAvailable then
      [record context .warn
        "Syntax trees unavailable (built without CGO); no usage will be confirmed" []]
    else []

/-- What is logged when files are done. -/
def diagnosticRecords (context : AuditContext) (facts : List FileFacts) : List LogRecord :=
  facts.flatMap fun f => f.diagnostics.map fun d =>
    record context .warn "File diagnostic"
      [("path", .text d.path), ("kind", .text d.kind.word), ("error", .text d.message)]

/-- What is logged about a report. -/
def completionRecord (context : AuditContext) (report : Report) : LogRecord :=
  record context .info "Analysis complete"
    [("files", .int report.filesScanned), ("used", .int report.used.length),
     ("importedButUnused", .int report.importedButUnused.length),
     ("neverImported", .int report.neverImported.length),
     ("diagnostics", .int report.diagnostics.length),
     ("duration", .duration context.elapsed)]

/-- What an audit has logged, the facts that it has gathered, and its report or what stopped
it. -/
structure Result where
  log : List LogRecord
  /-- In the order of the files, whatever the order in which they were done. -/
  facts : List FileFacts
  /-- The report, or the fault that stopped the audit. -/
  outcome : Except Fault Report

/-- The facts of source files with their positions, in the order in which the files are done. Each
is read from the files as they are by then, with what has been logged. -/
def gather (log : LogFile) (schedule : Schedule) (config : Config) (context : AuditContext)
    (fs : FileSystem) (root : Text) (files : List Text) : List (Nat × FileFacts) :=
  schedule.takeTurns (fun reported path =>
    let logged := openingRecords context root files ++ diagnosticRecords context reported
    analyzeFile context.sizes config context.trees (log.writeAll fs logged) path root) files

/-- Audits the project in a directory against a list of declared packages, while a log file is
being written. -/
def runLogging (log : LogFile) (schedule : Schedule) (config : Config) (context : AuditContext)
    (fs : FileSystem) (root : Text) (declared : List Text) : Result :=
  let root := Path.absolute fs.current root
  let collector := Collector.ofSettings context.sizes config.scan config.usage
  match collector.collect fs context.canceled root with
  | .error f => ⟨[], [], .error f⟩
  | .ok files =>
    let opening := openingRecords context root files
    if context.canceled then
      ⟨opening ++ [record context .warn "Analysis canceled" [("files", .int files.length)]], [],
        .error (.ofCode .canceled "analysis canceled" (some (.plain "context canceled")))⟩
    else
      let done := gather log schedule config context fs root files
      let facts := Schedule.inOrder files done
      let report := (State.ofFacts facts).report declared config.scan.ignoreBuiltins
      ⟨opening ++ diagnosticRecords context (done.map (·.2)) ++ [completionRecord context report],
        facts, .ok report⟩

/-- Audits the project in a directory against a list of declared packages, with nothing logged to
its files. -/
def run (config : Config) (context : AuditContext) (fs : FileSystem) (root : Text)
    (declared : List Text) : Result :=
  runLogging .none .inTurn config context fs root declared

end Analysis

end DependencyAudit
