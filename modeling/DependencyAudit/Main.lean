import DependencyAudit.CommandLine.Run
import DependencyAudit.Config.Standard
import DependencyAudit.FileSystem.Change
import Std.Time.DateTime.Timestamp

/-!
# The program

Reads the world, runs the command line on it and writes back what has changed. This build has
no grammars and starts no other programs, so uses are not confirmed and package managers are
not found.
-/

namespace DependencyAudit.Program

/-- Directories whose content is not read: installed packages and the history. -/
def unread : List String := ["node_modules", ".git"]

/-- Reads what is at a path. -/
partial def readNode (path : String) : IO FileNode := do
  let here := (← IO.currentDir) / path
  match (← here.symlinkMetadata).type with
  | .dir =>
    let mut entries := []
    for e in ← here.readDir do
      let node ←
        if unread.contains e.fileName then pure (FileNode.directory [])
        else readNode e.path.toString
      entries := FileNode.insertEntry (Text.ofString e.fileName) node entries
    return .directory entries
  | .symlink => return .link (Text.ofString (← IO.FS.realPath here).toString)
  | _ => return .file (← IO.FS.readBinFile here).toList

/-- Puts what is at a path into a tree, if there is anything. -/
def addPath (root : FileNode) (current path : String) : IO FileNode := do
  let absolute := Path.absolute (Text.ofString current) (Text.ofString path)
  try
    let node ← readNode path
    return root.update (fun _ => some node) (Path.components absolute)
  catch _ => return root

/-- The paths outside of the current directory that a command line is about: the project, and the
log file. -/
def pathsOf (arguments : List Text) : Text × Text :=
  match Invocation.parse arguments with
  | .ok (.analyze s) => (s.dir, s.logFile)
  | .ok (.remove s) => (s.dir, s.logFile)
  | _ => ([], [])

/-- The names of the variables that stand for settings. -/
def settingNames : List Text :=
  let layers := (Config.default 1).layers [] none
  Config.schema.flatMap fun (name, part) =>
    layers.variableName [name] ::
      match part with
      | .setting _ => []
      | .group settings => settings.map fun (key, _) => layers.variableName [name, key]

/-- The names of the variables that a text refers to. -/
def referredNames : Text → List Text
  | [] => []
  | b :: more =>
    if b = Ascii.dollar then (SearchPath.reference more).1 :: referredNames more
    else referredNames more

/-- The string with the given bytes; what is not UTF-8 is left out. -/
def stringOf (t : Text) : String :=
  (String.fromUTF8? ⟨t.toArray⟩).getD ""

/-- Reads the variables with the given names. -/
def readVariables (names : List Text) : IO Environment := do
  let mut found := []
  for name in names do
    if let some value ← IO.getEnv (stringOf name) then
      found := (name, Text.ofString value) :: found
  return found

/-- Reads the variables that stand for settings, and those that a path refers to. The home directory
may refer to variables itself. -/
def readEnvironment (path : Text) : IO Environment := do
  let home ← readVariables ["HOME"]
  let names := (path :: home.map (·.2)).flatMap referredNames
  return home ++ (← readVariables (settingNames ++ names))

/-- Reads the world that the arguments are about. -/
def readWorld (arguments : List Text) : IO World := do
  let start ← IO.monoNanosNow
  let current := (← IO.currentDir).toString
  let mut root ← addPath (.directory []) current "."
  let (dir, logFile) := pathsOf arguments
  let project := Path.absolute (Text.ofString current) dir
  let environment ← readEnvironment project
  let settings := SearchPath.place ⟨root, Text.ofString current⟩ environment
    (Config.directory project)
  for path in [dir, logFile, settings] do
    if !path.isEmpty then root ← addPath root current (stringOf path)
  let now ← Std.Time.Timestamp.now
  let id := (← IO.getRandomBytes 6).toList.flatMap fun b => Text.hex 2 b.toNat
  let elapsed := (← IO.monoNanosNow) - start
  return {
    files := ⟨root, Text.ofString current⟩
    environment
    library := .standard
    programs := []
    context := ⟨.unavailable, Size.parse, false, id, elapsed, some now.toSecondsSinceUnixEpoch.val⟩
    schedule := .inTurn
    processors := 1
    color := ← (← IO.getStdout).isTty
    build := ⟨"0.3.0", "", false⟩ }

end DependencyAudit.Program

open DependencyAudit in
/-- Runs the command line. -/
def main (arguments : List String) : IO UInt32 := do
  let arguments := arguments.map Text.ofString
  let world ← Program.readWorld arguments
  let result := CommandLine.run world arguments
  for (path, content) in result.files.root.changes [] (some world.files.root) do
    IO.FS.writeBinFile (Program.stringOf path) ⟨content.toArray⟩
  (← IO.getStdout).write ⟨result.stdout.toArray⟩
  (← IO.getStderr).write ⟨result.stderr.toArray⟩
  return result.exitCode.toUInt32
