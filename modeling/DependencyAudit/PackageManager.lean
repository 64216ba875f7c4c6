import DependencyAudit.Fault
import DependencyAudit.Text.Blank
import DependencyAudit.Text.Quoted

/-!
# Package managers

A package manager uninstalls packages from the project in a directory. The library treats it
as a function on the file system, which may do anything to the files and may fail;
`ManagerKind.manager` is the one that runs an executable found on the search path.
-/

namespace DependencyAudit

/-- What came of an attempt to uninstall packages. -/
structure Uninstallation where
  /-- The files afterwards. -/
  files : FileSystem
  /-- The command line that was run, if one was. -/
  command : Option Text
  /-- Why it failed, if it did. -/
  failure : Option Fault
  /-- Where the file is now that was at a location before, if it is still there. A file that is
  open moves along. -/
  moved : List Text → Option (List Text)

/-- Something that uninstalls packages. -/
structure PackageManager where
  name : Text
  /-- Uninstalls the named packages from the project in a directory. -/
  uninstall : FileSystem → (directory : Text) → (names : List Text) → Uninstallation
  /-- The command line that uninstalls the named packages, of a manager that runs one. -/
  commandLine? : (names : List Text) → Option Text

/-- What an executable has done when it ends. -/
structure ProgramRun where
  files : FileSystem
  exitCode : Nat
  /-- All that it wrote. -/
  output : Text
  /-- Where the file is now that was at a location before, if it is still there. -/
  moved : List Text → Option (List Text)

/-- An executable, as a function of the files, its working directory and its arguments. -/
abbrev Program := FileSystem → (directory : Text) → (arguments : List Text) → ProgramRun

/-- The executables on the search path, by name. -/
abbrev Programs := List (Text × Program)

/-- The package managers that can be run. -/
inductive ManagerKind
  | npm
  | yarn
  | pnpm
  deriving DecidableEq, Repr

namespace ManagerKind

/-- The name of the executable. -/
def name : ManagerKind → Text
  | npm => "npm"
  | yarn => "yarn"
  | pnpm => "pnpm"

/-- The subcommand that removes packages. -/
def subcommand : ManagerKind → Text
  | npm => "uninstall"
  | yarn => "remove"
  | pnpm => "remove"

/-- The package manager of the given name. -/
def ofName (name : Text) : Except Fault ManagerKind :=
  match [npm, yarn, pnpm].find? (·.name = name) with
  | some kind => .ok kind
  | none =>
    .error (.plain (Text.concat
      ["unsupported package manager ", Quoted.encode name, " (want npm, yarn or pnpm)"]))

theorem ofName_name (kind : ManagerKind) : ofName kind.name = .ok kind := by
  cases kind <;> rfl

/-- The command line that removes packages. -/
def commandLine (kind : ManagerKind) (names : List Text) : Text :=
  Text.join " " (kind.name :: kind.subcommand :: names)

/-- Runs the executable to remove packages. Without packages nothing is run. -/
def uninstall (kind : ManagerKind) (programs : Programs) (fs : FileSystem) (directory : Text)
    (names : List Text) : Uninstallation :=
  let line := kind.commandLine names
  if names.isEmpty then ⟨fs, none, none, some⟩
  else
    match programs.lookup kind.name with
    | none =>
      ⟨fs, none, some (.plain (Text.concat
        [kind.name, " not found in PATH: exec: ", Quoted.encode kind.name,
         ": executable file not found in $PATH"])), some⟩
    | some program =>
      match fs.stat directory with
      | .error e =>
        ⟨fs, none, some (.within (Text.concat [line, " failed"])
          (.system { e with call := "chdir" })), some⟩
      | .ok _ =>
        let run := program fs directory (kind.subcommand :: names)
        ⟨run.files, some line,
          if run.exitCode = 0 then none
          else some (.plain (Text.concat
            [line, " exited with code ", Text.ofNat run.exitCode, ": ", Text.trim run.output])),
          run.moved⟩

/-- The package manager that runs the executable on the search path. -/
def manager (kind : ManagerKind) (programs : Programs) : PackageManager :=
  ⟨kind.name, kind.uninstall programs, fun names => some (kind.commandLine names)⟩

end ManagerKind

end DependencyAudit
