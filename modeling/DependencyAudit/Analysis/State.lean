import DependencyAudit.Analysis.Report
import DependencyAudit.Specifier

/-!
# Accumulated facts

A state is what is known after some files. `State.fold` adds the facts of one more file, and
`State.merge` appends a state whose files all come later, so that parts of a project can be
summarised on their own and put together in order.
-/

namespace DependencyAudit

/-- Packages with the files in which each was met, both in the order of first sight. -/
abbrev Sightings := List (Text × List Text)

namespace Sightings

/-- Records that a package was met in a file. -/
def add (dependency path : Text) : Sightings → Sightings
  | [] => [(dependency, [path])]
  | (name, files) :: more =>
    if name = dependency then (name, insertNew files path) :: more
    else (name, files) :: add dependency path more

/-- The files in which a package was met. -/
def files (s : Sightings) (dependency : Text) : List Text :=
  (s.lookup dependency).getD []

/-- Was the package met at all? -/
def has (s : Sightings) (dependency : Text) : Bool :=
  (s.lookup dependency).isSome

/-- The packages, in the order of first sight. -/
def names (s : Sightings) : List Text :=
  s.map (·.1)

/-- Records everything that another collection holds. -/
def append (s other : Sightings) : Sightings :=
  other.foldl (fun s (name, files) => files.foldl (fun s path => s.add name path) s) s

end Sightings

/-- What is known after some files. A state that was never set up has no collections yet. -/
structure State where
  /-- Where packages are imported. -/
  imports : Option Sightings
  /-- Where packages are confirmed to be used. -/
  uses : Option Sightings
  /-- The problems of the files so far. -/
  diagnostics : List Diagnostic
  /-- The number of files so far. -/
  files : Nat
  deriving DecidableEq, Repr

namespace State

/-- A state that was never set up. -/
def zero : State := ⟨none, none, [], 0⟩

/-- Nothing is known before the first file. -/
def empty : State := ⟨some [], some [], [], 0⟩

/-- The imports so far. -/
def imported (s : State) : Sightings := s.imports.getD []

/-- The confirmed uses so far. -/
def used (s : State) : Sightings := s.uses.getD []

/-- Adds the facts of one file. -/
def fold (s : State) (f : FileFacts) : State where
  imports := some (f.bindings.foldl (fun t b => t.add b.dependency f.path) s.imported)
  uses := some ((f.signals.filter (·.confirmed)).foldl
    (fun t g => t.add g.dependency f.path) s.used)
  diagnostics := s.diagnostics ++ f.diagnostics
  files := s.files + 1

/-- Appends a state whose files come after those of `s`. -/
def merge (s other : State) : State where
  imports := some (s.imported.append other.imported)
  uses := some (s.used.append other.used)
  diagnostics := s.diagnostics ++ other.diagnostics
  files := s.files + other.files

/-- The state after a list of files. -/
def ofFacts (facts : List FileFacts) : State :=
  facts.foldl fold empty

/-- The files in which a package is confirmed to be used. -/
def usedIn (s : State) (dependency : Text) : List Text :=
  s.used.files dependency

/-- Is the package left out of the report? Undeclared modules of the runtime are, on
request. -/
def omits (declared : List Text) (ignoreBuiltins : Bool) (dependency : Text) : Bool :=
  ignoreBuiltins && Specifier.isBuiltin dependency && !declared.contains dependency

/-- The classification of all packages that were met or are declared. -/
def report (s : State) (declared : List Text) (ignoreBuiltins : Bool) : Report where
  used := s.used.names.filter fun name => !omits declared ignoreBuiltins name
  importedButUnused :=
    (s.imported.filter fun (name, _) =>
      !s.used.has name && !omits declared ignoreBuiltins name).map fun (name, files) =>
        ⟨name, files⟩
  neverImported := (firstOccurrences declared).filter fun name => !s.imported.has name
  noSourceFiles := s.files == 0
  filesScanned := s.files
  diagnostics := s.diagnostics

end State

end DependencyAudit
