import DependencyAudit.Analysis.Facts

/-!
# Reports

The outcome of an audit: every package is used, imported but unused, or never imported.
-/

namespace DependencyAudit

/-- A package that is imported somewhere and used nowhere. -/
structure UnusedImport where
  dependency : Text
  /-- The files that import it. -/
  files : List Text
  deriving DecidableEq, Repr

/-- The classification of the packages of a project. -/
structure Report where
  /-- In the order of first confirmation. -/
  used : List Text
  /-- In the order of first import. -/
  importedButUnused : List UnusedImport
  /-- In the order of the manifest. -/
  neverImported : List Text
  /-- The project had no source files at all. -/
  noSourceFiles : Bool
  /-- How many files were read or skipped. -/
  filesScanned : Nat
  /-- The problems of single files. -/
  diagnostics : List Diagnostic
  deriving DecidableEq, Repr

/-- The elements of a list without repetitions, each at its first place. -/
def firstOccurrences {α : Type} [DecidableEq α] (xs : List α) : List α :=
  xs.foldl insertNew []

namespace Report

/-- The packages that are imported but unused. -/
def unusedNames (r : Report) : List Text :=
  r.importedButUnused.map (·.dependency)

/-- May the package be removed as far as the report goes? -/
def isRemovable (r : Report) (name : Text) : Bool :=
  r.neverImported.contains name || r.unusedNames.contains name

/-- The declared packages that may be removed, in the order of the manifest and without
repetitions. -/
def removalCandidates (r : Report) (declared : List Text) : List Text :=
  firstOccurrences (declared.filter r.isRemovable)

end Report

end DependencyAudit
