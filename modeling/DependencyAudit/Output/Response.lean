import DependencyAudit.Analysis.Report
import DependencyAudit.Json.Value
import DependencyAudit.KeepList

/-!
# Responses

What the commands report. A list that is not set is told apart from an empty one, since JSON
documents show the difference.
-/

namespace DependencyAudit

/-- A package that could be removed but stays because of the keep list. -/
structure KeptPackage where
  name : Text
  /-- The reason of its keep entry, or empty. -/
  reason : Text
  deriving DecidableEq, Repr

/-- A package that is imported but unused, in a response. -/
structure UnusedEntry where
  dependency : Text
  files : Option (List Text)
  deriving DecidableEq, Repr

/-- The response of an analysis. -/
structure AnalysisResponse where
  /-- The version of the tool. -/
  version : Text
  root : Text
  manifest : Text
  /-- A list may be absent, as opposed to empty. -/
  used : Option (List Text)
  importedButUnused : Option (List UnusedEntry)
  neverImported : Option (List Text)
  noSourceFiles : Bool
  filesScanned : Int
  diagnostics : Option (List Diagnostic)
  /-- Left out if it is empty. -/
  kept : List KeptPackage
  deriving DecidableEq, Repr

namespace AnalysisResponse

/-- The response with a report. -/
def ofReport (version root manifest : Text) (r : Report) (kept : List KeptPackage) :
    AnalysisResponse where
  version := version
  root := root
  manifest := manifest
  used := some r.used
  importedButUnused := some (r.importedButUnused.map fun u => ⟨u.dependency, some u.files⟩)
  neverImported := some r.neverImported
  noSourceFiles := r.noSourceFiles
  filesScanned := r.filesScanned
  diagnostics := some r.diagnostics
  kept := kept

end AnalysisResponse

/-- The response of a removal. -/
structure RemovalResponse where
  /-- Nothing is changed, only shown. -/
  dryRun : Bool
  /-- The name of the package manager. -/
  manager : Text
  /-- The command line of the package manager, or empty. -/
  command : Text
  candidates : Option (List Text)
  /-- Empty in a dry run. -/
  removed : Option (List Text)
  /-- Left out if it is empty. -/
  kept : List KeptPackage
  deriving DecidableEq, Repr

/-- What a command reports. -/
inductive Response
  | analysis (r : AnalysisResponse)
  | removal (r : RemovalResponse)
  /-- Any other data. -/
  | data (v : JsonValue)

/-- The packages that the keep list keeps, with their reasons. -/
def KeepList.keptPackages (list : KeepList) (names : List Text) : List KeptPackage :=
  names.map fun name => ⟨name, list.reason name⟩

end DependencyAudit
