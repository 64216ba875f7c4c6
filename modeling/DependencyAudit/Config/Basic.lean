import DependencyAudit.Text.Basic

/-!
# Settings

The settings of an audit, in four sections besides the version of the format: which files
are scanned, what counts as a use, where the manifest is, and what is logged.
-/

namespace DependencyAudit

/-- Which source files are read. -/
structure ScanSettings where
  /-- The extensions of source files, each with its dot; `none` when no list is set. -/
  extensions : Option (List Text)
  /-- Names of directories that are never entered; `none` when no list is set. -/
  ignoreDirs : Option (List Text)
  /-- A size such as `1MB`; larger files are skipped. Blank means no limit. -/
  maxFileSize : Text
  /-- How many files are read at a time; zero or less means one per processor. -/
  workers : Int
  /-- Leave modules of the runtime out of the report unless they are declared. -/
  ignoreBuiltins : Bool
  deriving DecidableEq, Repr

/-- What counts as a use of a package. -/
structure UsageSettings where
  /-- Accept any referenced identifier that starts with the package name. -/
  prefixMatch : Bool
  /-- The extensions of files that may hold markup; `none` when no list is set. -/
  markupExtensions : Option (List Text)
  /-- The name that compiled markup calls implicitly. -/
  markupRuntimeSymbol : Text
  /-- The package that provides this name. -/
  markupRuntimePackage : Text
  deriving DecidableEq, Repr

/-- Where the manifest is and who edits it. -/
structure ManifestSettings where
  /-- The manifest, relative to the project root. -/
  path : Text
  /-- `npm`, `yarn`, `pnpm`, or `auto` for the one that the lockfile belongs to. -/
  packageManager : Text
  /-- The keep list, relative to the project root. -/
  keepFile : Text
  deriving DecidableEq, Repr

/-- What is logged. -/
structure LoggingSettings where
  /-- `human` or `json`. -/
  format : Text
  /-- The name of the lowest level that is written. -/
  level : Text
  deriving DecidableEq, Repr

/-- All settings of an audit. -/
structure Config where
  version : Int
  scan : ScanSettings
  usage : UsageSettings
  manifest : ManifestSettings
  logging : LoggingSettings
  deriving DecidableEq, Repr

namespace Config

/-- The settings that hold where nothing else is said, on a machine with the given number of
processors. -/
def default (processors : Nat) : Config where
  version := 1
  scan :=
    { extensions := some [".js", ".jsx", ".ts", ".tsx", ".mjs", ".cjs"]
      ignoreDirs := some ["node_modules", ".git", "dist", "build", "coverage"]
      maxFileSize := "1MB"
      workers := processors
      ignoreBuiltins := true }
  usage :=
    { prefixMatch := true
      markupExtensions := some [".jsx", ".tsx"]
      markupRuntimeSymbol := "React"
      markupRuntimePackage := "react" }
  manifest :=
    { path := "package.json"
      packageManager := "auto"
      keepFile := "DEPTRIM.toml" }
  logging :=
    { format := "human"
      level := "warn" }

end Config

/-- How many files are read at a time. -/
def ScanSettings.effectiveWorkers (s : ScanSettings) (processors : Nat) : Int :=
  if s.workers ≤ 0 then processors else s.workers

end DependencyAudit
