import DependencyAudit.FileSystem.Basic

/-!
# Project set-up

Which package manager a project uses, by its lockfile, and which language it is written in.
-/

namespace DependencyAudit

/-- The language of a project. -/
inductive ProjectLanguage
  | typescript
  | javascript
  | unknown
  deriving DecidableEq, Repr

namespace ProjectLanguage

/-- The name of the language. -/
def word : ProjectLanguage → Text
  | typescript => "typescript"
  | javascript => "javascript"
  | unknown => "unknown"

end ProjectLanguage

/-- How a project is set up. -/
structure ProjectSetup where
  language : ProjectLanguage
  packageManager : Text
  /-- The lockfile that the package manager was recognised by, or empty. -/
  lockfile : Text
  deriving DecidableEq, Repr

namespace ProjectSetup

/-- The lockfiles with their package managers. A project with several is most likely on its way
from `npm` to another, so those of `npm` come last. -/
def lockfiles : List (Text × Text) :=
  [("pnpm-lock.yaml", "pnpm"), ("yarn.lock", "yarn"), ("package-lock.json", "npm"),
   ("npm-shrinkwrap.json", "npm")]

/-- The first lockfile that exists, with its package manager. -/
def lockfile? (fs : FileSystem) (root : Text) : Option (Text × Text) :=
  lockfiles.find? fun (name, _) => fs.exists (Path.join root name)

/-- Does the directory directly hold something with the extension that is no directory? -/
def holdsExtension (fs : FileSystem) (directory ext : Text) : Bool :=
  ((fs.readDirectory? directory).getD []).any fun (name, node) =>
    !node.isDirectory && Path.extension name = ext

/-- The language of the project: unknown without a manifest, and TypeScript if there is a
compiler configuration or a source file in the root or in `src`. -/
def languageOf (fs : FileSystem) (root : Text) : ProjectLanguage :=
  if !fs.exists (Path.join root "package.json") then .unknown
  else if fs.exists (Path.join root "tsconfig.json") then .typescript
  else if holdsExtension fs root ".ts" || holdsExtension fs (Path.join root "src") ".ts" then
    .typescript
  else .javascript

/-- How the project is set up. Without a lockfile the package manager is `npm`. -/
def detect (fs : FileSystem) (root : Text) : ProjectSetup :=
  let language := languageOf fs root
  match lockfile? fs root with
  | some (file, manager) => ⟨language, manager, file⟩
  | none => ⟨language, "npm", []⟩

end ProjectSetup

end DependencyAudit
