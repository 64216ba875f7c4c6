import DependencyAudit.Config.Library
import DependencyAudit.FileSystem.Basic
import DependencyAudit.Path

/-!
# Where settings files are searched

The directory that is searched is not quite the one that is asked for: the names of environment
variables behind dollar signs are replaced by the values of the variables first.
-/

namespace DependencyAudit.SearchPath

/-- Is the byte the name of a variable on its own? -/
def isSpecial (b : UInt8) : Bool :=
  Text.isDigit b || (Text.ofString "*#$@!?-").contains b

/-- May the byte stand in the name of a variable? -/
def isNameByte (b : UInt8) : Bool :=
  Text.isDigit b || Text.isLetter b || b = Ascii.underscore

/-- The name of a variable that stands behind a dollar sign, and how many bytes it takes. The name
may be in braces; braces without a name in them take bytes but have an empty name. -/
def reference : Text → Text × Nat
  | [] => ([], 0)
  | b :: more =>
    if b = Ascii.openBrace then
      match Text.cutAtByte Ascii.closeBrace more with
      | (_, none) => ([], 1)
      | (name, some _) => (name, name.length + 2)
    else if isSpecial b then ([b], 1)
    else
      let name := (b :: more).takeWhile isNameByte
      (name, name.length)

/-- What a reference is replaced by. A dollar sign without a reference behind it is kept. -/
def replacement (environment : Environment) : Text × Nat → Text
  | ([], 0) => [Ascii.dollar]
  | ([], _ + 1) => []
  | (b :: more, _) => (environment.lookup (b :: more)).getD []

/-- Replaces the references behind the first `skip` bytes of a text, and drops these bytes. -/
def expandFrom (environment : Environment) : (skip : Nat) → Text → Text
  | _, [] => []
  | skip + 1, _ :: more => expandFrom environment skip more
  | 0, b :: more =>
    if b = Ascii.dollar && !more.isEmpty then
      replacement environment (reference more) ++
        expandFrom environment (reference more).2 more
    else b :: expandFrom environment 0 more

/-- Replaces the references in a text. -/
def expand (environment : Environment) (text : Text) : Text :=
  expandFrom environment 0 text

/-- Replaces the home directory at the start of a path. -/
def expandHome (environment : Environment) (path : Text) : Text :=
  if path = Text.ofString "$HOME" || path.startsWith "$HOME/" then
    (environment.lookup (Text.ofString "HOME")).getD [] ++ path.drop 5
  else path

/-- The directory that is searched in place of the one that is asked for. -/
def place (fs : FileSystem) (environment : Environment) (directory : Text) : Text :=
  Path.absolute fs.current (expand environment (expandHome environment directory))

/-- The extensions that a settings file may have, in order of preference. Whatever it is, the
content is JSON. -/
def extensions : List Text :=
  ["json", "toml", "yaml", "yml", "properties", "props", "prop", "hcl", "tfvars", "dotenv", "env",
    "ini"]

/-- The names of the settings files that are searched. The last one has no extension. -/
def fileNames (name : Text) : List Text :=
  extensions.map (fun ext => Text.concat [name, ".", ext]) ++ [name]

/-- The first settings file that exists in the directory that is searched. -/
def find? (fs : FileSystem) (environment : Environment) (directory name : Text) : Option Text :=
  ((fileNames name).map (Path.join (place fs environment directory))).find? fun path =>
    match fs.stat path with
    | .ok node => node.isFile
    | .error _ => false

end DependencyAudit.SearchPath
