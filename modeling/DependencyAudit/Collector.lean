import DependencyAudit.Config.Size
import DependencyAudit.FileSystem.Confine

/-!
# Source files of a project

The collector finds the files that an audit reads: depth first, the entries of a directory in
byte order, without entering ignored directories and without following links.
-/

namespace DependencyAudit

/-- Plain scripts, and files that may hold markup. -/
inductive FileKind
  | script
  | markup
  deriving DecidableEq, Repr

namespace FileKind

/-- The word that stands for the kind. -/
def word : FileKind → Text
  | script => "script"
  | markup => "markup"

end FileKind

/-- A source file that has been read. -/
structure SourceFile where
  /-- The path under which it was found. -/
  path : Text
  /-- The path relative to the project root. -/
  relative : Text
  kind : FileKind
  text : Text

namespace SourceFile

/-- The extension in lower case. -/
def extension (f : SourceFile) : Text := (Path.extension f.path).lower

end SourceFile

/-- What to look for in a project tree. -/
structure Collector where
  /-- The extensions of source files, in lower case. -/
  extensions : List Text
  /-- The extensions of files that may hold markup, in lower case. -/
  markup : List Text
  /-- Names of directories that are not entered. -/
  ignoreDirs : List Text
  /-- Files above this size are refused; zero means no limit. -/
  maxSize : Nat

namespace Collector

/-- The collector for some settings. A malformed size limit counts as none. -/
def ofSettings (sizes : SizeReader) (scan : ScanSettings) (usage : UsageSettings) : Collector where
  extensions := (scan.extensions.getD []).map Text.lower
  markup := (usage.markupExtensions.getD []).map Text.lower
  ignoreDirs := scan.ignoreDirs.getD []
  maxSize := match scan.maxBytes sizes with
    | .ok n => n
    | .error _ => 0

/-- Does the path have one of the extensions of source files? -/
def isMatch (c : Collector) (path : Text) : Bool :=
  c.extensions.contains (Path.extension path).lower

/-- The kind of a file, by its extension. -/
def kindOf (c : Collector) (path : Text) : FileKind :=
  if c.markup.contains (Path.extension path).lower then .markup else .script

/-- The path of an entry of a directory. -/
def entryPath (directory name : Text) : Text :=
  if directory = Text.ofString "/" then directory ++ name
  else directory ++ Path.slash :: name

mutual

/-- The source files at or below a node. `path` is the path of the node and `name` its
name. -/
def filesAt (c : Collector) (path : Text) (name : Text) : FileNode → List Text
  | .file _ => if c.isMatch path then [path] else []
  | .link _ => []
  | .directory entries =>
    if c.ignoreDirs.contains name then [] else c.filesIn path entries

/-- The source files below the entries of a directory. -/
def filesIn (c : Collector) (path : Text) : List (Text × FileNode) → List Text
  | [] => []
  | (name, node) :: more =>
    c.filesAt (entryPath path name) name node ++ c.filesIn path more

end

/-- The absolute path of a project root, which has to be a directory. -/
def checkRoot (fs : FileSystem) (root : Text) : Except Fault Text :=
  let path := Path.absolute fs.current root
  match fs.stat path with
  | .error e => .error (.coded .io "project root does not exist" path (some (.system e)))
  | .ok node =>
    if node.isDirectory then .ok path
    else .error (.coded .io "project root is not a directory" path none)

/-- The source files of a project, as absolute paths. A root that is itself a link is not
entered. -/
def walk (c : Collector) (fs : FileSystem) (root : Text) : Except Fault (List Text) := do
  let path ← checkRoot fs root
  match fs.node false path with
  | .ok (.directory entries) => .ok (c.filesIn path entries)
  | .ok (.file _) => .ok (if c.isMatch path then [path] else [])
  | _ => .ok []

/-- The source files of a project, unless the audit has been interrupted when the first one is
found. -/
def collect (c : Collector) (fs : FileSystem) (canceled : Bool) (root : Text) :
    Except Fault (List Text) := do
  let files ← c.walk fs root
  if canceled && !files.isEmpty then
    .error (.ofCode .canceled "file discovery canceled" (some (.plain "context canceled")))
  else .ok files

/-- The size of a file system node. -/
def sizeOf : FileNode → Nat
  | .file content => content.length
  | _ => 4096

/-- Reads a source file. -/
def read (c : Collector) (fs : FileSystem) (path root : Text) : Except Fault SourceFile :=
  match fs.stat path with
  | .error e => .error (.system e)
  | .ok node =>
    let size := sizeOf node
    if c.maxSize > 0 && size > c.maxSize then .error (.tooLarge size)
    else
      match fs.content path with
      | .error e => .error (.system e)
      | .ok text => .ok ⟨path, fs.displayPath root path, c.kindOf path, text⟩

end Collector

end DependencyAudit
