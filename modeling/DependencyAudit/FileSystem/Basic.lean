import DependencyAudit.Path

/-!
# File systems

A file system is a tree of directories, files and symbolic links together with a current
directory. Directories list their entries in byte order. Paths are resolved as an operating
system does: symbolic links are followed, at most forty in one resolution.
-/

namespace DependencyAudit

/-- A file, a symbolic link, or a directory with its entries. -/
inductive FileNode
  | file (content : Text)
  | link (target : Text)
  | directory (entries : List (Text × FileNode))
  deriving Repr

namespace FileNode

/-- Is the node a directory? -/
def isDirectory : FileNode → Bool
  | directory _ => true
  | _ => false

/-- Is the node a file? -/
def isFile : FileNode → Bool
  | file _ => true
  | _ => false

/-- The entries of a directory; other nodes have none. -/
def entries : FileNode → List (Text × FileNode)
  | directory entries => entries
  | _ => []

/-- The entry of the given name. -/
def child? (n : FileNode) (name : Text) : Option FileNode :=
  n.entries.lookup name

/-- The node at a location below `n`, without following links. -/
def at? : FileNode → List Text → Option FileNode
  | n, [] => some n
  | n, name :: more => (n.child? name).bind (at? · more)

/-- Puts an entry at its place in the order of names, replacing one of the same name. -/
def insertEntry (name : Text) (node : FileNode) :
    List (Text × FileNode) → List (Text × FileNode)
  | [] => [(name, node)]
  | (other, n) :: more =>
    if other = name then (name, node) :: more
    else if Text.le name other then (name, node) :: (other, n) :: more
    else (other, n) :: insertEntry name node more

/-- Puts a node under a name, or removes the name if there is none. -/
def setEntry (name : Text) (node : Option FileNode) (entries : List (Text × FileNode)) :
    List (Text × FileNode) :=
  match node with
  | some n => insertEntry name n entries
  | none => entries.filter (·.1 != name)

/-- Changes the node at a location. Missing directories on the way are made; a file on the
way is in the way, and then nothing changes. -/
def update (change : Option FileNode → Option FileNode) : List Text → FileNode → FileNode
  | [], n => (change (some n)).getD n
  | name :: more, directory entries =>
    let old := entries.lookup name
    directory (setEntry name
      (if more.isEmpty then change old else some (update change more (old.getD (directory []))))
      entries)
  | _, n => n

end FileNode

/-- Why the file system refuses an operation. -/
inductive Refusal
  | notFound
  | notADirectory
  | isADirectory
  | tooManyLinks
  | nameTooLong
  | invalidName
  deriving DecidableEq, Repr

namespace Refusal

/-- The wording of a refusal. -/
def reason : Refusal → Text
  | notFound => "no such file or directory"
  | notADirectory => "not a directory"
  | isADirectory => "is a directory"
  | tooManyLinks => "too many levels of symbolic links"
  | nameTooLong => "file name too long"
  | invalidName => "invalid argument"

end Refusal

/-- A refused operation: what was attempted, on which path, and why it failed. -/
structure SystemError where
  /-- The operation, such as `open` or `stat`. -/
  call : Text
  path : Text
  refusal : Refusal
  deriving DecidableEq, Repr

namespace SystemError

/-- The wording of a refused operation. -/
def message (e : SystemError) : Text :=
  Text.concat [e.call, " ", e.path, ": ", e.refusal.reason]

end SystemError

/-- A tree of files with a current directory. -/
structure FileSystem where
  /-- The root directory. -/
  root : FileNode
  /-- The absolute path of the current directory. -/
  current : Text

namespace FileSystem

/-- Where a path leads: to a node, or to a place in an existing directory where there is no
node yet. Locations are component lists in reverse. -/
inductive Place
  | found (location : List Text) (node : FileNode)
  | vacant (location : List Text)

/-- The longest name of a directory entry, in bytes. -/
def maxNameLength : Nat := 255

/-- The number of links that one resolution may follow. -/
def maxLinks : Nat := 40

/-- Follows the pieces of a path from a location, as far as a link. The final piece is followed
through links only if `follow` is set; `onLink` goes on behind a link, at a location and with
pieces that are left. -/
def walkToLink (fs : FileSystem) (follow : Bool)
    (onLink : (location pieces : List Text) → Except Refusal Place) (location : List Text) :
    (pieces : List Text) → Except Refusal Place
  | [] =>
    match fs.root.at? location.reverse with
    | some node => .ok (.found location node)
    | none => .error .notFound
  | piece :: rest =>
    match fs.root.at? location.reverse with
    | none => .error .notFound
    | some here =>
      if !here.isDirectory then .error .notADirectory
      else if piece.isEmpty || piece = Text.ofString "." then
        fs.walkToLink follow onLink location rest
      else if piece = Text.ofString ".." then fs.walkToLink follow onLink location.tail rest
      else if piece.length > maxNameLength then .error .nameTooLong
      else
        match here.child? piece with
        | none => if rest.isEmpty then .ok (.vacant (piece :: location)) else .error .notFound
        | some (.link target) =>
          if rest.isEmpty && !follow then .ok (.found (piece :: location) (.link target))
          else
            onLink (if Path.isAbsolute target then [] else location) (Path.pieces target ++ rest)
        | some _ => fs.walkToLink follow onLink (piece :: location) rest

/-- Follows the pieces of a path from a location, through at most `links` links. -/
def walk (fs : FileSystem) (follow : Bool) :
    (links : Nat) → (location pieces : List Text) → Except Refusal Place
  | 0 => fs.walkToLink follow fun _ _ => .error .tooManyLinks
  | links + 1 => fs.walkToLink follow (fs.walk follow links)

/-- Resolves a path. -/
def place (fs : FileSystem) (follow : Bool) (path : Text) : Except Refusal Place :=
  if path.isEmpty then .error .notFound
  else if path.contains 0 then .error .invalidName
  else if Path.isAbsolute path then fs.walk follow maxLinks [] (Path.pieces path)
  else fs.walk follow maxLinks [] (Path.pieces fs.current ++ Path.pieces path)

/-- The node that a path leads to. -/
def node (fs : FileSystem) (follow : Bool) (path : Text) : Except Refusal FileNode := do
  match ← fs.place follow path with
  | .found _ node => .ok node
  | .vacant _ => .error .notFound

/-- Looks a path up, following links. -/
def stat (fs : FileSystem) (path : Text) : Except SystemError FileNode :=
  match fs.node true path with
  | .ok node => .ok node
  | .error refusal => .error ⟨"stat", path, refusal⟩

/-- Does the path lead to something? -/
def «exists» (fs : FileSystem) (path : Text) : Bool :=
  (fs.stat path).isOk

/-- The content of a file. -/
def content (fs : FileSystem) (path : Text) : Except SystemError Text :=
  match fs.node true path with
  | .ok (.file content) => .ok content
  | .ok _ => .error ⟨"read", path, .isADirectory⟩
  | .error refusal => .error ⟨"open", path, refusal⟩

/-- The entries of a directory. -/
def readDirectory? (fs : FileSystem) (path : Text) : Option (List (Text × FileNode)) :=
  match fs.node true path with
  | .ok (.directory entries) => some entries
  | _ => none

/-- Writes a file, which is made if it is missing. `change` maps its old content. -/
def editContent (fs : FileSystem) (path : Text) (change : Text → Text) :
    Except SystemError FileSystem :=
  let put (location : List Text) (content : Text) : FileSystem :=
    { fs with root := fs.root.update (fun _ => some (.file content)) location.reverse }
  match fs.place true path with
  | .ok (.found location (.file old)) => .ok (put location (change old))
  | .ok (.vacant location) => .ok (put location (change []))
  | .ok (.found _ _) => .error ⟨"open", path, .isADirectory⟩
  | .error refusal => .error ⟨"open", path, refusal⟩

/-- Replaces the content of a file, which is made if it is missing. -/
def replaceContent (fs : FileSystem) (path content : Text) : Except SystemError FileSystem :=
  fs.editContent path fun _ => content

/-- Appends to a file, which is made if it is missing. -/
def appendContent (fs : FileSystem) (path content : Text) : Except SystemError FileSystem :=
  fs.editContent path fun old => old ++ content

/-- The location of what a path leads to. -/
def locate? (fs : FileSystem) (path : Text) : Option (List Text) :=
  match fs.place true path with
  | .ok (.found location _) => some location
  | _ => none

/-- Appends to the file at a location. If there is no file, nothing happens. -/
def appendAt (fs : FileSystem) (location : List Text) (content : Text) : FileSystem :=
  match fs.root.at? location.reverse with
  | some (.file old) =>
    { fs with root := fs.root.update (fun _ => some (.file (old ++ content))) location.reverse }
  | _ => fs

/-- Makes the last directory of a path; one that exists is left alone. -/
def makeDirectory (fs : FileSystem) (path : Text) : Except SystemError FileSystem :=
  match fs.place true path with
  | .ok (.found _ (.directory _)) => .ok fs
  | .ok (.found _ _) => .error ⟨"mkdir", path, .notADirectory⟩
  | .ok (.vacant location) =>
    .ok { fs with root := fs.root.update (fun _ => some (.directory [])) location.reverse }
  | .error refusal => .error ⟨"mkdir", path, refusal⟩

/-- Removes what a path names, without following a final link. -/
def remove (fs : FileSystem) (path : Text) : FileSystem :=
  match fs.place false path with
  | .ok (.found location _) =>
    { fs with root := fs.root.update (fun _ => none) location.reverse }
  | _ => fs

end FileSystem

end DependencyAudit
