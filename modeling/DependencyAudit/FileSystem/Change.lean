import DependencyAudit.FileSystem.Basic

/-!
# Changes of files

The files that have another content in one tree than in another.
-/

namespace DependencyAudit.FileNode

mutual

/-- The files at or below a node that are new or changed against an old node, with their
contents. `path` is the path of the node. -/
def changes (path : Text) (old : Option FileNode) : FileNode → List (Text × Text)
  | file content =>
    match old with
    | some (file before) => if before = content then [] else [(path, content)]
    | _ => [(path, content)]
  | link _ => []
  | directory entries => entryChanges path old entries

/-- The files below the entries of a directory that are new or changed. -/
def entryChanges (path : Text) (old : Option FileNode) :
    List (Text × FileNode) → List (Text × Text)
  | [] => []
  | (name, node) :: more =>
    changes (Text.concat [path, "/", name]) (old.bind (·.child? name)) node ++
      entryChanges path old more

end

end DependencyAudit.FileNode
