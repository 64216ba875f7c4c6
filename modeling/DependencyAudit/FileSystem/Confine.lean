import DependencyAudit.FileSystem.RealPath
import DependencyAudit.Fault

/-!
# Paths inside a project

A setting that names a file is relative to the project root and must stay below it, also
through symbolic links.
-/

namespace DependencyAudit.FileSystem

/-- The path relative to a root, links resolved on both sides. -/
def relativeTo (fs : FileSystem) (root path : Text) : Except Fault Text :=
  match fs.relativeTo? root path with
  | some relative => .ok relative
  | none =>
    .error (.plain (Text.concat
      ["Rel: can't make ", fs.realPath path, " relative to ", fs.realPath root]))

/-- The absolute path of a root-relative setting, in which backslashes count as separators. A
setting that leads out of the root is refused. -/
def confine (fs : FileSystem) (root value : Text) : Except Fault Text := do
  let path := Path.join root (Path.forward value)
  let relative ← fs.relativeTo root path
  if Path.leaves relative then .error .outsideRoot else .ok path

end DependencyAudit.FileSystem
