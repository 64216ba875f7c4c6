import DependencyAudit.FileSystem.Basic

/-!
# Real paths

`FileSystem.resolveLinks?` replaces every symbolic link of a path by what it leads to, and
`FileSystem.realPath` does so as far as the path exists. Paths are compared with a root after
that, so that it does not matter through which links either of them was reached.
-/

namespace DependencyAudit.FileSystem

/-- The number of links that one path may hold. -/
def maxRealPathLinks : Nat := 255

/-- Follows the pieces of a path, as far as a link. `done` are the resolved components in reverse,
below the root directory or below the current one; a relative path may begin with `..`
components. `onLink` goes on behind a link. -/
def resolveToLink (fs : FileSystem)
    (onLink : (absolute : Bool) → (done pieces : List Text) → Option Text) (absolute : Bool)
    (done : List Text) : (pieces : List Text) → Option Text
  | [] => some (Path.clean (Path.ofComponents absolute done.reverse))
  | piece :: rest =>
    if piece.isEmpty || piece = Text.ofString "." then fs.resolveToLink onLink absolute done rest
    else if piece = Text.ofString ".." then
      fs.resolveToLink onLink absolute
        (match done with
          | [] => [piece]
          | last :: before => if last = Text.ofString ".." then piece :: done else before)
        rest
    else
      let here := piece :: done
      match fs.node false (Path.ofComponents absolute here.reverse) with
      | .error _ => none
      | .ok (.link target) =>
        if Path.isAbsolute target then onLink true [] (Path.pieces target ++ rest)
        else onLink absolute done (Path.pieces target ++ rest)
      | .ok node =>
        if !node.isDirectory && !rest.isEmpty then none
        else fs.resolveToLink onLink absolute here rest

/-- Follows the pieces of a path through at most `links` links. -/
def resolvePieces (fs : FileSystem) :
    (links : Nat) → (absolute : Bool) → (done pieces : List Text) → Option Text
  | 0 => fs.resolveToLink fun _ _ _ => none
  | links + 1 => fs.resolveToLink (fs.resolvePieces links)

/-- The path without symbolic links, if it exists. -/
def resolveLinks? (fs : FileSystem) (path : Text) : Option Text :=
  fs.resolvePieces maxRealPathLinks (Path.isAbsolute path) [] (Path.pieces path)

/-- The path without symbolic links; of a path that does not exist, its directory without
symbolic links; else the cleaned path. -/
def realPath (fs : FileSystem) (path : Text) : Text :=
  match fs.resolveLinks? path with
  | some real => real
  | none =>
    match fs.resolveLinks? (Path.directory path) with
    | some real => Path.join real (Path.base path)
    | none => Path.clean path

/-- The path relative to a root, links resolved on both sides. -/
def relativeTo? (fs : FileSystem) (root path : Text) : Option Text :=
  Path.relative? (fs.realPath root) (fs.realPath path)

/-- The name under which a file appears in a report: relative to the root where that is
possible. -/
def displayPath (fs : FileSystem) (root path : Text) : Text :=
  (fs.relativeTo? root path).getD (Path.forward path)

end DependencyAudit.FileSystem
