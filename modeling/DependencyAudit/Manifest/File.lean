import DependencyAudit.FileSystem.Basic
import DependencyAudit.Manifest.Basic

/-!
# Manifest files

Reading a manifest from a file and writing it back without some of its packages.
-/

namespace DependencyAudit

/-- A manifest with the file that it belongs to. -/
structure ManifestFile where
  path : Text
  manifest : Manifest

namespace ManifestFile

/-- Reads the manifest in a file. -/
def load (fs : FileSystem) (path : Text) : Except Fault ManifestFile :=
  match fs.content path with
  | .error e => .error (.coded .manifest "cannot read manifest" path (some (.system e)))
  | .ok text =>
    match Manifest.parse text with
    | .error f => .error (f.withPath path)
    | .ok manifest => .ok ⟨path, manifest⟩

/-- Writes the manifest back without the packages of the given names. -/
def save (m : ManifestFile) (fs : FileSystem) (names : List Text) : Except Fault FileSystem :=
  match m.manifest.without names with
  | .error f => .error f
  | .ok text =>
    match fs.stat m.path with
    | .error e => .error (.coded .manifest "cannot stat manifest" m.path (some (.system e)))
    | .ok _ =>
      match fs.replaceContent m.path text with
      | .error e => .error (.coded .manifest "cannot write manifest" m.path (some (.system e)))
      | .ok fs => .ok fs

end ManifestFile

end DependencyAudit
