import DependencyAudit.Proofs.FileSystem.Shape

/-!
# Settings that stay inside a root

A setting is joined to the root and compared with it after all links have been followed. If what
it names exists, it is accepted exactly if it lies in the directory that the root leads to:
component by component, so neither a name that begins with two dots nor a directory whose name
begins like that of the root is mistaken for something else. What is read or written under an
accepted path is therefore no file outside of the root.

## Main definitions

* `FileSystem.SameOutside`: nothing has changed outside of a directory.

## Main results

* `FileSystem.confine_of_realPath`: what is compared;
* `FileSystem.confine_of_leadsTo`: which settings are accepted;
* `FileSystem.content_withFile_of_confine`: the content of a file outside is not read;
* `FileSystem.sameOutside_replaceContent`: a file outside is not written.
-/

namespace DependencyAudit.FileSystem

variable {fs fs' : FileSystem} {root value path : Text} {base names : List Text}
  {here node : FileNode}

/-! ## Which settings are accepted -/

theorem isAbsolute_join_forward (habsolute : Path.isAbsolute root = true) :
    Path.isAbsolute (Path.join root (Path.forward value)) = true := by
  rw [Path.join_of_isAbsolute habsolute]
  exact Path.isAbsolute_clean (Path.isAbsolute_append habsolute _)

/-- What is compared are the components of the two real paths. -/
theorem confine_of_realPath (hbase : ∀ name ∈ base, Path.IsPlain name)
    (hnames : ∀ name ∈ names, Path.IsPlain name)
    (hroot : fs.realPath root = Path.ofComponents true base)
    (h : fs.realPath (Path.join root (Path.forward value)) = Path.ofComponents true names) :
    fs.confine root value =
      if base <+: names then .ok (Path.join root (Path.forward value))
      else .error .outsideRoot := by
  obtain ⟨way, hway, hleaves⟩ := Path.leaves_relative? hbase hnames
  have hrelative : fs.relativeTo root (Path.join root (Path.forward value)) = .ok way := by
    rw [relativeTo, relativeTo?, hroot, h, hway]
  rw [confine, hrelative]
  change (if Path.leaves way then _ else _) = _
  rw [hleaves]
  by_cases hinside : base <+: names <;> simp [hinside]

/-- A setting that names something is accepted exactly if that lies in the directory that the root
leads to. -/
theorem confine_of_leadsTo (hfs : fs.root.IsOrderly) (habsolute : Path.isAbsolute root = true)
    (hroot : fs.LeadsTo root base here)
    (h : fs.LeadsTo (Path.join root (Path.forward value)) names node) :
    fs.confine root value =
      if base <+: names then .ok (Path.join root (Path.forward value))
      else .error .outsideRoot :=
  -- both real paths are those of the locations
  confine_of_realPath (hroot.isPlain hfs) (h.isPlain hfs) (realPath_of_leadsTo hfs habsolute hroot)
    (realPath_of_leadsTo hfs (isAbsolute_join_forward habsolute) h)

theorem confine_eq_ok (h : fs.confine root value = .ok path) :
    path = Path.join root (Path.forward value) := by
  unfold confine at h
  dsimp only at h
  cases hrelative : fs.relativeTo root (Path.join root (Path.forward value)) with
  | error f =>
    rw [hrelative] at h
    exact absurd h (by simp [bind, Except.bind])
  | ok way =>
    rw [hrelative] at h
    change (if Path.leaves way then _ else _) = _ at h
    split at h
    · exact absurd h (by simp)
    · exact (Except.ok.inj h).symm

/-- An accepted path leads nowhere else. -/
theorem isPrefix_of_confine (hfs : fs.root.IsOrderly) (habsolute : Path.isAbsolute root = true)
    (hroot : fs.LeadsTo root base here) (h : fs.confine root value = .ok path)
    (hpath : fs.LeadsTo path names node) : base <+: names := by
  obtain rfl := confine_eq_ok h
  rw [confine_of_leadsTo hfs habsolute hroot hpath] at h
  split at h
  · assumption
  · exact absurd h (by simp)

/-! ## What is not touched -/

/-- Under an accepted path, the content of a file outside is not read. -/
theorem content_withFile_of_confine {outside : List Text} {old : Text} (hfs : fs.root.IsOrderly)
    (habsolute : Path.isAbsolute root = true) (hroot : fs.LeadsTo root base here) (text : Text)
    (hold : fs.root.at? outside = some (.file old)) (houtside : ¬ base <+: outside)
    (h : fs.confine root value = .ok path) :
    (fs.withFile outside.reverse text).content path = fs.content path := by
  refine content_withFile_of_ne text hold fun names node hpath => ?_
  -- the path leads inside, and the file is outside
  rintro rfl
  exact houtside (isPrefix_of_confine hfs habsolute hroot h hpath)

/-- Outside of a directory there are the same files, with the same contents. -/
def SameOutside (base : List Text) (fs fs' : FileSystem) : Prop :=
  ∀ location text, ¬ base <+: location →
    (fs'.root.at? location = some (.file text) ↔ fs.root.at? location = some (.file text))

theorem SameOutside.refl (base : List Text) (fs : FileSystem) : SameOutside base fs fs :=
  fun _ _ _ => Iff.rfl

/-- Writing a file that is there changes nothing outside of the directory that it lies in. -/
theorem sameOutside_replaceContent {text : Text} (hstat : fs.stat path = .ok node)
    (hpath : ∀ names node, fs.LeadsTo path names node → base <+: names)
    (h : fs.replaceContent path text = .ok fs') : SameOutside base fs fs' := by
  rcases editContent_eq_ok h with ⟨location, old, hplace, rfl⟩ | ⟨location, hplace, -⟩
  · have hinside : base <+: location.reverse := by
      apply hpath location.reverse (.file old)
      rw [LeadsTo, List.reverse_reverse]
      exact hplace
    intro location' text' houtside
    refine FileNode.at?_put_file_iff (at?_of_place hplace) ?_
    rintro rfl
    exact houtside hinside
  · -- the file was there, so it is not a new one
    rw [stat, FileSystem.node, hplace] at hstat
    exact absurd hstat (by simp [bind, Except.bind])

end DependencyAudit.FileSystem
