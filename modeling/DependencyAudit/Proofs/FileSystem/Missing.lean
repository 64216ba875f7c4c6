import DependencyAudit.Proofs.FileSystem.Confine
import DependencyAudit.Proofs.FileSystem.Rewriting

/-!
# Settings that name nothing

A setting may name a file that is not there yet. It would lie below the longest ancestor of its
path that exists, and it would leave the root if that does. But only the path itself and its
directory are looked for. If both are missing, the path is compared with the root as it is
written: a link on the way is not followed, though the links on the way to the root are. So a
setting that leads out through a link is accepted when more than its last component is missing,
and one that stays inside is refused when the root was reached through a link.

## Main definitions

* `FileSystem.destination`: where a path would lie;
* `FileSystem.judged`: what a path is judged by.

## Main results

* `FileSystem.realPath_eq_judged`: the real path of any path;
* `FileSystem.confine_eq_judged`: which settings are accepted, whether or not they name something;
* `FileSystem.missing_path_verdict`: when a setting gets the verdict of where it would lie.
-/

namespace DependencyAudit.FileSystem

open DependencyAudit.Path (IsPlain ofComponents)

variable {fs : FileSystem}

/-! ## What a path is judged by -/

theorem exists_eq (path : Text) : fs.exists path = (foundAt? (fs.place true path)).isSome := by
  rw [«exists», stat, FileSystem.node]
  cases fs.place true path with
  | error refusal => rfl
  | ok place => cases place <;> rfl

/-- Where a path would lie, given its components in reverse: below the longest beginning that
exists. -/
def destinationOf (fs : FileSystem) : List Text → List Text
  | [] => []
  | last :: above =>
    match foundAt? (fs.place true (ofComponents true (above.reverse ++ [last]))) with
    | some names => names
    | none => fs.destinationOf above ++ [last]

/-- Where a path would lie: its longest ancestor that exists, all links followed, and the components
that are left. -/
def destination (fs : FileSystem) (path : Text) : List Text :=
  fs.destinationOf (Path.components path).reverse

/-- What a path is judged by: its location, or the location of its directory and its last
component, or else its components as they are written. -/
def judged (fs : FileSystem) (path : Text) : List Text :=
  match fs.traced? path with
  | some names => names
  | none =>
    match fs.traced? (Path.directory path) with
    | some names => names ++ [Path.base path]
    | none => Path.components path

/-- The root directory leads to itself. -/
theorem leadsTo_root (hroot : fs.root.isDirectory = true) :
    fs.LeadsTo (ofComponents true []) [] fs.root := by
  have hwalk : fs.walk true maxLinks [] ([[], []] : List Text) = .ok (.found [] fs.root) := by
    rw [maxLinks, walk, walkToLink_nil_cons rfl hroot, walkToLink_nil_cons rfl hroot]
    rfl
  rw [LeadsTo, place_of_walk (Path.isAbsolute_ofComponents _) (by decide)]
  exact hwalk

/-- What is not found is not the root directory. -/
theorem exists_concat_of_traced?_eq_none (hfs : fs.root.IsOrderly)
    (hroot : fs.root.isDirectory = true) {names : List Text}
    (h : fs.traced? (ofComponents true names) = none) : ∃ front last, names = front ++ [last] := by
  refine ⟨names.dropLast, names.getLast ?_, (List.dropLast_concat_getLast _).symm⟩
  rintro rfl
  rw [(leadsTo_root hroot).traced? hfs hroot (Path.isAbsolute_ofComponents [])] at h
  cases h

/-- The real path of any path is that of what it is judged by. -/
theorem realPath_eq_judged (hfs : fs.root.IsOrderly) (hroot : fs.root.isDirectory = true)
    {names : List Text} (hnames : ∀ name ∈ names, IsPlain name) :
    (∀ name ∈ fs.judged (ofComponents true names), IsPlain name) ∧
      fs.realPath (ofComponents true names) =
        ofComponents true (fs.judged (ofComponents true names)) := by
  have habsolute := Path.isAbsolute_ofComponents
  rw [realPath, judged, resolveLinks?_eq hfs hroot (habsolute names)]
  cases htraced : fs.traced? (ofComponents true names) with
  | some location => exact ⟨isPlain_traced? hfs htraced, rfl⟩
  | none =>
    obtain ⟨front, last, rfl⟩ := exists_concat_of_traced?_eq_none hfs hroot htraced
    obtain ⟨hfront, hlast⟩ := List.forall_mem_append.mp hnames
    have hplain := hlast last (List.mem_singleton_self last)
    rw [Path.directory_ofComponents hfront hplain.no_slash, Path.base_ofComponents front hplain,
      resolveLinks?_eq hfs hroot (habsolute front)]
    -- only one component may be missing; with two, the path stays as it is written
    cases hdirectory : fs.traced? (ofComponents true front) with
    | some location =>
      have hlocation := isPlain_traced? hfs hdirectory
      refine ⟨List.forall_mem_append.mpr ⟨hlocation, hlast⟩, ?_⟩
      exact Path.join_ofComponents hlocation hlast (List.cons_ne_nil _ _)
    | none =>
      simp only [Option.map_none, Path.components_ofComponents hnames]
      exact ⟨hnames, Path.clean_ofComponents hnames⟩

/-! ## Verdicts -/

variable {root value path : Text} {base : List Text} {entries : List (Text × FileNode)}

theorem LeadsTo.isDirectory_root (h : fs.LeadsTo root base (.directory entries)) :
    fs.root.isDirectory = true :=
  FileSystem.isDirectory_root h.at? rfl

/-- The components of what a setting names. -/
theorem exists_join_eq (habsolute : Path.isAbsolute root = true) :
    ∃ names, (∀ name ∈ names, IsPlain name) ∧
      Path.join root (Path.forward value) = ofComponents true names := by
  have hwhole := Path.isAbsolute_append habsolute (Path.slash :: Path.forward value)
  refine ⟨_, Path.isPlain_of_mem_components hwhole, ?_⟩
  rw [Path.join_of_isAbsolute habsolute, Path.clean_of_isAbsolute hwhole]

/-- Whether a setting is accepted depends on what its path is judged by. -/
theorem confine_eq_judged (hfs : fs.root.IsOrderly) (habsolute : Path.isAbsolute root = true)
    (hroot : fs.LeadsTo root base (.directory entries))
    (hpath : Path.join root (Path.forward value) = path) :
    fs.confine root value =
      if base <+: fs.judged path then .ok path else .error .outsideRoot := by
  subst hpath
  obtain ⟨names, hnames, hjoin⟩ := exists_join_eq habsolute
  obtain ⟨hplain, hreal⟩ := realPath_eq_judged hfs hroot.isDirectory_root hnames
  rw [← hjoin] at hplain hreal
  exact confine_of_realPath (hroot.isPlain hfs) hplain
    (realPath_of_leadsTo hfs habsolute hroot) hreal

theorem destinationOf_of_leadsTo (hroot : fs.root.isDirectory = true) {names location : List Text}
    {node : FileNode} (h : fs.LeadsTo (ofComponents true names) location node) :
    fs.destinationOf names.reverse = location := by
  have hfound : foundAt? (fs.place true (ofComponents true names)) = some location :=
    foundAt?_eq_some_iff.mpr ⟨node, h⟩
  cases hnames : names.reverse with
  | nil =>
    obtain rfl : names = [] := List.reverse_eq_nil_iff.mp hnames
    rw [foundAt?_eq_some_iff.mpr ⟨_, leadsTo_root hroot⟩] at hfound
    exact Option.some.inj hfound
  | cons last above =>
    have heq : names = above.reverse ++ [last] := by
      rw [← List.reverse_cons, ← hnames, List.reverse_reverse]
    rw [destinationOf, ← heq, hfound]

/-- What lies in an existing directory and is missing itself is judged by where it would lie. -/
theorem judged_eq_destination (hfs : fs.root.IsOrderly) (hroot : fs.root.isDirectory = true)
    {names : List Text} (hnames : ∀ name ∈ names, IsPlain name)
    (hmissing : fs.exists (ofComponents true names) = false)
    (htraced : fs.traced? (ofComponents true names) = none)
    (hdirectory : fs.exists (Path.directory (ofComponents true names)) = true) :
    fs.judged (ofComponents true names) = fs.destination (ofComponents true names) := by
  obtain ⟨front, last, rfl⟩ := exists_concat_of_traced?_eq_none hfs hroot htraced
  obtain ⟨hfront, hlast⟩ := List.forall_mem_append.mp hnames
  have hplain := hlast last (List.mem_singleton_self last)
  rw [Path.directory_ofComponents hfront hplain.no_slash, exists_eq, Option.isSome_iff_exists]
    at hdirectory
  obtain ⟨location, hlocation⟩ := hdirectory
  obtain ⟨node, hfound⟩ := foundAt?_eq_some_iff.mp hlocation
  have hleads : fs.LeadsTo (ofComponents true front) location node := hfound
  have hnone : foundAt? (fs.place true (ofComponents true (front ++ [last]))) = none := by
    rwa [exists_eq, Option.isSome_eq_false_iff, Option.isNone_iff_eq_none] at hmissing
  rw [judged, htraced, Path.directory_ofComponents hfront hplain.no_slash,
    hleads.traced? hfs hroot (Path.isAbsolute_ofComponents _), Path.base_ofComponents front hplain,
    destination, Path.components_ofComponents hnames, List.reverse_append, List.reverse_singleton,
    List.singleton_append, destinationOf, List.reverse_reverse, hnone,
    destinationOf_of_leadsTo hroot hleads]

/-- Two verdicts agree if and only if both paths lie on the same side of the base. -/
theorem verdict_eq_iff {names names' : List Text} :
    ((if base <+: names then .ok path else .error .outsideRoot : Except Fault Text) =
        if base <+: names' then .ok path else .error .outsideRoot) ↔
      (base <+: names ↔ base <+: names') := by
  by_cases h : base <+: names <;> by_cases h' : base <+: names' <;> simp [h, h']

/-- A setting that names nothing gets the verdict of where it would lie when it lies in an existing
directory. When that is missing as well, the path is compared as it is written, with none of its
links followed, while those of the root are; so the verdict is the one of where the path would lie
exactly if it lies on the same side of the root as it is written. Whatever is missing, the verdict
depends on what the path is judged by. -/
theorem missing_path_verdict (hfs : fs.root.IsOrderly) (habsolute : Path.isAbsolute root = true)
    (hroot : fs.LeadsTo root base (.directory entries))
    (hpath : Path.join root (Path.forward value) = path) (hmissing : fs.exists path = false) :
    (fs.traced? path = none → fs.exists (Path.directory path) = true →
      fs.confine root value =
        if base <+: fs.destination path then .ok path else .error .outsideRoot) ∧
    (fs.traced? path = none → fs.traced? (Path.directory path) = none →
      fs.confine root value =
          (if base <+: Path.components path then .ok path else .error .outsideRoot) ∧
        (fs.confine root value =
            (if base <+: fs.destination path then .ok path else .error .outsideRoot) ↔
          (base <+: Path.components path ↔ base <+: fs.destination path))) ∧
    (fs.confine root value =
        (if base <+: fs.destination path then .ok path else .error .outsideRoot) ↔
      (base <+: fs.judged path ↔ base <+: fs.destination path)) := by
  rw [confine_eq_judged hfs habsolute hroot hpath]
  refine ⟨fun htraced hdirectory => ?_, fun htraced hdirectory => ?_, verdict_eq_iff⟩
  · obtain ⟨names, hnames, hjoin⟩ := exists_join_eq habsolute
    obtain rfl := hpath.symm.trans hjoin
    rw [judged_eq_destination hfs hroot.isDirectory_root hnames hmissing htraced hdirectory]
  · have hwritten : fs.judged path = Path.components path := by
      rw [judged, htraced, hdirectory]
    rw [hwritten]
    exact ⟨rfl, verdict_eq_iff⟩

/-- A project with a link that leads out of it, and another name for the project. -/
def linkedDirectories : FileSystem :=
  ⟨.directory
    [("alias", .link "/project"),
     ("elsewhere", .directory []),
     ("project", .directory [("out", .link "/elsewhere")])], "/"⟩

/-- With two components missing, a path through a link that leads out is accepted, and a path below
a link to the project is refused. With one missing it is accepted. -/
theorem missing_path_verdict_sample :
    linkedDirectories.root.IsOrderly ∧
    (linkedDirectories.destination "/project/out/a/b" =
        [Text.ofString "elsewhere", Text.ofString "a", Text.ofString "b"] ∧
      linkedDirectories.confine "/project" "out/a/b" = .ok "/project/out/a/b") ∧
    (linkedDirectories.destination "/alias/a/b" =
        [Text.ofString "project", Text.ofString "a", Text.ofString "b"] ∧
      linkedDirectories.confine "/alias" "a/b" = .error .outsideRoot) ∧
    linkedDirectories.confine "/alias" "a" = .ok "/alias/a" := by
  have hfs : linkedDirectories.root.IsOrderly := by decide
  obtain ⟨entries, hproject⟩ : ∃ entries,
      linkedDirectories.LeadsTo "/project" ["project"] (.directory entries) := ⟨_, rfl⟩
  obtain ⟨entries', halias⟩ : ∃ entries,
      linkedDirectories.LeadsTo "/alias" ["project"] (.directory entries) := ⟨_, rfl⟩
  refine ⟨hfs, ⟨by decide +kernel, ?_⟩, ⟨by decide +kernel, ?_⟩, ?_⟩
  · obtain ⟨-, hwritten, -⟩ := @missing_path_verdict _ _ "out/a/b" "/project/out/a/b" _ _ hfs rfl
      hproject (by decide +kernel) (by decide +kernel)
    rw [(hwritten (by decide +kernel) (by decide +kernel)).1, if_pos (by decide +kernel)]
  · obtain ⟨-, hwritten, -⟩ := @missing_path_verdict _ _ "a/b" "/alias/a/b" _ _ hfs rfl
      halias (by decide +kernel) (by decide +kernel)
    rw [(hwritten (by decide +kernel) (by decide +kernel)).1, if_neg (by decide +kernel)]
  · obtain ⟨hone, -, -⟩ := @missing_path_verdict _ _ "a" "/alias/a" _ _ hfs rfl
      halias (by decide +kernel) (by decide +kernel)
    rw [hone (by decide +kernel) (by decide +kernel), if_pos (by decide +kernel)]

end DependencyAudit.FileSystem
