import DependencyAudit.Collector
import DependencyAudit.Proofs.Analysis.LinkedRoot
import DependencyAudit.Proofs.FileSystem.RealPath
import Mathlib.Data.List.Nodup

/-!
# The source files of a project

The search through a project finds exactly the files with one of the extensions of the settings,
whatever the case of the letters, that no ignored directory lies above. It finds each of them once
and does not look behind links. What it finds comes in the order of the locations: components are
compared byte by byte, one component after the other, so that `a/x.js` comes before `a-b.js`
although the paths compare the other way round.

Read from any absolute path of the project, each file is known by its location.

## Main definitions

* `Path.Before`: the order of locations;
* `Path.below`: the path of a location below a root;
* `ScanSettings.Selects`: the files that the settings ask for;
* `Collector.locationsIn`: what the search finds, as locations.

## Main results

* `Collector.filesIn_eq_map`: the search by paths and the search by locations;
* `Collector.mem_locationsIn_iff`: which files are found;
* `Collector.pairwise_locationsIn`: in which order;
* `Collector.read_below`: how a file is known that was found;
* `Collector.collect_eq_selected`: the source files of a project.
-/

namespace DependencyAudit

open DependencyAudit.Path (IsPlain ofComponents)

/-! ## Locations -/

namespace Path

/-- The first location comes before the second: the first components that differ decide, and they
are compared byte by byte. -/
abbrev Before (a b : List Text) : Prop :=
  List.Lex Text.Before a b

/-- No path comes before itself. -/
theorem Before.irrefl (a : List Text) : ¬ Before a a :=
  List.lex_irrefl Text.Before.irrefl a

/-- The path of a location below a root. -/
def below (root : Text) (names : List Text) : Text :=
  join root (Text.join [slash] names)

/-- The path below a directory has the components of both. -/
theorem below_ofComponents {base names : List Text} (hbase : ∀ name ∈ base, IsPlain name)
    (hnames : ∀ name ∈ names, IsPlain name) (hne : names ≠ []) :
    below (ofComponents true base) names = ofComponents true (base ++ names) :=
  join_ofComponents hbase hnames hne

/-- Different locations have different paths. -/
theorem nodup_map_below {base : List Text} {found : List (List Text)}
    (hbase : ∀ name ∈ base, IsPlain name)
    (hfound : ∀ names ∈ found, names ≠ [] ∧ ∀ name ∈ names, IsPlain name) (h : found.Nodup) :
    (found.map (below (ofComponents true base))).Nodup := by
  refine h.map_on fun a ha b hb heq => ?_
  obtain ⟨hane, haplain⟩ := hfound a ha
  obtain ⟨hbne, hbplain⟩ := hfound b hb
  rw [below_ofComponents hbase haplain hane, below_ofComponents hbase hbplain hbne] at heq
  exact List.append_cancel_left (ofComponents_injective
    (List.forall_mem_append.mpr ⟨hbase, haplain⟩) (List.forall_mem_append.mpr ⟨hbase, hbplain⟩) heq)

/-- Different locations are written differently: each is read back. -/
theorem nodup_map_join {found : List (List Text)}
    (hfound : ∀ names ∈ found, names ≠ [] ∧ ∀ name ∈ names, IsPlain name) (h : found.Nodup) :
    (found.map (Text.join [slash])).Nodup := by
  have hsplit : ∀ names ∈ found, Text.splitOnByte slash (Text.join [slash] names) = names := by
    intro names hnames
    obtain ⟨hne, hplain⟩ := hfound names hnames
    exact Text.splitOnByte_join hne fun name hname => (hplain name hname).no_slash
  refine h.map_on fun a ha b hb heq => ?_
  rw [← hsplit a ha, heq, hsplit b hb]

end Path

/-- The settings ask for the file at a location in a project: it has one of the extensions, and
no directory on the way to it is ignored. The project itself may have any name. -/
structure ScanSettings.Selects (scan : ScanSettings) (project : FileNode) (names : List Text) :
    Prop where
  /-- There is a file at the location, and no link. -/
  isFile : ∃ text, project.at? names = some (.file text)
  /-- The file has one of the extensions, in capitals or not. -/
  extension : ∃ extension ∈ scan.extensions.getD [],
    extension.lower = (Path.extension (names.getLast?.getD [])).lower
  /-- No directory on the way is ignored. -/
  entered : ∀ directory ∈ names.dropLast, directory ∉ scan.ignoreDirs.getD []

namespace ScanSettings

variable {scan : ScanSettings} {project : FileNode} {name next : Text} {rest : List Text}

/-- A file of the project itself. -/
theorem selects_singleton :
    scan.Selects project [name] ↔ (∃ text, project.child? name = some (.file text)) ∧
      ∃ extension ∈ scan.extensions.getD [],
        extension.lower = (Path.extension name).lower := by
  have hat : project.at? [name] = project.child? name := by
    rw [FileNode.at?]
    cases project.child? name <;> rfl
  constructor
  · rintro ⟨hfile, hextension, -⟩
    exact ⟨hat ▸ hfile, hextension⟩
  · rintro ⟨hfile, hextension⟩
    exact ⟨hat.symm ▸ hfile, hextension, by simp⟩

/-- A file further below. -/
theorem selects_cons_cons :
    scan.Selects project (name :: next :: rest) ↔ name ∉ scan.ignoreDirs.getD [] ∧
      ∃ child, project.child? name = some child ∧ scan.Selects child (next :: rest) := by
  have hlast : (name :: next :: rest).getLast? = (next :: rest).getLast? := rfl
  constructor
  · rintro ⟨⟨text, hfile⟩, hextension, hentered⟩
    rw [FileNode.at?, Option.bind_eq_some_iff] at hfile
    obtain ⟨child, hchild, hbelow⟩ := hfile
    rw [List.dropLast_cons_cons, List.forall_mem_cons] at hentered
    exact ⟨hentered.1, child, hchild, ⟨text, hbelow⟩, hlast ▸ hextension, hentered.2⟩
  · rintro ⟨hname, child, hchild, ⟨text, hbelow⟩, hextension, hentered⟩
    refine ⟨⟨text, ?_⟩, hlast ▸ hextension, ?_⟩
    · rw [FileNode.at?, hchild]
      exact hbelow
    · rw [List.dropLast_cons_cons]
      exact List.forall_mem_cons.mpr ⟨hname, hentered⟩

end ScanSettings

namespace Collector

open Analysis (rootOf)

variable {c : Collector} {fs : FileSystem} {entries : List (Text × FileNode)} {names : List Text}

/-! ## The search by locations -/

mutual

/-- The locations of the source files at or below a node of the given name. -/
def locationsAt (c : Collector) (name : Text) : FileNode → List (List Text)
  | .file _ => if c.isMatch name then [[name]] else []
  | .link _ => []
  | .directory entries =>
    if c.ignoreDirs.contains name then [] else (c.locationsIn entries).map (name :: ·)

/-- The locations of the source files below the entries of a directory. -/
def locationsIn (c : Collector) : List (Text × FileNode) → List (List Text)
  | [] => []
  | (name, node) :: more => c.locationsAt name node ++ c.locationsIn more

end

/-- The path of an entry ends with the name of the entry. -/
theorem entryPath_ofComponents {base : List Text} (h : ∀ name ∈ base, IsPlain name) (name : Text) :
    entryPath (ofComponents true base) name = ofComponents true (base ++ [name]) := by
  cases base with
  | nil => rfl
  | cons first more =>
    -- only the root directory ends in a separator, and it has no components
    have hne : ofComponents true (first :: more) ≠ Text.ofString "/" := by
      intro heq
      have hroot : ofComponents true (first :: more) = ofComponents true [] := heq
      exact absurd (Path.ofComponents_injective h (by simp) hroot) (by simp)
    rw [entryPath, if_neg hne, ofComponents, ofComponents, if_pos rfl, if_pos rfl,
      Text.join_concat (by simp)]
    simp

/-- Whether a path matches depends on its last component only. -/
theorem isMatch_ofComponents (front : List Text) {last : Text} (h : Path.slash ∉ last) :
    c.isMatch (ofComponents true (front ++ [last])) = c.isMatch last := by
  rw [isMatch, isMatch, Path.extension_ofComponents front h]

/-- If the files of each entry lie at its locations, those of the directory do. -/
private theorem filesIn_eq_map_of_filesAt {base : List Text}
    (hbase : ∀ name ∈ base, IsPlain name)
    (h : ∀ e ∈ entries, c.filesAt (ofComponents true (base ++ [e.1])) e.1 e.2 =
      (c.locationsAt e.1 e.2).map fun names => ofComponents true (base ++ names)) :
    c.filesIn (ofComponents true base) entries =
      (c.locationsIn entries).map fun names => ofComponents true (base ++ names) := by
  induction entries with
  | nil => rfl
  | cons e more ih =>
    obtain ⟨he, hmore⟩ := List.forall_mem_cons.mp h
    rw [filesIn, locationsIn, entryPath_ofComponents hbase, he, ih hmore, List.map_append]

/-- The files that are collected are those at the locations below the directory. -/
theorem filesAt_eq_map {node : FileNode} (hnode : node.IsOrderly) {base : List Text} {name : Text}
    (hbase : ∀ name ∈ base, IsPlain name) (hname : IsPlain name) :
    c.filesAt (ofComponents true (base ++ [name])) name node =
      (c.locationsAt name node).map fun names => ofComponents true (base ++ names) := by
  -- by induction on the tree: below a directory, the base grows by its name
  induction hnode generalizing base name with
  | file content =>
    rw [filesAt, locationsAt, isMatch_ofComponents base hname.no_slash]
    split <;> rfl
  | link target => rfl
  | @directory entries hnames _ _ ih =>
    rw [filesAt, locationsAt]
    split
    · rfl
    · have hbase' : ∀ n ∈ base ++ [name], IsPlain n :=
        List.forall_mem_append.mpr ⟨hbase, by simpa using hname⟩
      rw [filesIn_eq_map_of_filesAt hbase' fun e he => ih e he hbase' (hnames e he).toIsPlain,
        List.map_map]
      refine List.map_congr_left fun names _ => ?_
      rw [List.append_assoc]
      rfl

/-- The paths that the search returns are those of the locations that it finds. -/
theorem filesIn_eq_map (h : (FileNode.directory entries).IsOrderly) {base : List Text}
    (hbase : ∀ name ∈ base, IsPlain name) :
    c.filesIn (ofComponents true base) entries =
      (c.locationsIn entries).map fun names => ofComponents true (base ++ names) := by
  obtain ⟨hnames, -, hbelow⟩ := FileNode.isOrderly_directory_iff.mp h
  exact filesIn_eq_map_of_filesAt hbase fun e he =>
    filesAt_eq_map (hbelow e he) hbase (hnames e he).toIsPlain

/-! ## What is found -/

/-- A location in a directory is a location at one of its entries. -/
theorem mem_locationsIn :
    names ∈ c.locationsIn entries ↔ ∃ e ∈ entries, names ∈ c.locationsAt e.1 e.2 := by
  induction entries with
  | nil => simp [locationsIn]
  | cons e more ih => simp [locationsIn, ih]

/-- What is found at a node lies under its name. -/
theorem exists_cons_of_mem_locationsAt {name : Text} {node : FileNode}
    (h : names ∈ c.locationsAt name node) : ∃ rest, names = name :: rest := by
  cases node with
  | file =>
    rw [locationsAt] at h
    split at h
    · exact ⟨[], List.mem_singleton.mp h⟩
    · exact absurd h (by simp)
  | link => exact absurd h (by simp [locationsAt])
  | directory entries =>
    rw [locationsAt] at h
    split at h
    · exact absurd h (by simp)
    · obtain ⟨rest, -, rfl⟩ := List.mem_map.mp h
      exact ⟨rest, rfl⟩

/-- A directory itself is no location in it. -/
theorem nil_not_mem_locationsIn : [] ∉ c.locationsIn entries := by
  intro h
  obtain ⟨e, -, hmem⟩ := mem_locationsIn.mp h
  obtain ⟨rest, heq⟩ := exists_cons_of_mem_locationsAt hmem
  exact absurd heq (by simp)

/-- An entry is selected itself if it is a file that matches. -/
theorem singleton_mem_locationsAt_iff {name : Text} {node : FileNode} :
    [name] ∈ c.locationsAt name node ↔ (∃ text, node = .file text) ∧ c.isMatch name = true := by
  cases node with
  | file => simp [locationsAt]
  | link => simp [locationsAt]
  | directory entries =>
    have hnil : [] ∉ c.locationsIn entries := nil_not_mem_locationsIn
    simp [locationsAt, hnil]

/-- Something below an entry is selected if the entry is a directory that is not ignored, and it is
selected there. -/
theorem cons_cons_mem_locationsAt_iff {name next : Text} {rest : List Text} {node : FileNode} :
    name :: next :: rest ∈ c.locationsAt name node ↔
      name ∉ c.ignoreDirs ∧ ∃ entries, node = .directory entries ∧
        next :: rest ∈ c.locationsIn entries := by
  cases node with
  | file => simp [locationsAt]
  | link => simp [locationsAt]
  | directory entries => simp [locationsAt]

/-- What is found lies under the name of an entry. -/
theorem cons_mem_locationsIn_iff (h : (FileNode.directory entries).IsOrderly) {name : Text}
    {rest : List Text} :
    name :: rest ∈ c.locationsIn entries ↔
      ∃ node, (FileNode.directory entries).child? name = some node ∧
        name :: rest ∈ c.locationsAt name node := by
  obtain ⟨-, horder, -⟩ := FileNode.isOrderly_directory_iff.mp h
  rw [mem_locationsIn]
  constructor
  · rintro ⟨⟨name', node⟩, he, hmem⟩
    obtain ⟨_, heq⟩ := exists_cons_of_mem_locationsAt hmem
    obtain ⟨rfl, -⟩ := List.cons.inj heq
    exact ⟨node, (FileNode.child?_eq_some_iff horder).mpr he, hmem⟩
  · rintro ⟨node, hchild, hmem⟩
    exact ⟨(name, node), (FileNode.child?_eq_some_iff horder).mp hchild, hmem⟩

/-- A path matches if it has one of the extensions, in capitals or not. -/
theorem isMatch_ofSettings_iff {sizes : SizeReader} {scan : ScanSettings} {usage : UsageSettings}
    {path : Text} :
    (ofSettings sizes scan usage).isMatch path = true ↔
      ∃ extension ∈ scan.extensions.getD [], extension.lower = (Path.extension path).lower := by
  simp [isMatch, ofSettings]

/-- The files that are found are those that the settings ask for. -/
theorem mem_locationsIn_iff {sizes : SizeReader} {scan : ScanSettings} {usage : UsageSettings}
    (h : (FileNode.directory entries).IsOrderly) :
    names ∈ (ofSettings sizes scan usage).locationsIn entries ↔
      scan.Selects (.directory entries) names := by
  -- by induction on the location: its first name is that of an entry, and the rest lies below it
  induction names generalizing entries with
  | nil =>
    -- the directory itself is no file
    refine iff_of_false nil_not_mem_locationsIn ?_
    rintro ⟨⟨text, hfile⟩, -⟩
    exact absurd hfile (by simp [FileNode.at?])
  | cons name rest ih =>
    rw [cons_mem_locationsIn_iff h]
    cases rest with
    | nil =>
      simp only [singleton_mem_locationsAt_iff, ScanSettings.selects_singleton,
        isMatch_ofSettings_iff]
      constructor
      · rintro ⟨node, hchild, ⟨text, rfl⟩, hextension⟩
        exact ⟨⟨text, hchild⟩, hextension⟩
      · rintro ⟨⟨text, hchild⟩, hextension⟩
        exact ⟨_, hchild, ⟨text, rfl⟩, hextension⟩
    | cons next rest =>
      simp only [cons_cons_mem_locationsAt_iff, ScanSettings.selects_cons_cons]
      constructor
      · rintro ⟨node, hchild, hname, entries', rfl, hbelow⟩
        exact ⟨hname, _, hchild, (ih (h.of_child? hchild).2).mp hbelow⟩
      · rintro ⟨hname, child, hchild, hbelow⟩
        -- there is a file below the entry, so the entry is a directory
        obtain ⟨entries', _, rfl, -⟩ := FileNode.at?_cons_eq_some hbelow.isFile.choose_spec
        exact ⟨_, hchild, hname, entries', rfl, (ih (h.of_child? hchild).2).mpr hbelow⟩

/-- What is found lies below the directory, at a location of plain names. -/
theorem isPlain_of_mem_locationsIn {sizes : SizeReader} {scan : ScanSettings}
    {usage : UsageSettings} (h : (FileNode.directory entries).IsOrderly)
    (hmem : names ∈ (ofSettings sizes scan usage).locationsIn entries) :
    names ≠ [] ∧ ∀ name ∈ names, IsPlain name := by
  obtain ⟨text, htext⟩ := ((mem_locationsIn_iff h).mp hmem).isFile
  refine ⟨fun hnil => nil_not_mem_locationsIn (hnil ▸ hmem), fun name hname => ?_⟩
  exact ((h.of_at? htext).1 name hname).toIsPlain

/-! ## The order -/

/-- The locations are in order if the entries are, and the locations at each of them. -/
private theorem pairwise_locationsIn_of_locationsAt
    (horder : entries.Pairwise fun a b => a.1.Before b.1)
    (h : ∀ e ∈ entries, (c.locationsAt e.1 e.2).Pairwise Path.Before) :
    (c.locationsIn entries).Pairwise Path.Before := by
  induction entries with
  | nil => exact List.Pairwise.nil
  | cons e more ih =>
    obtain ⟨he, hmore⟩ := List.forall_mem_cons.mp h
    obtain ⟨hbefore, horder⟩ := List.pairwise_cons.mp horder
    rw [locationsIn]
    refine List.pairwise_append.mpr ⟨he, ih horder hmore, fun a ha b hb => ?_⟩
    -- the names of the two entries decide
    obtain ⟨e', he', hb⟩ := mem_locationsIn.mp hb
    obtain ⟨_, rfl⟩ := exists_cons_of_mem_locationsAt ha
    obtain ⟨_, rfl⟩ := exists_cons_of_mem_locationsAt hb
    exact List.Lex.rel (hbefore e' he')

/-- The locations at a node of an orderly tree are in order. -/
theorem pairwise_locationsAt {node : FileNode} (h : node.IsOrderly) (name : Text) :
    (c.locationsAt name node).Pairwise Path.Before := by
  induction h generalizing name with
  | file =>
    rw [locationsAt]
    split <;> simp
  | link => exact List.Pairwise.nil
  | directory _ horder _ ih =>
    rw [locationsAt]
    split
    · exact List.Pairwise.nil
    · -- the locations below a directory share its name, so the rest of them decides
      rw [List.pairwise_map]
      exact (pairwise_locationsIn_of_locationsAt horder fun e he => ih e he e.1).imp List.Lex.cons

/-- The locations are found in their order. -/
theorem pairwise_locationsIn (h : (FileNode.directory entries).IsOrderly) :
    (c.locationsIn entries).Pairwise Path.Before := by
  obtain ⟨-, horder, hbelow⟩ := FileNode.isOrderly_directory_iff.mp h
  exact pairwise_locationsIn_of_locationsAt horder fun e he => pairwise_locationsAt (hbelow e he) _

/-- Locations that are in order are distinct. -/
theorem nodup_of_pairwise_before {found : List (List Text)} (h : found.Pairwise Path.Before) :
    found.Nodup := by
  refine h.imp ?_
  rintro a _ hbefore rfl
  exact Path.Before.irrefl a hbefore

/-! ## Reading what was found -/

/-- A file is known by its location below the directory that it is read from. -/
theorem read_below (hfs : fs.root.IsOrderly) {components base : List Text} {here : FileNode}
    {home text : Text} (hcomponents : ∀ name ∈ components, IsPlain name)
    (hhere : fs.LeadsTo (ofComponents true components) base here)
    (habsolute : Path.isAbsolute home = true) (hhome : fs.LeadsTo home base here)
    (hne : names ≠ []) (htext : here.at? names = some (.file text)) :
    c.read fs (ofComponents true (components ++ names)) home =
      if 0 < c.maxSize ∧ c.maxSize < text.length then .error (.tooLarge text.length)
      else .ok ⟨ofComponents true (components ++ names), Text.join [Path.slash] names,
        c.kindOf (ofComponents true (components ++ names)), text⟩ := by
  have hfile := FileSystem.LeadsTo.below hfs hcomponents hhere htext (by simp)
  have hnode := FileSystem.node_of_place hfile
  obtain ⟨hnames, -⟩ := (hfs.of_at? hhere.at?).2.of_at? htext
  have hrelative : fs.displayPath home (ofComponents true (components ++ names)) =
      Text.join [Path.slash] names := by
    rw [FileSystem.displayPath, FileSystem.relativeTo?,
      FileSystem.realPath_of_leadsTo hfs habsolute hhome,
      FileSystem.realPath_of_leadsTo hfs (Path.isAbsolute_ofComponents _) hfile,
      Path.relative?_below (hhere.isPlain hfs)
        (fun name hname => (hnames name hname).toIsPlain) hne]
    rfl
  rw [read, FileSystem.stat, hnode, FileSystem.content, hnode, hrelative]
  simp only [sizeOf, gt_iff_lt, Bool.and_eq_true, decide_eq_true_eq]

/-! ## The source files of a project -/

/-- The source files of a project are the files that the settings ask for, each once and in the
order of their locations. Read from an absolute path that leads to the project, a file that is not
too large is known by its location, so no two of them are known by one name. -/
theorem collect_eq_selected (hfs : fs.IsOrderly) (sizes : SizeReader) (scan : ScanSettings)
    (usage : UsageSettings) {root : Text}
    (hroot : fs.node false (rootOf fs root) = .ok (.directory entries)) :
    ∃ found : List (List Text),
      (ofSettings sizes scan usage).collect fs false root =
        .ok (found.map (Path.below (rootOf fs root))) ∧
      (∀ names, names ∈ found ↔ scan.Selects (.directory entries) names) ∧
      found.Pairwise Path.Before ∧
      (found.map (Path.below (rootOf fs root))).Nodup ∧
      (found.map (Text.join [Path.slash])).Nodup ∧
      ∀ home, Path.isAbsolute home = true → fs.place true home = fs.place true (rootOf fs root) →
        ∀ names ∈ found, ∀ text, (FileNode.directory entries).at? names = some (.file text) →
          (ofSettings sizes scan usage).read fs (Path.below (rootOf fs root) names) home =
            if 0 < (ofSettings sizes scan usage).maxSize ∧
                (ofSettings sizes scan usage).maxSize < text.length then
              .error (.tooLarge text.length)
            else
              .ok ⟨Path.below (rootOf fs root) names, Text.join [Path.slash] names,
                (ofSettings sizes scan usage).kindOf (Path.below (rootOf fs root) names),
                text⟩ := by
  obtain ⟨components, hcomponents, hrootOf⟩ :
      ∃ components, (∀ name ∈ components, IsPlain name) ∧
        rootOf fs root = ofComponents true components :=
    Path.exists_components_absolute hfs.current root
  obtain ⟨location, hplace⟩ := FileSystem.exists_place_of_node hroot
  have hlead := FileSystem.place_follow (by simp) hplace
  have hhere : fs.LeadsTo (rootOf fs root) location.reverse (.directory entries) := by
    rw [FileSystem.LeadsTo, List.reverse_reverse]
    exact hlead
  have horderly := (hfs.root.of_at? hhere.at?).2
  have hplain : ∀ names ∈ (ofSettings sizes scan usage).locationsIn entries,
      names ≠ [] ∧ ∀ name ∈ names, IsPlain name :=
    fun names => isPlain_of_mem_locationsIn horderly
  have hbelow : ∀ names ∈ (ofSettings sizes scan usage).locationsIn entries,
      Path.below (rootOf fs root) names = ofComponents true (components ++ names) := by
    intro names hnames
    rw [hrootOf, Path.below_ofComponents hcomponents (hplain names hnames).2
      (hplain names hnames).1]
  have hnodup : ((ofSettings sizes scan usage).locationsIn entries).Nodup :=
    nodup_of_pairwise_before (pairwise_locationsIn horderly)
  refine ⟨(ofSettings sizes scan usage).locationsIn entries, ?_,
    fun names => mem_locationsIn_iff horderly, pairwise_locationsIn horderly, ?_,
    Path.nodup_map_join hplain hnodup, ?_⟩
  · -- the root is a directory and no link, so the search enters it
    rw [collect_eq_ok_iff]
    refine ⟨?_, by simp⟩
    rw [walk_of_place hlead, hroot, List.map_congr_left hbelow, hrootOf]
    exact congrArg Except.ok (filesIn_eq_map horderly hcomponents)
  · rw [hrootOf]
    exact Path.nodup_map_below hcomponents hplain hnodup
  · -- through whatever links `home` leads there, the files are found below the same location
    intro home habsolute hhome names hnames text htext
    have hhome' : fs.LeadsTo home location.reverse (.directory entries) := hhome.trans hhere
    rw [hbelow names hnames]
    rw [hrootOf] at hhere
    exact read_below hfs.root hcomponents hhere habsolute hhome' (hplain names hnames).1 htext

/-- The entries of a project with a link and with an ignored directory in it. -/
def linkedEntries : List (Text × FileNode) :=
  [("B.JS", .file "b"),
   ("a", .directory [("x.js", .file "x")]),
   ("a-b.js", .file ""),
   ("l.js", .link "a-b.js"),
   ("node_modules", .directory [("m.js", .file "")])]

/-- That project below the current directory, and a link to it. -/
def linkedProject : FileSystem :=
  ⟨.directory
    [("home", .directory [("p", .directory linkedEntries)]), ("link", .link "/home/p")], "/home"⟩

/-- A source with its extension in capitals is found, what lies in an ignored directory or is a link
is not. Read through a link to the project, a source has its path below the project. -/
theorem collect_eq_selected_sample :
    linkedProject.IsOrderly ∧
    ∃ found : List (List Text),
      (ofSettings Size.parse (Config.default 1).scan (Config.default 1).usage).collect
          linkedProject false "p" = .ok (found.map (Path.below (rootOf linkedProject "p"))) ∧
      [("a" : Text), "x.js"] ∈ found ∧ [("B.JS" : Text)] ∈ found ∧
      [("node_modules" : Text), "m.js"] ∉ found ∧ [("l.js" : Text)] ∉ found ∧
      ((ofSettings Size.parse (Config.default 1).scan (Config.default 1).usage).read linkedProject
        (Path.below (rootOf linkedProject "p") ["a", "x.js"]) "/link").toOption.map (·.relative) =
          some "a/x.js" := by
  have hfs : linkedProject.IsOrderly := ⟨by decide, rfl⟩
  have hroot : linkedProject.node false (rootOf linkedProject "p") =
      .ok (.directory linkedEntries) := rfl
  obtain ⟨found, hcollect, hfound, -, -, -, hread⟩ :=
    collect_eq_selected hfs Size.parse (Config.default 1).scan (Config.default 1).usage hroot
  have hx : [("a" : Text), "x.js"] ∈ found :=
    (hfound _).mpr ⟨⟨"x", rfl⟩, by decide, by decide⟩
  refine ⟨hfs, found, hcollect, hx, (hfound _).mpr ⟨⟨"b", rfl⟩, by decide, by decide⟩, ?_, ?_, ?_⟩
  · intro hm
    exact absurd ((hfound _).mp hm).entered (by decide)
  · intro hl
    obtain ⟨text, htext⟩ := ((hfound _).mp hl).isFile
    have hlink : some (FileNode.link "a-b.js") = some (.file text) := htext
    exact absurd hlink (by simp)
  · rw [hread "/link" rfl rfl _ hx "x" rfl]
    decide +kernel

/-- Read from a relative path of the project, a file is known by its whole path. -/
theorem relative_root_names_no_location :
    linkedProject.IsOrderly ∧
    (∃ entries, linkedProject.node false "p" = .ok (.directory entries)) ∧
    ((ofSettings Size.parse (Config.default 1).scan (Config.default 1).usage).collect
      linkedProject false "p").toOption =
        some [("/home/p/B.JS" : Text), "/home/p/a/x.js", "/home/p/a-b.js"] ∧
    ¬ ((ofSettings Size.parse (Config.default 1).scan (Config.default 1).usage).read linkedProject
      "/home/p/a/x.js" "p").toOption.map (·.relative) =
        some (Text.join [Path.slash] ["a", "x.js"]) := by
  refine ⟨⟨by decide, rfl⟩, ⟨_, rfl⟩, ?_, ?_⟩
  · decide +kernel
  · have hwhole : ((ofSettings Size.parse (Config.default 1).scan (Config.default 1).usage).read
        linkedProject "/home/p/a/x.js" "p").toOption.map (·.relative) =
          some ("/home/p/a/x.js" : Text) := by
      decide +kernel
    rw [hwhole]
    decide

end Collector

end DependencyAudit
