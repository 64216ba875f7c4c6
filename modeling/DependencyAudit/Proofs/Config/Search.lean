import DependencyAudit.Config.Load
import DependencyAudit.Config.Search
import DependencyAudit.Proofs.Path
import DependencyAudit.Proofs.Text.Split

/-!
# Where settings files are found

A path without a dollar sign refers to no variable, so the directory of the settings of a project is
searched itself. What is found is the file with the preferred extension, if there is one, and else
another file of the directory that is searched.

## Main results

* `SearchPath.place_directory`: which directory is searched for the settings of a project;
* `SearchPath.find?_of_content`, `SearchPath.exists_of_find?`: what is found there.
-/

namespace DependencyAudit

namespace Path

/-- Cleaning adds no pieces to the components so far. -/
theorem mem_of_mem_cleanStep {absolute : Bool} {done : List Text} {piece name : Text}
    (h : name ∈ cleanStep absolute done piece) : name = piece ∨ name ∈ done := by
  unfold cleanStep at h
  split at h
  · exact .inr h
  · split at h
    · cases done with
      | nil =>
        cases absolute with
        | false => exact .inl (List.mem_singleton.mp h)
        | true => cases h
      | cons last before =>
        dsimp only at h
        split at h
        · exact List.mem_cons.mp h
        · exact .inr (List.mem_cons_of_mem _ h)
    · exact List.mem_cons.mp h

/-- Every component of a path is one of its pieces. -/
theorem mem_pieces_of_mem_components {path name : Text} (h : name ∈ components path) :
    name ∈ pieces path := by
  have hfold : ∀ (ps done : List Text), name ∈ ps.foldl (cleanStep (isAbsolute path)) done →
      name ∈ ps ∨ name ∈ done := by
    intro ps
    induction ps with
    | nil => exact fun _ hdone => .inr hdone
    | cons piece more ih =>
      intro done hname
      rcases ih _ hname with hmore | hstep
      · exact .inl (List.mem_cons_of_mem _ hmore)
      · rcases mem_of_mem_cleanStep hstep with rfl | hdone
        · exact .inl List.mem_cons_self
        · exact .inr hdone
  rw [components, List.mem_reverse] at h
  exact (hfold _ [] h).resolve_right List.not_mem_nil

/-- The bytes of joined names are separators and bytes of the names. -/
theorem mem_of_mem_join {names : List Text} {b : UInt8} (h : b ∈ Text.join [slash] names) :
    b = slash ∨ ∃ name ∈ names, b ∈ name := by
  fun_induction Text.join [slash] names with
  | case1 => cases h
  | case2 piece => exact .inr ⟨piece, List.mem_cons_self, h⟩
  | case3 piece more _ ih =>
    rcases List.mem_append.mp h with hfront | hmore
    · rcases List.mem_append.mp hfront with hpiece | hslash
      · exact .inr ⟨piece, List.mem_cons_self, hpiece⟩
      · exact .inl (List.mem_singleton.mp hslash)
    · obtain hslash | ⟨name, hname, hin⟩ := ih hmore
      · exact .inl hslash
      · exact .inr ⟨name, List.mem_cons_of_mem _ hname, hin⟩

/-- The bytes of a cleaned absolute path are bytes of the path. -/
theorem mem_of_mem_clean {path : Text} {b : UInt8} (habsolute : isAbsolute path = true)
    (h : b ∈ clean path) : b = slash ∨ b ∈ path := by
  rw [clean_of_isAbsolute habsolute, ofComponents, if_pos rfl] at h
  rcases List.mem_cons.mp h with hslash | hb
  · exact .inl hslash
  · obtain hslash | ⟨name, hname, hin⟩ := mem_of_mem_join hb
    · exact .inl hslash
    · -- a component is a piece of the path
      exact .inr (Text.mem_of_mem_splitOnByte (mem_pieces_of_mem_components hname) hin)

end Path

namespace SearchPath

variable {environment : Environment} {fs : FileSystem}

/-- A text without dollar signs refers to no variables. -/
theorem expand_of_not_mem {text : Text} (h : Ascii.dollar ∉ text) :
    expand environment text = text := by
  unfold expand
  induction text with
  | nil => rfl
  | cons b more ih =>
    have hb : b ≠ Ascii.dollar := fun heq => h (heq ▸ List.mem_cons_self)
    rw [expandFrom]
    simp [hb, ih fun hmem => h (List.mem_cons_of_mem _ hmem)]

/-- The home directory has to be referred to as well. -/
theorem expandHome_of_not_mem {path : Text} (h : Ascii.dollar ∉ path) :
    expandHome environment path = path := by
  have hhome : path ≠ Text.ofString "$HOME" := fun heq => h (heq ▸ by decide)
  have hbelow : ¬path.startsWith "$HOME/" = true := by
    intro hstarts
    obtain ⟨rest, rfl⟩ := List.isPrefixOf_iff_prefix.mp hstarts
    exact h (List.mem_append_left _ (by decide))
  simp [expandHome, hhome, hbelow]

/-- A cleaned path without dollar signs is searched as it stands. -/
theorem place_clean {path : Text} (habsolute : Path.isAbsolute path = true)
    (h : Ascii.dollar ∉ path) : place fs environment (Path.clean path) = Path.clean path := by
  have hclean : Ascii.dollar ∉ Path.clean path := fun hmem =>
    (Path.mem_of_mem_clean habsolute hmem).elim (by decide) h
  rw [place, expandHome_of_not_mem hclean, expand_of_not_mem hclean, Path.absolute,
    if_pos (Path.isAbsolute_clean habsolute), Path.clean_clean habsolute]

/-- The directory of the settings of a project is searched itself, unless the path of the project
holds a dollar sign. -/
theorem place_directory {root : Text} (habsolute : Path.isAbsolute root = true)
    (h : Ascii.dollar ∉ root) :
    place fs environment (Config.directory root) = Config.directory root := by
  rw [Config.directory, Path.join_of_isAbsolute habsolute]
  refine place_clean (Path.isAbsolute_append habsolute _) fun hmem => ?_
  exact (List.mem_append.mp hmem).elim h (by decide)

/-- The file with the preferred extension is found if it has content. -/
theorem find?_of_content {directory name text : Text}
    (h : fs.content (Path.join (place fs environment directory) (name ++ Text.ofString ".json")) =
      .ok text) :
    find? fs environment directory name =
      some (Path.join (place fs environment directory) (name ++ Text.ofString ".json")) := by
  -- it is the first of the names that are tried
  have hnames : fileNames name = (name ++ Text.ofString ".json") :: (fileNames name).tail := by
    simp [fileNames, extensions, Text.concat]
    rfl
  obtain ⟨node, hstat, hfile⟩ : ∃ node, fs.stat (Path.join (place fs environment directory)
      (name ++ Text.ofString ".json")) = .ok node ∧ node.isFile = true := by
    unfold FileSystem.content at h
    split at h
    · rename_i hnode
      rw [FileSystem.stat, hnode]
      exact ⟨_, rfl, rfl⟩
    · cases h
    · cases h
  rw [find?, hnames, List.map_cons]
  refine List.find?_cons_of_pos ?_
  rw [hstat]
  exact hfile

/-- What is found lies in the directory that is searched, and it has the name that is asked for, up
to an extension. -/
theorem exists_of_find? {directory name path : Text} (hletters : name.all Text.isLetter = true)
    (h : find? fs environment directory name = some path) :
    ∃ entry node, name <+: entry ∧ Path.slash ∉ entry ∧
      path = Path.join (place fs environment directory) entry ∧ fs.stat path = .ok node := by
  obtain ⟨entry, hentry, rfl⟩ := List.mem_map.mp (List.mem_of_find?_eq_some h)
  have hslash : Path.slash ∉ name := fun hmem =>
    absurd (List.all_eq_true.mp hletters _ hmem) (by decide)
  have hname : name <+: entry ∧ Path.slash ∉ entry := by
    -- the name stands with an extension, or alone
    rcases List.mem_append.mp hentry with hext | hlast
    · obtain ⟨ext, hmem, rfl⟩ := List.mem_map.mp hext
      have hplain : ∀ ext ∈ extensions, Path.slash ∉ Text.ofString "." ++ ext := by decide
      have hconcat : Text.concat [name, ".", ext] = name ++ (Text.ofString "." ++ ext) := by
        simp [Text.concat]
      rw [hconcat]
      exact ⟨⟨_, rfl⟩, fun hin => (List.mem_append.mp hin).elim hslash (hplain ext hmem)⟩
    · rw [List.mem_singleton.mp hlast]
      exact ⟨List.prefix_rfl, hslash⟩
  have hfound := List.find?_some h
  split at hfound
  · exact ⟨entry, _, hname.1, hname.2, rfl, ‹_›⟩
  · cases hfound

end SearchPath

end DependencyAudit
