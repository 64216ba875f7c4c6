import DependencyAudit.CommandLine.Session
import DependencyAudit.Proofs.FileSystem.Confine
import DependencyAudit.Proofs.Removal.Outcome

/-!
# Manifests and keep lists inside the project

The settings name the manifest and the keep list of a project. No file outside of the project is
read or edited through them: whatever is written into such a file, the same manifest and the same
keep list are loaded, and when the manifest is saved, every file outside is as it was before.

A package manager can do to the files what it likes. Whether a path leads out of the project is
looked at before it runs, and the manifest is loaded and saved once more under the same path when
it has ended. If it has turned the manifest into a link that leads out of the project, the file
behind the link is read and edited.

## Main definitions

* `FileSystem.LeadsInto`: a path leads into a directory, if it leads anywhere;
* `LogFile.SameOutside`: apart from the log file, nothing has changed outside of a directory;
* `Removal.StaysInside`: a removal neither reads nor edits a file outside of a directory.

## Main results

* `Session.loadManifest_withFile` and `Session.loadKeepList_withFile`: what is not read;
* `ManifestFile.sameOutside_save`: what is not edited;
* `Removal.pruneLeftovers_withFile` and `Removal.sameOutside_pruneLeftovers`: the same after a
  package manager has run;
* `Session.settings_confined_to_root`: no file outside of the project is read or edited, unless a
  package manager leads the manifest out of it.
-/

namespace DependencyAudit

variable {fs fs' : FileSystem} {root path : Text} {base : List Text} {here : FileNode}

/-! ## Reading -/

/-- The same keep list is read where the same content is found. -/
theorem KeepList.read_congr (h : fs'.content path = fs.content path) :
    read fs' path = read fs path := by
  rw [read, read, h]

namespace Session

variable {outside : List Text} {old : Text}

/-- A file outside of the root is not read as the manifest. -/
theorem loadManifest_withFile (hfs : fs.root.IsOrderly) (habsolute : Path.isAbsolute root = true)
    (hroot : fs.LeadsTo root base here) (c : Config) (text : Text)
    (hold : fs.root.at? outside = some (.file old)) (houtside : ¬ base <+: outside) :
    loadManifest (fs.withFile outside.reverse text) root c = loadManifest fs root c := by
  have hconfine := FileSystem.confine_of_sameShape (FileSystem.sameShape_withFile text hold) rfl
    root c.manifest.path
  rw [loadManifest, loadManifest, hconfine]
  cases hpath : fs.confine root c.manifest.path with
  | error f => rfl
  | ok path =>
    exact ManifestFile.load_congr
      (FileSystem.content_withFile_of_confine hfs habsolute hroot text hold houtside hpath)

/-- A file outside of the root is not read as the keep list. -/
theorem loadKeepList_withFile (hfs : fs.root.IsOrderly) (habsolute : Path.isAbsolute root = true)
    (hroot : fs.LeadsTo root base here) (c : Config) (text : Text)
    (hold : fs.root.at? outside = some (.file old)) (houtside : ¬ base <+: outside) :
    loadKeepList (fs.withFile outside.reverse text) root c = loadKeepList fs root c := by
  have hshape := FileSystem.sameShape_withFile text hold
  have hload : ∀ name, KeepList.load (fs.withFile outside.reverse text) root name =
      KeepList.load fs root name := by
    intro name
    rw [KeepList.load, KeepList.load, FileSystem.confine_of_sameShape hshape rfl]
    split
    · rfl
    · rename_i path hpath
      have hread := KeepList.read_congr
        (FileSystem.content_withFile_of_confine hfs habsolute hroot text hold houtside hpath)
      rw [FileSystem.stat, FileSystem.stat, hread]
      -- the file is missing in both file systems or in none
      obtain ⟨refusal, herror, herror'⟩ | ⟨node, node', hnode, hnode', -⟩ :=
        FileSystem.node_cases hshape rfl true path
      · rw [herror, herror']
      · rw [hnode, hnode']
  rw [loadKeepList, loadKeepList, hload]

end Session

/-! ## Editing -/

/-- The path leads into the directory, if it leads anywhere. -/
def FileSystem.LeadsInto (fs : FileSystem) (path : Text) (base : List Text) : Prop :=
  ∀ place node, fs.LeadsTo path place node → base <+: place

/-- What a path leads into depends on the shape of the tree only. -/
theorem FileSystem.LeadsInto.of_sameShape (h : fs.LeadsInto path base)
    (hshape : fs.root.SameShape fs'.root) (hcurrent : fs'.current = fs.current) :
    fs'.LeadsInto path base := by
  intro place node hlead
  have hlocate := locate?_of_sameShape hshape hcurrent path
  obtain ⟨node', hlead'⟩ := locate?_eq_some_iff.mp
    (hlocate.symm.trans (locate?_eq_some_iff.mpr ⟨node, hlead⟩))
  exact h place node' hlead'

/-- Saving a manifest changes no file outside of the directory that it lies in. -/
theorem ManifestFile.sameOutside_save {m : ManifestFile} {names : List Text}
    (hpath : fs.LeadsInto m.path base) (h : m.save fs names = .ok fs') :
    FileSystem.SameOutside base fs fs' := by
  obtain ⟨text, node, -, hstat, hwrite⟩ := save_eq_ok h
  exact FileSystem.sameOutside_replaceContent hstat hpath hwrite

/-- Whether a file is found, and why not, depends on the shape of the tree only. -/
theorem FileSystem.map_stat_of_sameShape (hshape : fs.root.SameShape fs'.root)
    (hcurrent : fs'.current = fs.current) (path : Text) :
    (fs'.stat path).map (fun _ => ()) = (fs.stat path).map fun _ => () := by
  obtain ⟨refusal, herror, herror'⟩ | ⟨node, node', hnode, hnode', -⟩ :=
    node_cases hshape hcurrent true path
  · rw [stat, stat, herror, herror']
  · rw [stat, stat, hnode, hnode']
    rfl

/-- Whether a file can be written, and why not, depends on the shape of the tree only. -/
theorem FileSystem.map_replaceContent_of_sameShape (hshape : fs.root.SameShape fs'.root)
    (hcurrent : fs'.current = fs.current) (path text : Text) :
    (fs'.replaceContent path text).map (fun _ => ()) =
      (fs.replaceContent path text).map fun _ => () := by
  have halike := place_alike hshape hcurrent true path
  unfold replaceContent editContent
  cases hplace : fs.place true path <;> cases hplace' : fs'.place true path <;>
    rw [hplace, hplace'] at halike <;> cases halike
  · rfl
  · rfl
  · rename_i hkind
    obtain ⟨_, _, rfl, rfl⟩ | ⟨_, rfl, rfl⟩ | ⟨_, _, rfl, rfl⟩ := hkind.cases <;> rfl

/-- Whether a manifest can be saved, and why not, depends on the shape of the tree only. -/
theorem ManifestFile.map_save_of_sameShape (m : ManifestFile) (names : List Text)
    (hshape : fs.root.SameShape fs'.root) (hcurrent : fs'.current = fs.current) :
    (m.save fs' names).map (fun _ => ()) = (m.save fs names).map fun _ => () := by
  unfold save
  split
  · rfl
  rename_i text htext
  have hstat := FileSystem.map_stat_of_sameShape hshape hcurrent m.path
  have hwrite := FileSystem.map_replaceContent_of_sameShape hshape hcurrent m.path text
  cases h₁ : fs.stat m.path <;> cases h₁' : fs'.stat m.path <;> rw [h₁, h₁'] at hstat <;>
    cases hstat
  · rfl
  cases h₂ : fs.replaceContent m.path text <;> cases h₂' : fs'.replaceContent m.path text <;>
    rw [h₂, h₂'] at hwrite <;> cases hwrite <;> rfl

/-- Apart from the log file, there are the same files outside of the directory, with the same
contents. -/
def LogFile.SameOutside (l : LogFile) (base : List Text) (fs fs' : FileSystem) : Prop :=
  ∀ location text, ¬ base <+: location → l.location? ≠ some location.reverse →
    (fs'.root.at? location = some (.file text) ↔ fs.root.at? location = some (.file text))

namespace LogFile

variable {l : LogFile} {base : List Text} {fs fs' fs'' : FileSystem}

theorem SameOutside.refl (l : LogFile) (base : List Text) (fs : FileSystem) :
    l.SameOutside base fs fs :=
  fun _ _ _ _ => Iff.rfl

/-- What has changed nothing outside has not changed the log file either. -/
theorem SameOutside.trans (h : l.SameOutside base fs fs')
    (h' : FileSystem.SameOutside base fs' fs'') : l.SameOutside base fs fs'' :=
  fun location text houtside hlog =>
    (h' location text houtside).trans (h location text houtside hlog)

/-- Logging changes the log file only. -/
theorem sameOutside_write (l : LogFile) (base : List Text) (fs : FileSystem) (r : LogRecord) :
    l.SameOutside base fs (l.write fs r) := by
  intro location text _ hlog
  unfold write
  split
  · rename_i here hhere
    obtain ⟨hsame, -⟩ | ⟨old, hold, hchanged⟩ := fs.appendAt_cases here (handler.write r)
    · rw [hsame]
    · rw [hchanged]
      refine FileNode.at?_put_file_iff hold ?_
      rintro rfl
      exact hlog (by rw [List.reverse_reverse, hhere])
  · rfl

end LogFile

/-! ## Removals -/

namespace Removal

variable {log : LogFile} {time : Option Int} {pm : PackageManager} {names : List Text}
  {outside : List Text} {old : Text}

/-- A file outside is not read when the leftovers are pruned. -/
theorem pruneLeftovers_withFile (log : LogFile) (time : Option Int) (targets : List Text)
    (hinside : fs.LeadsInto path base) (text : Text)
    (hold : fs.root.at? outside = some (.file old)) (houtside : ¬ base <+: outside) :
    (pruneLeftovers log time (fs.withFile outside.reverse text) path targets).2 =
      (pruneLeftovers log time fs path targets).2 := by
  have hload : ManifestFile.load (fs.withFile outside.reverse text) path =
      ManifestFile.load fs path := by
    refine ManifestFile.load_congr (FileSystem.content_withFile_of_ne text hold ?_)
    rintro place node hplace rfl
    exact houtside (hinside _ _ hplace)
  unfold pruneLeftovers
  rw [hload]
  cases ManifestFile.load fs path with
  | error f => rfl
  | ok after =>
    dsimp only
    split
    · rfl
    -- the two trees have the same shape, before and after the record is logged
    have hshape : (log.write fs ⟨.debug, "Pruning manifest entries", time,
          [("packages", .texts (targets.filter after.manifest.has))]⟩).root.SameShape
        (log.write (fs.withFile outside.reverse text) ⟨.debug, "Pruning manifest entries", time,
          [("packages", .texts (targets.filter after.manifest.has))]⟩).root :=
      (LogFile.sameShape_write _ _ _).symm.trans
        ((FileSystem.sameShape_withFile text hold).trans (LogFile.sameShape_write _ _ _))
    have hsave := after.map_save_of_sameShape (targets.filter after.manifest.has) hshape
      (by rw [LogFile.current_write, LogFile.current_write]; rfl)
    generalize after.save (log.write fs _) (targets.filter after.manifest.has) = saved at hsave ⊢
    generalize after.save (log.write (fs.withFile outside.reverse text) _)
      (targets.filter after.manifest.has) = saved' at hsave ⊢
    cases saved <;> cases saved' <;> cases hsave <;> rfl

/-- A file outside is not edited when the leftovers are pruned. -/
theorem sameOutside_pruneLeftovers (log : LogFile) (time : Option Int) (targets : List Text)
    (hinside : fs.LeadsInto path base) :
    log.SameOutside base fs (pruneLeftovers log time fs path targets).1 := by
  unfold pruneLeftovers
  split
  · exact .refl log base fs
  rename_i after hload
  obtain ⟨-, -, -, rfl⟩ := ManifestFile.load_eq_ok_iff.mp hload
  dsimp only
  split
  · exact .refl log base fs
  have hlogged := log.sameOutside_write base fs ⟨.debug, "Pruning manifest entries", time,
    [("packages", .texts (targets.filter after.manifest.has))]⟩
  split
  · exact hlogged
  · rename_i fs' hsave
    refine hlogged.trans (ManifestFile.sameOutside_save ?_ hsave)
    exact hinside.of_sameShape (LogFile.sameShape_write _ _ _) (LogFile.current_write _ _ _)

/-- What the package manager is asked for depends on the manifest only. -/
theorem call_congr (h : ManifestFile.load fs' path = ManifestFile.load fs path) :
    (runLogging log time pm fs' path names).call = (runLogging log time pm fs path names).call := by
  cases hload : ManifestFile.load fs path with
  | error f =>
    unfold runLogging
    rw [h, hload]
  | ok m => rw [call_of_load (h.trans hload), call_of_load hload]

/-- What a removal does after it has asked the package manager. -/
theorem runLogging_of_call {call : UninstallCall}
    (h : (runLogging log time pm fs path names).call = some call) :
    runLogging log time pm fs path names =
      let done := answer log time pm fs call
      let later := log.follow done.moved
      match done.failure with
      | some f =>
        let stop : LogRecord := ⟨.error, "Uninstall failed; manifest left untouched", time,
          [("error", .text f.message)]⟩
        ⟨later.write done.files stop, [announcement time pm call.names, stop], some call,
          done.command, .error (.coded .removal
            (Text.concat [pm.name, " could not remove ", Text.join ", " call.names]) path
            (some f))⟩
      | none =>
        let (files, notes, outcome) := pruneLeftovers later time done.files path call.names
        ⟨files, announcement time pm call.names :: notes, some call, done.command, outcome⟩ := by
  -- what is asked for are the names that the manifest declares, and there are some
  obtain ⟨m, hload, rfl⟩ := call_eq_some h
  rw [call_of_load hload] at h
  split at h
  · exact absurd h (by simp)
  rename_i hsome
  rw [runLogging, hload]
  exact if_neg hsome

/-- The package manager has succeeded and has led the manifest out of the directory. -/
def LedOut (base : List Text) (path : Text) (done : Uninstallation) : Prop :=
  done.failure = none ∧ ¬ done.files.LeadsInto path base

/-- The removal neither reads nor edits a file outside of the directory, unless the package manager
leads the manifest out. What the package manager does itself is its own affair. -/
structure StaysInside (base : List Text) (log : LogFile) (time : Option Int) (pm : PackageManager)
    (fs : FileSystem) (path : Text) (names : List Text) : Prop where
  /-- What a file outside holds makes no difference to what the package manager is asked for. -/
  call : ∀ outside old text, fs.root.at? outside = some (.file old) → ¬ base <+: outside →
    (runLogging log time pm (fs.withFile outside.reverse text) path names).call =
      (runLogging log time pm fs path names).call
  /-- If the package manager is not asked, only the log file changes. -/
  files_of_not_asked : (runLogging log time pm fs path names).call = none →
    (runLogging log time pm fs path names).files =
      log.writeAll fs (runLogging log time pm fs path names).log
  /-- If it is asked, the files outside stay as it leaves them. -/
  files_of_asked : ∀ call, (runLogging log time pm fs path names).call = some call →
    ¬ LedOut base path (answer log time pm fs call) →
    (log.follow (answer log time pm fs call).moved).SameOutside base
      (answer log time pm fs call).files (runLogging log time pm fs path names).files
  /-- What it leaves in a file outside makes no difference to what the removal does then. -/
  outcome : ∀ call outside old text pm', (runLogging log time pm fs path names).call = some call →
    ¬ LedOut base path (answer log time pm fs call) →
    (answer log time pm fs call).files.root.at? outside = some (.file old) → ¬ base <+: outside →
    pm'.name = pm.name →
    answer log time pm' fs call = { answer log time pm fs call with
      files := (answer log time pm fs call).files.withFile outside.reverse text } →
    (runLogging log time pm' fs path names).log = (runLogging log time pm fs path names).log ∧
      (runLogging log time pm' fs path names).outcome =
        (runLogging log time pm fs path names).outcome

/-- A removal stays inside if the manifest is inside when the removal begins. -/
theorem staysInside (log : LogFile) (time : Option Int) (pm : PackageManager) (names : List Text)
    (h : fs.LeadsInto path base) : StaysInside base log time pm fs path names := by
  refine ⟨?_, files_of_call_eq_none, ?_, ?_⟩
  · intro outside old text hold houtside
    refine call_congr (ManifestFile.load_congr (FileSystem.content_withFile_of_ne text hold ?_))
    rintro place node hplace rfl
    exact houtside (h _ _ hplace)
  · intro call hcall hinside
    rw [runLogging_of_call hcall]
    dsimp only
    -- if the package manager fails, there is one more record, and else the leftovers are pruned
    cases hfailure : (answer log time pm fs call).failure with
    | some f => exact LogFile.sameOutside_write _ _ _ _
    | none =>
      exact sameOutside_pruneLeftovers _ _ _ (not_not.mp fun hout => hinside ⟨hfailure, hout⟩)
  · intro call outside old text pm' hcall hinside hold houtside hname hanswer
    -- the other package manager is asked for the same, since the manifest is the same
    have hcall' : (runLogging log time pm' fs path names).call = some call := by
      obtain ⟨m, hload, rfl⟩ := call_eq_some hcall
      rw [call_of_load hload] at hcall ⊢
      exact hcall
    have hannouncement : announcement time pm' call.names = announcement time pm call.names := by
      rw [announcement, announcement, hname]
    rw [runLogging_of_call hcall, runLogging_of_call hcall', hanswer, hannouncement, hname]
    dsimp only
    cases hfailure : (answer log time pm fs call).failure with
    | some f => exact ⟨rfl, rfl⟩
    | none =>
      have hsame := pruneLeftovers_withFile (log.follow (answer log time pm fs call).moved) time
        call.names (not_not.mp fun hout => hinside ⟨hfailure, hout⟩) text hold houtside
      exact ⟨congrArg (fun found => announcement time pm call.names :: found.1) hsame,
        congrArg Prod.snd hsame⟩

end Removal

/-! ## The settings of a project -/

namespace Session

/-- The path of a manifest that was loaded is one that was accepted. -/
theorem confine_of_loadManifest {c : Config} {m : ManifestFile}
    (h : loadManifest fs root c = .ok m) : fs.confine root c.manifest.path = .ok m.path := by
  unfold loadManifest at h
  split at h
  · exact absurd h (by simp)
  · rename_i path hpath
    obtain ⟨-, -, -, rfl⟩ := ManifestFile.load_eq_ok_iff.mp h
    exact hpath

/-- A setting that names something is accepted exactly if that lies in the directory that the root
leads to. So no file outside of that directory is read as manifest or keep list, and none is
edited when the manifest is saved. This goes for a removal too, whatever is being logged, unless
the package manager leads the manifest out while it runs. -/
theorem settings_confined_to_root {entries : List (Text × FileNode)} (hfs : fs.root.IsOrderly)
    (habsolute : Path.isAbsolute root = true)
    (hroot : fs.LeadsTo root base (.directory entries)) :
    (∀ value names node, fs.LeadsTo (Path.join root (Path.forward value)) names node →
      fs.confine root value =
        if base <+: names then .ok (Path.join root (Path.forward value))
        else .error .outsideRoot) ∧
    ∀ c : Config,
      (∀ outside old text, fs.root.at? outside = some (.file old) → ¬ base <+: outside →
        loadManifest (fs.withFile outside.reverse text) root c = loadManifest fs root c ∧
        loadKeepList (fs.withFile outside.reverse text) root c = loadKeepList fs root c) ∧
      ∀ m, loadManifest fs root c = .ok m →
        (∀ names fs', m.save fs names = .ok fs' → FileSystem.SameOutside base fs fs') ∧
        ∀ log time pm names records,
          Removal.StaysInside base log time pm (log.writeAll fs records) m.path names := by
  refine ⟨fun value names node h => FileSystem.confine_of_leadsTo hfs habsolute hroot h,
    fun c => ⟨fun outside old text hold houtside => ⟨?_, ?_⟩, fun m hm => ?_⟩⟩
  · exact loadManifest_withFile hfs habsolute hroot c text hold houtside
  · exact loadKeepList_withFile hfs habsolute hroot c text hold houtside
  · -- the tree has the same shape as when the path was accepted
    have hinside : fs.LeadsInto m.path base := fun place node hplace =>
      FileSystem.isPrefix_of_confine hfs habsolute hroot (confine_of_loadManifest hm) hplace
    refine ⟨fun names fs' hsave => ManifestFile.sameOutside_save hinside hsave, ?_⟩
    intro log time pm names records
    exact Removal.staysInside log time pm names
      (hinside.of_sameShape (log.sameShape_writeAll fs records) (log.current_writeAll fs records))

/-- A project that is reached through a link. One setting leads out of it, to a directory whose
name begins like that of the project. -/
def linkedProject : FileSystem :=
  ⟨.directory
    [("alias", .link "/data/real"),
     ("data", .directory
      [("real", .directory
        [("..foo", .directory [("m.json", .file "\x7b\x7d")]),
         ("back", .link "/alias/package.json"),
         ("out", .link "../real-old/package.json"),
         ("package.json", .file "\x7b\"dependencies\": \x7b\"left\": \"1\"\x7d\x7d")]),
       ("real-old", .directory
        [("package.json", .file "\x7b\"dependencies\": \x7b\"left\": \"0\"\x7d\x7d")])])], "/"⟩

/-- The manifest of the directory next to the project. -/
def neighbour : Text := "\x7b\"dependencies\": \x7b\"left\": \"0\"\x7d\x7d"

/-- A package manager that adds a package to the manifest and takes none out. -/
def addingManager : PackageManager :=
  Removal.overwriting "/data/real/package.json"
    "\x7b\"dependencies\": \x7b\"left\": \"1\", \"more\": \"1\"\x7d\x7d"

/-- A package manager that puts a link in the place of the manifest, to the manifest of the
directory next to the project. -/
def divertingManager : PackageManager :=
  ⟨"diverting",
    fun fs _ _ => ⟨⟨fs.root.update (fun _ => some (.link "../real-old/package.json"))
      ["data", "real", "package.json"], fs.current⟩, none, none, some⟩, fun _ => none⟩

/-- The manifest of the project can be loaded. -/
private theorem exists_loadManifest_linkedProject :
    ∃ m, loadManifest linkedProject "/alias" (Config.default 1) = .ok m ∧
      m.path = "/alias/package.json" := by
  have hm : (loadManifest linkedProject "/alias" (Config.default 1)).toOption.map (·.path) =
      some ("/alias/package.json" : Text) := by
    decide +kernel
  rw [Option.map_eq_some_iff] at hm
  obtain ⟨m, hm, hpath⟩ := hm
  exact ⟨m, toOption_eq_some_iff.mp hm, hpath⟩

/-- The directory next to the project is not in it. -/
private theorem neighbour_outside :
    ¬ ([("data" : Text), "real"] <+: [("data" : Text), "real-old", "package.json"]) := by
  decide

/-- Links that lead out are refused, names that begin with dots and links back into the project are
accepted. A removal by a manager that adds a package leaves the directory next to the project as it
is. -/
theorem settings_confined_to_root_sample :
    linkedProject.root.IsOrderly ∧
    linkedProject.confine "/alias" "out" = .error .outsideRoot ∧
    linkedProject.confine "/alias" "..foo\\m.json" = .ok "/alias/..foo/m.json" ∧
    linkedProject.confine "/alias" "back" = .ok "/alias/back" ∧
    (∀ text, loadManifest
        (linkedProject.withFile ["package.json", "real-old", "data"] text) "/alias"
        (Config.default 1) = loadManifest linkedProject "/alias" (Config.default 1)) ∧
    (Removal.run none addingManager linkedProject "/alias/package.json" ["left"]).call =
      some ⟨"/alias", [("left" : Text)]⟩ ∧
    (Removal.run none addingManager linkedProject "/alias/package.json" ["left"]).files.root.at?
      ["data", "real-old", "package.json"] = some (.file neighbour) := by
  have hfs : linkedProject.root.IsOrderly := by decide
  obtain ⟨entries, hroot⟩ :
      ∃ entries, linkedProject.LeadsTo "/alias" ["data", "real"] (.directory entries) := ⟨_, rfl⟩
  obtain ⟨hconfine, hsettings⟩ := settings_confined_to_root hfs rfl hroot
  obtain ⟨hread, hedit⟩ := hsettings (Config.default 1)
  refine ⟨hfs, ?_, ?_, ?_, fun text => ?_, ?_⟩
  · have hout : linkedProject.LeadsTo (Path.join "/alias" (Path.forward "out"))
        ["data", "real-old", "package.json"] (.file neighbour) := by decide +kernel
    rw [hconfine _ _ _ hout, if_neg (by decide)]
  · have hdots : linkedProject.LeadsTo (Path.join "/alias" (Path.forward "..foo\\m.json"))
        ["data", "real", "..foo", "m.json"] (.file "\x7b\x7d") := by decide +kernel
    rw [hconfine _ _ _ hdots, if_pos (by decide)]
    exact congrArg Except.ok (by decide)
  · have hback : linkedProject.LeadsTo (Path.join "/alias" (Path.forward "back"))
        ["data", "real", "package.json"]
        (.file "\x7b\"dependencies\": \x7b\"left\": \"1\"\x7d\x7d") := by decide +kernel
    rw [hconfine _ _ _ hback, if_pos (by decide)]
    exact congrArg Except.ok (by decide)
  · exact (hread ["data", "real-old", "package.json"] neighbour text rfl neighbour_outside).1
  · obtain ⟨m, hm, hpath⟩ := exists_loadManifest_linkedProject
    have hcall : (Removal.run none addingManager linkedProject "/alias/package.json"
        ["left"]).call = some ⟨"/alias", [("left" : Text)]⟩ := by
      decide +kernel
    refine ⟨hcall, ?_⟩
    have hinside : Removal.StaysInside ["data", "real"] .none none addingManager linkedProject
        m.path ["left"] :=
      (hedit m hm).2 .none none addingManager ["left"] []
    rw [hpath] at hinside
    -- the manager leaves the manifest in its place
    have hplace : (Removal.answer .none none addingManager linkedProject
        ⟨"/alias", ["left"]⟩).files.locate? "/alias/package.json" =
          some [("package.json" : Text), "real", "data"] := by
      decide +kernel
    have hstays : ¬ Removal.LedOut ["data", "real"] "/alias/package.json"
        (Removal.answer .none none addingManager linkedProject ⟨"/alias", ["left"]⟩) := by
      rintro ⟨-, hout⟩
      refine hout fun place node hlead => ?_
      have hreverse := Option.some.inj
        ((FileSystem.locate?_eq_some_iff.mpr ⟨node, hlead⟩).symm.trans hplace)
      rw [List.reverse_eq_iff.mp hreverse]
      decide
    have hleft : (Removal.answer .none none addingManager linkedProject
        ⟨"/alias", ["left"]⟩).files.LeadsTo "/data/real-old/package.json"
          ["data", "real-old", "package.json"] (.file neighbour) := by
      decide +kernel
    rw [Removal.run] at hcall ⊢
    have hsame := hinside.files_of_asked _ hcall hstays ["data", "real-old", "package.json"]
      neighbour neighbour_outside nofun
    exact hsame.mpr hleft.at?

/-- A package manager may lead the manifest out of the project while it runs. Then the removal
edits a file outside. -/
theorem manager_may_lead_manifest_out :
    ¬ ∀ (fs : FileSystem) (root : Text) (base : List Text) (entries : List (Text × FileNode))
      (c : Config) (m : ManifestFile) (time : Option Int) (pm : PackageManager)
      (names : List Text) (call : UninstallCall), fs.root.IsOrderly →
      Path.isAbsolute root = true → fs.LeadsTo root base (.directory entries) →
      loadManifest fs root c = .ok m → (Removal.run time pm fs m.path names).call = some call →
      FileSystem.SameOutside base (pm.uninstall fs call.directory call.names).files
        (Removal.run time pm fs m.path names).files := by
  intro h
  obtain ⟨m, hm, hpath⟩ := exists_loadManifest_linkedProject
  have hcall : (Removal.run none divertingManager linkedProject "/alias/package.json"
      ["left"]).call = some ⟨"/alias", [("left" : Text)]⟩ := by
    decide +kernel
  have hsame := h linkedProject "/alias" ["data", "real"] _ (Config.default 1) m none
    divertingManager ["left"] _ (by decide) rfl rfl hm (by rw [hpath]; exact hcall)
  rw [hpath] at hsame
  -- the manager leaves the file outside as it is, and the removal does not
  have hleft : (divertingManager.uninstall linkedProject "/alias" ["left"]).files.LeadsTo
      "/data/real-old/package.json" ["data", "real-old", "package.json"] (.file neighbour) := by
    decide +kernel
  have hedited : (Removal.run none divertingManager linkedProject "/alias/package.json"
      ["left"]).files.LeadsTo "/data/real-old/package.json" ["data", "real-old", "package.json"]
        (.file "\x7b\n  \"dependencies\": \x7b\x7d\n\x7d\n") := by
    decide +kernel
  have hkept := (hsame _ _ neighbour_outside).mpr hleft.at?
  exact absurd (FileNode.file.inj (Option.some.inj (hedited.at?.symm.trans hkept))) (by decide)

end Session

end DependencyAudit
