import DependencyAudit.Removal
import DependencyAudit.Proofs.Log.File
import DependencyAudit.Proofs.Manifest.Without

/-!
# What a removal does

A removal asks the package manager at most once, for packages that the manifest declares, each
of them once. If the package manager deletes nothing else, every other package is still declared
when the removal has succeeded: what the removal itself drops from the manifest are targets only.

## Main definitions

* `PackageManager.DeletesOnlyNamed`: the package manager deletes at most what it was asked for.

## Main results

* `Removal.call_eq_some`: what the package manager is asked for;
* `ManifestFile.load_save`: a saved manifest is the one that was loaded, less the given names;
* `Removal.pruneLeftovers_eq_ok`: what pruning leaves of what the package manager has left;
* `Removal.declared_after`: what is declared after a removal.
-/

namespace DependencyAudit

/-- An outcome has a value to show exactly if it is that value. -/
theorem toOption_eq_some_iff {ε α : Type} {x : Except ε α} {a : α} :
    x.toOption = some a ↔ x = .ok a := by
  cases x <;> simp [Except.toOption]

namespace ManifestFile

variable {fs fs' : FileSystem} {path : Text} {m : ManifestFile}

theorem load_eq_ok_iff :
    load fs path = .ok m ↔
      ∃ text, fs.content path = .ok text ∧ Manifest.parse text = .ok m.manifest ∧
        m.path = path := by
  unfold load
  constructor
  · intro h
    split at h
    · exact absurd h (by simp)
    · rename_i text hcontent
      split at h
      · exact absurd h (by simp)
      · rename_i manifest hparse
        obtain rfl := Except.ok.inj h
        exact ⟨text, hcontent, hparse, rfl⟩
  · rintro ⟨text, hcontent, hparse, rfl⟩
    rw [hcontent]
    simp only [hparse]

/-- What saving does: the text of the edited manifest replaces the content of a file that is
there. -/
theorem save_eq_ok {names : List Text} (h : m.save fs names = .ok fs') :
    ∃ text node, m.manifest.without names = .ok text ∧ fs.stat m.path = .ok node ∧
      fs.replaceContent m.path text = .ok fs' := by
  unfold save at h
  split at h
  · exact absurd h (by simp)
  rename_i text htext
  split at h
  · exact absurd h (by simp)
  rename_i node hstat
  split at h
  · exact absurd h (by simp)
  rename_i written hwrite
  obtain rfl := Except.ok.inj h
  exact ⟨text, node, htext, hstat, hwrite⟩

/-- The same manifest is loaded where the same content is found. -/
theorem load_congr (h : fs'.content path = fs.content path) : load fs' path = load fs path := by
  rw [load, load, h]

/-- Logging to another file does not change the manifest. -/
theorem load_writeAll {log : LogFile} (h : ¬ log.IsAt fs path) (records : List LogRecord) :
    load (log.writeAll fs records) path = load fs path :=
  load_congr (LogFile.content_writeAll_of_not_isAt h records)

/-- A saved manifest is the one that was loaded, less the given names, whatever has been in the
file when it was saved. -/
theorem load_save {fs₀ : FileSystem} {names : List Text} (hload : load fs₀ path = .ok m)
    (hsave : m.save fs names = .ok fs') :
    ∃ after, load fs' path = .ok after ∧
      Manifest.EditedFrom names m.manifest after.manifest := by
  obtain ⟨text, -, hparse, hpath⟩ := load_eq_ok_iff.mp hload
  obtain ⟨out, node, hout, hstat, hwrite⟩ := save_eq_ok hsave
  rw [hpath] at hstat hwrite
  obtain ⟨m', hparse', hedited⟩ := Manifest.exists_parse_of_without hparse hout
  exact ⟨⟨path, m'⟩,
    load_eq_ok_iff.mpr ⟨out, FileSystem.content_replaceContent hstat hwrite, hparse', rfl⟩,
    hedited⟩

end ManifestFile

/-- In the given files, the package manager deletes at most the packages that it is asked for:
every other package is still declared if it succeeds and leaves a manifest. -/
def PackageManager.DeletesOnlyNamed (pm : PackageManager) (fs : FileSystem) (path : Text) : Prop :=
  ∀ names before after, ManifestFile.load fs path = .ok before →
    (pm.uninstall fs (Path.directory path) names).failure = none →
    ManifestFile.load (pm.uninstall fs (Path.directory path) names).files path = .ok after →
    ∀ name ∈ before.manifest.declared, name ∉ names → name ∈ after.manifest.declared

namespace Removal

variable {log : LogFile} {time : Option Int} {pm : PackageManager} {fs : FileSystem} {path : Text}
  {names : List Text} {m : ManifestFile}

/-- The targets are the given names that the manifest declares. -/
theorem mem_targets_iff {m : Manifest} {name : Text} :
    name ∈ targets m names ↔ name ∈ names ∧ name ∈ m.declared := by
  simp [targets, Manifest.has]

/-- There is a target exactly once. -/
theorem nodup_targets (m : Manifest) (names : List Text) : (targets m names).Nodup :=
  nodup_firstOccurrences _

/-! ## The package manager -/

/-- What the package manager is asked for. -/
theorem call_eq_some {call : UninstallCall}
    (h : (runLogging log time pm fs path names).call = some call) :
    ∃ m, ManifestFile.load fs path = .ok m ∧
      call = ⟨Path.directory path, targets m.manifest names⟩ := by
  unfold runLogging at h
  split at h
  · exact absurd h (by simp)
  rename_i m hload
  dsimp only at h
  split at h
  · exact absurd h (by simp)
  split at h <;> exact ⟨m, hload, (Option.some.inj h).symm⟩

/-- The package manager is asked exactly if there is a manifest with something to ask it for. -/
theorem call_of_load (hload : ManifestFile.load fs path = .ok m) :
    (runLogging log time pm fs path names).call =
      if (targets m.manifest names).isEmpty then none
      else some ⟨Path.directory path, targets m.manifest names⟩ := by
  unfold runLogging
  rw [hload]
  dsimp only
  split
  · rfl
  · split <;> rfl

/-- The package manager is asked if there is something to ask it for. -/
theorem isSome_call {name : Text} (hload : ManifestFile.load fs path = .ok m)
    (hname : name ∈ targets m.manifest names) :
    (runLogging log time pm fs path names).call.isSome = true := by
  have hne : ¬ (targets m.manifest names).isEmpty = true := by
    rw [List.isEmpty_iff]
    exact List.ne_nil_of_mem hname
  rw [call_of_load hload, if_neg hne]
  rfl

/-- If the package manager was not asked, only what was logged has changed the files. -/
theorem files_of_call_eq_none (h : (runLogging log time pm fs path names).call = none) :
    (runLogging log time pm fs path names).files =
      log.writeAll fs (runLogging log time pm fs path names).log := by
  unfold runLogging at h ⊢
  split at h
  · rfl
  dsimp only at h ⊢
  split at h
  · rename_i hempty
    rw [if_pos hempty]
    rfl
  · split at h <;> exact absurd h (by simp)

/-! ## Pruning -/

/-- What a successful pruning leaves: the manifest without the targets that were still in it. If
there were none, nothing is written. -/
theorem pruneLeftovers_eq_ok {targets removed : List Text}
    (h : (pruneLeftovers log time fs path targets).2.2 = .ok removed) :
    removed = targets ∧ ∃ left after, ManifestFile.load fs path = .ok left ∧
      ManifestFile.load (pruneLeftovers log time fs path targets).1 path = .ok after ∧
      Manifest.EditedFrom (targets.filter left.manifest.has) left.manifest after.manifest ∧
      (targets.filter left.manifest.has = [] →
        (pruneLeftovers log time fs path targets).1 = fs) := by
  unfold pruneLeftovers at h ⊢
  split at h
  · exact absurd h (by simp)
  rename_i left hload
  dsimp only at h ⊢
  split at h
  · -- nothing is left over: the file is not written, and its manifest is edited by nothing
    rename_i hempty
    rw [if_pos hempty]
    obtain ⟨text, -, hparse, -⟩ := ManifestFile.load_eq_ok_iff.mp hload
    refine ⟨(Except.ok.inj h).symm, left, left, hload, hload, ?_, fun _ => rfl⟩
    rw [List.isEmpty_iff.mp hempty]
    exact Manifest.editedFrom_self hparse
  rename_i hleftovers
  rw [if_neg hleftovers]
  split at h
  · exact absurd h (by simp)
  rename_i fs' hsave
  obtain ⟨after, hafter, hedited⟩ := ManifestFile.load_save hload hsave
  exact ⟨(Except.ok.inj h).symm, left, after, hload, hafter, hedited,
    fun hnil => absurd (List.isEmpty_iff.mpr hnil) hleftovers⟩

/-- After a removal that has succeeded, every package is still declared that was declared before
and was not to be removed. The log file must not be the manifest. -/
theorem declared_after {removed : List Text}
    (hpm : ∀ records, pm.DeletesOnlyNamed (log.writeAll fs records) path)
    (hlog : ¬ log.IsAt fs path) (hload : ManifestFile.load fs path = .ok m)
    (hok : (runLogging log time pm fs path names).outcome = .ok removed) :
    ∃ after, ManifestFile.load (runLogging log time pm fs path names).files path = .ok after ∧
      ∀ name ∈ m.manifest.declared, name ∉ names → name ∈ after.manifest.declared := by
  unfold runLogging at hok ⊢
  rw [hload] at hok ⊢
  dsimp only at hok ⊢
  split at hok
  · rename_i hempty
    rw [if_pos hempty]
    exact ⟨m, (ManifestFile.load_writeAll hlog [_]).trans hload, fun name hname _ => hname⟩
  rename_i hempty
  rw [if_neg hempty]
  split at hok
  · exact absurd hok (by simp)
  rename_i hfailure
  -- two steps: what the package manager leaves, and what pruning leaves of that
  obtain ⟨-, left, after, hleft, hafter, hedited, -⟩ := pruneLeftovers_eq_ok hok
  refine ⟨after, by simpa only [hfailure] using hafter, fun name hname hother => ?_⟩
  have htarget : name ∉ targets m.manifest names := fun h => hother (mem_targets_iff.mp h).1
  have hasked := (ManifestFile.load_writeAll hlog
    [announcement time pm (targets m.manifest names)]).trans hload
  have hkept := hpm _ _ m left hasked hfailure hleft name hname htarget
  -- what is left over are targets, so no other name is dropped
  rw [hedited.declared, List.mem_filter]
  refine ⟨hkept, ?_⟩
  simp only [Bool.not_eq_true', List.contains_eq_mem, decide_eq_false_iff_not, List.mem_filter]
  exact fun hleftover => htarget hleftover.1

end Removal

end DependencyAudit
