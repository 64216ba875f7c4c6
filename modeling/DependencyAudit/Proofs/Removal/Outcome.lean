import DependencyAudit.Proofs.Removal

/-!
# What comes of a removal

A package manager may do anything to the manifest before it succeeds or fails. Whatever it does,
a removal asks it for exactly the declared packages, writes nothing after a failure, and leaves
nothing of the removed packages after a success. What a second removal finds to do is what the
package manager has declared on its own.

## Main definitions

* `Removal.Idle`: a removal that had nothing to do;
* `Removal.Failed`: a removal whose package manager has failed;
* `Removal.Finished`: a removal that has succeeded.

## Main results

* `Removal.run_over_any_manager`: what comes of a removal, for every package manager.
-/

namespace DependencyAudit.Removal

open Manifest (EditedFrom)

/-- Nobody was asked, and nothing has changed. -/
structure Idle (fs : FileSystem) (r : Removal) : Prop where
  /-- No package manager was asked. -/
  call : r.call = none
  /-- The files are as they were. -/
  files : r.files = fs
  /-- Nothing is reported as removed. -/
  outcome : r.outcome = .ok []

/-- The package manager has failed, and the files are as it has left them. -/
structure Failed (done : Uninstallation) (path : Text) (f : Fault) (r : Removal) : Prop where
  /-- The files are as the package manager has left them. -/
  files : r.files = done.files
  /-- The fault names the path of the manifest and the fault of the package manager. -/
  outcome : ∃ text, r.outcome = .error (.coded .removal text path (some f))

/-- The packages that were asked for are removed: `left` is what the package manager has left of
the manifest, and `after` is what there is of it in the end. -/
structure Finished (done : Uninstallation) (path : Text) (asked : List Text)
    (left after : ManifestFile) (r : Removal) : Prop where
  /-- All that was asked for is reported as removed. -/
  outcome : r.outcome = .ok asked
  /-- The manifest that the package manager has left can be read. -/
  load_left : ManifestFile.load done.files path = .ok left
  /-- The manifest can be read in the end. -/
  load_after : ManifestFile.load r.files path = .ok after
  /-- Apart from packages that were asked for, the manifest is what was left of it. -/
  edited : EditedFrom (asked.filter left.manifest.has) left.manifest after.manifest
  /-- Nothing is written if nothing was left to prune. -/
  files : asked.filter left.manifest.has = [] → r.files = done.files

variable {time : Option Int} {pm : PackageManager} {fs : FileSystem} {path : Text}
  {names : List Text} {m : ManifestFile}

/-! ## The ways of a removal -/

theorem targets_eq_nil_iff {m : Manifest} :
    targets m names = [] ↔ ∀ name ∈ names, name ∉ m.declared := by
  simp only [List.eq_nil_iff_forall_not_mem, mem_targets_iff, not_and]

/-- A removal is idle exactly if no name is declared. -/
theorem idle_run_iff (hload : ManifestFile.load fs path = .ok m) :
    Idle fs (run time pm fs path names) ↔ ∀ name ∈ names, name ∉ m.manifest.declared := by
  rw [← targets_eq_nil_iff]
  constructor
  · intro hidle
    by_contra hne
    obtain ⟨name, hname⟩ := List.exists_mem_of_ne_nil _ hne
    have hcall : (run time pm fs path names).call.isSome = true := isSome_call hload hname
    rw [hidle.call] at hcall
    exact absurd hcall (by simp)
  · intro hnil
    unfold run runLogging
    rw [hload]
    dsimp only
    rw [if_pos (List.isEmpty_iff.mpr hnil)]
    exact ⟨rfl, rfl, rfl⟩

/-- A removal that is not idle asks for the targets. Then the package manager has the word: after
a failure nothing else happens, after a success its leftovers are pruned. -/
theorem run_of_targets (time : Option Int) {asked : List Text} {done : Uninstallation}
    (hload : ManifestFile.load fs path = .ok m) (hasked : targets m.manifest names = asked)
    (hne : asked ≠ []) (hdone : pm.uninstall fs (Path.directory path) asked = done) :
    (run time pm fs path names).call = some ⟨Path.directory path, asked⟩ ∧
      (∀ f, done.failure = some f → Failed done path f (run time pm fs path names)) ∧
      (done.failure = none →
        (run time pm fs path names).files = (pruneLeftovers .none time done.files path asked).1 ∧
        (run time pm fs path names).outcome =
          (pruneLeftovers .none time done.files path asked).2.2) := by
  have hgo : ¬ asked.isEmpty = true := fun h => hne (List.isEmpty_iff.mp h)
  have hanswer : answer .none time pm fs ⟨Path.directory path, asked⟩ = done := hdone
  unfold run runLogging
  simp only [hload, hasked, hanswer, LogFile.follow_none, if_neg hgo]
  cases done.failure with
  | some f =>
    refine ⟨rfl, fun f' hf' => ?_, fun hnone => absurd hnone (by simp)⟩
    obtain rfl : f = f' := Option.some.inj hf'
    exact ⟨rfl, _, rfl⟩
  | none => exact ⟨rfl, fun f hf => absurd hf (by simp), fun _ => ⟨rfl, rfl⟩⟩

/-! ## Pruning -/

/-- A manifest that was loaded can be saved. -/
theorem exists_save (hload : ManifestFile.load fs path = .ok m) (names : List Text) :
    ∃ fs', m.save fs names = .ok fs' := by
  obtain ⟨text, hcontent, hparse, rfl⟩ := ManifestFile.load_eq_ok_iff.mp hload
  obtain ⟨out, -, hout, -⟩ := Manifest.exists_without hparse names
  obtain ⟨location, hplace⟩ := FileSystem.content_eq_ok_iff.mp hcontent
  unfold ManifestFile.save
  rw [hout]
  dsimp only
  rw [FileSystem.stat, FileSystem.node, hplace]
  dsimp only [bind, Except.bind]
  rw [FileSystem.replaceContent, FileSystem.editContent, hplace]
  exact ⟨_, rfl⟩

/-- Pruning succeeds exactly if the package manager has left a manifest. -/
theorem exists_pruneLeftovers_eq_ok {targets : List Text} :
    (∃ removed, (pruneLeftovers .none time fs path targets).2.2 = .ok removed) ↔
      ∃ left, ManifestFile.load fs path = .ok left := by
  constructor
  · rintro ⟨removed, h⟩
    obtain ⟨-, left, -, hleft, -⟩ := pruneLeftovers_eq_ok h
    exact ⟨left, hleft⟩
  · rintro ⟨left, hleft⟩
    obtain ⟨fs', hsave⟩ := exists_save hleft (targets.filter left.manifest.has)
    unfold pruneLeftovers
    rw [hleft]
    dsimp only
    split
    · exact ⟨_, rfl⟩
    · rw [LogFile.write_none, hsave]
      exact ⟨_, rfl⟩

/-! ## What is declared in the end -/

namespace Finished

variable {done : Uninstallation} {asked : List Text} {left after : ManifestFile} {r : Removal}

/-- What is declared in the end was left by the package manager and not asked for. -/
theorem mem_declared_iff (h : Finished done path asked left after r) {name : Text} :
    name ∈ after.manifest.declared ↔ name ∈ left.manifest.declared ∧ name ∉ asked := by
  rw [h.edited.declared, List.mem_filter]
  refine and_congr_right fun hleft => ?_
  simp [Manifest.has, hleft]

/-- None of the packages that were asked for is declared. -/
theorem not_mem_declared (h : Finished done path asked left after r) :
    ∀ name ∈ asked, name ∉ after.manifest.declared :=
  fun _ hname hdeclared => (h.mem_declared_iff.mp hdeclared).2 hname

/-- A second removal of the same packages is idle exactly if the package manager has declared
none of them on its own. -/
theorem idle_again_iff (h : Finished done path (targets m.manifest names) left after r) :
    Idle r.files (run time pm r.files path names) ↔
      ∀ name ∈ names, name ∈ left.manifest.declared → name ∈ m.manifest.declared := by
  rw [idle_run_iff h.load_after]
  refine forall₂_congr fun name hname => ?_
  rw [h.mem_declared_iff, mem_targets_iff, not_and, not_not]
  exact imp_congr_right fun _ => and_iff_right hname

end Finished

/-- What comes of a removal, for every package manager. Without a manifest, or if no name is
declared, nobody is asked and nothing changes. Otherwise the package manager is asked once, for
the declared names in the order of the caller and without repetitions. If it fails, its files
stay as they are. If it succeeds, the removal does too if there is still a manifest, and then
no removed package is declared and all else in the manifest is what was left of it. Removing the
removed packages once more has no effect, and neither has removing all names once more, unless
the package manager has declared one of them that was not declared before. -/
theorem run_over_any_manager (time : Option Int) (pm : PackageManager) (fs : FileSystem)
    (path : Text) (names : List Text) :
    (∀ f, ManifestFile.load fs path = .error f →
      (run time pm fs path names).call = none ∧ (run time pm fs path names).files = fs ∧
        (run time pm fs path names).outcome = .error f) ∧
    ∀ m, ManifestFile.load fs path = .ok m →
      ((∀ name ∈ names, name ∉ m.manifest.declared) → Idle fs (run time pm fs path names)) ∧
      ((∃ name ∈ names, name ∈ m.manifest.declared) →
        ∃ asked done, asked = firstOccurrences (names.filter (· ∈ m.manifest.declared)) ∧
          done = pm.uninstall fs (Path.directory path) asked ∧
          (run time pm fs path names).call = some ⟨Path.directory path, asked⟩ ∧
          (∀ f, done.failure = some f → Failed done path f (run time pm fs path names)) ∧
          (done.failure = none →
            ((∃ removed, (run time pm fs path names).outcome = .ok removed) ↔
              ∃ left, ManifestFile.load done.files path = .ok left) ∧
            ∀ removed, (run time pm fs path names).outcome = .ok removed →
              removed = asked ∧
              ∃ left after, Finished done path asked left after (run time pm fs path names) ∧
                (∀ name ∈ removed, name ∉ after.manifest.declared) ∧
                ∀ time' pm', Idle (run time pm fs path names).files
                    (run time' pm' (run time pm fs path names).files path removed) ∧
                  (Idle (run time pm fs path names).files
                      (run time' pm' (run time pm fs path names).files path names) ↔
                    ∀ name ∈ names, name ∈ left.manifest.declared →
                      name ∈ m.manifest.declared))) := by
  refine ⟨?_, fun m hload => ⟨(idle_run_iff hload).mpr, ?_⟩⟩
  · intro f hload
    unfold run runLogging
    rw [hload]
    exact ⟨rfl, rfl, rfl⟩
  rintro ⟨name, hname, hdeclared⟩
  have hasked : targets m.manifest names =
      firstOccurrences (names.filter (· ∈ m.manifest.declared)) :=
    congrArg firstOccurrences (List.filter_congr fun _ _ => List.contains_eq_mem _ _)
  have hne : targets m.manifest names ≠ [] :=
    List.ne_nil_of_mem (mem_targets_iff.mpr ⟨hname, hdeclared⟩)
  obtain ⟨hcall, hfailed, hsucceeded⟩ := run_of_targets time hload rfl hne rfl
  refine ⟨targets m.manifest names, _, hasked, rfl, hcall, hfailed, fun hnone => ?_⟩
  obtain ⟨hfiles, houtcome⟩ := hsucceeded hnone
  rw [houtcome]
  refine ⟨exists_pruneLeftovers_eq_ok, fun removed hok => ?_⟩
  -- what the run leaves is read again, so that a second run starts from `after`
  obtain ⟨rfl, left, after, hleft, hafter, hedited, hsame⟩ := pruneLeftovers_eq_ok hok
  rw [← hfiles] at hafter hsame
  have hfinished : Finished _ path _ left after (run time pm fs path names) :=
    ⟨houtcome.trans hok, hleft, hafter, hedited, hsame⟩
  exact ⟨rfl, left, after, hfinished, hfinished.not_mem_declared, fun time' pm' =>
    ⟨(idle_run_iff hafter).mpr hfinished.not_mem_declared, hfinished.idle_again_iff⟩⟩

/-! ## A package manager that writes a manifest of its own -/

/-- A package manager that overwrites the manifest with a text. -/
def overwriting (path text : Text) : PackageManager :=
  ⟨"overwriting", fun fs _ _ => ⟨(fs.replaceContent path text).toOption.getD fs, none, none, some⟩,
    fun _ => none⟩

/-- A project that declares one package. -/
def sampleFiles : FileSystem :=
  ⟨.directory [("package.json", .file "\x7b\"dependencies\": \x7b\"a\": \"1\"\x7d\x7d")], "/"⟩

/-- The package manager takes the package out and puts in another one. -/
def sampleManager : PackageManager :=
  overwriting "/package.json" "\x7b\"dependencies\": \x7b\"b\": \"1\"\x7d\x7d"

/-- The removal of two packages, of which one is declared. -/
def sampleRemoval : Removal :=
  run none sampleManager sampleFiles "/package.json" ["a", "b"]

/-- What there is to see of the sample: the packages that are declared before, the request, the
removed packages, and the request of a second removal. -/
private theorem sampleRemoval_eq :
    ((ManifestFile.load sampleFiles "/package.json").toOption.map (·.manifest.declared),
      sampleRemoval.call, sampleRemoval.outcome.toOption,
      (run none sampleManager sampleRemoval.files "/package.json" ["a", "b"]).call) =
    (some [("a" : Text)], some ⟨"/", [("a" : Text)]⟩, some [("a" : Text)],
      some ⟨"/", [("b" : Text)]⟩) := by
  decide +kernel

theorem run_over_any_manager_sample :
    ∃ m left after, ManifestFile.load sampleFiles "/package.json" = .ok m ∧
      m.manifest.declared = [("a" : Text)] ∧
      Finished (sampleManager.uninstall sampleFiles "/" ["a"]) "/package.json" ["a"] left after
        sampleRemoval ∧
      ("a" : Text) ∉ after.manifest.declared ∧
      Idle sampleRemoval.files
        (run none sampleManager sampleRemoval.files "/package.json" ["a"]) := by
  obtain ⟨hdeclared, hcall, hremoved, -⟩ := by simpa only [Prod.mk.injEq] using sampleRemoval_eq
  rw [Option.map_eq_some_iff] at hdeclared
  obtain ⟨m, hload, hdeclared⟩ := hdeclared
  rw [toOption_eq_some_iff] at hload hremoved
  obtain ⟨-, hrun⟩ := run_over_any_manager none sampleManager sampleFiles "/package.json" ["a", "b"]
  obtain ⟨asked, done, -, rfl, hcall', -, hsuccess⟩ :=
    (hrun m hload).2 ⟨"a", by decide, by rw [hdeclared]; decide⟩
  obtain ⟨-, rfl⟩ := UninstallCall.mk.inj (Option.some.inj (hcall'.symm.trans hcall))
  obtain ⟨-, hfinal⟩ := hsuccess rfl
  obtain ⟨-, left, after, hfinished, hgone, hagain⟩ := hfinal _ hremoved
  exact ⟨m, left, after, hload, hdeclared, hfinished, hgone _ (by decide),
    (hagain none sampleManager).1⟩

/-- A second removal of the same packages may find something to do: the package manager itself
has declared one of them. -/
theorem second_removal_asks_again :
    ¬ ∀ (time : Option Int) (pm : PackageManager) (fs : FileSystem) (path : Text)
      (names removed : List Text), (run time pm fs path names).outcome = .ok removed →
        (run time pm (run time pm fs path names).files path names).call = none := by
  intro h
  obtain ⟨-, -, hremoved, hcall⟩ := by simpa only [Prod.mk.injEq] using sampleRemoval_eq
  have hnone := h none sampleManager sampleFiles "/package.json" ["a", "b"] _
    (toOption_eq_some_iff.mp hremoved)
  exact absurd (hnone.symm.trans hcall) (by simp)

end DependencyAudit.Removal
