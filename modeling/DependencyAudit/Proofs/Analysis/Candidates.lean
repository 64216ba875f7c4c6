import DependencyAudit.Analysis.Run
import DependencyAudit.Proofs.Analysis.Merge
import DependencyAudit.Proofs.Analysis.Turns

/-!
# Candidates for removal

A declared package may be removed exactly if no file confirms a use of it. This rests on what
the facts of a file have in common: every verdict is about a package that the same file
declares, so a package that is used is also imported.

## Main definitions

* `FileFacts.SignalsBound`: every verdict is about a declared package;
* `FileFacts.Confirms`: the file confirms a use of the package;
* `FileFacts.Binds`: the file declares the package.

## Main results

* `signalsBound_analyzeFile`: the facts of every file are of that form;
* `mem_removalCandidates_iff`: the packages that may be removed;
* `forall₂_inOrder_gather`: whose facts an audit gathers, and when it reads the files;
* `mem_removalCandidates_runLogging_iff`: what a finished audit offers for removal;
* `outcome_run` and `run_eq_ok`: how an audit ends that logs to none of its files.
-/

namespace DependencyAudit

namespace FileFacts

/-- Every verdict is about a package that the file declares. -/
def SignalsBound (f : FileFacts) : Prop :=
  ∀ g ∈ f.signals, ∃ b ∈ f.bindings, b.dependency = g.dependency

/-- The file confirms a use of the package. -/
def Confirms (f : FileFacts) (name : Text) : Prop :=
  ∃ g ∈ f.signals, g.confirmed = true ∧ g.dependency = name

/-- Uses are seen of the packages that the file confirms. -/
theorem mem_useSightings_iff {f : FileFacts} {name : Text} :
    name ∈ f.useSightings.map (·.1) ↔ f.Confirms name := by
  simp [useSightings, Confirms, and_assoc]

/-- The file declares the package. -/
def Binds (f : FileFacts) (name : Text) : Prop :=
  ∃ b ∈ f.bindings, b.dependency = name

/-- Imports are seen of the packages that the file binds. -/
theorem mem_importSightings_iff {f : FileFacts} {name : Text} :
    name ∈ f.importSightings.map (·.1) ↔ f.Binds name := by
  simp [importSightings, Binds]

/-- A package that is used is imported. -/
theorem SignalsBound.binds {f : FileFacts} (h : f.SignalsBound) {name : Text}
    (huse : f.Confirms name) : f.Binds name := by
  obtain ⟨g, hg, -, rfl⟩ := huse
  exact h g hg

end FileFacts

namespace State

variable {facts : List FileFacts} {name : Text}

/-- A package is used if a file confirms it. -/
theorem has_used_ofFacts :
    (ofFacts facts).used.has name = true ↔ ∃ f ∈ facts, f.Confirms name := by
  rw [(knows_ofFacts facts).used, Sightings.has_group, List.map_flatMap, List.mem_flatMap]
  simp only [FileFacts.mem_useSightings_iff]

/-- A package is imported if a file binds it. -/
theorem has_imported_ofFacts :
    (ofFacts facts).imported.has name = true ↔ ∃ f ∈ facts, f.Binds name := by
  rw [(knows_ofFacts facts).imported, Sightings.has_group, List.map_flatMap, List.mem_flatMap]
  simp only [FileFacts.mem_importSightings_iff]

/-- A package that is used somewhere is imported somewhere. -/
theorem has_imported_of_confirms (hbound : ∀ f ∈ facts, f.SignalsBound)
    (h : ∃ f ∈ facts, f.Confirms name) : (ofFacts facts).imported.has name = true := by
  obtain ⟨f, hf, huse⟩ := h
  exact has_imported_ofFacts.mpr ⟨f, hf, (hbound f hf).binds huse⟩

/-- A name that was seen has its files. -/
private theorem exists_mem_iff_has {s : Sightings} :
    (∃ files, (name, files) ∈ s) ↔ s.has name = true := by
  rw [Sightings.has, List.lookup_isSome_iff]
  simp

/-- A report leaves out built-in packages that are not declared, if they are to be ignored. -/
theorem omits_eq_true_iff {declared : List Text} {ignoreBuiltins : Bool} :
    omits declared ignoreBuiltins name = true ↔
      ignoreBuiltins = true ∧ Specifier.isBuiltin name = true ∧ name ∉ declared := by
  simp [omits, and_assoc]

/-- The used packages of a report are those of the state that it does not leave out. -/
theorem mem_used_report_iff {s : State} {declared : List Text} {ignoreBuiltins : Bool} :
    name ∈ (s.report declared ignoreBuiltins).used ↔
      s.used.has name = true ∧ omits declared ignoreBuiltins name = false := by
  rw [← exists_mem_iff_has]
  simp [report, Sightings.names]

/-- The unused imports of a report are imported, not used and not left out. -/
theorem mem_unusedNames_report_iff {s : State} {declared : List Text} {ignoreBuiltins : Bool} :
    name ∈ (s.report declared ignoreBuiltins).unusedNames ↔
      s.imported.has name = true ∧ s.used.has name = false ∧
        omits declared ignoreBuiltins name = false := by
  rw [← exists_mem_iff_has]
  simp [Report.unusedNames, report]

/-- The packages that are never imported are declared and not imported. -/
theorem mem_neverImported_report_iff {s : State} {declared : List Text} {ignoreBuiltins : Bool} :
    name ∈ (s.report declared ignoreBuiltins).neverImported ↔
      name ∈ declared ∧ s.imported.has name = false := by
  simp [report]

/-- A declared package may be removed exactly if no file confirms a use of it. -/
theorem mem_removalCandidates_iff (hbound : ∀ f ∈ facts, f.SignalsBound) {declared : List Text}
    {ignoreBuiltins : Bool} :
    name ∈ ((ofFacts facts).report declared ignoreBuiltins).removalCandidates declared ↔
      name ∈ declared ∧ ¬ ∃ f ∈ facts, f.Confirms name := by
  rw [Report.removalCandidates, mem_firstOccurrences, List.mem_filter]
  refine and_congr_right fun hdeclared => ?_
  -- declared packages are never left out
  have homits : omits declared ignoreBuiltins name = false := by simp [omits, hdeclared]
  rw [Report.isRemovable, Bool.or_eq_true, List.contains_iff_mem, List.contains_iff_mem,
    mem_neverImported_report_iff, mem_unusedNames_report_iff, ← has_used_ofFacts]
  -- a used package is imported, so a package that is never imported is not used
  cases hused : (ofFacts facts).used.has name with
  | true =>
    have himported := has_imported_of_confirms hbound (has_used_ofFacts.mp hused)
    simp [himported]
  | false => cases (ofFacts facts).imported.has name <;> simp [hdeclared, homits]

end State

namespace Analysis

/-- The verdicts of a file are about the packages that it declares. -/
theorem signalsBound_analyzeFile (sizes : SizeReader) (config : Config) (trees : TreeSource)
    (fs : FileSystem) (path root : Text) :
    (analyzeFile sizes config trees fs path root).SignalsBound := by
  have hnone : ∀ path' bindings diagnostics,
      (FileFacts.mk path' bindings [] diagnostics).SignalsBound := by
    intro _ _ _ g hg
    exact absurd hg (by simp)
  -- only a file that was parsed has verdicts
  unfold analyzeFile
  dsimp only
  split
  · unfold unreadable
    split <;> exact hnone _ _ _
  unfold factsOf
  dsimp only
  split
  · exact hnone _ _ _
  split
  · exact hnone _ _ _
  · -- and it has one for each of its declarations
    intro g hg
    obtain ⟨b, hb, rfl⟩ := List.mem_map.mp hg
    exact ⟨b, hb, rfl⟩

/-- The absolute root of an audit. -/
abbrev rootOf (fs : FileSystem) (root : Text) : Text :=
  Path.absolute fs.current root

/-- The facts are those of a file that the audit reads. -/
def Reads (config : Config) (context : AuditContext) (fs : FileSystem) (root : Text)
    (facts : FileFacts) : Prop :=
  ∃ files, (Collector.ofSettings context.sizes config.scan config.usage).collect fs context.canceled
      (rootOf fs root) = .ok files ∧
    ∃ path ∈ files, facts = analyzeFile context.sizes config context.trees fs path (rootOf fs root)

section Logging

variable {log : LogFile} {schedule : Schedule} {config : Config} {context : AuditContext}
  {fs : FileSystem} {root : Text} {declared files : List Text} {report : Report}

/-- In the end there are facts of each file that was found, and in the same order. Each is read
from the files as they are when some records have been logged. -/
theorem forall₂_inOrder_gather (log : LogFile) (schedule : Schedule) (config : Config)
    (context : AuditContext) (fs : FileSystem) (root : Text) (files : List Text) :
    List.Forall₂
      (fun path f => ∃ logged, f =
        analyzeFile context.sizes config context.trees (log.writeAll fs logged) path root)
      files (Schedule.inOrder files (gather log schedule config context fs root files)) := by
  refine (Schedule.forall₂_inOrder _ _ files).imp ?_
  rintro path f ⟨reported, rfl⟩
  exact ⟨_, rfl⟩

/-- How an audit ends: with what stopped the search, with an interruption, or with the report on
the facts that it has gathered of all files. -/
theorem runLogging_of_collect (log : LogFile) (schedule : Schedule) (declared : List Text)
    (hfiles : (Collector.ofSettings context.sizes config.scan config.usage).collect fs
      context.canceled (rootOf fs root) = .ok files) (hcanceled : context.canceled = false) :
    let facts := Schedule.inOrder files
      (gather log schedule config context fs (rootOf fs root) files)
    (runLogging log schedule config context fs root declared).facts = facts ∧
      (runLogging log schedule config context fs root declared).outcome =
        .ok ((State.ofFacts facts).report declared config.scan.ignoreBuiltins) := by
  dsimp only [rootOf] at hfiles ⊢
  unfold runLogging
  simp only [hfiles, if_neg (Bool.eq_false_iff.mp hcanceled), and_self]

/-- An audit that has a report has found its files and was not interrupted. -/
theorem exists_collect_of_runLogging
    (h : (runLogging log schedule config context fs root declared).outcome = .ok report) :
    context.canceled = false ∧
      ∃ files, (Collector.ofSettings context.sizes config.scan config.usage).collect fs
        context.canceled (rootOf fs root) = .ok files := by
  unfold runLogging at h
  dsimp only at h
  split at h
  · exact absurd h (by simp)
  rename_i files hfiles
  split at h
  · exact absurd h (by simp)
  · rename_i hcanceled
    exact ⟨Bool.eq_false_iff.mpr hcanceled, files, hfiles⟩

/-- The packages that a finished audit offers for removal: those that are declared and that no
file uses. -/
theorem mem_removalCandidates_runLogging_iff {name : Text}
    (h : (runLogging log schedule config context fs root declared).outcome = .ok report) :
    name ∈ report.removalCandidates declared ↔ name ∈ declared ∧
      ¬ ∃ f ∈ (runLogging log schedule config context fs root declared).facts,
        f.Confirms name := by
  obtain ⟨hcanceled, files, hfiles⟩ := exists_collect_of_runLogging h
  obtain ⟨hfacts, houtcome⟩ := runLogging_of_collect log schedule declared hfiles hcanceled
  obtain rfl := Except.ok.inj (houtcome.symm.trans h)
  rw [hfacts]
  -- whatever has been logged when a file is read, its verdicts are about its own packages
  have hbound := (forall₂_inOrder_gather log schedule config context fs (rootOf fs root) files).flip
  refine State.mem_removalCandidates_iff ((List.forall₂_and_left _ _).mp
    (hbound.imp (S := fun f _ => f.SignalsBound ∧ True) ?_)).1
  rintro f path ⟨logged, rfl⟩
  exact ⟨signalsBound_analyzeFile _ _ _ _ _ _, trivial⟩

end Logging

/-- How an audit ends that logs to none of its files: with what stopped the search, with an
interruption, or with the report on the facts of all files. -/
theorem outcome_run (config : Config) (context : AuditContext) (fs : FileSystem) (root : Text)
    (declared : List Text) :
    (run config context fs root declared).outcome =
      match (Collector.ofSettings context.sizes config.scan config.usage).collect fs
          context.canceled (rootOf fs root) with
      | .error f => .error f
      | .ok files =>
        if context.canceled then
          .error (.ofCode .canceled "analysis canceled" (some (.plain "context canceled")))
        else
          .ok ((State.ofFacts (files.map fun path =>
            analyzeFile context.sizes config context.trees fs path (rootOf fs root))).report
              declared config.scan.ignoreBuiltins) := by
  -- nothing is written between two files
  have hfacts : ∀ files, Schedule.inOrder files
      (gather .none .inTurn config context fs (rootOf fs root) files) =
      files.map fun path =>
        analyzeFile context.sizes config context.trees fs path (rootOf fs root) := by
    intro files
    refine Schedule.inOrder_takeTurns fun reported path => ?_
    dsimp only
    rw [LogFile.writeAll_none]
  unfold run runLogging
  dsimp only [rootOf] at hfacts ⊢
  cases (Collector.ofSettings context.sizes config.scan config.usage).collect fs context.canceled
      (Path.absolute fs.current root) with
  | error f => rfl
  | ok files =>
    dsimp only
    rw [hfacts]
    split <;> rfl

/-- What a finished audit reports. -/
theorem run_eq_ok {config : Config} {context : AuditContext} {fs : FileSystem} {root : Text}
    {declared : List Text} {report : Report}
    (h : (run config context fs root declared).outcome = .ok report) :
    ∃ facts, (∀ f, f ∈ facts ↔ Reads config context fs root f) ∧
      report = (State.ofFacts facts).report declared config.scan.ignoreBuiltins := by
  rw [outcome_run] at h
  split at h
  · exact absurd h (by simp)
  rename_i files hfiles
  split at h
  · exact absurd h (by simp)
  refine ⟨_, ?_, (Except.ok.inj h).symm⟩
  intro f
  simp only [Reads, hfiles, List.mem_map, Except.ok.injEq, exists_eq_left']
  exact ⟨fun ⟨path, hpath, heq⟩ => ⟨path, hpath, heq.symm⟩,
    fun ⟨path, hpath, heq⟩ => ⟨path, hpath, heq.symm⟩⟩

end Analysis

end DependencyAudit
