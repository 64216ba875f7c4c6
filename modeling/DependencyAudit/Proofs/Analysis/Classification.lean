import DependencyAudit.Proofs.Analysis.Candidates
import Mathlib.Data.List.Basic

/-!
# The report in closed form

A report is drawn from collections that grow file by file. Here it is given at once, from the
list of all files: which packages are confirmed to be used, which are declared in some file, and
in which order they turn up. The candidates for removal need even less. They are the names of the
manifest that no file confirms, so the order of the files has no influence on them, nor does the
treatment of runtime modules, and more files can only make them fewer.

## Main definitions

* `FileFacts.confirmedNames` and `FileFacts.boundNames`: the packages of a file, with repetitions;
* `Report.ofFacts`: the report on a list of files, in closed form.

## Main results

* `State.report_eq_ofFacts`: the collections amount to the closed form;
* `State.removalCandidates_eq_filter`: the candidates for removal;
* `State.candidates_follow_evidence`: what they depend on.
-/

namespace DependencyAudit

namespace FileFacts

/-- The packages whose use the file confirms, in the order of its verdicts. -/
def confirmedNames (f : FileFacts) : List Text :=
  (f.signals.filter (·.confirmed)).map (·.dependency)

/-- The packages that the file declares, in the order of its declarations. -/
def boundNames (f : FileFacts) : List Text :=
  f.bindings.map (·.dependency)

/-- Uses are seen in the order of the confirmed names. -/
theorem map_fst_useSightings (f : FileFacts) : f.useSightings.map (·.1) = f.confirmedNames := by
  rw [useSightings, List.map_map]
  rfl

/-- Imports are seen in the order of the bound names. -/
theorem map_fst_importSightings (f : FileFacts) :
    f.importSightings.map (·.1) = f.boundNames := by
  rw [importSightings, List.map_map]
  rfl

/-- The confirmed names are those that the file confirms. -/
theorem mem_confirmedNames_iff {f : FileFacts} {name : Text} :
    name ∈ f.confirmedNames ↔ f.Confirms name := by
  rw [← map_fst_useSightings, mem_useSightings_iff]

/-- A file is noted under a package once for each of its declarations. -/
theorem pathsOf_importSightings (f : FileFacts) (name : Text) :
    Sightings.pathsOf f.importSightings name =
      (f.boundNames.filter (· = name)).map fun _ => f.path := by
  rw [Sightings.pathsOf, importSightings, boundNames, List.filter_map, List.filter_map,
    List.map_map, List.map_map]
  rfl

end FileFacts

/-- The report on a list of files. A package is used if some verdict confirms it, and imported if
some file declares it; repetitions count at their first place. Runtime modules are left out on
request, unless they are declared. -/
def Report.ofFacts (facts : List FileFacts) (declared : List Text) (ignoreBuiltins : Bool) :
    Report :=
  let used := facts.flatMap FileFacts.confirmedNames
  let imported := facts.flatMap FileFacts.boundNames
  let shown (name : Text) : Bool :=
    !ignoreBuiltins || !Specifier.isBuiltin name || declared.contains name
  { used := used.eraseDups.filter shown
    importedButUnused :=
      (imported.eraseDups.filter fun name => !used.contains name && shown name).map fun name =>
        ⟨name, ((facts.filter (·.boundNames.contains name)).map (·.path)).eraseDups⟩
    neverImported := declared.eraseDups.filter fun name => !imported.contains name
    noSourceFiles := facts.isEmpty
    filesScanned := facts.length
    diagnostics := facts.flatMap FileFacts.diagnostics }

namespace State

variable {facts : List FileFacts} {name : Text}

/-! ## The collections -/

/-- A package is used if it is among the confirmed names of the files. -/
theorem has_used_eq (facts : List FileFacts) (name : Text) :
    (ofFacts facts).used.has name = (facts.flatMap FileFacts.confirmedNames).contains name := by
  rw [Bool.eq_iff_iff, has_used_ofFacts, List.contains_iff_mem, List.mem_flatMap]
  simp only [FileFacts.mem_confirmedNames_iff]

/-- A package is imported if it is among the bound names of the files. -/
theorem has_imported_eq (facts : List FileFacts) (name : Text) :
    (ofFacts facts).imported.has name = (facts.flatMap FileFacts.boundNames).contains name := by
  rw [Bool.eq_iff_iff, (knows_ofFacts facts).imported, Sightings.has_group, List.map_flatMap,
    List.contains_iff_mem]
  simp only [FileFacts.map_fst_importSightings]

/-- The used packages are the confirmed names of the files, each once. -/
theorem names_used_eq (facts : List FileFacts) :
    (ofFacts facts).used.names = (facts.flatMap FileFacts.confirmedNames).eraseDups := by
  rw [(knows_ofFacts facts).used, Sightings.names_group, List.map_flatMap,
    firstOccurrences_eq_eraseDups]
  simp only [FileFacts.map_fst_useSightings]

/-- The files under a package are those that declare it. -/
theorem pathsOf_eq_eraseDups (facts : List FileFacts) (name : Text) :
    firstOccurrences (Sightings.pathsOf (facts.flatMap FileFacts.importSightings) name) =
      ((facts.filter (·.boundNames.contains name)).map (·.path)).eraseDups := by
  have hpaths : Sightings.pathsOf (facts.flatMap FileFacts.importSightings) name =
      facts.flatMap fun f => Sightings.pathsOf f.importSightings name := by
    rw [Sightings.pathsOf, List.filter_flatMap, List.map_flatMap]
    rfl
  have hfiles : (facts.filter (·.boundNames.contains name)).map (·.path) =
      facts.flatMap fun f => if f.boundNames.contains name then [f.path] else [] := by
    clear hpaths
    induction facts with
    | nil => rfl
    | cons f more ih =>
      rw [List.filter_cons, List.flatMap_cons, ← ih]
      split <;> rfl
  rw [← firstOccurrences_eq_eraseDups, hpaths, hfiles]
  -- a file with several declarations of the package comes up several times in a row
  refine firstOccurrences_flatMap_congr fun f _ => ?_
  rw [FileFacts.pathsOf_importSightings]
  split
  · rename_i hbinds
    have hne : f.boundNames.filter (· = name) ≠ [] :=
      List.ne_nil_of_mem (List.mem_filter.mpr ⟨List.contains_iff_mem.mp hbinds, by simp⟩)
    exact Sightings.foldl_insertNew_const hne (by simp)
  · rename_i hbinds
    have hnil : f.boundNames.filter (· = name) = [] := by
      rw [List.filter_eq_nil_iff]
      intro other hother heq
      rw [of_decide_eq_true heq] at hother
      exact hbinds (List.contains_iff_mem.mpr hother)
    rw [hnil]
    rfl

/-- The imports are the declared packages, each with the files that declare it. -/
theorem imported_eq (facts : List FileFacts) :
    (ofFacts facts).imported = (facts.flatMap FileFacts.boundNames).eraseDups.map fun name =>
      (name, ((facts.filter (·.boundNames.contains name)).map (·.path)).eraseDups) := by
  rw [(knows_ofFacts facts).imported, Sightings.group, List.map_flatMap,
    firstOccurrences_eq_eraseDups]
  simp only [FileFacts.map_fst_importSightings, pathsOf_eq_eraseDups]

/-! ## The report -/

/-- After any list of files the report is the one in closed form. -/
theorem report_eq_ofFacts (facts : List FileFacts) (declared : List Text)
    (ignoreBuiltins : Bool) :
    (ofFacts facts).report declared ignoreBuiltins =
      Report.ofFacts facts declared ignoreBuiltins := by
  have hshown : ∀ name, (!omits declared ignoreBuiltins name) =
      (!ignoreBuiltins || !Specifier.isBuiltin name || declared.contains name) := by
    intro name
    simp [omits]
  unfold report Report.ofFacts
  simp only [hshown, has_used_eq, has_imported_eq, names_used_eq, (knows_ofFacts facts).files,
    (knows_ofFacts facts).diagnostics, firstOccurrences_eq_eraseDups]
  -- what is left are the unused imports and the question whether there are files at all
  rw [imported_eq, List.filter_map, List.map_map]
  congr 1
  cases facts <;> rfl

/-! ## Candidates for removal -/

/-- The candidates for removal are the names of the manifest that no file confirms. -/
theorem removalCandidates_eq_filter (hbound : ∀ f ∈ facts, f.SignalsBound) (declared : List Text)
    (ignoreBuiltins : Bool) :
    ((ofFacts facts).report declared ignoreBuiltins).removalCandidates declared =
      declared.eraseDups.filter (· ∉ facts.flatMap FileFacts.confirmedNames) := by
  rw [Report.removalCandidates, firstOccurrences_filter, firstOccurrences_eq_eraseDups]
  refine List.filter_congr fun name hname => ?_
  have hdeclared : name ∈ declared := List.mem_eraseDups.mp hname
  have hcandidate : name ∈
      ((ofFacts facts).report declared ignoreBuiltins).removalCandidates declared ↔ _ :=
    mem_removalCandidates_iff hbound
  rw [Report.removalCandidates, mem_firstOccurrences, List.mem_filter] at hcandidate
  rw [Bool.eq_iff_iff, decide_eq_true_iff, List.mem_flatMap]
  simpa only [hdeclared, true_and, FileFacts.mem_confirmedNames_iff] using hcandidate

/-- Where every verdict is about a package that its own file declares, the candidates for removal
are the names of the manifest, without repetitions, that no file confirms. So they are the same
for every order of the files and whether or not runtime modules are left out, and with more files
some of them may go but none is added. -/
theorem candidates_follow_evidence (hbound : ∀ f ∈ facts, f.SignalsBound) (declared : List Text)
    (ignoreBuiltins : Bool) :
    ((ofFacts facts).report declared ignoreBuiltins).removalCandidates declared =
      declared.eraseDups.filter (· ∉ facts.flatMap FileFacts.confirmedNames) ∧
    (∀ facts' ignoreBuiltins', facts'.Perm facts →
      ((ofFacts facts').report declared ignoreBuiltins').removalCandidates declared =
        ((ofFacts facts).report declared ignoreBuiltins).removalCandidates declared) ∧
    (∀ more ignoreBuiltins', facts.Sublist more → (∀ f ∈ more, f.SignalsBound) →
      (((ofFacts more).report declared ignoreBuiltins').removalCandidates declared).Sublist
        (((ofFacts facts).report declared ignoreBuiltins).removalCandidates declared)) := by
  rw [removalCandidates_eq_filter hbound]
  refine ⟨rfl, ?_, ?_⟩
  · intro facts' ignoreBuiltins' hperm
    rw [removalCandidates_eq_filter fun f hf => hbound f (hperm.mem_iff.mp hf)]
    refine List.filter_congr fun name _ => ?_
    simp only [(hperm.flatMap_right _).mem_iff]
  · intro more ignoreBuiltins' hmore hbound'
    rw [removalCandidates_eq_filter hbound']
    -- what some file confirms is still confirmed among more files
    refine List.monotone_filter_right _ fun name hname => ?_
    rw [decide_eq_true_iff] at hname ⊢
    intro hconfirmed
    obtain ⟨f, hf, hname'⟩ := List.mem_flatMap.mp hconfirmed
    exact hname (List.mem_flatMap.mpr ⟨f, hmore.subset hf, hname'⟩)

/-! ## Files that come in -/

/-- Two files that declare packages: only `used` is put to use, and the second file declares `lod`
without using it. -/
private def earlyFacts : List FileFacts :=
  [⟨"a.js", [⟨"used", ["u"], "a.js", [.staticImport]⟩, ⟨"fs", ["fs"], "a.js", [.dynamicRequire]⟩],
    [⟨"used", "a.js", true, .symbol⟩, ⟨"fs", "a.js", false, .absent⟩], []⟩,
   ⟨"b.js", [⟨"lod", ["l"], "b.js", [.staticImport]⟩], [⟨"lod", "b.js", false, .absent⟩], []⟩]

/-- A file that does use `lod`. -/
private def lateFacts : FileFacts :=
  ⟨"c.js", [⟨"lod", ["l"], "c.js", [.staticImport]⟩], [⟨"lod", "c.js", true, .nameStart⟩], []⟩

/-- Another order of the files and another flag leave the candidates alone, and one more file adds
none. -/
theorem candidates_follow_evidence_sample :
    (∀ f ∈ lateFacts :: earlyFacts, f.SignalsBound) ∧
      ((ofFacts earlyFacts).report ["lod", "used", "fs", "lod", "left"] true).removalCandidates
        ["lod", "used", "fs", "lod", "left"] = [("lod" : Text), "fs", "left"] ∧
      ((ofFacts earlyFacts.reverse).report ["lod", "used", "fs", "lod", "left"]
        false).removalCandidates ["lod", "used", "fs", "lod", "left"] =
          [("lod" : Text), "fs", "left"] ∧
      (((ofFacts (lateFacts :: earlyFacts)).report ["lod", "used", "fs", "lod", "left"]
        true).removalCandidates ["lod", "used", "fs", "lod", "left"]).Sublist
          [("lod" : Text), "fs", "left"] := by
  have hbound : ∀ f ∈ lateFacts :: earlyFacts, f.SignalsBound := by
    unfold FileFacts.SignalsBound
    decide
  obtain ⟨hcandidates, horder, hmore⟩ := candidates_follow_evidence
    (List.forall_mem_cons.mp hbound).2 ["lod", "used", "fs", "lod", "left"] true
  have hearly : ((ofFacts earlyFacts).report ["lod", "used", "fs", "lod", "left"]
      true).removalCandidates ["lod", "used", "fs", "lod", "left"] =
        [("lod" : Text), "fs", "left"] := by
    rw [hcandidates]
    decide +kernel
  refine ⟨hbound, hearly, ?_, ?_⟩
  · rw [horder _ false (List.reverse_perm _), hearly]
  · rw [← hearly]
    exact hmore _ true (List.sublist_cons_self _ _) hbound

end State

end DependencyAudit
