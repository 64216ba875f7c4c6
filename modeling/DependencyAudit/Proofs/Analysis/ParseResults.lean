import DependencyAudit.Proofs.Analysis.LinkedRoot
import DependencyAudit.Proofs.Analysis.Partition

/-!
# Imports do not depend on parsing

Two audits of the same project may be given different syntax trees. They still read the same files
and see the same imports, since declarations are taken from the text. The trees make themselves
felt at one point only: the verdicts that confirm a use, which move a name from the unused imports
to the used packages. So both audits end in the same way, and their reports differ at most in that
division and in the diagnostics.

A parse that fails confirms nothing. If all that happens to the parse results is that some of them
are lost, then names are lost from the used packages, and turn up among the unused imports.

## Main definitions

* `Report.SameImports`: two reports that agree on what is imported;
* `Analysis.OnlyLoses`: the second source of trees gives no result that the first does not give.

## Main results

* `importSightings_analyzeFile`: the imports of a file, whatever its tree;
* `State.sameImports_report`: states with the same imports;
* `Analysis.imports_ignore_parsing`: two audits with different trees.
-/

namespace DependencyAudit

/-- The reports agree on what is imported. -/
structure Report.SameImports (r r' : Report) : Prop where
  /-- The same packages are never imported. -/
  neverImported : r'.neverImported = r.neverImported
  /-- The same number of files was scanned. -/
  filesScanned : r'.filesScanned = r.filesScanned
  /-- Together, the used packages and the unused imports are the same set of names. -/
  names : ∀ name, name ∈ r.used ∨ name ∈ r.unusedNames ↔ name ∈ r'.used ∨ name ∈ r'.unusedNames
  /-- A name that is unused in both reports has the same files. -/
  files : ∀ u ∈ r.importedButUnused, ∀ u' ∈ r'.importedButUnused,
    u.dependency = u'.dependency → u.files = u'.files

/-! ## States with the same imports -/

namespace State

variable {s t : State} {declared : List Text} {ignoreBuiltins : Bool} {name : Text}

/-- Every package that is used is imported. -/
def UsesImports (s : State) : Prop :=
  ∀ name, s.used.has name = true → s.imported.has name = true

/-- Used or not, every imported package is reported unless it is left out. -/
theorem mem_used_or_unusedNames_iff (h : s.UsesImports) :
    name ∈ (s.report declared ignoreBuiltins).used ∨
        name ∈ (s.report declared ignoreBuiltins).unusedNames ↔
      s.imported.has name = true ∧ omits declared ignoreBuiltins name = false := by
  rw [mem_used_report_iff, mem_unusedNames_report_iff]
  constructor
  · rintro (⟨hused, homits⟩ | ⟨himported, -, homits⟩)
    · exact ⟨h name hused, homits⟩
    · exact ⟨himported, homits⟩
  · rintro ⟨himported, homits⟩
    cases hused : s.used.has name with
    | true => exact Or.inl ⟨rfl, homits⟩
    | false => exact Or.inr ⟨himported, rfl, homits⟩

/-- The files of an unused import are those in which it was seen. -/
theorem mem_imported_of_mem_report {u : UnusedImport}
    (h : u ∈ (s.report declared ignoreBuiltins).importedButUnused) :
    (u.dependency, u.files) ∈ s.imported := by
  obtain ⟨e, he, rfl⟩ := List.mem_map.mp h
  exact (List.mem_filter.mp he).1

/-- States with the same imports and the same number of files agree on what is imported. -/
theorem sameImports_report {seen : List (Text × Text)} (hs : s.imported = Sightings.group seen)
    (ht : t.imported = Sightings.group seen) (hfiles : s.files = t.files) (huses : s.UsesImports)
    (huses' : t.UsesImports) (declared : List Text) (ignoreBuiltins : Bool) :
    (s.report declared ignoreBuiltins).SameImports (t.report declared ignoreBuiltins) := by
  have himported : s.imported = t.imported := hs.trans ht.symm
  refine ⟨?_, hfiles.symm, ?_, ?_⟩
  · simp only [report, himported]
  · intro name
    rw [mem_used_or_unusedNames_iff huses, mem_used_or_unusedNames_iff huses', himported]
  · intro u hu u' hu' hname
    -- both entries are that of the name among the imports
    have hmem := mem_imported_of_mem_report hu
    have hmem' := mem_imported_of_mem_report hu'
    rw [hs] at hmem
    rw [ht] at hmem'
    rw [Sightings.files_of_mem_group hmem, Sightings.files_of_mem_group hmem', hname]

/-- A package that is used no more is an unused import. -/
theorem used_report_subset (huses : s.UsesImports) (huses' : t.UsesImports)
    (himported : s.imported = t.imported)
    (hlost : ∀ name, t.used.has name = true → s.used.has name = true) :
    (∀ name ∈ (t.report declared ignoreBuiltins).used,
      name ∈ (s.report declared ignoreBuiltins).used) ∧
    ∀ name ∈ (s.report declared ignoreBuiltins).used,
      name ∉ (t.report declared ignoreBuiltins).used →
      name ∈ (t.report declared ignoreBuiltins).unusedNames := by
  constructor
  · intro name hname
    rw [mem_used_report_iff] at hname ⊢
    exact ⟨hlost name hname.1, hname.2⟩
  · intro name hname hnot
    -- the name is imported in both states, so it has a place in both reports
    have hplace := (mem_used_or_unusedNames_iff huses).mp (Or.inl hname)
    rw [himported] at hplace
    exact ((mem_used_or_unusedNames_iff huses').mpr hplace).resolve_left hnot

end State

namespace Analysis

/-! ## One file -/

theorem path_factsOf (config : Config) (trees : TreeSource) (file : SourceFile) :
    (factsOf config trees file).path = file.relative := by
  unfold factsOf
  dsimp only
  split
  · rfl
  · split <;> rfl

/-- The imports of a file are those of its text. -/
theorem importSightings_analyzeFile (sizes : SizeReader) (config : Config)
    (trees trees' : TreeSource) (fs : FileSystem) (path root : Text) :
    (analyzeFile sizes config trees fs path root).importSightings =
      (analyzeFile sizes config trees' fs path root).importSightings := by
  unfold analyzeFile
  dsimp only
  split
  · -- a file that cannot be read is not parsed at all
    rfl
  · rw [FileFacts.importSightings, FileFacts.importSightings, path_factsOf, path_factsOf,
      bindings_factsOf, bindings_factsOf]

/-- The options with which a file is parsed. -/
abbrev optionsOf (file : SourceFile) : ParseOptions :=
  ParseOptions.ofExtension file.extension (file.kind = .markup)

/-- A file has no verdicts, or those of the tree that it was parsed to. -/
theorem signals_factsOf (config : Config) {trees trees' : TreeSource} {file : SourceFile}
    (h : ∀ parsed, trees'.parse file.relative file.text (optionsOf file) = .ok parsed →
      trees.parse file.relative file.text (optionsOf file) = .ok parsed) :
    (factsOf config trees' file).signals = [] ∨
      (factsOf config trees' file).signals = (factsOf config trees file).signals := by
  unfold factsOf
  dsimp only
  split
  · exact Or.inl rfl
  · cases hparse : trees'.parse file.relative file.text (optionsOf file) with
    | error f => exact Or.inl rfl
    | ok parsed =>
      -- the other source gives the same tree
      rw [h parsed hparse]
      exact Or.inr rfl

/-! ## Two audits -/

/-- What the second source of trees parses is parsed by the first with the same result, as far as
the files of the project go. -/
def OnlyLoses (sizes : SizeReader) (config : Config) (canceled : Bool) (fs : FileSystem)
    (root : Text) (trees trees' : TreeSource) : Prop :=
  ∀ files, (Collector.ofSettings sizes config.scan config.usage).collect fs canceled
      (rootOf fs root) = .ok files →
    ∀ path ∈ files, ∀ file, (Collector.ofSettings sizes config.scan config.usage).read fs path
        (rootOf fs root) = .ok file →
      ∀ parsed, trees'.parse file.relative file.text (optionsOf file) = .ok parsed →
        trees.parse file.relative file.text (optionsOf file) = .ok parsed

section Audits

variable (sizes : SizeReader) (config : Config) (fs : FileSystem) (root : Text)

/-- What is known after the files of a project. -/
abbrev stateOf (trees : TreeSource) (files : List Text) : State :=
  State.ofFacts (files.map fun path => analyzeFile sizes config trees fs path (rootOf fs root))

theorem usesImports_stateOf (trees : TreeSource) (files : List Text) :
    (stateOf sizes config fs root trees files).UsesImports := by
  intro name hused
  refine State.has_imported_of_confirms ?_ (State.has_used_ofFacts.mp hused)
  rw [List.forall_mem_map]
  exact fun path _ => signalsBound_analyzeFile sizes config trees fs path (rootOf fs root)

theorem imported_stateOf (trees trees' : TreeSource) (files : List Text) :
    (stateOf sizes config fs root trees files).imported =
      (stateOf sizes config fs root trees' files).imported := by
  rw [(State.knows_ofFacts _).imported, (State.knows_ofFacts _).imported, List.flatMap_map,
    List.flatMap_map]
  simp only [importSightings_analyzeFile sizes config trees trees']

theorem files_stateOf (trees : TreeSource) (files : List Text) :
    (stateOf sizes config fs root trees files).files = files.length := by
  rw [(State.knows_ofFacts _).files, List.length_map]

variable {sizes config fs root}

/-- Only verdicts are lost with the trees. -/
theorem OnlyLoses.has_used {canceled : Bool} {trees trees' : TreeSource}
    (h : OnlyLoses sizes config canceled fs root trees trees') {files : List Text}
    (hfiles : (Collector.ofSettings sizes config.scan config.usage).collect fs canceled
      (rootOf fs root) = .ok files) {name : Text}
    (hused : (stateOf sizes config fs root trees' files).used.has name = true) :
    (stateOf sizes config fs root trees files).used.has name = true := by
  rw [State.has_used_ofFacts] at hused ⊢
  obtain ⟨f, hf, g, hg, hconfirmed⟩ := hused
  obtain ⟨path, hpath, rfl⟩ := List.mem_map.mp hf
  refine ⟨_, List.mem_map_of_mem hpath, g, ?_, hconfirmed⟩
  unfold analyzeFile at hg ⊢
  dsimp only at hg ⊢
  split at hg
  · -- without the text of a file there are no verdicts either
    unfold unreadable at hg
    split at hg <;> exact absurd hg (by simp)
  · rename_i file hread
    have hparse := h files hfiles path hpath file hread
    rcases signals_factsOf config hparse with hnone | hsame
    · rw [hnone] at hg
      exact absurd hg (by simp)
    · rwa [hsame] at hg

/-- Two audits that differ in the syntax trees only are stopped by the same faults. If they are
not stopped, their reports agree on what is imported. If the second one merely fails to parse some
files, it confirms no more uses than the first, and what it does not confirm any more is among its
unused imports. -/
theorem imports_ignore_parsing (config : Config) (context : AuditContext) (fs : FileSystem)
    (root : Text) (declared : List Text) (trees trees' : TreeSource) :
    (∀ f, (run config { context with trees := trees } fs root declared).outcome = .error f ↔
      (run config { context with trees := trees' } fs root declared).outcome = .error f) ∧
    ∀ report report',
      (run config { context with trees := trees } fs root declared).outcome = .ok report →
      (run config { context with trees := trees' } fs root declared).outcome = .ok report' →
      report.SameImports report' ∧
      (OnlyLoses context.sizes config context.canceled fs root trees trees' →
        (∀ name ∈ report'.used, name ∈ report.used) ∧
        ∀ name ∈ report.used, name ∉ report'.used → name ∈ report'.unusedNames) := by
  rw [outcome_run, outcome_run]
  dsimp only
  -- neither the search for files nor an interruption depends on the trees
  cases hfiles : (Collector.ofSettings context.sizes config.scan config.usage).collect fs
      context.canceled (rootOf fs root) with
  | error f => exact ⟨fun _ => Iff.rfl, fun _ _ h => absurd h (by simp)⟩
  | ok files =>
    dsimp only
    split
    · exact ⟨fun _ => Iff.rfl, fun _ _ h => absurd h (by simp)⟩
    · refine ⟨by simp, ?_⟩
      intro report report' h h'
      obtain rfl := Except.ok.inj h
      obtain rfl := Except.ok.inj h'
      -- the states after the same files have the same imports
      have himported := imported_stateOf context.sizes config fs root trees trees' files
      have huses := usesImports_stateOf context.sizes config fs root trees files
      have huses' := usesImports_stateOf context.sizes config fs root trees' files
      have hcount := (files_stateOf context.sizes config fs root trees files).trans
        (files_stateOf context.sizes config fs root trees' files).symm
      have hgroup := (State.knows_ofFacts (files.map fun path =>
        analyzeFile context.sizes config trees' fs path (rootOf fs root))).imported
      refine ⟨State.sameImports_report (himported.trans hgroup) hgroup hcount huses huses' _ _, ?_⟩
      intro hloses
      exact State.used_report_subset huses huses' himported fun name hused =>
        hloses.has_used hfiles hused

end Audits

/-- Without any trees nothing is parsed. -/
theorem onlyLoses_unavailable (sizes : SizeReader) (config : Config) (canceled : Bool)
    (fs : FileSystem) (root : Text) (trees : TreeSource) :
    OnlyLoses sizes config canceled fs root trees .unavailable := by
  intro _ _ _ _ _ _ parsed hparsed
  exact absurd hparsed (by simp [TreeSource.parse])

theorem exists_ok_of_map_eq {ε α β : Type} {x : Except ε α} {f : α → β} {b : β}
    (h : x.toOption.map f = some b) : ∃ a, x = .ok a ∧ f a = b := by
  cases x with
  | error e => exact absurd h (by simp [Except.toOption])
  | ok a => exact ⟨a, rfl, Option.some.inj h⟩

theorem imports_ignore_parsing_sample :
    ∃ report report',
      (run (.default 1) sampleContext sampleFiles "/p" ["left", "used", "gone"]).outcome =
        .ok report ∧
      (run (.default 1) { sampleContext with trees := .unavailable } sampleFiles "/p"
        ["left", "used", "gone"]).outcome = .ok report' ∧
      report.SameImports report' ∧ ("used" : Text) ∈ report.used ∧ report'.used = [] ∧
      ("used" : Text) ∈ report'.unusedNames := by
  obtain ⟨report, h, hused⟩ : ∃ report, (run (.default 1) sampleContext sampleFiles "/p"
      ["left", "used", "gone"]).outcome = .ok report ∧ report.used = [("used" : Text)] :=
    exists_ok_of_map_eq (by decide +kernel)
  obtain ⟨report', h', hnone⟩ : ∃ report', (run (.default 1)
      { sampleContext with trees := .unavailable } sampleFiles "/p"
      ["left", "used", "gone"]).outcome = .ok report' ∧ report'.used = [] :=
    exists_ok_of_map_eq (by decide +kernel)
  obtain ⟨-, hreports⟩ := imports_ignore_parsing (.default 1) sampleContext sampleFiles "/p"
    ["left", "used", "gone"] sampleContext.trees .unavailable
  obtain ⟨hsame, hlost⟩ := hreports report report' h h'
  obtain ⟨-, hunused⟩ := hlost (onlyLoses_unavailable _ _ _ _ _ _)
  have hmem : ("used" : Text) ∈ report.used := by simp [hused]
  exact ⟨report, report', h, h', hsame, hmem, hnone, hunused _ hmem (by simp [hnone])⟩

end Analysis

end DependencyAudit
