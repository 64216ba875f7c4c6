import DependencyAudit.Proofs.Analysis.Candidates
import Mathlib.Data.List.Nodup

/-!
# The report of an audit is a partition

Every name that an audit knows of, because it is declared or because a source file imports it,
has exactly one place in the report. The exception are modules of the runtime, which can be left
out unless they are declared. That no package is both used and never imported rests on
`FileFacts.SignalsBound`: verdicts are about packages that the same file declares.

## Main definitions

* `Report.tally`: how often a name occurs in each part of a report;
* `Analysis.Imports`: a source file of the project imports the package.

## Main results

* `State.tally_report`: the place of a name, from the facts of all files;
* `Analysis.run_places_every_name`: the place of a name in the report of an audit.
-/

namespace DependencyAudit

/-- How often a name occurs among the used packages, the unused imports and the packages that are
never imported. -/
def Report.tally (r : Report) (name : Text) : Nat × Nat × Nat :=
  (r.used.count name, r.unusedNames.count name, r.neverImported.count name)

/-! ## Parts without repetitions -/

namespace State

variable {facts : List FileFacts} {declared : List Text} {ignoreBuiltins : Bool} {name : Text}

theorem nodup_names_group (seen : List (Text × Text)) : (Sightings.group seen).names.Nodup := by
  rw [Sightings.names_group]
  exact nodup_firstOccurrences _

theorem nodup_used_report :
    ((ofFacts facts).report declared ignoreBuiltins).used.Nodup := by
  refine List.Nodup.filter _ ?_
  rw [(knows_ofFacts facts).used]
  exact nodup_names_group _

theorem nodup_unusedNames_report :
    ((ofFacts facts).report declared ignoreBuiltins).unusedNames.Nodup := by
  have hnames : ((ofFacts facts).imported.map (·.1)).Nodup := by
    rw [(knows_ofFacts facts).imported]
    exact nodup_names_group _
  -- the unused imports are some of the imports
  have hsublist : List.Sublist ((ofFacts facts).report declared ignoreBuiltins).unusedNames
      ((ofFacts facts).imported.map (·.1)) := by
    simp only [Report.unusedNames, report, List.map_map]
    exact List.filter_sublist.map _
  exact hnames.sublist hsublist

theorem nodup_neverImported_report {s : State} :
    (s.report declared ignoreBuiltins).neverImported.Nodup :=
  (nodup_firstOccurrences declared).filter _

/-! ## The place of a name -/

/-- The report puts an imported name among the used packages or among the unused imports, unless
it leaves it out, and of the other names only those that are declared are in it. -/
theorem tally_report (hbound : ∀ f ∈ facts, f.SignalsBound) :
    ((ofFacts facts).report declared ignoreBuiltins).tally name =
      if (ofFacts facts).imported.has name then
        if omits declared ignoreBuiltins name then (0, 0, 0)
        else if (ofFacts facts).used.has name then (1, 0, 0) else (0, 1, 0)
      else if name ∈ declared then (0, 0, 1) else (0, 0, 0) := by
  rw [Report.tally, nodup_used_report.count, nodup_unusedNames_report.count,
    nodup_neverImported_report.count]
  simp only [mem_used_report_iff, mem_unusedNames_report_iff, mem_neverImported_report_iff]
  have huses : (ofFacts facts).used.has name = true → (ofFacts facts).imported.has name = true :=
    fun hused => has_imported_of_confirms hbound (has_used_ofFacts.mp hused)
  cases himported : (ofFacts facts).imported.has name with
  | true =>
    -- the verdicts decide, or nothing is said of the name
    cases omits declared ignoreBuiltins name <;> cases (ofFacts facts).used.has name <;> simp
  | false =>
    -- a package that is never imported is not used
    have hunused : (ofFacts facts).used.has name = false := by
      cases hused : (ofFacts facts).used.has name with
      | true => exact absurd (huses hused) (by simp [himported])
      | false => rfl
    by_cases hdeclared : name ∈ declared <;> simp [hunused, hdeclared]

end State

namespace Analysis

/-! ## What the files of a project import -/

/-- A source file of the project, as far as it can be read, imports the package. -/
def Imports (config : Config) (context : AuditContext) (fs : FileSystem) (root name : Text) :
    Prop :=
  ∃ files, (Collector.ofSettings context.sizes config.scan config.usage).collect fs context.canceled
      (rootOf fs root) = .ok files ∧
    ∃ path ∈ files, ∃ file, (Collector.ofSettings context.sizes config.scan config.usage).read fs
        path (rootOf fs root) = .ok file ∧
      ∃ b ∈ Import.bindings file.relative file.text, b.dependency = name

/-- The declarations of a file do not depend on whether it parses. -/
theorem bindings_factsOf (config : Config) (trees : TreeSource) (file : SourceFile) :
    (factsOf config trees file).bindings = Import.bindings file.relative file.text := by
  unfold factsOf
  dsimp only
  split
  · rename_i hempty
    exact (List.isEmpty_iff.mp hempty).symm
  · split <;> rfl

/-- The facts of a file show the packages that its text declares. -/
theorem binds_analyzeFile_iff {sizes : SizeReader} {config : Config} {trees : TreeSource}
    {fs : FileSystem} {path root name : Text} :
    (analyzeFile sizes config trees fs path root).Binds name ↔
      ∃ file, (Collector.ofSettings sizes config.scan config.usage).read fs path root = .ok file ∧
        ∃ b ∈ Import.bindings file.relative file.text, b.dependency = name := by
  unfold analyzeFile
  dsimp only
  split
  · rename_i f hread
    -- a file that cannot be read declares nothing
    have hnone : (unreadable (fs.displayPath root path) f).bindings = [] := by
      unfold unreadable
      split <;> rfl
    simp [FileFacts.Binds, hnone, hread]
  · rename_i file hread
    simp [FileFacts.Binds, bindings_factsOf, hread]

theorem exists_binds_iff_imports {config : Config} {context : AuditContext} {fs : FileSystem}
    {root name : Text} :
    (∃ f, Reads config context fs root f ∧ f.Binds name) ↔
      Imports config context fs root name := by
  constructor
  · rintro ⟨f, ⟨files, hfiles, path, hpath, rfl⟩, hbinds⟩
    exact ⟨files, hfiles, path, hpath, binds_analyzeFile_iff.mp hbinds⟩
  · rintro ⟨files, hfiles, path, hpath, himports⟩
    exact ⟨_, ⟨files, hfiles, path, hpath, rfl⟩, binds_analyzeFile_iff.mpr himports⟩

/-- Every declared name has exactly one place in the report of an audit. So has every package that
a source file imports, and it is among the used packages or among the unused imports; but modules
of the runtime that are not declared are left out on request. No other name is in the report, and
what is never imported are exactly the declared packages that no source file imports. -/
theorem run_places_every_name {config : Config} {context : AuditContext} {fs : FileSystem}
    {root : Text} {declared : List Text} {report : Report}
    (h : (run config context fs root declared).outcome = .ok report) (name : Text) :
    (name ∈ declared → report.tally name = (1, 0, 0) ∨ report.tally name = (0, 1, 0) ∨
      report.tally name = (0, 0, 1)) ∧
    (Imports config context fs root name →
      ¬ (config.scan.ignoreBuiltins = true ∧ Specifier.isBuiltin name = true ∧ name ∉ declared) →
      report.tally name = (1, 0, 0) ∨ report.tally name = (0, 1, 0)) ∧
    (config.scan.ignoreBuiltins = true ∧ Specifier.isBuiltin name = true ∧ name ∉ declared →
      report.tally name = (0, 0, 0)) ∧
    (name ∉ declared → ¬ Imports config context fs root name → report.tally name = (0, 0, 0)) ∧
    (name ∈ report.neverImported ↔
      name ∈ declared ∧ ¬ Imports config context fs root name) := by
  obtain ⟨facts, hfacts, rfl⟩ := run_eq_ok h
  have hbound : ∀ f ∈ facts, f.SignalsBound := by
    intro f hf
    obtain ⟨_, -, path, -, rfl⟩ := (hfacts f).mp hf
    exact signalsBound_analyzeFile _ _ _ _ _ _
  have himports : Imports config context fs root name ↔
      (State.ofFacts facts).imported.has name = true := by
    rw [← exists_binds_iff_imports, State.has_imported_ofFacts]
    simp only [hfacts]
  rw [State.mem_neverImported_report_iff, State.tally_report hbound, himports,
    ← State.omits_eq_true_iff]
  have hdeclaredOf : State.omits declared config.scan.ignoreBuiltins name = true →
      name ∉ declared :=
    fun h => (State.omits_eq_true_iff.mp h).2.2
  cases (State.ofFacts facts).imported.has name with
  | false =>
    -- only a declared name has a place, and a declared name is not left out
    by_cases hdeclared : name ∈ declared
    · have homits := mt hdeclaredOf (not_not.mpr hdeclared)
      simp [hdeclared, homits]
    · simp [hdeclared]
  | true =>
    cases homits : State.omits declared config.scan.ignoreBuiltins name with
    | true => simp [hdeclaredOf homits]
    | false => cases (State.ofFacts facts).used.has name <;> simp

/-! ## A project with a package in every place -/

/-- A project whose source files import three packages and use one of them. -/
def sampleFiles : FileSystem :=
  ⟨.directory [("p", .directory
    [("a.js", .file "import x from 'used';\nx();\n"), ("b.js", .file "import y from 'left';\n"),
     ("c.js", .file "import z from 'fs';\n")])],
   "/p"⟩

/-- The syntax tree of the first file, as far as the call in it goes. -/
def sampleTree : SyntaxTree :=
  .node ⟨"program", true, false, false, "", 0, 27⟩
    [.node ⟨"call_expression", true, false, false, "", 22, 25⟩
      [.node ⟨"identifier", true, false, false, "function", 22, 23⟩ []]]

/-- The parser always answers with that tree. -/
def sampleContext : AuditContext :=
  ⟨.available fun _ _ _ => some sampleTree, Size.parse, false, "r", 0, none⟩

theorem run_places_every_name_sample :
    ∃ report, (run (.default 1) sampleContext sampleFiles "/p"
        ["left", "used", "gone", "used"]).outcome = .ok report ∧
      report.tally "used" = (1, 0, 0) ∧ report.tally "left" = (0, 1, 0) ∧
      report.tally "gone" = (0, 0, 1) ∧ report.tally "fs" = (0, 0, 0) ∧
      ¬ Imports (.default 1) sampleContext sampleFiles "/p" "gone" := by
  have hreport : (run (.default 1) sampleContext sampleFiles "/p"
      ["left", "used", "gone", "used"]).outcome.toOption.map
        (fun r => (r.tally "used", r.tally "left", r.neverImported)) =
      some ((1, 0, 0), (0, 1, 0), [("gone" : Text)]) := by
    decide +kernel
  cases hrun : (run (.default 1) sampleContext sampleFiles "/p"
      ["left", "used", "gone", "used"]).outcome with
  | error f =>
    rw [hrun] at hreport
    exact absurd hreport (by simp [Except.toOption])
  | ok report =>
    rw [hrun] at hreport
    obtain ⟨hused, hleft, hnever⟩ :=
      by simpa only [Prod.mk.injEq] using Option.some.inj hreport
    have hplaces := run_places_every_name hrun
    -- a name that is never imported is neither used nor an unused import
    have hgone : ("gone" : Text) ∈ report.neverImported := by simp [hnever]
    have himports := ((hplaces "gone").2.2.2.2.mp hgone).2
    have hone : report.neverImported.count ("gone" : Text) = 1 := by
      rw [hnever]
      decide
    refine ⟨report, rfl, hused, hleft, ?_, ?_, himports⟩
    · rcases (hplaces "gone").1 (by decide) with h | h | h
      · exact absurd (congrArg (·.2.2) h) (by simp [Report.tally, hone])
      · exact absurd (congrArg (·.2.2) h) (by simp [Report.tally, hone])
      · exact h
    · exact (hplaces "fs").2.2.1 (by decide)

end Analysis

end DependencyAudit
