import DependencyAudit.Proofs.Analysis.ParseResults
import Mathlib.Data.List.Basic

/-!
# Matching the beginnings of names

With `prefixMatch`, a package counts as used where an identifier in use starts with its name.
Without it, that kind of evidence is missing and nothing else changes. A verdict may then fall back
on weaker evidence or be lost, but none is gained. So an audit without it confirms no more uses
than one with it, sees the same imports, and offers at least as many packages for removal. The
order of the used packages is that of the first confirmation, and this may change.

## Main definitions

* `Config.withPrefixMatch`: the settings with the switch in a given position.

## Main results

* `UsageSettings.evidence_ne_absent`: what confirms a use without the switch confirms it with it;
* `State.removalCandidates_sublist`: fewer uses leave more packages to remove;
* `Analysis.removal_widens_without_prefixMatch`: two audits that differ in the switch.
-/

namespace DependencyAudit

/-- The settings with the matching of beginnings switched on or off. -/
def Config.withPrefixMatch (config : Config) (on : Bool) : Config :=
  { config with usage := { config.usage with prefixMatch := on } }

/-! ## Verdicts -/

namespace UsageSettings

variable (s : UsageSettings) (refs : References) (markupFile : Bool)

/-- A use that is confirmed without the beginnings of names is confirmed with them. The evidence
may be stronger: an identifier that starts with the name of the package comes before markup. -/
theorem evidence_ne_absent {b : Binding}
    (h : { s with prefixMatch := false }.evidence refs markupFile b ≠ .absent) :
    { s with prefixMatch := true }.evidence refs markupFile b ≠ .absent := by
  unfold evidence at h ⊢
  split
  · -- a bound name in use does not depend on the switch
    exact Evidence.noConfusion
  rename_i hbound
  rw [if_neg hbound] at h
  split
  · exact Evidence.noConfusion
  split
  · exact Evidence.noConfusion
  · -- with no markup either, nothing was left to confirm the use without the switch
    rename_i hmarkup
    refine absurd ?_ h
    rw [Bool.false_and, Bool.false_and, if_neg Bool.false_ne_true]
    exact if_neg hmarkup

theorem exists_confirmed {bindings : List Binding} {name : Text}
    (h : ∃ g ∈ { s with prefixMatch := false }.signals refs markupFile bindings,
      g.confirmed = true ∧ g.dependency = name) :
    ∃ g ∈ { s with prefixMatch := true }.signals refs markupFile bindings,
      g.confirmed = true ∧ g.dependency = name := by
  obtain ⟨g, hg, hconfirmed, hname⟩ := h
  obtain ⟨b, hb, rfl⟩ := List.mem_map.mp hg
  refine ⟨_, List.mem_map_of_mem hb, ?_, hname⟩
  exact bne_iff_ne.mpr (s.evidence_ne_absent refs markupFile (bne_iff_ne.mp hconfirmed))

end UsageSettings

/-! ## Candidates for removal -/

namespace State

variable {s t : State} {declared : List Text} {ignoreBuiltins : Bool}

/-- If the imports stay and uses are lost, what could be removed before still can be. -/
theorem isRemovable_of_lost (himported : s.imported = t.imported)
    (hlost : ∀ name, t.used.has name = true → s.used.has name = true) {name : Text}
    (h : (s.report declared ignoreBuiltins).isRemovable name = true) :
    (t.report declared ignoreBuiltins).isRemovable name = true := by
  rw [Report.isRemovable, Bool.or_eq_true, List.contains_iff_mem, List.contains_iff_mem,
    mem_neverImported_report_iff, mem_unusedNames_report_iff] at h ⊢
  rw [← himported]
  rcases h with hnever | ⟨hname, hunused, homits⟩
  · exact Or.inl hnever
  · have hunused' : t.used.has name = false := by
      by_contra hused
      rw [Bool.not_eq_false] at hused
      rw [hlost name hused] at hunused
      cases hunused
    exact Or.inr ⟨hname, hunused', homits⟩

theorem removalCandidates_sublist (himported : s.imported = t.imported)
    (hlost : ∀ name, t.used.has name = true → s.used.has name = true) :
    ((s.report declared ignoreBuiltins).removalCandidates declared).Sublist
      ((t.report declared ignoreBuiltins).removalCandidates declared) := by
  rw [Report.removalCandidates, Report.removalCandidates, firstOccurrences_filter,
    firstOccurrences_filter]
  apply List.monotone_filter_right
  intro name
  exact isRemovable_of_lost himported hlost

end State

namespace Analysis

/-! ## One file -/

variable (config : Config) (trees : TreeSource) (fs : FileSystem)

/-- The switch has no influence on which files are read, and how. -/
theorem ofSettings_withPrefixMatch (sizes : SizeReader) (on : Bool) :
    Collector.ofSettings sizes (config.withPrefixMatch on).scan (config.withPrefixMatch on).usage =
      Collector.ofSettings sizes config.scan config.usage :=
  rfl

theorem importSightings_withPrefixMatch (on : Bool) (path root : Text) :
    (analyzeFile sizes (config.withPrefixMatch on) trees fs path root).importSightings =
      (analyzeFile sizes config trees fs path root).importSightings := by
  unfold analyzeFile
  dsimp only
  rw [ofSettings_withPrefixMatch]
  split
  · rfl
  · rw [FileFacts.importSightings, FileFacts.importSightings, path_factsOf, path_factsOf,
      bindings_factsOf, bindings_factsOf]

/-- What a file confirms without the switch it confirms with it. -/
theorem confirms_withPrefixMatch {path root name : Text}
    (h : (analyzeFile sizes (config.withPrefixMatch false) trees fs path root).Confirms name) :
    (analyzeFile sizes (config.withPrefixMatch true) trees fs path root).Confirms name := by
  unfold analyzeFile at h ⊢
  dsimp only at h ⊢
  rw [ofSettings_withPrefixMatch] at h ⊢
  split at h
  · exact h
  · unfold factsOf at h ⊢
    dsimp only at h ⊢
    split at h
    · rename_i hnone
      rwa [if_pos hnone]
    · rename_i hsome
      rw [if_neg hsome]
      split at h
      · exact h
      · -- only the signals read the settings, and they are no fewer
        exact config.usage.exists_confirmed _ _ h

/-! ## Two audits -/

/-- Two audits that differ only in the matching of beginnings are stopped by the same faults. If
they are not stopped, they agree on what is never imported, the one without it finds no other
packages used, and what the one with it offers for removal the other offers in the same order. -/
theorem removal_widens_without_prefixMatch (config : Config) (context : AuditContext)
    (fs : FileSystem) (root : Text) (declared : List Text) :
    (∀ f, (run (config.withPrefixMatch true) context fs root declared).outcome = .error f ↔
      (run (config.withPrefixMatch false) context fs root declared).outcome = .error f) ∧
    ∀ report report',
      (run (config.withPrefixMatch true) context fs root declared).outcome = .ok report →
      (run (config.withPrefixMatch false) context fs root declared).outcome = .ok report' →
      report'.neverImported = report.neverImported ∧
      (∀ name ∈ report'.used, name ∈ report.used) ∧
      (report.removalCandidates declared).Sublist (report'.removalCandidates declared) := by
  rw [outcome_run, outcome_run]
  simp only [ofSettings_withPrefixMatch]
  cases (Collector.ofSettings context.sizes config.scan config.usage).collect fs context.canceled
      (rootOf fs root) with
  | error f => exact ⟨fun _ => Iff.rfl, fun _ _ h => absurd h (by simp)⟩
  | ok files =>
    dsimp only
    split
    · exact ⟨fun _ => Iff.rfl, fun _ _ h => absurd h (by simp)⟩
    refine ⟨by simp, ?_⟩
    intro report report' h h'
    obtain rfl := Except.ok.inj h
    obtain rfl := Except.ok.inj h'
    -- the same imports are seen in every file, and so in all of them
    have himported :
        (stateOf context.sizes (config.withPrefixMatch true) fs root context.trees files).imported =
          (stateOf context.sizes (config.withPrefixMatch false) fs root context.trees
            files).imported := by
      rw [(State.knows_ofFacts _).imported, (State.knows_ofFacts _).imported, List.flatMap_map,
        List.flatMap_map]
      simp only [importSightings_withPrefixMatch]
    have hlost : ∀ name,
        (stateOf context.sizes (config.withPrefixMatch false) fs root context.trees files).used.has
          name = true →
        (stateOf context.sizes (config.withPrefixMatch true) fs root context.trees files).used.has
          name = true := by
      intro name
      rw [State.has_used_ofFacts, State.has_used_ofFacts]
      rintro ⟨f, hf, hconfirms⟩
      obtain ⟨path, hpath, rfl⟩ := List.mem_map.mp hf
      exact ⟨_, List.mem_map_of_mem hpath, confirms_withPrefixMatch _ _ _ hconfirms⟩
    refine ⟨?_, ?_, State.removalCandidates_sublist himported hlost⟩
    · simp only [State.report, himported]
    · exact (State.used_report_subset (usesImports_stateOf _ _ _ _ _ _)
        (usesImports_stateOf _ _ _ _ _ _) himported hlost).1

/-! ## A project in which the order changes -/

/-- The call of an identifier, as far as it matters. -/
private def callOf (start stop : Nat) : SyntaxTree :=
  .node ⟨"call_expression", true, false, false, "", start, stop + 2⟩
    [.node ⟨"identifier", true, false, false, "function", start, stop⟩ []]

private def programOf (call : SyntaxTree) : SyntaxTree :=
  .node ⟨"program", true, false, false, "", 0, 30⟩ [call]

/-- Before `x` is used, `lod` is used as the beginning of a name, and afterwards under its own
name. There is no other use of `left` than the beginning of a name. -/
private def switchedFiles : FileSystem :=
  ⟨.directory [("p", .directory
    [("a.js", .file "import a from 'lod';\nlodash();\n"),
     ("b.js", .file "import x from 'x';\nx();\n"),
     ("c.js", .file "import l from 'lod';\nl();\n"),
     ("d.js", .file "import y from 'left';\nlefty();\n")])],
   "/p"⟩

private def switchedContext : AuditContext :=
  { trees := .available fun path _ _ =>
      if path = "a.js" then some (programOf (callOf 21 27))
      else if path = "b.js" then some (programOf (callOf 19 20))
      else if path = "c.js" then some (programOf (callOf 21 22))
      else some (programOf (callOf 22 27))
    sizes := Size.parse
    canceled := false
    runId := "r"
    elapsed := 0
    time := none }

theorem removal_widens_without_prefixMatch_sample :
    ∃ report report',
      (run ((Config.default 1).withPrefixMatch true) switchedContext switchedFiles "/p"
        ["left", "x", "lod"]).outcome = .ok report ∧
      (run ((Config.default 1).withPrefixMatch false) switchedContext switchedFiles "/p"
        ["left", "x", "lod"]).outcome = .ok report' ∧
      report.used = ["lod", "x", "left"] ∧ report'.used = ["x", "lod"] ∧
      report'.removalCandidates ["left", "x", "lod"] = [("left" : Text)] ∧
      report'.neverImported = report.neverImported ∧
      (∀ name ∈ report'.used, name ∈ report.used) ∧
      (report.removalCandidates ["left", "x", "lod"]).Sublist
        (report'.removalCandidates ["left", "x", "lod"]) := by
  obtain ⟨report, h, hused⟩ : ∃ report, (run ((Config.default 1).withPrefixMatch true)
      switchedContext switchedFiles "/p" ["left", "x", "lod"]).outcome = .ok report ∧
        report.used = [("lod" : Text), "x", "left"] :=
    exists_ok_of_map_eq (by decide +kernel)
  obtain ⟨report', h', hused'⟩ : ∃ report', (run ((Config.default 1).withPrefixMatch false)
      switchedContext switchedFiles "/p" ["left", "x", "lod"]).outcome = .ok report' ∧
        (report'.used, report'.removalCandidates ["left", "x", "lod"]) =
          ([("x" : Text), "lod"], [("left" : Text)]) :=
    exists_ok_of_map_eq
      (f := fun r : Report => (r.used, r.removalCandidates ["left", "x", "lod"]))
      (by decide +kernel)
  obtain ⟨hused', hcandidates⟩ := Prod.mk.inj hused'
  obtain ⟨-, hreports⟩ := removal_widens_without_prefixMatch (.default 1) switchedContext
    switchedFiles "/p" ["left", "x", "lod"]
  exact ⟨report, report', h, h', hused, hused', hcandidates, hreports report report' h h'⟩

end Analysis

end DependencyAudit
