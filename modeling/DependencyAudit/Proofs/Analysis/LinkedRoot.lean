import DependencyAudit.Proofs.Analysis.Candidates
import DependencyAudit.Proofs.FileSystem.Content
import DependencyAudit.Proofs.Path

/-!
# Projects that are reached through a link

The root of a project has to lead to a directory, and it may do so through a symbolic link. But
the search for source files does not follow links, and this goes for the root too: of a root that
is itself a link no source files are found. An audit of such a root agrees with one of the
directory behind the link exactly if there are no source files in the directory. Otherwise the
project looks empty, and every declared package is offered for removal.

## Main definitions

* `FileSystem.LinksTo`: a path is a symbolic link that resolves to a directory;
* `Collector.SameFiles`: two roots have the same source files.

## Main results

* `FileSystem.place_follow`: following links makes no difference where there is none at the end;
* `Collector.walk_of_linksTo`: nothing is found at a link;
* `Analysis.linked_root_agrees_iff`: when the root may be named by a link.
-/

namespace DependencyAudit

namespace FileSystem

variable {fs : FileSystem}

/-- A resolution that does not end at a link takes the same way if it may follow a final link. -/
private theorem walkToLink_follow
    {onLink onLink' : List Text → List Text → Except Refusal Place}
    {found : List Text} {node : FileNode} (hnode : ∀ target, node ≠ .link target)
    (hlink : ∀ location pieces, onLink location pieces = .ok (.found found node) →
      onLink' location pieces = .ok (.found found node))
    {location pieces : List Text}
    (h : fs.walkToLink false onLink location pieces = .ok (.found found node)) :
    fs.walkToLink true onLink' location pieces = .ok (.found found node) := by
  induction pieces generalizing location with
  | nil =>
    unfold walkToLink at h ⊢
    exact h
  | cons piece rest ih =>
    unfold walkToLink at h ⊢
    split at h
    · exact absurd h (by simp)
    split at h
    · exact absurd h (by simp)
    rename_i hdir
    rw [if_neg hdir]
    split at h
    · rename_i hdot
      rw [if_pos hdot]
      exact ih h
    rename_i hdot
    rw [if_neg hdot]
    split at h
    · rename_i hup
      rw [if_pos hup]
      exact ih h
    rename_i hup
    rw [if_neg hup]
    split at h
    · exact absurd h (by simp)
    rename_i hlong
    rw [if_neg hlong]
    split at h
    · split at h <;> exact absurd h (by simp)
    · rename_i target hchild
      split at h
      · -- a link at the end would have been the result
        obtain ⟨-, rfl⟩ := Place.found.inj (Except.ok.inj h)
        exact absurd rfl (hnode target)
      · rw [if_neg (by simp)]
        exact hlink _ _ h
    · exact ih h

private theorem walk_follow {links : Nat} {location pieces found : List Text} {node : FileNode}
    (hnode : ∀ target, node ≠ .link target)
    (h : fs.walk false links location pieces = .ok (.found found node)) :
    fs.walk true links location pieces = .ok (.found found node) := by
  induction links generalizing location pieces with
  | zero => exact walkToLink_follow hnode (fun _ _ hlink => absurd hlink (by simp)) h
  | succ links ih => exact walkToLink_follow hnode (fun _ _ hlink => ih hlink) h

/-- Where a path does not end at a link, it leads to the same place if a link at its end may be
followed. -/
theorem place_follow {path : Text} {found : List Text} {node : FileNode}
    (hnode : ∀ target, node ≠ .link target) (h : fs.place false path = .ok (.found found node)) :
    fs.place true path = .ok (.found found node) := by
  unfold place at h ⊢
  split at h
  · exact absurd h (by simp)
  rename_i hempty
  rw [if_neg hempty]
  split at h
  · exact absurd h (by simp)
  rename_i hname
  rw [if_neg hname]
  split at h
  · rename_i habsolute
    rw [if_pos habsolute]
    exact walk_follow hnode h
  · rename_i habsolute
    rw [if_neg habsolute]
    exact walk_follow hnode h

/-- The path `link` is a symbolic link, and it resolves to the directory that `directory`
names. -/
structure LinksTo (fs : FileSystem) (link directory : Text) : Prop where
  /-- Without following links, a link is found. -/
  isLink : ∃ target, fs.node false link = .ok (.link target)
  /-- Following them, both paths lead to one directory, and `directory` itself is no link. -/
  resolves : ∃ location entries,
    fs.place true link = .ok (.found location (.directory entries)) ∧
    fs.place false directory = .ok (.found location (.directory entries))

end FileSystem

/-! ## The search for source files -/

namespace Collector

open Analysis (rootOf)

variable {c : Collector} {fs : FileSystem} {canceled : Bool} {root link directory : Text}

/-- The source files that are found at two roots are the same: there are as many, and they have
the same paths relative to their root, in the same order. -/
def SameFiles (c : Collector) (fs : FileSystem) (canceled : Bool) (root root' : Text) : Prop :=
  ∃ files files', c.collect fs canceled root = .ok files ∧
    c.collect fs canceled root' = .ok files' ∧
    files.length = files'.length ∧
    files.map (fs.displayPath (rootOf fs root)) = files'.map (fs.displayPath (rootOf fs root'))

/-- A root that leads to a directory is searched, without following a link. -/
theorem walk_of_place {location : List Text} {entries : List (Text × FileNode)}
    (h : fs.place true (rootOf fs root) = .ok (.found location (.directory entries))) :
    c.walk fs root = match fs.node false (rootOf fs root) with
      | .ok (.directory entries) => .ok (c.filesIn (rootOf fs root) entries)
      | .ok (.file _) => .ok (if c.isMatch (rootOf fs root) then [rootOf fs root] else [])
      | _ => .ok [] := by
  have hroot : checkRoot fs root = .ok (rootOf fs root) := by
    unfold checkRoot
    dsimp only
    rw [FileSystem.stat, FileSystem.node_of_place h]
    rfl
  rw [walk, hroot]
  rfl

/-- Nothing is found at a link, although it leads to a directory. -/
theorem walk_of_linksTo (h : fs.LinksTo (rootOf fs link) (rootOf fs directory)) :
    c.walk fs link = .ok [] := by
  obtain ⟨target, hlink⟩ := h.isLink
  obtain ⟨location, entries, hresolves, -⟩ := h.resolves
  rw [walk_of_place hresolves, hlink]

/-- The directory behind the link is searched. -/
theorem exists_walk_of_linksTo (h : fs.LinksTo (rootOf fs link) (rootOf fs directory)) :
    ∃ files, c.walk fs directory = .ok files := by
  obtain ⟨location, entries, -, hplace⟩ := h.resolves
  rw [walk_of_place (FileSystem.place_follow (by simp) hplace), FileSystem.node_of_place hplace]
  exact ⟨_, rfl⟩

/-- What has been found is returned unless the search was interrupted, and there is nothing to
interrupt if there are no files. -/
theorem collect_eq_ok_iff {files : List Text} :
    c.collect fs canceled root = .ok files ↔
      c.walk fs root = .ok files ∧ (canceled = true → files = []) := by
  unfold collect
  cases c.walk fs root with
  | error f => simp [bind, Except.bind]
  | ok found =>
    change (if canceled && !found.isEmpty then _ else _) = _ ↔ _
    split
    · rename_i hstop
      simp only [Bool.and_eq_true, Bool.not_eq_true', List.isEmpty_eq_false_iff] at hstop
      simp only [reduceCtorEq, Except.ok.injEq, false_iff, not_and]
      rintro rfl
      exact fun hnil => hstop.2 (hnil hstop.1)
    · rename_i hgo
      simp only [Except.ok.injEq]
      constructor
      · rintro rfl
        refine ⟨rfl, fun hcanceled => ?_⟩
        simpa [hcanceled] using hgo
      · exact fun h => h.1

theorem collect_of_linksTo (h : fs.LinksTo (rootOf fs link) (rootOf fs directory)) :
    c.collect fs canceled link = .ok [] :=
  collect_eq_ok_iff.mpr ⟨walk_of_linksTo h, fun _ => rfl⟩

/-- The link and the directory have the same source files exactly if there are none. -/
theorem sameFiles_iff (h : fs.LinksTo (rootOf fs link) (rootOf fs directory)) :
    c.SameFiles fs canceled link directory ↔ c.walk fs directory = .ok [] := by
  constructor
  · rintro ⟨files, files', hfiles, hfiles', hlength, -⟩
    obtain rfl : files = [] := Except.ok.inj (hfiles.symm.trans (collect_of_linksTo h))
    obtain rfl : files' = [] := List.eq_nil_of_length_eq_zero hlength.symm
    exact (collect_eq_ok_iff.mp hfiles').1
  · intro hnone
    exact ⟨[], [], collect_of_linksTo h, collect_eq_ok_iff.mpr ⟨hnone, fun _ => rfl⟩, rfl, rfl⟩

end Collector

/-! ## The audit -/

namespace Analysis

variable {fs : FileSystem} {link directory : Text}

/-- Without source files every declared package is offered for removal. -/
theorem removalCandidates_empty (declared : List Text) (ignoreBuiltins : Bool) :
    (State.empty.report declared ignoreBuiltins).removalCandidates declared =
      firstOccurrences declared := by
  rw [Report.removalCandidates, List.filter_eq_self.mpr]
  intro name hname
  rw [Report.isRemovable, Bool.or_eq_true, List.contains_iff_mem]
  exact Or.inl (State.mem_neverImported_report_iff.mpr ⟨hname, rfl⟩)

/-- The audits of two roots can only end in the same way if both find files or none does. -/
private theorem files_eq_nil_of_outcome_eq {config : Config} {context : AuditContext}
    {root root' : Text} {declared files' : List Text}
    (hfiles : (Collector.ofSettings context.sizes config.scan config.usage).walk fs
      (rootOf fs root) = .ok [])
    (hfiles' : (Collector.ofSettings context.sizes config.scan config.usage).walk fs
      (rootOf fs root') = .ok files')
    (h : (run config context fs root declared).outcome =
      (run config context fs root' declared).outcome) : files' = [] := by
  rw [outcome_run, outcome_run, Collector.collect_eq_ok_iff.mpr ⟨hfiles, fun _ => rfl⟩] at h
  dsimp only at h
  cases hcanceled : context.canceled with
  | true =>
    rw [hcanceled, if_pos rfl] at h
    cases files' with
    | nil => rfl
    | cons first more =>
      -- the two interruptions are told apart by their texts
      have hstopped : (Collector.ofSettings context.sizes config.scan config.usage).collect fs true
          (rootOf fs root') = .error
            (.ofCode .canceled "file discovery canceled" (some (.plain "context canceled"))) := by
        rw [Collector.collect, hfiles']
        rfl
      rw [hstopped] at h
      have htext := (Fault.coded.inj (Except.error.inj h)).2.1
      exact absurd htext (by decide)
  | false =>
    rw [hcanceled, Collector.collect_eq_ok_iff.mpr ⟨hfiles', by simp⟩] at h
    dsimp only at h
    rw [if_neg (by simp), if_neg (by simp)] at h
    -- the report counts the files
    have hcount := congrArg Report.filesScanned (Except.ok.inj h)
    simp only [State.report, (State.knows_ofFacts _).files, List.map_nil, List.length_map,
      List.length_nil] at hcount
    exact List.eq_nil_of_length_eq_zero hcount.symm

/-- At a root that is a link to a directory no source files are found. It has the same source
files as the directory, and its audit ends like that of the directory, exactly if there are no
source files in the directory. Every declared package is offered for removal. -/
theorem linked_root_agrees_iff (hcurrent : Path.isAbsolute fs.current = true)
    (h : fs.LinksTo (rootOf fs link) (rootOf fs directory)) (config : Config)
    (context : AuditContext) (declared : List Text) :
    (Collector.ofSettings context.sizes config.scan config.usage).collect fs context.canceled link =
      .ok [] ∧
    ((Collector.ofSettings context.sizes config.scan config.usage).SameFiles fs context.canceled
        link directory ↔
      (Collector.ofSettings context.sizes config.scan config.usage).walk fs directory = .ok []) ∧
    ((run config context fs link declared).outcome =
        (run config context fs directory declared).outcome ↔
      (Collector.ofSettings context.sizes config.scan config.usage).walk fs directory = .ok []) ∧
    (∀ report, (run config context fs link declared).outcome = .ok report →
      report.noSourceFiles = true ∧
        report.removalCandidates declared = firstOccurrences declared) := by
  -- the root of an audit is made absolute once more when its files are searched for
  have hwalk (root : Text) :
      (Collector.ofSettings context.sizes config.scan config.usage).walk fs (rootOf fs root) =
        (Collector.ofSettings context.sizes config.scan config.usage).walk fs root := by
    rw [Collector.walk, Collector.walk, Collector.checkRoot, Collector.checkRoot,
      Path.absolute_absolute hcurrent]
  have hlink := (hwalk link).trans (Collector.walk_of_linksTo h)
  have hcollect := Collector.collect_eq_ok_iff.mpr ⟨hlink, fun _ : context.canceled = true => rfl⟩
  refine ⟨Collector.collect_of_linksTo h, Collector.sameFiles_iff h, ⟨?_, ?_⟩, ?_⟩
  · intro hsame
    obtain ⟨files, hfiles⟩ := Collector.exists_walk_of_linksTo
      (c := Collector.ofSettings context.sizes config.scan config.usage) h
    obtain rfl := files_eq_nil_of_outcome_eq hlink ((hwalk directory).trans hfiles) hsame
    exact hfiles
  · intro hnone
    have hcollect' := Collector.collect_eq_ok_iff.mpr
      ⟨(hwalk directory).trans hnone, fun _ : context.canceled = true => rfl⟩
    rw [outcome_run, outcome_run, hcollect, hcollect']
    rfl
  · intro report hreport
    rw [outcome_run, hcollect] at hreport
    dsimp only at hreport
    split at hreport
    · exact absurd hreport (by simp)
    · obtain rfl := Except.ok.inj hreport
      exact ⟨rfl, removalCandidates_empty declared _⟩

/-! ## A project with a link to it -/

/-- A project with one source file, and a link to it. -/
def linkedFiles : FileSystem :=
  ⟨.directory [("link", .link "/p"),
    ("p", .directory [("a.js", .file "import x from 'used';\nx();\n")])], "/"⟩

theorem linked_root_agrees_iff_sample :
    linkedFiles.LinksTo (rootOf linkedFiles "/link") (rootOf linkedFiles "/p") ∧
      ¬ (Collector.ofSettings Size.parse (Config.default 1).scan (Config.default 1).usage).SameFiles
        linkedFiles false "/link" "/p" := by
  have hlinks : linkedFiles.LinksTo (rootOf linkedFiles "/link") (rootOf linkedFiles "/p") :=
    ⟨⟨_, rfl⟩, ⟨_, _, rfl, rfl⟩⟩
  obtain ⟨-, hsame, -⟩ := linked_root_agrees_iff rfl hlinks (.default 1)
    ⟨.unavailable, Size.parse, false, "r", 0, none⟩ ["used"]
  have hfiles : ((Collector.ofSettings Size.parse (Config.default 1).scan
      (Config.default 1).usage).walk linkedFiles "/p").toOption = some [("/p/a.js" : Text)] := by
    decide +kernel
  refine ⟨hlinks, fun hagrees => ?_⟩
  rw [hsame.mp hagrees] at hfiles
  exact absurd hfiles (by simp [Except.toOption])

end Analysis

end DependencyAudit
