import DependencyAudit.Config.Standard
import DependencyAudit.Proofs.Analysis.Candidates
import DependencyAudit.Proofs.CommandLine.Session

/-!
# What `remove` leaves alone

The command `remove` goes through an audit, the choice of candidates and the choice of a package
manager before it removes anything. What it hands to the package manager is declared, not kept
and not used, and a dry run changes nothing but the log file. If the package manager deletes
nothing else, the packages that are kept or used are still declared in the end.

All of this is about the files that the process leaves, with every record in the log file. The log
file may be any file: a source file, or even the manifest, which is then no manifest any more.

## Main definitions

* `Session.Uses`: a file of the project confirms a use of the package;
* `Command.Reaches`: the command gets as far as the removal.

## Main results

* `Command.mem_candidates_iff`: the packages that the command removes;
* `Command.remove_of_reaches` and `Command.remove_of_not_reaches`: what the command does;
* `Command.onlyLogged_of_call_eq_none`: what has changed if no package manager was asked;
* `Command.remove_spares_used_and_kept`: what it leaves alone.
-/

namespace DependencyAudit

/-- One of the files that the audit of the session reads confirms a use of the package. The file is
read as it is when its turn comes, with what has been logged to it by then. -/
def Session.Uses (w : World) (session : Session) (name : Text) : Prop :=
  ∃ f ∈ (Command.audit w session).facts, f.Confirms name

namespace Command

variable {given : Option PackageManager} {w : World} {s : Options} {session : Session}
  {report : Report} {pm : PackageManager}

/-- The packages of a report that are not kept. -/
def candidates (session : Session) (report : Report) : List Text :=
  (session.keep.split (report.removalCandidates session.manifest.manifest.declared)).1

/-- The package manager that the command uses. -/
def chosenManager (given : Option PackageManager) (w : World) (session : Session) :
    Except Fault PackageManager :=
  (chooseManager given w session (session.after (audit w session).log)).2

/-- What has been logged when the package manager is chosen. -/
def logBefore (given : Option PackageManager) (w : World) (session : Session) : List LogRecord :=
  (audit w session).log ++ (chooseManager given w session (session.after (audit w session).log)).1

/-- The removal of some candidates. -/
def removal (given : Option PackageManager) (w : World) (session : Session) (report : Report)
    (pm : PackageManager) : Removal :=
  Removal.runLogging session.log w.context.time pm (session.after (logBefore given w session))
    session.manifest.path (candidates session report)

/-- The command gets as far as the removal. -/
structure Reaches (given : Option PackageManager) (w : World) (s : Options) (session : Session)
    (report : Report) (pm : PackageManager) : Prop where
  /-- The audit has a report. -/
  audit : (audit w session).outcome = .ok report
  /-- There is a package manager. -/
  manager : chosenManager given w session = .ok pm
  /-- It is not a dry run. -/
  wet : s.dryRun = false
  /-- There is something to remove. -/
  candidates : candidates session report ≠ []

/-- There is at most one report and one package manager to get there with. -/
theorem Reaches.eq {report' : Report} {pm' : PackageManager}
    (h : Reaches given w s session report pm) (h' : Reaches given w s session report' pm') :
    report' = report ∧ pm' = pm :=
  ⟨Except.ok.inj (h'.audit.symm.trans h.audit), Except.ok.inj (h'.manager.symm.trans h.manager)⟩

/-- The packages that the command removes are those that are declared, not kept and not used. -/
theorem mem_candidates_iff (h : (audit w session).outcome = .ok report) {name : Text} :
    name ∈ candidates session report ↔
      name ∈ session.manifest.manifest.declared ∧ session.keep.has name = false ∧
        ¬ session.Uses w name := by
  -- the audit is one of the declared packages
  have hcandidates : name ∈ report.removalCandidates session.manifest.manifest.declared ↔
      name ∈ session.manifest.manifest.declared ∧ ¬ session.Uses w name :=
    Analysis.mem_removalCandidates_runLogging_iff h
  simp only [candidates, KeepList.split, List.mem_filter, Bool.not_eq_true', hcandidates,
    and_assoc, and_comm (a := session.keep.has name = false)]

/-- From the removal on, the command does what the removal does and then reports it. -/
theorem remove_of_reaches (h : Reaches given w s session report pm) :
    (remove given w s session).files = (removal given w session report pm).files ∧
      (remove given w s session).log =
        logBefore given w session ++ (removal given w session report pm).log ∧
      (remove given w s session).call = (removal given w session report pm).call ∧
      ∃ kept, (remove given w s session).outcome =
        (removal given w session report pm).outcome.bind fun removed =>
          removalText w s pm (candidates session report) removed kept := by
  have hgo : ¬ (s.dryRun || (candidates session report).isEmpty) = true := by
    simp [h.wet, h.candidates]
  have hmanager := h.manager
  unfold candidates at hgo
  unfold chosenManager at hmanager
  unfold remove
  simp only [h.audit, hmanager, if_neg hgo]
  exact ⟨rfl, rfl, rfl, _, rfl⟩

/-- Short of the removal, the command does nothing but log. -/
theorem remove_of_not_reaches (h : ¬ ∃ report pm, Reaches given w s session report pm) :
    (remove given w s session).files = session.after (remove given w s session).log ∧
      (remove given w s session).call = none := by
  unfold remove
  dsimp only
  -- by what stops the command: the audit, the choice of a package manager, or nothing to do
  split
  · exact ⟨rfl, rfl⟩
  rename_i report haudit
  split
  · exact ⟨rfl, rfl⟩
  rename_i pm hmanager
  split
  · exact ⟨rfl, rfl⟩
  · rename_i hgo
    simp only [Bool.or_eq_true, not_or, Bool.not_eq_true, List.isEmpty_eq_false_iff] at hgo
    exact absurd ⟨report, pm, haudit, hmanager, hgo.1, hgo.2⟩ h

/-- If no package manager was asked, nothing but logging has changed the files. -/
theorem onlyLogged_of_call_eq_none
    (h : (inSession w s (remove given)).2.call = none) :
    OnlyLogged w s (inSession w s (remove given)).2.log
      (inSession w s (remove given)).2.files := by
  rcases inSession_cases w s (remove given) with ⟨-, honly, -⟩ | ⟨session, hsession, hrun⟩
  · exact honly
  rw [hrun] at h ⊢
  have hfiles : (remove given w s session).files =
      session.after (remove given w s session).log := by
    by_cases hreaches : ∃ report pm, Reaches given w s session report pm
    · -- the removal has found nothing to ask for
      obtain ⟨report, pm, hreaches⟩ := hreaches
      obtain ⟨hfiles, hlog, hcall, -⟩ := remove_of_reaches hreaches
      rw [hcall] at h
      have honly := Removal.files_of_call_eq_none h
      rw [hfiles, hlog, Session.after, LogFile.writeAll_append]
      exact honly
    · exact (remove_of_not_reaches hreaches).1
  rw [hfiles]
  exact hsession.onlyLogged _

/-! ## What is handed to the package manager -/

/-- The package manager is asked for packages that are declared, not kept and not used, for each
of them once. -/
theorem names_of_call {call : UninstallCall}
    (h : (remove given w s session).call = some call) :
    call.names.Nodup ∧ ∀ name ∈ call.names, name ∈ session.manifest.manifest.declared ∧
      session.keep.has name = false ∧ ¬ session.Uses w name := by
  by_cases hreaches : ∃ report pm, Reaches given w s session report pm
  · obtain ⟨report, pm, hreaches⟩ := hreaches
    rw [(remove_of_reaches hreaches).2.2.1] at h
    obtain ⟨m, -, rfl⟩ := Removal.call_eq_some h
    refine ⟨Removal.nodup_targets _ _, fun name hname => ?_⟩
    exact (mem_candidates_iff hreaches.audit).mp (Removal.mem_targets_iff.mp hname).1
  · rw [(remove_of_not_reaches hreaches).2] at h
    exact absurd h (by simp)

/-- If the package manager deletes at most what it is asked for, and the manifest is not the log
file, then the packages that are kept or used are still declared when the command has succeeded. -/
theorem declared_after_remove (hsession : Session.Opened w s session)
    (hmanager : chosenManager given w session = .ok pm)
    (hpm : ∀ records, pm.DeletesOnlyNamed (session.after records) session.manifest.path)
    (hlog : ¬ session.log.IsAt session.files session.manifest.path) {text : Text}
    (hok : (remove given w s session).outcome = .ok text) :
    ∃ after, ManifestFile.load (remove given w s session).files session.manifest.path = .ok after ∧
      ∀ name ∈ session.manifest.manifest.declared,
        (session.keep.has name = true ∨ session.Uses w name) → name ∈ after.manifest.declared := by
  by_cases hreaches : ∃ report pm, Reaches given w s session report pm
  · obtain ⟨report, pm', hreaches⟩ := hreaches
    obtain rfl : pm' = pm := Except.ok.inj (hreaches.manager.symm.trans hmanager)
    obtain ⟨hfiles, -, -, kept, houtcome⟩ := remove_of_reaches hreaches
    rw [houtcome] at hok
    cases hremoval : (removal given w session report pm').outcome with
    | error f =>
      rw [hremoval] at hok
      exact absurd hok (by simp [Except.bind])
    | ok removed =>
      have hstill := hsession.load_manifest_after hlog (logBefore given w session)
      have hpm' : ∀ records, pm'.DeletesOnlyNamed
          (session.log.writeAll (session.after (logBefore given w session)) records)
          session.manifest.path := by
        intro records
        have hmore := hpm (logBefore given w session ++ records)
        rwa [Session.after, LogFile.writeAll_append] at hmore
      obtain ⟨after, hafter, hdeclared⟩ := Removal.declared_after hpm'
        (fun hat => hlog (LogFile.isAt_writeAll_iff.mp hat)) hstill hremoval
      refine ⟨after, by rw [hfiles]; exact hafter, fun name hname hspared => ?_⟩
      refine hdeclared name hname fun hcandidate => ?_
      obtain ⟨-, hkept, hused⟩ := (mem_candidates_iff hreaches.audit).mp hcandidate
      rcases hspared with hkeep | huses
      · exact absurd hkeep (by simp [hkept])
      · exact hused huses
  · -- nothing was removed
    rw [(remove_of_not_reaches hreaches).1]
    exact ⟨session.manifest, hsession.load_manifest_after hlog _, fun name hname _ => hname⟩

/-- What `remove` hands to the package manager is declared, not kept and not used, and is handed
over once. A dry run asks no package manager and changes no file, but the log file is made if it
is missing and takes the log. If the package manager deletes at most what it is asked for, the
log file is not the manifest and the command succeeds, every declared package that is kept or
used is still declared. -/
theorem remove_spares_used_and_kept (given : Option PackageManager) (w : World) (s : Options) :
    (∀ call, (inSession w s (remove given)).2.call = some call →
      ∃ session, Session.Opened w s session ∧ call.names.Nodup ∧
        ∀ name ∈ call.names, name ∈ session.manifest.manifest.declared ∧
          session.keep.has name = false ∧ ¬ session.Uses w name) ∧
    (s.dryRun = true → (inSession w s (remove given)).2.call = none ∧
      OnlyLogged w s (inSession w s (remove given)).2.log
        (CommandLine.execute w s (remove given)).files ∧
      (∀ path text, w.files.content path = .ok text →
        (CommandLine.execute w s (remove given)).files.content path = .ok text ∨
        LogsTo w s (CommandLine.execute w s (remove given)).files path ∧
          (CommandLine.execute w s (remove given)).files.content path =
            .ok (text ++ LogFile.handler.writeAll (inSession w s (remove given)).2.log)) ∧
      (∀ path text, (CommandLine.execute w s (remove given)).files.content path = .ok text →
        (∃ before, w.files.content path = .ok before) ∨
        LogsTo w s (CommandLine.execute w s (remove given)).files path) ∧
      (s.logFile = [] → (CommandLine.execute w s (remove given)).files = w.files)) ∧
    (∀ session pm text, Session.Opened w s session → chosenManager given w session = .ok pm →
      (∀ records, pm.DeletesOnlyNamed (session.after records) session.manifest.path) →
      ¬ session.log.IsAt session.files session.manifest.path →
      (inSession w s (remove given)).2.outcome = .ok text →
      ∃ after, ManifestFile.load (CommandLine.execute w s (remove given)).files
          session.manifest.path = .ok after ∧
        ∀ name ∈ session.manifest.manifest.declared,
          (session.keep.has name = true ∨ session.Uses w name) →
            name ∈ after.manifest.declared) := by
  rw [files_execute]
  refine ⟨?_, ?_, ?_⟩
  · intro call hcall
    rcases inSession_cases w s (remove given) with ⟨hnone, -⟩ | ⟨session, hsession, hrun⟩
    · rw [hnone] at hcall
      exact absurd hcall (by simp)
    · rw [hrun] at hcall
      exact ⟨session, hsession, names_of_call hcall⟩
  · intro hdry
    have hcall : (inSession w s (remove given)).2.call = none := by
      rcases inSession_cases w s (remove given) with ⟨hnone, -⟩ | ⟨session, -, hrun⟩
      · exact hnone
      · -- a dry run stops short of the removal
        rw [hrun]
        refine (remove_of_not_reaches ?_).2
        rintro ⟨report, pm, hreaches⟩
        exact absurd hreaches.wet (by simp [hdry])
    have honly := onlyLogged_of_call_eq_none hcall
    exact ⟨hcall, honly, fun _ _ => honly.content, fun _ _ => honly.exists_before,
      honly.eq_of_no_log⟩
  · intro session pm text hsession hmanager hpm hlog hok
    rcases inSession_cases w s (remove given) with ⟨-, -, -, hnone⟩ | ⟨session', hsession', hrun⟩
    · exact absurd ⟨session, hsession⟩ hnone
    · obtain rfl : session' = session := hsession.eq hsession'
      rw [hrun] at hok ⊢
      exact declared_after_remove hsession hmanager hpm hlog hok

/-! ## A project with something to remove -/

/-- A project that declares three packages: one is used, one is kept, and one is left. -/
def sampleFiles : FileSystem :=
  ⟨.directory [("p", .directory
    [("DEPTRIM.toml", .file "[[keep]]\nname = \"kept\"\n"),
     ("a.js", .file "import x from 'used'\nx()\n"),
     ("package.json", .file
       "\x7b\"dependencies\": \x7b\"left\": \"1\", \"used\": \"2\", \"kept\": \"3\"\x7d\x7d")])],
   "/p"⟩

/-- The syntax tree of the one source file, as far as the call in it goes. -/
def sampleTree : SyntaxTree :=
  .node ⟨"program", true, false, false, "", 0, 25⟩
    [.node ⟨"call_expression", true, false, false, "", 21, 24⟩
      [.node ⟨"identifier", true, false, false, "function", 21, 22⟩ []]]

/-- The project, with the project as the working directory. -/
def sampleWorld : World :=
  ⟨sampleFiles, [], .standard, [],
    ⟨.available fun _ _ _ => some sampleTree, Size.parse, false, "r", 0, none⟩, .inTurn, 1, false,
    ⟨"1", "", false⟩⟩

/-- A package manager that leaves everything to the pruning of the manifest. -/
def idleManager : PackageManager :=
  ⟨"idle", fun fs _ _ => ⟨fs, none, none, some⟩, fun _ => none⟩

private theorem idleManager_deletesOnlyNamed (fs : FileSystem) (path : Text) :
    idleManager.DeletesOnlyNamed fs path := by
  intro names before after hbefore _ hafter name hname _
  obtain rfl : before = after := Except.ok.inj (hbefore.symm.trans hafter)
  exact hname

/-- The options of a run that keeps a log file. -/
def logged : Options := { Options.default with logFile := "out.log" }

/-- What the session of the project says about its packages, while a log file is being written. -/
private theorem sample_session :
    ∃ session report, Session.Opened sampleWorld logged session ∧
      (audit sampleWorld session).outcome = .ok report ∧
      session.manifest.manifest.declared = ["left", "used", "kept"] ∧
      session.keep.has "kept" = true ∧ session.keep.has "used" = false ∧
      candidates session report = ["left"] ∧
      ¬ session.log.IsAt session.files session.manifest.path := by
  -- one run of the session and its audit, for all that there is to know about them
  have hsample : (Session.open? sampleWorld logged).bind (fun session =>
      (audit sampleWorld session).outcome.toOption.map fun report =>
        ([session.manifest.manifest.declared, candidates session report],
          [session.keep.has "kept", session.keep.has "used"],
          [session.log.location?, session.files.locate? session.manifest.path])) =
      some ([[("left" : Text), "used", "kept"], [("left" : Text)]], [true, false],
        [some [("out.log" : Text), "p"], some [("package.json" : Text), "p"]]) := by
    decide +kernel
  simp only [Option.bind_eq_some_iff, Option.map_eq_some_iff, toOption_eq_some_iff,
    Prod.mk.injEq, List.cons.injEq, and_true] at hsample
  obtain ⟨session, hopen, report, haudit, ⟨hdeclared, hcandidates⟩, ⟨hkept, hnotKept⟩, hlog,
    hmanifest⟩ := hsample
  refine ⟨session, report, Session.opened_iff.mpr hopen, haudit, hdeclared, hkept, hnotKept,
    hcandidates, ?_⟩
  -- the log file and the manifest lie side by side
  rintro ⟨location, hlocation, hleads⟩
  obtain rfl := Option.some.inj (hlog.symm.trans hlocation)
  exact absurd (hmanifest.symm.trans hleads) (by decide)

/-- While a log is kept, one package is removed, and the one that is used and the one that is kept
are spared. A dry run without a log leaves the files alone. -/
theorem remove_spares_used_and_kept_sample :
    (inSession sampleWorld logged (remove (some idleManager))).2.call =
        some ⟨"/p", [("left" : Text)]⟩ ∧
      (∃ session, Session.Opened sampleWorld logged session ∧
        (∀ name ∈ [("left" : Text)], name ∈ session.manifest.manifest.declared ∧
          session.keep.has name = false ∧ ¬ session.Uses sampleWorld name) ∧
        ∃ after, ManifestFile.load
            (CommandLine.execute sampleWorld logged (remove (some idleManager))).files
              session.manifest.path = .ok after ∧
          ("used" : Text) ∈ after.manifest.declared ∧
          ("kept" : Text) ∈ after.manifest.declared) ∧
      (CommandLine.execute sampleWorld { Options.default with dryRun := true }
        (remove (some idleManager))).files = sampleWorld.files := by
  obtain ⟨hcalls, -, hspared⟩ :=
    remove_spares_used_and_kept (some idleManager) sampleWorld logged
  have hrun : ((inSession sampleWorld logged (remove (some idleManager))).2.call,
      (inSession sampleWorld logged (remove (some idleManager))).2.outcome.toOption.isSome) =
      (some ⟨"/p", [("left" : Text)]⟩, true) := by
    decide +kernel
  obtain ⟨hcall, hok⟩ := Prod.mk.inj hrun
  obtain ⟨text, htext⟩ := Option.isSome_iff_exists.mp hok
  obtain ⟨session, report, hsession, haudit, hdeclared, hkept, hnotKept, hcandidates, hlog⟩ :=
    sample_session
  -- it is declared and not kept, so nothing but a use can have spared it
  have huses : session.Uses sampleWorld "used" := by
    by_contra huses
    have hmem : ("used" : Text) ∈ candidates session report :=
      (mem_candidates_iff haudit).mpr ⟨by rw [hdeclared]; decide, hnotKept, huses⟩
    rw [hcandidates] at hmem
    exact absurd hmem (by decide)
  refine ⟨hcall, ⟨session, hsession, ?_, ?_⟩, ?_⟩
  · obtain ⟨session', hsession', -, hnames⟩ := hcalls _ hcall
    obtain rfl : session' = session := hsession.eq hsession'
    exact hnames
  · obtain ⟨after, hafter, hstill⟩ := hspared session idleManager text hsession rfl
      (fun _ => idleManager_deletesOnlyNamed _ _) hlog (toOption_eq_some_iff.mp htext)
    refine ⟨after, hafter, ?_, ?_⟩
    · exact hstill _ (by rw [hdeclared]; decide) (Or.inr huses)
    · exact hstill _ (by rw [hdeclared]; decide) (Or.inl hkept)
  · obtain ⟨-, hdry, -⟩ := remove_spares_used_and_kept (some idleManager) sampleWorld
      { Options.default with dryRun := true }
    exact (hdry rfl).2.2.2.2 rfl

/-- The options of a dry run whose log is to go to the manifest. -/
def loggedToManifest : Options := { Options.default with dryRun := true, logFile := "package.json" }

/-- A dry run that is told to log makes the log file. If the log file is the manifest, the run
succeeds and nothing is declared there any more. -/
theorem log_file_takes_log :
    (¬ ∀ (given : Option PackageManager) (w : World) (s : Options), s.dryRun = true →
      (CommandLine.execute w s (remove given)).files = w.files) ∧
    ¬ ∀ (given : Option PackageManager) (w : World) (s : Options) (session : Session)
      (pm : PackageManager) (text : Text), Session.Opened w s session →
      chosenManager given w session = .ok pm →
      (∀ records, pm.DeletesOnlyNamed (session.after records) session.manifest.path) →
      (inSession w s (remove given)).2.outcome = .ok text →
      ∃ after, ManifestFile.load (CommandLine.execute w s (remove given)).files
          session.manifest.path = .ok after := by
  constructor
  · -- the project has no file of this name before
    intro h
    have hsame := h none sampleWorld
      { Options.default with dryRun := true, logFile := "out.log" } rfl
    have hlog : ((CommandLine.execute sampleWorld
        { Options.default with dryRun := true, logFile := "out.log" }
        (remove none)).files.content "out.log").toOption.isSome = true := by
      decide +kernel
    rw [hsame] at hlog
    exact absurd hlog (by decide +kernel)
  · -- behind the records of the log the manifest is no JSON text any more
    intro h
    have hsample : (Session.open? sampleWorld loggedToManifest).map (·.manifest.path) =
        some ("/p/package.json" : Text) := by
      decide +kernel
    have hrun : ((inSession sampleWorld loggedToManifest
          (remove (some idleManager))).2.outcome.toOption.isSome,
        (ManifestFile.load (CommandLine.execute sampleWorld loggedToManifest
          (remove (some idleManager))).files "/p/package.json").toOption.isSome) =
            (true, false) := by
      decide +kernel
    obtain ⟨session, hopen, hpath⟩ := Option.map_eq_some_iff.mp hsample
    obtain ⟨hok, hgone⟩ := Prod.mk.inj hrun
    obtain ⟨text, htext⟩ := Option.isSome_iff_exists.mp hok
    obtain ⟨after, hafter⟩ := h (some idleManager) sampleWorld loggedToManifest session idleManager
      text (Session.opened_iff.mpr hopen) rfl (fun _ => idleManager_deletesOnlyNamed _ _)
      (toOption_eq_some_iff.mp htext)
    rw [hpath] at hafter
    rw [hafter] at hgone
    exact absurd hgone Bool.true_eq_false.mp

end Command

end DependencyAudit
