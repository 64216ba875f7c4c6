import DependencyAudit.CommandLine.Run
import DependencyAudit.Proofs.Removal

/-!
# Sessions and the files

A command runs in the session that its options describe, or fails to set one up. Until then the
only thing that happens to the files is that the log file is made, if there is to be one. After
that every record is written to its end. Every other file keeps its content.

## Main definitions

* `Session.Opened` and `Session.open?`: the options lead to the session;
* `LogsTo`: a path leads to the log file;
* `OnlyLogged`: nothing but logging has changed the files.

## Main results

* `OnlyLogged.content` and `OnlyLogged.exists_before`: what logging does to the contents of files;
* `OnlyLogged.toOption_content_eq_iff`: under which paths nothing has changed;
* `Session.Opened.load_manifest`: the manifest of a session is the one in its files;
* `Command.inSession_cases`: how a command begins.
-/

namespace DependencyAudit

/-! ## What logging leaves alone -/

/-- In the given files, the path leads to the log file that the options ask for. -/
def LogsTo (w : World) (s : Options) (files : FileSystem) (path : Text) : Prop :=
  ∃ opened log, Session.openLog w.files s.logFile = .ok (opened, log) ∧ log.IsAt files path

/-- The files are those of the world, or those with the log file in place and with the records in
it. -/
def OnlyLogged (w : World) (s : Options) (records : List LogRecord) (files : FileSystem) : Prop :=
  (records = [] ∧ files = w.files) ∨
    ∃ opened log, Session.openLog w.files s.logFile = .ok (opened, log) ∧
      files = log.writeAll opened records

namespace Session

variable {fs fs' : FileSystem} {log : LogFile} {logPath path text : Text}

/-- Opening the log file does nothing if there is none, and otherwise what `LogFile.openAt`
does. -/
theorem openLog_cases (h : openLog fs logPath = .ok (fs', log)) :
    (logPath = [] ∧ fs' = fs ∧ log = .none) ∨ LogFile.openAt fs logPath = .ok (fs', log) := by
  unfold openLog at h
  split at h
  · rename_i hempty
    obtain ⟨rfl, rfl⟩ := Prod.mk.inj (Except.ok.inj h)
    exact Or.inl ⟨List.isEmpty_iff.mp hempty, rfl, rfl⟩
  split at h
  · rename_i opened hopened
    obtain rfl := Except.ok.inj h
    exact Or.inr hopened
  · exact absurd h (by simp)

/-- Opening the log file changes no content. -/
theorem content_openLog (h : openLog fs logPath = .ok (fs', log))
    (hcontent : fs.content path = .ok text) : fs'.content path = .ok text := by
  obtain ⟨-, rfl, -⟩ | hopened := openLog_cases h
  · exact hcontent
  · exact LogFile.content_openAt hopened hcontent

/-- Opening the log file makes no other file. -/
theorem of_content_openLog (h : openLog fs logPath = .ok (fs', log))
    (hcontent : fs'.content path = .ok text) : fs.content path = .ok text ∨ log.IsAt fs' path := by
  obtain ⟨-, rfl, -⟩ | hopened := openLog_cases h
  · exact Or.inl hcontent
  · exact LogFile.of_content_openAt hopened hcontent

/-- Under a path that leads to the log file there is a file, also before it is opened. -/
theorem exists_content_of_isAt_before (h : openLog fs logPath = .ok (fs', log))
    (hpath : log.IsAt fs path) : ∃ text, fs.content path = .ok text := by
  obtain ⟨-, -, rfl⟩ | hopened := openLog_cases h
  · exact absurd hpath LogFile.not_isAt_none
  · exact LogFile.exists_content_of_isAt_before hopened hpath

/-- Under a path of the log file there is a file. -/
theorem exists_content_of_isAt (h : openLog fs logPath = .ok (fs', log))
    (hpath : log.IsAt fs' path) : ∃ text, fs'.content path = .ok text := by
  obtain ⟨-, -, rfl⟩ | hopened := openLog_cases h
  · exact absurd hpath LogFile.not_isAt_none
  · exact LogFile.exists_content_of_isAt hopened hpath

end Session

namespace OnlyLogged

variable {w : World} {s : Options} {records : List LogRecord} {files : FileSystem}
  {path text : Text}

/-- Without a log file, nothing at all has changed. -/
theorem eq_of_no_log (h : OnlyLogged w s records files) (hlog : s.logFile = []) :
    files = w.files := by
  rcases h with ⟨-, rfl⟩ | ⟨opened, log, hopened, rfl⟩
  · rfl
  · rw [hlog] at hopened
    obtain ⟨rfl, rfl⟩ := Prod.mk.inj (Except.ok.inj hopened)
    rw [LogFile.writeAll_none]

/-- Every file keeps its content, but the log file takes the lines of the records. -/
theorem content (h : OnlyLogged w s records files) (hcontent : w.files.content path = .ok text) :
    files.content path = .ok text ∨ LogsTo w s files path ∧
      files.content path = .ok (text ++ LogFile.handler.writeAll records) := by
  rcases h with ⟨-, rfl⟩ | ⟨opened, log, hopened, rfl⟩
  · exact Or.inl hcontent
  have hstill := Session.content_openLog hopened hcontent
  by_cases hpath : log.IsAt opened path
  · exact Or.inr ⟨⟨opened, log, hopened, by rwa [LogFile.isAt_writeAll_iff]⟩,
      LogFile.content_writeAll_of_isAt hpath hstill records⟩
  · exact Or.inl ((LogFile.content_writeAll_of_not_isAt hpath records).trans hstill)

/-- Every file was there before, but the log file may be new. -/
theorem exists_before (h : OnlyLogged w s records files)
    (hcontent : files.content path = .ok text) :
    (∃ before, w.files.content path = .ok before) ∨ LogsTo w s files path := by
  rcases h with ⟨-, rfl⟩ | ⟨opened, log, hopened, rfl⟩
  · exact Or.inl ⟨text, hcontent⟩
  obtain ⟨text', hopenedContent⟩ := (LogFile.content_writeAll_isOk_iff records).mp ⟨text, hcontent⟩
  refine (Session.of_content_openLog hopened hopenedContent).imp
    (fun hbefore => ⟨text', hbefore⟩) ?_
  exact fun hpath => ⟨opened, log, hopened, by rwa [LogFile.isAt_writeAll_iff]⟩

/-- Under a path there is the same as before, unless the path leads to the log file and this is
new or has been written to. -/
theorem toOption_content_eq_iff (h : OnlyLogged w s records files) :
    (files.content path).toOption = (w.files.content path).toOption ↔
      ¬ (LogsTo w s files path ∧ ((∃ text, w.files.content path = .ok text) →
        LogFile.handler.writeAll records ≠ [])) := by
  rcases h with ⟨rfl, rfl⟩ | ⟨opened, log, hopened, rfl⟩
  · -- a log file that was not opened is not new
    refine iff_of_true rfl ?_
    rintro ⟨⟨opened, log, hopened, hpath⟩, hwritten⟩
    exact hwritten (Session.exists_content_of_isAt_before hopened hpath) rfl
  by_cases hpath : log.IsAt opened path
  · have hlogs : LogsTo w s (log.writeAll opened records) path :=
      ⟨opened, log, hopened, LogFile.isAt_writeAll_iff.mpr hpath⟩
    obtain ⟨text, htext⟩ := Session.exists_content_of_isAt hopened hpath
    rw [LogFile.content_writeAll_of_isAt hpath htext records]
    cases hbefore : w.files.content path with
    | error e => simp [Except.toOption, hlogs]
    | ok before =>
      obtain rfl : before = text :=
        Except.ok.inj ((Session.content_openLog hopened hbefore).symm.trans htext)
      simp [Except.toOption, hlogs]
  · have hnot : ¬ LogsTo w s (log.writeAll opened records) path := by
      rintro ⟨opened', log', hopened', hpath'⟩
      obtain ⟨rfl, rfl⟩ := Prod.mk.inj (Except.ok.inj (hopened'.symm.trans hopened))
      exact hpath (LogFile.isAt_writeAll_iff.mp hpath')
    refine iff_of_true ?_ fun hlogs => hnot hlogs.1
    rw [LogFile.content_writeAll_of_not_isAt hpath]
    cases hafter : opened.content path with
    | ok text =>
      rw [(Session.of_content_openLog hopened hafter).resolve_right hpath]
    | error e =>
      cases hbefore : w.files.content path with
      | error e' => rfl
      | ok text =>
        exact absurd (hafter.symm.trans (Session.content_openLog hopened hbefore)) (by simp)

end OnlyLogged

/-! ## Sessions -/

namespace Session

variable {w : World} {s : Options} {session : Session}

/-- The options lead to the session. -/
def Opened (w : World) (s : Options) (session : Session) : Prop :=
  ∃ setup, setUp w s = .ok setup ∧ load setup = .ok session

/-- The session that the options lead to, if they do. -/
def open? (w : World) (s : Options) : Option Session :=
  (setUp w s).toOption.bind fun setup => (load setup).toOption

/-- What is opened is found by opening it. -/
theorem opened_iff : Opened w s session ↔ open? w s = some session := by
  simp only [Opened, open?, Option.bind_eq_some_iff, toOption_eq_some_iff]

/-- There is at most one session. -/
theorem Opened.eq {session' : Session} (h : Opened w s session) (h' : Opened w s session') :
    session' = session := by
  obtain ⟨setup, hsetup, hload⟩ := h
  obtain ⟨setup', hsetup', hload'⟩ := h'
  obtain rfl : setup' = setup := Except.ok.inj (hsetup'.symm.trans hsetup)
  exact Except.ok.inj (hload'.symm.trans hload)

private theorem bind_eq_ok {ε α β : Type} {x : Except ε α} {f : α → Except ε β} {b : β}
    (h : x >>= f = .ok b) : ∃ a, x = .ok a ∧ f a = .ok b := by
  cases x with
  | error e => exact absurd h (by simp [bind, Except.bind])
  | ok a => exact ⟨a, rfl, h⟩

/-- The files of a set-up are those of the world with the log file in place. -/
theorem openLog_of_setUp {setup : Setup} (h : setUp w s = .ok setup) :
    openLog w.files s.logFile = .ok (setup.files, setup.log) := by
  unfold setUp at h
  obtain ⟨config, -, h⟩ := bind_eq_ok h
  obtain ⟨⟨files, log⟩, hfiles, h⟩ := bind_eq_ok h
  obtain rfl := Except.ok.inj h
  exact hfiles

private theorem load_eq_ok {setup : Setup} (h : load setup = .ok session) :
    session.toSetup = setup ∧
      loadManifest setup.files setup.root setup.config = .ok session.manifest := by
  unfold load at h
  obtain ⟨manifest, hmanifest, h⟩ := bind_eq_ok h
  obtain ⟨keep, -, h⟩ := bind_eq_ok h
  obtain rfl := Except.ok.inj h
  exact ⟨rfl, hmanifest⟩

/-- In a session, nothing but logging has changed the files. -/
theorem Opened.onlyLogged (h : Opened w s session) (records : List LogRecord) :
    OnlyLogged w s records (session.after records) := by
  obtain ⟨setup, hsetup, hload⟩ := h
  refine Or.inr ⟨setup.files, setup.log, openLog_of_setUp hsetup, ?_⟩
  rw [after, (load_eq_ok hload).1]

/-- The manifest of a session is the one in its files. -/
theorem Opened.load_manifest (h : Opened w s session) :
    ManifestFile.load session.files session.manifest.path = .ok session.manifest := by
  obtain ⟨setup, -, hload⟩ := h
  obtain ⟨rfl, hmanifest⟩ := load_eq_ok hload
  unfold loadManifest at hmanifest
  split at hmanifest
  · exact absurd hmanifest (by simp)
  · rename_i path hpath
    obtain ⟨-, -, -, heq⟩ := ManifestFile.load_eq_ok_iff.mp hmanifest
    rw [heq]
    exact hmanifest

/-- It stays the one in its files, if it is not the log file. -/
theorem Opened.load_manifest_after (h : Opened w s session)
    (hlog : ¬ session.log.IsAt session.files session.manifest.path) (records : List LogRecord) :
    ManifestFile.load (session.after records) session.manifest.path = .ok session.manifest :=
  (ManifestFile.load_writeAll hlog records).trans h.load_manifest

end Session

/-! ## Commands -/

namespace Command

/-- A command fails before it has a session and has done nothing but make the log file, or it runs
in a session. -/
theorem inSession_cases (w : World) (s : Options)
    (run : World → Options → Session → CommandResult) :
    ((inSession w s run).2.call = none ∧
      OnlyLogged w s (inSession w s run).2.log (inSession w s run).2.files ∧
      (∃ f, (inSession w s run).2.outcome = .error f) ∧ ¬ ∃ session, Session.Opened w s session) ∨
    ∃ session, Session.Opened w s session ∧ (inSession w s run).2 = run w s session := by
  unfold inSession
  cases hsetup : Session.setUp w s with
  | error f =>
    -- without a set-up not even the log file is made
    refine Or.inl ⟨rfl, Or.inl ⟨rfl, rfl⟩, ⟨f, rfl⟩, ?_⟩
    rintro ⟨session, setup, hsetup', -⟩
    rw [hsetup] at hsetup'
    exact absurd hsetup' (by simp)
  | ok setup =>
    dsimp only
    cases hload : Session.load setup with
    | error f =>
      refine Or.inl ⟨rfl, Or.inr ⟨_, _, Session.openLog_of_setUp hsetup, rfl⟩, ⟨f, rfl⟩, ?_⟩
      rintro ⟨session, setup', hsetup', hload'⟩
      obtain rfl : setup = setup' := Except.ok.inj (hsetup.symm.trans hsetup')
      rw [hload] at hload'
      exact absurd hload' (by simp)
    | ok session => exact Or.inr ⟨session, ⟨setup, hsetup, hload⟩, rfl⟩

/-- A process leaves the files as its command does. -/
theorem files_execute (w : World) (s : Options) (run : World → Options → Session → CommandResult) :
    (CommandLine.execute w s run).files = (inSession w s run).2.files := by
  unfold CommandLine.execute
  dsimp only
  split <;> rfl

end Command

end DependencyAudit
