import DependencyAudit.FileSystem.Basic
import DependencyAudit.Log.Handler

/-!
# Log files

The log file of a process is opened once and stays open. Every record is written to its end as
soon as it is logged, so whatever the process reads from that file later on, it reads with the
lines that have been logged by then.
-/

namespace DependencyAudit

/-- The log file of a process. -/
structure LogFile where
  /-- Where the file is. There is none if the process has no log file, or if the file has been
  removed since it was opened. -/
  location? : Option (List Text)
  deriving DecidableEq, Repr

namespace LogFile

/-- The process logs to no file. -/
def none : LogFile := ⟨.none⟩

/-- The writer of log files. Every level is written, each line with its time. -/
def handler : LogHandler := .line (.new .debug false true)

/-- Opens the log file at a path, which is made if it is missing. -/
def openAt (fs : FileSystem) (path : Text) : Except SystemError (FileSystem × LogFile) :=
  match fs.appendContent path [] with
  | .ok fs => .ok (fs, ⟨fs.locate? path⟩)
  | .error e => .error e

/-- The files after a record has been logged. -/
def write (l : LogFile) (fs : FileSystem) (r : LogRecord) : FileSystem :=
  match l.location? with
  | some location => fs.appendAt location (handler.write r)
  | .none => fs

/-- The files after some records have been logged, one after the other. -/
def writeAll (l : LogFile) (fs : FileSystem) (rs : List LogRecord) : FileSystem :=
  rs.foldl l.write fs

/-- The log file after files have been moved. It stays open wherever it is now. -/
def follow (l : LogFile) (moved : List Text → Option (List Text)) : LogFile :=
  ⟨l.location?.bind moved⟩

@[simp]
theorem write_none (fs : FileSystem) (r : LogRecord) : none.write fs r = fs := rfl

@[simp]
theorem writeAll_nil (l : LogFile) (fs : FileSystem) : l.writeAll fs [] = fs := rfl

@[simp]
theorem writeAll_none (fs : FileSystem) (rs : List LogRecord) : none.writeAll fs rs = fs := by
  induction rs with
  | nil => rfl
  | cons r rs ih => exact ih

theorem writeAll_append (l : LogFile) (fs : FileSystem) (rs rs' : List LogRecord) :
    l.writeAll fs (rs ++ rs') = l.writeAll (l.writeAll fs rs) rs' :=
  List.foldl_append

@[simp]
theorem follow_none (moved : List Text → Option (List Text)) : none.follow moved = none := rfl

end LogFile

end DependencyAudit
