import DependencyAudit.Log.Json
import DependencyAudit.Log.Line

/-!
# Log handlers

A handler turns records into lines. Several handlers can be used side by side; each gets the
records of its own levels.
-/

namespace DependencyAudit

/-- A writer of records. -/
inductive LogHandler
  | line (h : LineHandler)
  | json (h : JsonHandler)
  /-- Writes nothing. -/
  | discard

namespace LogHandler

/-- The usual handler for standard error. Lines for people are painted where colour is on. -/
def ofFormat (format : LogFormat) (level : LogLevel) (color : Bool) : LogHandler :=
  match format with
  | .json => json (.new level)
  | .human => line (.new level color false)

/-- Does the handler write records of a level? -/
def isEnabled : LogHandler → LogLevel → Bool
  | line h, level => h.level ≤ level
  | json h, level => h.level ≤ level
  | discard, _ => false

/-- The handler with further attributes on every line. -/
def withAttributes (attributes : List LogAttribute) : LogHandler → LogHandler
  | line h => line (h.withAttributes attributes)
  | json h => json (h.withAttributes attributes)
  | discard => discard

/-- The handler that puts later attributes into a group. -/
def withGroup (name : Text) : LogHandler → LogHandler
  | line h => line (h.withGroup name)
  | json h => json (h.withGroup name)
  | discard => discard

/-- What the handler writes for a record of an enabled level. -/
def render : LogHandler → LogRecord → Text
  | line h, r => h.line r
  | json h, r => h.line r
  | discard, _ => []

/-- What the handler writes for a record. -/
def write (h : LogHandler) (r : LogRecord) : Text :=
  if h.isEnabled r.level then h.render r else []

/-- What the handler writes for records, one after the other. -/
def writeAll (h : LogHandler) (rs : List LogRecord) : Text :=
  rs.flatMap h.write

end LogHandler

end DependencyAudit
