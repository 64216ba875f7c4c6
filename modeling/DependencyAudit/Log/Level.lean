import DependencyAudit.Text.Blank
import DependencyAudit.Text.Case

/-!
# Log levels

A level is an integer; the named ones are four apart, and a level between two of them counts
as the lower one.
-/

namespace DependencyAudit

/-- How important a message is. -/
abbrev LogLevel := Int

namespace LogLevel

def debug : LogLevel := -4
def info : LogLevel := 0
def warn : LogLevel := 4
def error : LogLevel := 8

/-- Above every level that a message has. -/
def silent : LogLevel := 100

/-- The names of levels. -/
def names : List (Text × LogLevel) :=
  [("debug", debug), ("info", info), ("warn", warn), ("warning", warn), ("error", error),
   ("silent", silent)]

/-- The level of a name, in any case and with white space around it. -/
def ofName? (name : Text) : Option LogLevel :=
  names.lookup (Text.lower (Text.trim name))

/-- The level that the command line asks for: warnings, unless it asks for more or for
nothing. -/
def ofVerbosity (verbosity : Int) (quiet : Bool) : LogLevel :=
  if quiet then silent
  else if verbosity ≤ 0 then warn
  else if verbosity = 1 then info
  else debug

/-- The named level at or below a level, from `debug` up. -/
def named (level : LogLevel) : Text × LogLevel :=
  if level < info then ("debug", debug)
  else if level < warn then ("info", info)
  else if level < error then ("warn", warn)
  else ("error", error)

/-- The upper-case name of a level, with the distance from the named level. -/
def label (level : LogLevel) : Text :=
  let (name, base) := named level
  let distance := level - base
  name.upperAscii ++
    if distance = 0 then []
    else if distance < 0 then Text.ofInt distance
    else Text.byte '+' :: Text.ofInt distance

end LogLevel

/-- The forms of log lines. -/
inductive LogFormat
  | human
  | json
  deriving DecidableEq, Repr

namespace LogFormat

/-- The name of a form. -/
def word : LogFormat → Text
  | human => "human"
  | json => "json"

/-- The form of a name; whatever is not `json`, in any case, is `human`. -/
def ofName (name : Text) : LogFormat :=
  if name.equalsFold "json" then json else human

end LogFormat

end DependencyAudit
