import DependencyAudit.Log.Instant
import DependencyAudit.Log.Level
import DependencyAudit.Number.Binary64

/-!
# Log records

A record is a message with a level, a time and named values. Values can be grouped.
-/

namespace DependencyAudit

/-- The value of an attribute. -/
inductive LogValue
  | text (t : Text)
  | int (n : Int)
  | real (x : Binary64)
  | bool (b : Bool)
  | duration (d : Nanoseconds)
  | time (t : Instant)
  | texts (ts : List Text)
  | nothing
  | group (attributes : List (Text × LogValue))
  deriving Repr

/-- A named value. -/
abbrev LogAttribute := Text × LogValue

namespace LogValue

/-- Is the value a group without members? -/
def isEmptyGroup : LogValue → Bool
  | group [] => true
  | _ => false

/-- The group of some attributes; groups without members are left out. -/
def ofAttributes (attributes : List LogAttribute) : LogValue :=
  group (attributes.filter fun (_, v) => !v.isEmptyGroup)

end LogValue

/-- Neither name nor value: such an attribute is not written. -/
def LogAttribute.isBlank : LogAttribute → Bool
  | ([], .nothing) => true
  | _ => false

/-- One message. -/
structure LogRecord where
  level : LogLevel
  message : Text
  /-- When the message was logged, if that is known. -/
  time : Option Int
  attributes : List LogAttribute

end DependencyAudit
