import DependencyAudit.Log.Record
import DependencyAudit.Number.Decimal
import DependencyAudit.Text.Quoted

/-!
# Log lines for people

One line per record: `warn: Skipped file path=src/big.js reason="exceeds 1MB"`. The names of
groups are put before the names of attributes, with dots between them. A value that is empty
or holds a space, tab, newline, quote or equals sign is quoted, so that a line can be split
again.
-/

namespace DependencyAudit

/-- The text attributes of a terminal. -/
inductive Paint
  | bold
  | faint
  | red
  | green
  | yellow
  | cyan
  deriving DecidableEq, Repr

namespace Paint

/-- The code that switches an attribute on. -/
def code : Paint → Text
  | bold => "1"
  | faint => "2"
  | red => "31"
  | green => "32"
  | yellow => "33"
  | cyan => "36"

/-- The code that switches an attribute off. -/
def reset : Paint → Text
  | bold => "22"
  | faint => "22"
  | _ => "0"

/-- Paints a text, if colour is on. -/
def apply (color : Bool) (paints : List Paint) (text : Text) : Text :=
  if color then
    Text.concat
      ["\x1b[", Text.join ";" (paints.map code), "m", text, "\x1b[",
       Text.join ";" (paints.map reset), "m"]
  else text

end Paint

namespace LogValue

/-- Must the text be quoted to stay in one piece? -/
def needsQuotes (t : Text) : Bool :=
  t.isEmpty || t.any (" \t\n\"=" : Text).contains

/-- The text, quoted if need be. -/
def onePiece (t : Text) : Text :=
  if needsQuotes t then Quoted.encode t else t

/-- A single value on a line. -/
def inline : LogValue → Text
  | text t => onePiece t
  | int n => onePiece (Text.ofInt n)
  | real x => onePiece x.general
  | bool b => onePiece (if b then "true" else "false")
  | duration d => d.roundToMicros.format
  | time t => t.format
  | texts ts => onePiece (Text.concat ["[", Text.join " " ts, "]"])
  | nothing => onePiece "<nil>"
  | group _ => []

mutual

/-- The attributes of a value on a line, each after a space. `scope` is put before the
name. -/
def attributeText (scope name : Text) : LogValue → Text
  | group attributes =>
    attributesText (if name.isEmpty then scope else Text.concat [scope, name, "."]) attributes
  | value =>
    if LogAttribute.isBlank (name, value) then []
    else Text.concat [" ", scope, name, "=", value.inline]

/-- A row of attributes on a line. -/
def attributesText (scope : Text) : List (Text × LogValue) → Text
  | [] => []
  | (name, value) :: more => attributeText scope name value ++ attributesText scope more

end

end LogValue

/-- A writer of log lines for people. -/
structure LineHandler where
  /-- The lowest level that is written. -/
  level : LogLevel
  /-- Paint the level. -/
  color : Bool
  /-- Put the time in front. -/
  timestamps : Bool
  /-- The dotted names of the open groups. -/
  scope : Text
  /-- The attributes written on every line. -/
  fixed : Text
  deriving DecidableEq, Repr

namespace LineHandler

/-- A writer without attributes and groups. -/
def new (level : LogLevel) (color timestamps : Bool) : LineHandler :=
  ⟨level, color, timestamps, [], []⟩

/-- The writer with further attributes on every line. -/
def withAttributes (h : LineHandler) (attributes : List LogAttribute) : LineHandler :=
  { h with fixed := h.fixed ++ LogValue.attributesText h.scope attributes }

/-- The writer that puts later attributes into a group; an unnamed group changes nothing. -/
def withGroup (h : LineHandler) (name : Text) : LineHandler :=
  if name.isEmpty then h else { h with scope := Text.concat [h.scope, name, "."] }

/-- The painted name of a level. -/
def label (h : LineHandler) (level : LogLevel) : Text :=
  let (name, base) := level.named
  let paints :=
    if base = LogLevel.debug then [.faint]
    else if base = LogLevel.info then [.cyan]
    else if base = LogLevel.warn then [.yellow]
    else [.red, .bold]
  Paint.apply h.color paints (name ++ [Ascii.colon])

/-- The line of a record. -/
def line (h : LineHandler) (r : LogRecord) : Text :=
  Text.concat
    [match h.timestamps, r.time with
      | true, some t => Text.concat [Instant.format ⟨t, 0⟩, " "]
      | _, _ => [],
     h.label r.level, " ", r.message, h.fixed, LogValue.attributesText h.scope r.attributes,
     "\n"]

end LineHandler

end DependencyAudit
