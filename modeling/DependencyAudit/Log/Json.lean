import DependencyAudit.Json.String
import DependencyAudit.Log.Record
import DependencyAudit.Number.Decimal

/-!
# Log lines for programs

One JSON object per record, with time, level, message and attributes. A group becomes an
object; it is opened when the first attribute inside it is written.
-/

namespace DependencyAudit

namespace LogJson

/-- A name, message or text with its quotes. -/
def string (t : Text) : Text :=
  JsonString.quoted ⟨false, false⟩ t

/-- An instant as a string. Years of other than four digits are marked. -/
def instant (t : Instant) : Text :=
  Text.concat
    [if 0 ≤ t.year && t.year < 10000 then []
      else "\"!ERROR:time.Time year outside of range [0,9999]\"",
     "\"", t.format, "\""]

/-- A value that is no group. -/
def value : LogValue → Text
  | .text t => string t
  | .int n => Text.ofInt n
  | .real x => x.json
  | .bool b => if b then "true" else "false"
  | .duration d => Text.ofInt d
  | .time t => instant t
  | .texts ts => Text.concat ["[", Text.join "," (ts.map (JsonString.quoted ⟨false, true⟩)), "]"]
  | .nothing => "null"
  | .group _ => []

/-- A partial object: what has been written, and whether the next member needs a comma. -/
structure Draft where
  written : Text
  comma : Bool

namespace Draft

/-- Writes the name of a member. -/
def key (d : Draft) (name : Text) : Draft :=
  ⟨Text.concat [d.written, if d.comma then "," else "", string name, ":"], true⟩

/-- Opens a member that is an object. -/
def openGroup (d : Draft) (name : Text) : Draft :=
  ⟨(d.key name).written ++ [Ascii.openBrace], false⟩

/-- Closes an object. -/
def closeGroup (d : Draft) : Draft := ⟨d.written ++ [Ascii.closeBrace], true⟩

mutual

/-- Writes an attribute. Also tells whether it counts as written: an attribute without name and
value does not, nor does a group all of whose members do not. What has been written of such a
group is taken back, but not that its opening asked for no comma. -/
def member (d : Draft) (name : Text) : LogValue → Bool × Draft
  | .group attrs =>
    if attrs.isEmpty then (true, d)
    else
      let inside := if name.isEmpty then d else d.openGroup name
      match members inside attrs with
      | (false, inside) => (false, ⟨d.written, inside.comma⟩)
      | (true, inside) => (true, if name.isEmpty then inside else inside.closeGroup)
  | v =>
    if LogAttribute.isBlank (name, v) then (false, d)
    else (true, ⟨(d.key name).written ++ value v, true⟩)

/-- Writes a row of attributes. Also tells whether any of them counts as written. -/
def members (d : Draft) : List (Text × LogValue) → Bool × Draft
  | [] => (false, d)
  | (name, v) :: more =>
    let (first, d) := member d name v
    let (others, d) := members d more
    (first || others, d)

end

end Draft

end LogJson

/-- A writer of JSON log lines. -/
structure JsonHandler where
  /-- The lowest level that is written. -/
  level : LogLevel
  /-- The members written on every line. -/
  fixed : Text
  /-- The names of the groups, outermost first. -/
  groups : List Text
  /-- How many of the groups are already open in `fixed`. -/
  opened : Nat
  deriving DecidableEq, Repr

namespace JsonHandler

open LogJson

/-- A writer without attributes and groups. -/
def new (level : LogLevel) : JsonHandler := ⟨level, [], [], 0⟩

/-- The partial object behind the fixed members. -/
def afterFixed (h : JsonHandler) : Draft :=
  ⟨h.fixed, !h.fixed.isEmpty && h.fixed.getLast? != some Ascii.openBrace⟩

/-- Opens the groups that are not open yet. -/
def openGroups (h : JsonHandler) (d : Draft) : Draft :=
  (h.groups.drop h.opened).foldl Draft.openGroup d

/-- The writer with further attributes on every line. -/
def withAttributes (h : JsonHandler) (attributes : List LogAttribute) : JsonHandler :=
  if attributes.all fun (_, v) => v.isEmptyGroup then h
  else
    match (h.openGroups h.afterFixed).members attributes with
    | (false, _) => h
    | (true, d) => { h with fixed := d.written, opened := h.groups.length }

/-- The writer that puts later attributes into a group. -/
def withGroup (h : JsonHandler) (name : Text) : JsonHandler :=
  { h with groups := h.groups ++ [name] }

/-- The line of a record. -/
def line (h : JsonHandler) (r : LogRecord) : Text :=
  let start : Text := Text.concat
    ["\x7b",
     match r.time with
      | some t => Text.concat ["\"time\":", instant ⟨t, 0⟩, ","]
      | none => [],
     "\"level\":", string r.level.label, ",\"msg\":", string r.message]
  let fixed : Draft :=
    if h.fixed.isEmpty then ⟨start, true⟩
    else ⟨Text.concat [start, ",", h.fixed], h.afterFixed.comma⟩
  let attrs := r.attributes.filter fun (_, v) => !v.isEmptyGroup
  let (written, opened) :=
    if attrs.isEmpty then (fixed.written, h.opened)
    else
      match (h.openGroups fixed).members attrs with
      | (false, _) => (fixed.written, h.opened)
      | (true, d) => (d.written, h.groups.length)
  Text.concat [written, List.replicate opened Ascii.closeBrace, "\x7d\n"]

end JsonHandler

end DependencyAudit
