import DependencyAudit.Json.Number
import DependencyAudit.Json.String
import DependencyAudit.Json.Value
import DependencyAudit.Number.Decimal
import DependencyAudit.Number.Power
import DependencyAudit.Text.Case
import DependencyAudit.Text.Scalar

/-!
# Values of settings

What a settings file or an environment variable says about a setting, and how it is fitted to
the type of the setting. Fitting is lenient: an integer may be written as a text, a truth
value as a number, and a list as a text with commas.
-/

namespace DependencyAudit

/-- A value in a settings file. Keys are in lower case, and of several members with one key the
last counts. -/
inductive SettingValue
  | null
  | bool (b : Bool)
  | number (x : Binary64)
  | text (t : Text)
  | list (items : List SettingValue)
  | table (members : List (Text × SettingValue))
  deriving Repr

namespace SettingValue

mutual

/-- The value that a JSON value stands for; none if it holds a number that is too large. -/
def ofJson? : JsonValue → Option SettingValue
  | .null => some null
  | .bool b => some (bool b)
  | .number source => (JsonNumber.ofSource source).toBinary64?.map number
  | .string body => some (text (JsonString.decode body))
  | .array items => (ofItems? items).map list
  | .object members => (ofMembers? members).map table

/-- The values that the items of an array stand for. -/
def ofItems? : List JsonValue → Option (List SettingValue)
  | [] => some []
  | v :: more => do
    let v ← ofJson? v
    let more ← ofItems? more
    some (v :: more)

/-- The members of an object. -/
def ofMembers? : List (Text × JsonValue) → Option (List (Text × SettingValue))
  | [] => some []
  | (body, v) :: more => do
    let v ← ofJson? v
    let more ← ofMembers? more
    some (((JsonString.decode body).lower, v) :: more)

end

/-- Is the value `null`? -/
def isNull : SettingValue → Bool
  | null => true
  | _ => false

/-- The last member of a table with the given key. -/
def member? (key : Text) : SettingValue → Option SettingValue
  | table members => members.reverse.lookup key
  | _ => none

/-- The member at the end of a path of keys, unless it is `null`. Several keys can also be
written as one with dots between them, and such a key goes first. -/
def at? (v : SettingValue) (path : Text × Text) : Option SettingValue :=
  let dotted := v.member? (Text.concat [path.1, ".", path.2])
  match dotted.filter (!·.isNull) with
  | some found => some found
  | none => ((v.member? path.1).bind (member? path.2)).filter (!·.isNull)

/-- Fits a value to an integer. A fraction is cut off, and a number that does not fit into 64
bits becomes the least one that does. -/
def toInteger? : SettingValue → Option Int
  | null => some 0
  | bool b => some (if b then 1 else 0)
  | number x =>
    if -(signedLimit : Int) ≤ x.toInt ∧ x.toInt < signedLimit then some x.toInt
    else some (-(signedLimit : Int))
  | text t => if t.isEmpty then some 0 else (Scalar.integer t).toOption
  | list _ => none
  | table _ => none

/-- Fits a value to a truth value. -/
def toBool? : SettingValue → Option Bool
  | null => some false
  | bool b => some b
  | number x => some (x.mantissa != 0)
  | text t => if t.isEmpty then some false else Scalar.bool? t
  | list _ => none
  | table _ => none

/-- Fits a value to a text. -/
def toText? : SettingValue → Option Text
  | null => some []
  | bool b => some (if b then "1" else "0")
  | number x => some x.positional
  | text t => some t
  | list _ => none
  | table _ => none

/-- Fits a value to a list of texts. A text is cut at its commas, and any other single value is
a list of one. -/
def toTexts? : SettingValue → Option (List Text)
  | text t => if t.isEmpty then some [] else some (t.splitOnByte Ascii.comma)
  | list items => items.mapM toText?
  | table [] => some []
  | table (_ :: _) => none
  | v => v.toText?.map ([·])

end SettingValue

end DependencyAudit
