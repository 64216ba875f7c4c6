import DependencyAudit.Config.Schema
import DependencyAudit.Json.Number
import DependencyAudit.Json.Value

/-!
# The validator of settings files

The violations of a schema by a JSON document. A value that has the wrong type is reported once and
not looked into.
-/

namespace DependencyAudit

namespace JsonValue

/-- The name of the type of a value. -/
def typeName : JsonValue → Text
  | null => "null"
  | bool _ => "boolean"
  | number source => if (JsonNumber.ofSource source).isInteger then "integer" else "number"
  | string _ => "string"
  | array _ => "array"
  | object _ => "object"

/-- The members of an object with decoded keys. Of several members with one key only the last
counts. -/
def lastMembers : List (Text × JsonValue) → List (Text × JsonValue)
  | [] => []
  | (body, v) :: more =>
    let key := JsonString.decode body
    let rest := lastMembers more
    if rest.any (·.1 == key) then rest else (key, v) :: rest

end JsonValue

namespace SchemaViolation

/-- The violation of a value of the wrong type. -/
def wrongType (path : List Text) (expected : Text) (v : JsonValue) : SchemaViolation :=
  ⟨path, Text.concat ["Invalid type. Expected: ", expected, ", given: ", v.typeName]⟩

/-- The violation of a key that means nothing. -/
def unknownKey (path : List Text) (key : Text) : SchemaViolation :=
  ⟨path, Text.concat ["Additional property ", key, " is not allowed"]⟩

end SchemaViolation

namespace SettingSchema

/-- The violations of a list whose items should be strings, the first at position `n`. -/
def itemViolations (path : List Text) (n : Nat) : List JsonValue → List SchemaViolation
  | [] => []
  | .string _ :: more => itemViolations path (n + 1) more
  | v :: more =>
    .wrongType (path ++ [Text.ofNat n]) "string" v :: itemViolations path (n + 1) more

/-- The violations of a value that is not one of some words. -/
def wordViolations (path words : List Text) : List SchemaViolation :=
  [⟨path, Text.concat
    [SchemaViolation.place path, " must be one of the following: ",
     Text.join ", " (words.map (JsonString.quoted .document))]⟩]

/-- The violations of a setting. -/
def violations (path : List Text) : SettingSchema → JsonValue → List SchemaViolation
  | integer, .number source =>
    if (JsonNumber.ofSource source).isInteger then []
    else [.wrongType path "integer" (.number source)]
  | integer, v => [.wrongType path "integer" v]
  | nonNegative, .number source =>
    if !(JsonNumber.ofSource source).isInteger then [.wrongType path "integer" (.number source)]
    else if (JsonNumber.ofSource source).isNegative then
      [⟨path, "Must be greater than or equal to 0"⟩]
    else []
  | nonNegative, v => [.wrongType path "integer" v]
  | text, .string _ => []
  | text, v => [.wrongType path "string" v]
  | bool, .bool _ => []
  | bool, v => [.wrongType path "boolean" v]
  | texts, .array items => itemViolations path 0 items
  | texts, v => [.wrongType path "array" v]
  | oneOf words, .string body =>
    if words.contains (JsonString.decode body) then [] else wordViolations path words
  | oneOf words, _ => wordViolations path words

end SettingSchema

namespace PartSchema

/-- The violations of an object: those of its members, and its unknown keys. -/
def memberViolations {α : Type} (check : Text → α → JsonValue → List SchemaViolation)
    (path : List Text) (known : List (Text × α)) (members : List (Text × JsonValue)) :
    List SchemaViolation :=
  (JsonValue.lastMembers members).flatMap fun (key, v) =>
    match known.lookup key with
    | some s => check key s v
    | none => [.unknownKey path key]

/-- The violations of a part. -/
def violations (name : Text) : PartSchema → JsonValue → List SchemaViolation
  | setting s, v => s.violations [name] v
  | group settings, .object members =>
    memberViolations (fun key s => s.violations [name, key]) [name] settings members
  | group _, v => [.wrongType [name] "object" v]

/-- The violations of a document that should be an object with the given parts. -/
def documentViolations (parts : List (Text × PartSchema)) : JsonValue → List SchemaViolation
  | .object members => memberViolations (fun key s => s.violations key) [] parts members
  | v => [.wrongType [] "object" v]

end PartSchema

end DependencyAudit
