import DependencyAudit.Analysis.Report
import DependencyAudit.Fault
import DependencyAudit.Json.String
import DependencyAudit.Json.Value

/-!
# Manifests

The manifest of a project is a JSON object. Its `dependencies` and `devDependencies` members
declare packages with their versions. A manifest remembers all of its members, so that
removing packages leaves everything else as it is: keys and their order, and the tokens of
every value.
-/

namespace DependencyAudit

/-- A member of a JSON object: its decoded key, its value, and the lexemes of the value. -/
structure JsonMember where
  key : Text
  value : JsonValue
  lexemes : List JsonLexeme
  deriving Repr

namespace JsonMember

/-- Why a text is not a JSON object. -/
inductive Problem
  | notJson
  | notObject
  | trailing
  deriving DecidableEq, Repr

namespace Problem

/-- The problem as a cause. -/
def fault : Problem → Fault
  | notJson => .defect .json
  | notObject => .plain "expected a JSON object"
  | trailing => .plain "unexpected content after the top-level object"

end Problem

/-- Reads members up to the end of an object; at least one if `required` is set. Each step
reads a member with the separator behind it. Returns the members and what follows. -/
def readMembers (required : Bool) (lexemes : List JsonLexeme) (fuel : Nat) :
    Option (List JsonMember × List JsonLexeme) :=
  match fuel with
  | 0 => none
  | fuel + 1 =>
    match lexemes with
    | ⟨_, .closeObject⟩ :: rest => if required then none else some ([], rest)
    | ⟨_, .string body⟩ :: ⟨_, .colon⟩ :: rest =>
      match JsonValue.read? rest with
      | none => none
      | some (value, eaten, rest) =>
        let member : JsonMember := ⟨JsonString.decode body, value, eaten⟩
        match rest with
        | ⟨_, .closeObject⟩ :: rest => some ([member], rest)
        | ⟨_, .comma⟩ :: rest =>
          (readMembers true rest fuel).map fun (more, after) => (member :: more, after)
        | _ => none
    | _ => none

/-- The members of an object that is given by its lexemes. -/
def ofLexemes (lexemes : List JsonLexeme) : Except Problem (List JsonMember) :=
  match lexemes with
  | [] => .error .notJson
  | first :: rest =>
    match first.token with
    | .openObject =>
      match readMembers false rest (rest.length + 1) with
      | none => .error .notJson
      | some (members, []) => .ok members
      | some (_, _ :: _) => .error .trailing
    | .openArray | .string _ | .number _ | .bool _ | .null => .error .notObject
    | _ => .error .notJson

/-- The members of the object that a text consists of. -/
def ofText (text : Text) : Except Problem (List JsonMember) :=
  ofLexemes (JsonLexeme.lex text)

/-- The value of a member that is a string; `null` counts as an empty one. -/
def string? (m : JsonMember) : Option Text :=
  match m.value with
  | .string body => some (JsonString.decode body)
  | .null => some []
  | _ => none

end JsonMember

/-- One declared package. -/
structure ManifestEntry where
  name : Text
  version : Text
  deriving DecidableEq, Repr

/-- A parsed manifest. -/
structure Manifest where
  /-- The name of the project. -/
  name : Text
  /-- The packages that the project needs. -/
  dependencies : List ManifestEntry
  /-- The packages that only its development needs. -/
  devDependencies : List ManifestEntry
  /-- All members, in order. -/
  members : List JsonMember
  /-- The white space of one level. -/
  indent : Text
  deriving Repr

namespace Manifest

/-- The key of the packages that the project needs. -/
def dependenciesKey : Text := "dependencies"

/-- The key of the packages that only its development needs. -/
def devDependenciesKey : Text := "devDependencies"

/-- Is the key that of a section of packages? -/
def isSection (key : Text) : Bool :=
  key = dependenciesKey || key = devDependenciesKey

/-- The white space at the start of the second line, or else two spaces. -/
def indentOf (text : Text) : Text :=
  match (text.cutAtByte Ascii.newline).2 with
  | none => "  "
  | some line =>
    let blank := line.takeWhile fun b => b = Ascii.space || b = Ascii.tab
    if blank.isEmpty then "  " else blank

/-- The package that a member of a section declares. A version that is no string is kept as it
is written. -/
def entryOf (m : JsonMember) : ManifestEntry :=
  ⟨m.key, m.string?.getD (JsonLexeme.sourceOf m.lexemes)⟩

/-- The packages of a section. -/
def entriesOf (lexemes : List JsonLexeme) :
    Except JsonMember.Problem (List ManifestEntry) := do
  let members ← JsonMember.ofLexemes lexemes
  .ok (members.map entryOf)

/-- The fault of a section that is no object. -/
def sectionFault (key : Text) (p : JsonMember.Problem) : Fault :=
  .ofCode .manifest (Text.concat ["malformed ", key]) (some p.fault)

/-- Takes note of one member. -/
def addMember (m : Manifest) (member : JsonMember) : Except Fault Manifest :=
  if member.key = Text.ofString "name" then
    match member.value with
    | .string body => .ok { m with name := JsonString.decode body }
    | _ => .ok m
  else if member.key = dependenciesKey then
    match entriesOf member.lexemes with
    | .ok entries => .ok { m with dependencies := entries }
    | .error p => .error (sectionFault dependenciesKey p)
  else if member.key = devDependenciesKey then
    match entriesOf member.lexemes with
    | .ok entries => .ok { m with devDependencies := entries }
    | .error p => .error (sectionFault devDependenciesKey p)
  else .ok m

/-- Parses a manifest. Of several members with one key the last counts, but each section has to
be an object. -/
def parse (text : Text) : Except Fault Manifest :=
  match JsonMember.ofText text with
  | .error p => .error (.ofCode .manifest "malformed package.json" (some p.fault))
  | .ok members => members.foldlM addMember ⟨[], [], [], members, indentOf text⟩

/-- All declared packages, those of the project first, without repetitions. -/
def declared (m : Manifest) : List Text :=
  firstOccurrences ((m.dependencies ++ m.devDependencies).map (·.name))

/-- Is the package declared? -/
def has (m : Manifest) (name : Text) : Bool :=
  m.declared.contains name

/-- A decoded key as the body of a string. -/
def keyBody (key : Text) : Text :=
  JsonString.encode .document key

/-- A section, given by its lexemes, without the packages of the given names. -/
def prune (names : List Text) (lexemes : List JsonLexeme) :
    Except JsonMember.Problem JsonValue := do
  let members ← JsonMember.ofLexemes lexemes
  .ok (.object ((members.filter fun m => !names.contains m.key).map
    fun m => (keyBody m.key, m.value)))

/-- The fault of a member that cannot be rewritten; `action` says what was tried. -/
def memberFault (action : Text) (key : Text) (p : JsonMember.Problem) : Fault :=
  .ofCode .manifest (Text.concat [action, " ", key]) (some p.fault)

/-- The value of a member without the packages of the given names. -/
def editedValue (names : List Text) (member : JsonMember) : Except Fault JsonValue :=
  if isSection member.key then
    (prune names member.lexemes).mapError (memberFault "cannot edit" member.key)
  else .ok member.value

/-- A member as it is written without the packages of the given names. A value that is nested
too deeply to be scanned cannot be laid out. -/
def editMember (names : List Text) (member : JsonMember) : Except Fault (Text × JsonValue) :=
  match editedValue names member with
  | .error f => .error f
  | .ok value =>
    if value.depth ≤ JsonValue.Reader.maxDepth then .ok (keyBody member.key, value)
    else .error (memberFault "cannot format" member.key .notJson)

/-- The text of the manifest without the packages of the given names. -/
def without (m : Manifest) (names : List Text) : Except Fault Text := do
  let members ← m.members.mapM (editMember names)
  .ok ((JsonValue.object members).layout m.indent 0 ++ [Ascii.newline])

end Manifest

end DependencyAudit
