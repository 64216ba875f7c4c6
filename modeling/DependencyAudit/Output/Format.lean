import DependencyAudit.Config.Save
import DependencyAudit.Json.Number
import DependencyAudit.Output.Human
import DependencyAudit.Yaml.Document
import DependencyAudit.Yaml.KeyOrder

/-!
# Output formats

The three formats of responses: for people, JSON and YAML.
-/

namespace DependencyAudit

namespace KeptPackage

/-- The members of a JSON object for the package; a missing reason is left out. -/
def toJson (k : KeptPackage) : JsonValue :=
  .ofMembers (("name", .ofText k.name) ::
    if k.reason.isEmpty then [] else [("reason", .ofText k.reason)])

/-- The package in YAML; a missing reason is left out. -/
def toYaml (k : KeptPackage) : YamlNode :=
  .mapping (("name", .text k.name) ::
    if k.reason.isEmpty then [] else [("reason", .text k.reason)])

end KeptPackage

namespace JsonValue

/-- The object whose members are given in parts. -/
def ofParts (parts : List (List (Text × JsonValue))) : JsonValue :=
  ofMembers parts.flatten

/-- The list of some values; `null` where no list is set. -/
def ofList {α : Type} (f : α → JsonValue) : Option (List α) → JsonValue
  | none => null
  | some items => array (items.map f)

end JsonValue

namespace YamlNode

/-- The mapping whose members are given in parts. -/
def ofParts (parts : List (List (Text × YamlNode))) : YamlNode :=
  mapping parts.flatten

/-- The sequence of some values, empty where no list is set. -/
def ofList {α : Type} (f : α → YamlNode) (items : Option (List α)) : YamlNode :=
  sequence ((items.getD []).map f)

/-- A truth value. -/
def ofBool (b : Bool) : YamlNode := word (if b then "true" else "false")

/-- An integer. -/
def ofInt (n : Int) : YamlNode := word (Text.ofInt n)

/-- The members of a mapping in natural order. -/
def inKeyOrder (members : List (Text × YamlNode)) : List (Text × YamlNode) :=
  members.mergeSort fun a b => !Yaml.keyLt [] (Yaml.codesOf b.1) (Yaml.codesOf a.1)

mutual

/-- The YAML value with the content of a JSON value. -/
def ofJson : JsonValue → YamlNode
  | .null => word "null"
  | .bool b => ofBool b
  | .number source =>
    word (((JsonNumber.ofSource source).toBinary64?.map Binary64.general).getD source)
  | .string body => text (JsonString.decode body)
  | .array items => sequence (ofJsonItems items)
  | .object members => mapping (inKeyOrder (ofJsonMembers members))

/-- The items of an array in YAML. -/
def ofJsonItems : List JsonValue → List YamlNode
  | [] => []
  | v :: more => ofJson v :: ofJsonItems more

/-- The members of an object in YAML. -/
def ofJsonMembers : List (Text × JsonValue) → List (Text × YamlNode)
  | [] => []
  | (body, v) :: more => (JsonString.decode body, ofJson v) :: ofJsonMembers more

end

end YamlNode

namespace AnalysisResponse

/-- The response in JSON. -/
def toJson (r : AnalysisResponse) : JsonValue :=
  .ofParts
    [[("version", .ofText r.version), ("root", .ofText r.root), ("manifest", .ofText r.manifest),
     ("used", .ofTexts r.used),
     ("importedButUnused", .ofList (fun u => .ofMembers
       [("dependency", .ofText u.dependency), ("files", .ofTexts u.files)]) r.importedButUnused),
     ("neverImported", .ofTexts r.neverImported), ("noSourceFiles", .bool r.noSourceFiles),
     ("filesScanned", .ofInt r.filesScanned),
     ("diagnostics", .ofList (fun d => .ofMembers
       [("path", .ofText d.path), ("kind", .ofText d.kind.word), ("message", .ofText d.message)])
       r.diagnostics)],
     if r.kept.isEmpty then [] else [("kept", .array (r.kept.map KeptPackage.toJson))]]

/-- The response in YAML. -/
def toYaml (r : AnalysisResponse) : YamlNode :=
  .ofParts
    [[("version", .text r.version), ("root", .text r.root), ("manifest", .text r.manifest),
     ("used", .ofList .text r.used),
     ("importedButUnused", .ofList (fun u => .mapping
       [("dependency", .text u.dependency), ("files", .ofList .text u.files)])
       r.importedButUnused),
     ("neverImported", .ofList .text r.neverImported),
     ("noSourceFiles", .ofBool r.noSourceFiles), ("filesScanned", .ofInt r.filesScanned),
     ("diagnostics", .ofList (fun d => .mapping
       [("path", .text d.path), ("kind", .text d.kind.word), ("message", .text d.message)])
       r.diagnostics)],
     if r.kept.isEmpty then [] else [("kept", .sequence (r.kept.map KeptPackage.toYaml))]]

end AnalysisResponse

namespace RemovalResponse

/-- The response in JSON. -/
def toJson (r : RemovalResponse) : JsonValue :=
  .ofParts
    [[("dryRun", .bool r.dryRun), ("manager", .ofText r.manager)],
     if r.command.isEmpty then [] else [("command", .ofText r.command)],
     [("candidates", .ofTexts r.candidates), ("removed", .ofTexts r.removed)],
     if r.kept.isEmpty then [] else [("kept", .array (r.kept.map KeptPackage.toJson))]]

/-- The response in YAML. -/
def toYaml (r : RemovalResponse) : YamlNode :=
  .ofParts
    [[("dryRun", .ofBool r.dryRun), ("manager", .text r.manager)],
     if r.command.isEmpty then [] else [("command", .text r.command)],
     [("candidates", .ofList .text r.candidates), ("removed", .ofList .text r.removed)],
     if r.kept.isEmpty then [] else [("kept", .sequence (r.kept.map KeptPackage.toYaml))]]

end RemovalResponse

/-- The formats of responses. -/
inductive OutputFormat
  | json
  | yaml
  | human
  deriving DecidableEq, Repr

namespace OutputFormat

/-- The name of the format. -/
def name : OutputFormat → Text
  | json => "json"
  | yaml => "yaml"
  | human => "human"

/-- The format of the given name. -/
def ofName? (name : Text) : Option OutputFormat :=
  [json, yaml, human].find? (·.name = name)

end OutputFormat

namespace Response

/-- The response in JSON. -/
def toJson : Response → JsonValue
  | analysis r => r.toJson
  | removal r => r.toJson
  | data v => v

/-- The response in YAML. -/
def toYaml : Response → YamlNode
  | analysis r => r.toYaml
  | removal r => r.toYaml
  | data v => .ofJson v

/-- The JSON document of a response. -/
def jsonText (r : Response) : Text :=
  r.toJson.layout "  " 0

/-- The response for people; other data is shown as JSON. -/
def humanText (color : Bool) : Response → Text
  | analysis r => ofLines (r.lines color)
  | removal r => ofLines (r.lines color)
  | data v => (data v).jsonText

/-- The response in a format. -/
def textIn (color : Bool) (r : Response) : OutputFormat → Text
  | .json => r.jsonText
  | .yaml => r.toYaml.document
  | .human => r.humanText color

/-- The response in the format of the given name. -/
def render (color : Bool) (r : Response) (format : Text) : Except Fault Text :=
  match OutputFormat.ofName? format with
  | some f => .ok (r.textIn color f)
  | none => .error (.plain (Text.concat ["unsupported format: ", format]))

end Response

end DependencyAudit
