import DependencyAudit.Config.Search
import DependencyAudit.Proofs.Config.Setting
import DependencyAudit.Proofs.Json.Grammar

/-!
# What the libraries of settings promise

The validator, the search for the settings file and the layers are no part of the tool, so what the
tool does with settings is stated over any libraries that behave as documented. Their promises are
about any schema, any defaults and any documents that can be read in one way only.

## Main definitions

* `JsonValue.IsPlain`: the documents that can be read in one way only;
* `SettingLayers.IsRegular`: nothing stands between a setting and its layers;
* `SettingsLibrary.Documented`: the libraries behave as documented.
-/

namespace DependencyAudit

open JsonGrammar (Element)

/-! ## Plain documents -/

namespace JsonValue

/-- The keys of an object in lower case. -/
def foldedKeys (members : List (Text × JsonValue)) : List Text :=
  (keys members).map Text.lower

/-- The member of an object with the given key, without regard to case. -/
def folded? (name : Text) : JsonValue → Option JsonValue
  | object members =>
    (members.map fun m => ((JsonString.decode m.1).lower, m.2)).lookup name.lower
  | _ => none

/-- If the value is an object, its keys differ in lower case too, and none of them holds a dot. -/
def FoldedKeysDiffer : JsonValue → Prop
  | object members =>
    (foldedKeys members).Nodup ∧ ∀ key ∈ foldedKeys members, Ascii.dot ∉ key
  | _ => True

/-- If the value is a number, it is an integer. -/
def NumberIsInteger : JsonValue → Prop
  | number source => ∃ k, (JsonNumber.ofSource source).integer? = some k
  | _ => True

/-- The document can be read in one way only. -/
structure IsPlain (v : JsonValue) : Prop where
  /-- Settings are members of an object. -/
  isObject : ∃ members, v = object members
  /-- Keys may be compared without regard to case, and dots may stand for groups. -/
  keysDiffer : v.Everywhere FoldedKeysDiffer
  /-- Numbers may be read as doubles. -/
  integers : v.Everywhere NumberIsInteger
  /-- Integers are small enough to be doubles. -/
  exact : v.HasExactIntegers
  /-- Documents may be refused if they are nested too deeply. -/
  depth_le : v.depth ≤ Reader.maxDepth

end JsonValue

/-- The value of a document at the place of a setting, without regard to case. -/
def SettingPath.inDocument? (p : SettingPath) (v : JsonValue) : Option JsonValue :=
  match p.group with
  | none => v.folded? p.key
  | some g => (v.folded? g).bind (·.folded? p.key)

/-! ## Regular layers -/

namespace SettingLayers

/-- The settings file has the document as its only value. No file is like an empty document. -/
inductive Holds (l : SettingLayers) : JsonValue → Prop
  | file {text : Text} {v : JsonValue} (hfile : l.file = some text) (helement : Element v text) :
      Holds l v
  | nothing (hfile : l.file = none) : Holds l (.object [])

/-- Nothing stands between a setting and its layers: the defaults, the document and the variables
agree on what is a setting and what is a group. -/
structure IsRegular (l : SettingLayers) (p : SettingPath) (d : SettingDefault) (v : JsonValue) :
    Prop where
  /-- The settings file holds the document, if there is a file. -/
  holds : l.Holds v
  /-- The document can be read in one way only. -/
  plain : v.IsPlain
  /-- The setting has a default. -/
  isDefault : l.defaults.lookup p.dotted = some d
  /-- Defaults may be looked up without regard to case. -/
  nodup : (l.defaults.map (·.1.lower)).Nodup
  /-- No default stands for a group of other defaults. -/
  separate : ∀ a ∈ l.defaults.map (·.1.lower), ∀ b ∈ l.defaults.map (·.1.lower),
    ¬a ++ Text.ofString "." <+: b
  /-- Dots stand between keys only. -/
  noDot : ∀ key ∈ p.keys, Ascii.dot ∉ key.lower
  /-- The name of the variable is in upper case, whatever its keys are. -/
  isNamed : l.variablePrefix ≠ [] ∧
    ∀ b ∈ l.variableName p.keys, Text.isUpper b = true ∨ b = Ascii.underscore
  /-- No variable stands for the whole group of the setting. -/
  noVariable : ∀ g, p.group = some g → l.variableValue? [g] = none
  /-- The group of the setting is a group of the document. -/
  isGroup : ∀ g w, p.group = some g → v.folded? g = some w → ∃ members, w = .object members

end SettingLayers

/-! ## Promises -/

/-- The libraries behave as documented. -/
structure SettingsLibrary.Documented (lib : SettingsLibrary) : Prop where
  /-- A document with distinct keys has no violations if and only if it conforms to the schema. -/
  violations : ∀ {parts : List (Text × PartSchema)} {v : JsonValue} {text : Text},
    Element v text → v.HasDistinctKeys →
      (lib.violations? parts text = some [] ↔ PartSchema.Conforms parts v)
  /-- The file with the preferred extension is found in the directory that is searched. -/
  find : ∀ {fs : FileSystem} {environment : Environment} {directory name text : Text},
    name.all Text.isLetter = true →
    fs.content (Path.join (SearchPath.place fs environment directory)
      (name ++ Text.ofString ".json")) = .ok text →
    lib.find? fs environment directory name =
      some (Path.join (SearchPath.place fs environment directory) (name ++ Text.ofString ".json"))
  /-- No file is found anywhere else, nor is one with another name. -/
  found : ∀ {fs : FileSystem} {environment : Environment} {directory name path : Text},
    name.all Text.isLetter = true → lib.find? fs environment directory name = some path →
    ∃ entry node, name <+: entry ∧ Path.slash ∉ entry ∧
      path = Path.join (SearchPath.place fs environment directory) entry ∧
      fs.stat path = .ok node
  /-- Plain documents can be read. -/
  readable : ∀ {v : JsonValue} {text : Text}, Element v text → v.IsPlain →
    lib.isReadable text = true
  /-- A variable that is set goes first, and its text is decoded to the kind of the setting. -/
  fromVariable : ∀ {l : SettingLayers} {p : SettingPath} {d : SettingDefault} {v : JsonValue}
    {t : Text} {a : d.kind.Value}, l.IsRegular p d v → l.variableValue? p.keys = some t →
      d.kind.ofVariable? t = some a → lib.value? l p d.kind = some a
  /-- Where no variable is set, the settings file goes before the defaults. -/
  fromDocument : ∀ {l : SettingLayers} {p : SettingPath} {d : SettingDefault} {v w : JsonValue}
    {a : d.kind.Value}, l.IsRegular p d v → l.variableValue? p.keys = none →
      p.inDocument? v = some w → w ≠ .null → d.kind.ofJson? w = some a →
      lib.value? l p d.kind = some a
  /-- Where the file says nothing either, the default is left. -/
  fromDefault : ∀ {l : SettingLayers} {p : SettingPath} {d : SettingDefault} {v : JsonValue},
    l.IsRegular p d v → l.variableValue? p.keys = none → p.inDocument? v = none →
      lib.value? l p d.kind = some d.value

end DependencyAudit
