import DependencyAudit.Config.Search
import DependencyAudit.Config.Validator
import DependencyAudit.Config.Value

/-!
# The standard library of settings

The libraries that the tool is built with. A document is kept as a table with keys in lower case,
and a setting is looked up in the environment, in this table and among the defaults, in this order.
-/

namespace DependencyAudit

/-- Fits the value of a layer to a kind. -/
def SettingKind.fit : (k : SettingKind) → SettingValue → Option k.Value
  | integer, v => v.toInteger?
  | truth, v => v.toBool?
  | text, v => v.toText?
  | texts, v => v.toTexts?.map some

/-- The default as a value of a kind, if it is one. -/
def SettingDefault.as? (d : SettingDefault) (kind : SettingKind) : Option kind.Value :=
  if h : d.kind = kind then some (h ▸ d.value) else none

/-- The table that the text of a settings file stands for. -/
def SettingValue.ofText? (text : Text) : Option SettingValue :=
  match JsonValue.parse? text with
  | some .null => some (table [])
  | some (.object members) => (ofMembers? members).map table
  | _ => none

namespace SettingLayers

/-- The table of the settings file; without a file it is empty. -/
def table (l : SettingLayers) : SettingValue :=
  (l.file.bind SettingValue.ofText?).getD (.table [])

/-- The default of a setting. What has no default is zero. -/
def default? (l : SettingLayers) (p : SettingPath) (kind : SettingKind) : Option kind.Value :=
  match (l.defaults.map fun d => (d.1.lower, d.2)).reverse.lookup p.dotted.lower with
  | some d => d.as? kind
  | none => some kind.zero

/-- A setting outside of all groups. -/
def top? (l : SettingLayers) (key : Text) (kind : SettingKind) : Option kind.Value :=
  match l.variableValue? [key] with
  | some t => kind.fit (.text t)
  | none =>
    match (l.table.member? key.lower).filter (!·.isNull) with
    | some v => kind.fit v
    | none => l.default? ⟨none, key⟩ kind

/-- A setting of a group. A variable that stands for the whole group hides the setting in the layers
below, so that not even its default counts. -/
def inGroup? (l : SettingLayers) (group key : Text) (kind : SettingKind) : Option kind.Value :=
  match l.variableValue? [group, key] with
  | some t => kind.fit (.text t)
  | none =>
    if (l.variableValue? [group]).isSome then some kind.zero
    else
      match l.table.at? (group.lower, key.lower) with
      | some v => kind.fit v
      | none => l.default? ⟨some group, key⟩ kind

/-- The value of a setting. A group that is `null` in the file has its defaults, whatever the
variables of its settings say; one that is neither `null` nor a table is refused. -/
def value? (l : SettingLayers) (p : SettingPath) (kind : SettingKind) : Option kind.Value :=
  match p.group with
  | none => l.top? p.key kind
  | some group =>
    match l.table.member? group.lower with
    | none => l.inGroup? group p.key kind
    | some (.table _) => l.inGroup? group p.key kind
    | some .null => if (l.variableValue? [group]).isSome then none else l.default? p kind
    | some _ => none

end SettingLayers

namespace SettingsLibrary

/-- The libraries that the tool is built with. -/
def standard : SettingsLibrary where
  violations? := fun parts text => (JsonValue.first? text).map (PartSchema.documentViolations parts)
  find? := SearchPath.find?
  isReadable := fun text => (SettingValue.ofText? text).isSome
  value? := SettingLayers.value?

end SettingsLibrary

end DependencyAudit
