import DependencyAudit.Config.Load
import DependencyAudit.Proofs.Config.Schema
import DependencyAudit.Text.Scalar

/-!
# The places of settings

Each setting has an environment variable and a place in settings files, and what a variable or a
value of a document says about it depends on its kind. The schema and the defaults know exactly the
place of each setting.

## Main definitions

* `SettingKind.ofVariable?` and `SettingKind.ofJson?`: the value that a variable or a value of a
  document stands for;
* `Setting.variableName` and `Setting.inDocument?`: the variable of a setting, and its value in a
  document.

## Main results

* `Setting.variableName_layers`: the name of a variable comes from the place of its setting;
* `Setting.lookup_defaults`: every setting has its default;
* `Setting.exists_schema` and `Setting.exists_schema_of_group`: the schema has the kind of each
  setting at its place.
-/

namespace DependencyAudit

/-! ## Kinds -/

namespace SettingKind

/-- The value that the text of a variable stands for. A list has commas between its items. -/
def ofVariable? : (k : SettingKind) → Text → Option k.Value
  | integer, t => (Scalar.integer t).toOption
  | truth, t => Scalar.bool? t
  | text, t => some t
  | texts, t => some (some (t.splitOnByte Ascii.comma))

/-- The value that a value of a document stands for. -/
def ofJson? : (k : SettingKind) → JsonValue → Option k.Value
  | integer, v => v.integer?
  | truth, v => v.truth?
  | text, v => v.text?
  | texts, v => v.list? JsonValue.text?

end SettingKind

/-- The kind of the values that a setting may have. -/
def SettingSchema.kind : SettingSchema → SettingKind
  | integer | nonNegative => .integer
  | text | oneOf _ => .text
  | bool => .truth
  | texts => .texts

/-! ## Places -/

namespace Setting

/-- The environment variable of a setting. -/
def variableName : Setting → Text
  | version => "DEPTRIM_VERSION"
  | extensions => "DEPTRIM_SCAN_EXTENSIONS"
  | ignoreDirs => "DEPTRIM_SCAN_IGNOREDIRS"
  | maxFileSize => "DEPTRIM_SCAN_MAXFILESIZE"
  | workers => "DEPTRIM_SCAN_WORKERS"
  | ignoreBuiltins => "DEPTRIM_SCAN_IGNOREBUILTINS"
  | prefixMatch => "DEPTRIM_USAGE_PREFIXMATCH"
  | markupExtensions => "DEPTRIM_USAGE_MARKUPEXTENSIONS"
  | markupRuntimeSymbol => "DEPTRIM_USAGE_MARKUPRUNTIMESYMBOL"
  | markupRuntimePackage => "DEPTRIM_USAGE_MARKUPRUNTIMEPACKAGE"
  | manifestPath => "DEPTRIM_MANIFEST_PATH"
  | packageManager => "DEPTRIM_MANIFEST_PACKAGEMANAGER"
  | keepFile => "DEPTRIM_MANIFEST_KEEPFILE"
  | logFormat => "DEPTRIM_LOGGING_FORMAT"
  | logLevel => "DEPTRIM_LOGGING_LEVEL"

/-- The value of a document at the place of a setting. -/
def inDocument? (s : Setting) (v : JsonValue) : Option JsonValue :=
  match s.group with
  | none => v.field? s.key
  | some g => (v.field? g).bind (·.field? s.key)

variable (d : Config) (environment : Environment) (file : Option Text)

/-- The name of a variable comes from the place of its setting. -/
theorem variableName_layers (s : Setting) :
    (d.layers environment file).variableName s.path.keys = s.variableName := by
  change Text.upperAscii (Text.concat ["DEPTRIM", "_", Text.join "_" s.path.keys]) = _
  cases s <;> decide +kernel

/-- The variable of a whole group is one of the tool, but it is not the variable of a setting. -/
theorem variableName_group {s : Setting} {g : Text} (h : s.group = some g) :
    Text.ofString "DEPTRIM_" <+: (d.layers environment file).variableName [g] ∧
      ∀ s' : Setting, (d.layers environment file).variableName [g] ≠ s'.variableName := by
  change Text.ofString "DEPTRIM_" <+: Text.upperAscii (Text.concat ["DEPTRIM", "_", g]) ∧
    ∀ s' : Setting, Text.upperAscii (Text.concat ["DEPTRIM", "_", g]) ≠ s'.variableName
  -- the groups are four, so that all pairs of a group and a setting can be compared
  have htool : ∀ g ∈ (["scan", "usage", "manifest", "logging"] : List Text),
      Text.ofString "DEPTRIM_" <+: Text.upperAscii (Text.concat ["DEPTRIM", "_", g]) := by decide
  have hne (s' : Setting) : ∀ g ∈ (["scan", "usage", "manifest", "logging"] : List Text),
      Text.upperAscii (Text.concat ["DEPTRIM", "_", g]) ≠ s'.variableName := by
    cases s' <;> decide +kernel
  have hmem : g ∈ (["scan", "usage", "manifest", "logging"] : List Text) := by
    cases s <;> cases h <;> simp
  exact ⟨htool g hmem, fun s' => hne s' g hmem⟩

/-- The name of a variable is in upper case. -/
theorem isUpper_of_mem_variableName (s : Setting) :
    ∀ b ∈ s.variableName, Text.isUpper b = true ∨ b = Ascii.underscore := by
  have hall : (s.variableName.all fun b => Text.isUpper b || b == Ascii.underscore) = true := by
    cases s <;> decide +kernel
  intro b hb
  simpa using List.all_eq_true.mp hall b hb

/-- Every setting has its default. -/
theorem lookup_defaults (s : Setting) :
    d.defaults.lookup s.path.dotted = some ⟨s.kind, d.get s⟩ := by
  cases s <;> rfl

/-- No key on the way to a setting holds a dot. -/
theorem dot_not_mem_keys (s : Setting) : ∀ key ∈ s.path.keys, Ascii.dot ∉ key.lower := by
  cases s <;> decide +kernel

/-- The schema has the kind of a setting outside of all groups at its place. -/
theorem exists_schema {s : Setting} (h : s.group = none) :
    ∃ schema, Config.schema.lookup s.key = some (.setting schema) ∧ schema.kind = s.kind := by
  cases s <;> cases h
  exact ⟨_, rfl, rfl⟩

/-- So it has for the settings of groups. -/
theorem exists_schema_of_group {s : Setting} {g : Text} (h : s.group = some g) :
    ∃ settings schema, Config.schema.lookup g = some (.group settings) ∧
      settings.lookup s.key = some schema ∧ schema.kind = s.kind := by
  cases s <;> cases h <;> exact ⟨_, _, rfl, rfl, rfl⟩

end Setting

namespace Config

/-- The names of the defaults in lower case do not depend on the values. -/
theorem defaultNames_eq (d : Config) : d.defaults.map (·.1.lower) =
    (default 1).defaults.map (·.1.lower) :=
  rfl

/-- No two defaults have names that differ in case only. -/
theorem nodup_defaultNames (d : Config) : (d.defaults.map (·.1.lower)).Nodup := by
  rw [defaultNames_eq]
  decide +kernel

/-- No default stands for a group of other defaults. -/
theorem defaultNames_separate (d : Config) : ∀ a ∈ d.defaults.map (·.1.lower),
    ∀ b ∈ d.defaults.map (·.1.lower), ¬a ++ Text.ofString "." <+: b := by
  rw [defaultNames_eq]
  decide +kernel

end Config

end DependencyAudit
