import DependencyAudit.Proofs.Config.Conforming
import DependencyAudit.Proofs.Config.Standard

/-!
# Layers of settings

A setting has the value of its own variable, or else the value of the document at its own place, or
else its default. No other variable, key or default has a say in it. The document that is read is
the one that was checked, unless the path of the project refers to variables.

## Main definitions

* `Setting.Layered`: the value of a setting by its layers;
* `Environment.SetsSettings`: of the variables of the tool, only those of settings are set;
* `Config.ReadsAs`: the document that is read for a project.

## Main results

* `Config.isRegular_layers`: nothing stands between a setting and its layers;
* `Config.layers_stay_apart`: what loading the settings comes to.
-/

namespace DependencyAudit

open JsonGrammar (Element)
open JsonValue (HasDistinctKeys HasExactIntegers everywhere_object_iff)

/-! ## Layers -/

/-- The value of a setting comes from the first of the layers that has one: its variable, the
document, the defaults. A variable that is empty counts as not set. -/
inductive Setting.Layered (environment : Environment) (v : JsonValue) (base : Config)
    (s : Setting) : s.kind.Value → Prop
  | fromVariable {t : Text} {a : s.kind.Value} (hset : environment.lookup s.variableName = some t)
      (hne : t ≠ []) (ha : s.kind.ofVariable? t = some a) : Layered environment v base s a
  | fromDocument {w : JsonValue} {a : s.kind.Value}
      (hunset : ∀ t, environment.lookup s.variableName = some t → t = [])
      (hw : s.inDocument? v = some w) (ha : s.kind.ofJson? w = some a) :
      Layered environment v base s a
  | byDefault (hunset : ∀ t, environment.lookup s.variableName = some t → t = [])
      (hw : s.inDocument? v = none) : Layered environment v base s (base.get s)

/-- The layers leave no choice. -/
theorem Setting.Layered.unique {environment : Environment} {v : JsonValue} {base : Config}
    {s : Setting} {a b : s.kind.Value} (ha : s.Layered environment v base a)
    (hb : s.Layered environment v base b) : a = b := by
  -- the conditions of any two different layers exclude each other
  cases ha with
  | fromVariable hset hne ha =>
    cases hb with
    | fromVariable hset' hne' hb =>
      obtain rfl := Option.some.inj (hset.symm.trans hset')
      exact Option.some.inj (ha.symm.trans hb)
    | fromDocument hunset _ _ => exact absurd (hunset _ hset) hne
    | byDefault hunset _ => exact absurd (hunset _ hset) hne
  | fromDocument hunset hw ha =>
    cases hb with
    | fromVariable hset hne _ => exact absurd (hunset _ hset) hne
    | fromDocument _ hw' hb =>
      obtain rfl := Option.some.inj (hw.symm.trans hw')
      exact Option.some.inj (ha.symm.trans hb)
    | byDefault _ hw' => cases hw.symm.trans hw'
  | byDefault hunset hw =>
    cases hb with
    | fromVariable hset hne _ => exact absurd (hunset _ hset) hne
    | fromDocument _ hw' _ => cases hw.symm.trans hw'
    | byDefault _ _ => rfl

/-- Of the variables of the tool the environment sets only those of settings, and it sets them to
texts that stand for values, or to empty texts. -/
structure Environment.SetsSettings (environment : Environment) : Prop where
  /-- The variables of the tool are those of settings. -/
  only : ∀ name ∈ environment.map (·.1), Text.ofString "DEPTRIM_" <+: name →
    ∃ s : Setting, name = s.variableName
  /-- A text that is not empty stands for a value of its setting. -/
  decodes : ∀ (s : Setting) (t : Text), environment.lookup s.variableName = some t → t ≠ [] →
    ∃ a, s.kind.ofVariable? t = some a

/-! ## Regular layers -/

section Regular

variable {environment : Environment} {file : Option Text} (base : Config)

/-- Under the condition on the environment no variable stands for a whole group. -/
theorem Environment.SetsSettings.variableValue?_group (h : environment.SetsSettings) {s : Setting}
    {g : Text} (hg : s.group = some g) :
    (base.layers environment file).variableValue? [g] = none := by
  obtain ⟨htool, hne⟩ := Setting.variableName_group base environment file hg
  -- such a variable would be one of the tool, and it is not the variable of a setting
  have hunset : environment.lookup ((base.layers environment file).variableName [g]) = none := by
    rw [Option.eq_none_iff_forall_ne_some]
    intro t ht
    obtain ⟨s', hs'⟩ := h.only _ (List.mem_map_of_mem (JsonValue.mem_of_lookup ht)) htool
    exact hne s' hs'
  exact congrArg (Option.filter _) hunset

/-- Nothing stands between a setting and its layers. -/
theorem Config.isRegular_layers (henvironment : environment.SetsSettings) {v : JsonValue}
    (hholds : (base.layers environment file).Holds v) (hconforms : Conforms v)
    (hkeys : v.HasDistinctKeys) (hexact : v.HasExactIntegers) (s : Setting) :
    (base.layers environment file).IsRegular s.path ⟨s.kind, base.get s⟩ v where
  holds := hholds
  plain := hconforms.isPlain hkeys hexact
  isDefault := s.lookup_defaults base
  nodup := base.nodup_defaultNames
  separate := base.defaultNames_separate
  noDot := s.dot_not_mem_keys
  isNamed := by
    refine ⟨List.cons_ne_nil _ _, ?_⟩
    rw [s.variableName_layers base environment file]
    exact s.isUpper_of_mem_variableName
  noVariable := fun g hg => henvironment.variableValue?_group base hg
  isGroup := fun g w hg hw => by
    obtain ⟨haccepts⟩ := hconforms
    exact Setting.exists_object haccepts hg hw

end Regular

/-! ## Loading -/

/-- The fault tells nothing about the schema. -/
theorem Config.errors_bind {α β : Type} {x : Except Fault α} {next : α → Except Fault β}
    (hx : ∀ f, x = .error f → ¬f.IsConfigError)
    (hnext : ∀ a f, next a = .error f → ¬f.IsConfigError) :
    ∀ f, (x >>= next) = .error f → ¬f.IsConfigError := by
  intro f hf
  cases x with
  | error e =>
    obtain rfl : e = f := Except.error.inj hf
    exact hx e rfl
  | ok a => exact hnext a f hf

namespace Config

section Loading

variable {lib : SettingsLibrary} {environment : Environment} {fs : FileSystem} {root text : Text}

/-- A value that cannot be decoded is no matter of the schema. -/
theorem not_isConfigError_of_valueOf (l : SettingLayers) (s : Setting) (f : Fault)
    (h : valueOf lib l s = .error f) : ¬f.IsConfigError := by
  unfold valueOf at h
  split at h
  · cases h
  · obtain rfl := Except.error.inj h
    exact id

/-- Values that cannot be decoded are no matter of the schema. -/
theorem not_isConfigError_of_ofLayers (l : SettingLayers) :
    ∀ f, ofLayers lib l = .error f → ¬f.IsConfigError := by
  -- the values are found one after the other, and each step may be the one that fails
  unfold ofLayers
  repeat refine errors_bind (not_isConfigError_of_valueOf l _) fun _ => ?_
  exact nofun

/-- If every setting has a value, then the settings are those with these values. -/
theorem ofLayers_of_valueOf {l : SettingLayers} {value : (s : Setting) → s.kind.Value}
    (h : ∀ s, valueOf lib l s = .ok (value s)) : ofLayers lib l = .ok (ofValues value) := by
  have hbind {α β : Type} {x : Except Fault α} {a : α} (h : x = .ok a) (f : α → Except Fault β) :
      (x >>= f) = f a := by rw [h]; rfl
  unfold ofLayers
  repeat refine (hbind (h _) _).trans ?_
  rfl

/-- Faults of the file system and unreadable files are no matter of the schema either. -/
theorem not_isConfigError_of_readFile (directory : Text) :
    ∀ f, readFile lib fs environment directory = .error f → ¬f.IsConfigError := by
  intro f h
  unfold readFile at h
  split at h
  · cases h
  · split at h
    · obtain rfl := Except.error.inj h
      exact id
    · split at h
      · cases h
      · obtain rfl := Except.error.inj h
        exact id

/-- The check passes a settings file if and only if its document conforms, and else it tells what is
wrong with the file. -/
theorem checkSchema_eq (hlib : lib.Documented) {path : Text} {v : JsonValue}
    (hcontent : fs.content path = .ok text) (helement : Element v text)
    (hkeys : v.HasDistinctKeys) :
    (Conforms v ∧ checkSchema lib fs path = .ok ()) ∨
      ¬Conforms v ∧ ∃ f, checkSchema lib fs path = .error f ∧ f.IsConfigError := by
  rw [Conforms, ← hlib.violations helement hkeys]
  simp only [checkSchema, hcontent]
  cases lib.violations? schema text with
  | none => exact .inr ⟨nofun, .unreadableSettings, rfl, trivial⟩
  | some violations =>
    rw [Option.some.injEq, ← schemaFault?_eq_none_iff]
    dsimp only
    cases hfault : schemaFault? violations with
    | none => exact .inl ⟨rfl, rfl⟩
    | some f => exact .inr ⟨nofun, f, rfl, isConfigError_of_schemaFault? hfault⟩

/-- The document that is read for a project: the one of the settings file in the directory that is
searched, or an empty one if no settings file is there. -/
inductive ReadsAs (fs : FileSystem) (environment : Environment) (root : Text) : JsonValue → Prop
  | file {text : Text} {v : JsonValue}
      (hcontent : fs.content (Path.join (SearchPath.place fs environment (directory root))
        "config.json") = .ok text)
      (helement : Element v text) : ReadsAs fs environment root v
  | nothing (hnone : ∀ entry node, fileName <+: entry → Path.slash ∉ entry →
      fs.stat (Path.join (SearchPath.place fs environment (directory root)) entry) ≠ .ok node) :
      ReadsAs fs environment root (.object [])

/-- The document is what the layers have of the settings file. -/
theorem exists_readFile (hlib : lib.Documented) {u : JsonValue}
    (hread : ReadsAs fs environment root u) (hplain : u.IsPlain) (base : Config) :
    ∃ found, readFile lib fs environment (directory root) = .ok found ∧
      (base.layers environment found).Holds u := by
  have hletters : fileName.all Text.isLetter = true := by decide
  cases hread with
  | @file text _ hcontent helement =>
    have hfind := hlib.find hletters hcontent
    refine ⟨some text, ?_, .file rfl helement⟩
    have hpath : fs.content (Path.join (SearchPath.place fs environment (directory root))
      (fileName ++ Text.ofString ".json")) = .ok text := hcontent
    simp only [readFile, hfind, hpath, hlib.readable helement hplain, if_true]
  | nothing hnone =>
    refine ⟨none, ?_, .nothing rfl⟩
    have hfind : lib.find? fs environment (directory root) fileName = none := by
      rw [Option.eq_none_iff_forall_ne_some]
      intro path hpath
      obtain ⟨entry, node, hentry, hslash, rfl, hnode⟩ := hlib.found hletters hpath
      exact hnone entry node hentry hslash hnode
    simp only [readFile, hfind]

/-- The layers give every setting its value. -/
theorem exists_ofLayers (hlib : lib.Documented) (henvironment : environment.SetsSettings)
    {u : JsonValue} {file : Option Text} (base : Config)
    (hholds : (base.layers environment file).Holds u) (hconforms : Conforms u)
    (hkeys : u.HasDistinctKeys) (hexact : u.HasExactIntegers) :
    ∃ c, ofLayers lib (base.layers environment file) = .ok c ∧
      ∀ s : Setting, s.Layered environment u base (c.get s) := by
  have hvalue : ∀ s : Setting, ∃ a, s.Layered environment u base a ∧
      valueOf lib (base.layers environment file) s = .ok a := by
    intro s
    have hregular := isRegular_layers base henvironment hholds hconforms hkeys hexact s
    have hname := s.variableName_layers base environment file
    obtain @⟨members, haccepts⟩ := hconforms
    have hplace := Setting.inDocument?_path haccepts s
    cases hset : (base.layers environment file).variableValue? s.path.keys with
    | some word =>
      -- the variable goes first, and its text stands for a value
      obtain ⟨hlookup, hne⟩ := Option.filter_eq_some_iff.mp hset
      rw [hname] at hlookup
      replace hne : word ≠ [] := by simpa using hne
      obtain ⟨a, ha⟩ := henvironment.decodes s word hlookup hne
      have hfound := hlib.fromVariable hregular hset ha
      exact ⟨a, .fromVariable hlookup hne ha, by simp only [valueOf, hfound]⟩
    | none =>
      -- a variable that is empty counts as not set
      have hfilter : (environment.lookup s.variableName).filter (!·.isEmpty) = none :=
        hname ▸ hset
      have hunset : ∀ word, environment.lookup s.variableName = some word → word = [] := by
        intro word hword
        simpa [hword] using hfilter
      cases hw : s.inDocument? (.object members) with
      | some w =>
        obtain ⟨hnull, a, ha⟩ := Setting.exists_ofJson? haccepts hw
        have hfound := hlib.fromDocument hregular hset (hplace.trans hw) hnull ha
        exact ⟨a, .fromDocument hunset hw ha, by simp only [valueOf, hfound]⟩
      | none =>
        have hfound := hlib.fromDefault hregular hset (hplace.trans hw)
        exact ⟨base.get s, .byDefault hunset hw, by simp only [valueOf, hfound]⟩
  -- every value is found on its own, so that it depends on nothing but its layers
  choose value hlayered hok using hvalue
  refine ⟨ofValues value, ofLayers_of_valueOf hok, fun s => ?_⟩
  rw [get_ofValues]
  exact hlayered s

/-- Settings are loaded for a project with a settings file that has one value and distinct keys,
under an environment that sets variables of settings only. The file is refused if and only if its
document does not conform to the schema. Else the settings are those whose values come each from
its own layers: from its variable, or else from its place in the document that is read, or else
from the defaults. This document is that of the settings file, unless a dollar sign in the path of
the project sends the search elsewhere. -/
theorem layers_stay_apart (hlib : lib.Documented) (processors : Nat) {v : JsonValue}
    (hcontent : fs.content (file root) = .ok text) (helement : Element v text)
    (hkeys : v.HasDistinctKeys) (henvironment : environment.SetsSettings) :
    ((∃ f, load lib processors fs environment root = .error f ∧ f.IsConfigError) ↔ ¬Conforms v) ∧
      (Conforms v → ∀ u, ReadsAs fs environment root u → Conforms u → u.HasDistinctKeys →
        u.HasExactIntegers → ∃ c, load lib processors fs environment root = .ok c ∧
          ∀ c' : Config,
            (∀ s : Setting, s.Layered environment u (default processors) (c'.get s)) ↔ c' = c) ∧
      (Path.isAbsolute root = true → Ascii.dollar ∉ root → ReadsAs fs environment root v) := by
  refine ⟨?_, ?_, fun habsolute hdollar => ?_⟩
  · obtain ⟨hconforms, hcheck⟩ | ⟨hconforms, f, hcheck, hf⟩ :=
      checkSchema_eq hlib hcontent helement hkeys
    · -- what follows the check has no faults that tell about the schema
      refine iff_of_false ?_ (not_not_intro hconforms)
      rintro ⟨f, hload, hf⟩
      simp only [load, hcheck] at hload
      exact errors_bind (not_isConfigError_of_readFile _)
        (fun _ => not_isConfigError_of_ofLayers _) f hload hf
    · refine iff_of_true ⟨f, ?_, hf⟩ hconforms
      simp only [load, hcheck]
      rfl
  · intro hconforms u hread hu hkeys' hexact'
    obtain ⟨-, hcheck⟩ := (checkSchema_eq hlib hcontent helement hkeys).resolve_right
      fun h => h.1 hconforms
    obtain ⟨found, hfound, hholds⟩ :=
      exists_readFile hlib hread (hu.isPlain hkeys' hexact') (default processors)
    obtain ⟨c, hc, hlayered⟩ :=
      exists_ofLayers hlib henvironment (default processors) hholds hu hkeys' hexact'
    refine ⟨c, ?_, fun c' => ⟨fun h => ext_get fun s => (h s).unique (hlayered s), ?_⟩⟩
    · simp only [load, hcheck, hfound]
      exact hc
    · rintro rfl
      exact hlayered
  · have hplace : SearchPath.place fs environment (directory root) = directory root :=
      SearchPath.place_directory habsolute hdollar
    refine .file ?_ helement
    rw [hplace]
    exact hcontent

end Loading

/-! ## A project with settings of all layers -/

/-- A settings file with a number in scientific form and an empty list. -/
def sampleText : Text :=
  Text.concat ["\x7b\"scan\": \x7b\"workers\": 4.0e1, \"extensions\": []\x7d, ",
    "\"usage\": \x7b\"prefixMatch\": false\x7d\x7d"]

/-- The document of the settings file. -/
def sampleDocument : JsonValue :=
  .object [("scan", .object [("workers", .number "4.0e1"), ("extensions", .array [])]),
    ("usage", .object [("prefixMatch", .bool false)])]

/-- A project with its settings file, and two projects below it: the path of one of them leads to
the other one when the variable in it is replaced. -/
def sampleProject : FileSystem :=
  ⟨.directory [("p", .directory
    [(".deptrim", .directory [("config.json", .file sampleText)]),
     ("a", .directory [(".deptrim", .directory [("config.json", .file "\x7b\x7d")])]),
     ("a$b", .directory [(".deptrim", .directory [("config.json", .file sampleText)])])])],
    "/p"⟩

/-- A variable of a setting, one that is empty, and one that is none of the tool. -/
def sampleEnvironment : Environment :=
  [("HOME", "/root"), ("DEPTRIM_USAGE_PREFIXMATCH", "T"), ("DEPTRIM_SCAN_MAXFILESIZE", "")]

private theorem sample_element : JsonGrammar.Element sampleDocument sampleText := by
  have hparse : JsonValue.parse? sampleText = some sampleDocument := by rfl
  exact (JsonValue.parse?_eq_some_iff.mp hparse).1

private theorem empty_element : JsonGrammar.Element (.object []) "\x7b\x7d" := by
  have hparse : JsonValue.parse? "\x7b\x7d" = some (.object []) := by rfl
  exact (JsonValue.parse?_eq_some_iff.mp hparse).1

private theorem sample_workers : (JsonNumber.ofSource "4.0e1").integer? = some 40 := by
  have hsource : JsonNumber.ofSource "4.0e1" = ⟨false, 40, 0, 1⟩ := by decide
  rw [hsource, JsonNumber.integer?_eq_some_iff]
  simp [JsonNumber.value, JsonNumber.magnitude]

private theorem sample_distinctKeys : sampleDocument.HasDistinctKeys := by
  simp only [sampleDocument, HasDistinctKeys, everywhere_object_iff, List.forall_mem_cons,
    JsonValue.everywhere_number_iff, JsonValue.everywhere_array_iff,
    JsonValue.everywhere_bool_iff, JsonValue.KeysDiffer, List.not_mem_nil, IsEmpty.forall_iff,
    implies_true, and_self, and_true]
  decide

private theorem sample_exactIntegers : sampleDocument.HasExactIntegers := by
  simp [sampleDocument, HasExactIntegers, JsonValue.integer?, sample_workers]

private theorem sample_conforms : Conforms sampleDocument := by
  have hscan : PartSchema.AcceptsMembers SettingSchema.Accepts
      [("extensions", .texts), ("ignoreDirs", .texts), ("maxFileSize", .text),
        ("workers", .nonNegative), ("ignoreBuiltins", .bool)]
      [("workers", .number "4.0e1"), ("extensions", .array [])] :=
    List.forall_mem_cons.mpr ⟨⟨_, rfl, .nonNegative sample_workers (by decide) (by decide)⟩,
      List.forall_mem_singleton.mpr ⟨_, rfl, .texts (by simp)⟩⟩
  have husage : PartSchema.AcceptsMembers SettingSchema.Accepts
      [("prefixMatch", .bool), ("markupExtensions", .texts), ("markupRuntimeSymbol", .text),
        ("markupRuntimePackage", .text)] [("prefixMatch", .bool false)] :=
    List.forall_mem_singleton.mpr ⟨_, rfl, .bool false⟩
  exact .object (List.forall_mem_cons.mpr ⟨⟨_, rfl, .group hscan⟩,
    List.forall_mem_singleton.mpr ⟨_, rfl, .group husage⟩⟩)

private theorem sample_setsSettings : sampleEnvironment.SetsSettings := by
  constructor
  · intro name hname htool
    simp only [sampleEnvironment, List.map_cons, List.map_nil, List.mem_cons, List.not_mem_nil,
      or_false] at hname
    rcases hname with rfl | rfl | rfl
    · exact absurd htool (by decide)
    · exact ⟨.prefixMatch, rfl⟩
    · exact ⟨.maxFileSize, rfl⟩
  · intro s t ht hne
    cases s with
    | prefixMatch =>
      obtain rfl : Text.ofString "T" = t := Option.some.inj ht
      exact ⟨true, rfl⟩
    | maxFileSize => exact absurd (Option.some.inj ht).symm hne
    | _ => exact nomatch (show (none : Option Text) = some t from ht)

/-- One setting of each layer: the number and the empty list come from the document, the truth
value from its variable, and where the variable is empty or there is none the default counts. The
project with the variable in its path has the same settings file, but the number is not read. -/
theorem layers_stay_apart_sample :
    Conforms sampleDocument ∧
      (∃ c, load .standard 8 sampleProject sampleEnvironment "/p" = .ok c ∧
        c.version = 1 ∧ c.scan.workers = 40 ∧ c.scan.extensions = some [] ∧
        c.scan.maxFileSize = "1MB" ∧ c.usage.prefixMatch = true) ∧
      ∃ c, load .standard 8 sampleProject sampleEnvironment "/p/a$b" = .ok c ∧
        c.scan.workers = 8 := by
  have hunset (t : Text) (h : none = some t) : t = [] := nomatch h
  refine ⟨sample_conforms, ?_, ?_⟩
  · have hcontent : sampleProject.content (file "/p") = .ok sampleText := rfl
    obtain ⟨-, hloaded, hread⟩ := layers_stay_apart SettingsLibrary.standard_documented 8 hcontent
      sample_element sample_distinctKeys sample_setsSettings
    obtain ⟨c, hc, hunique⟩ := hloaded sample_conforms _ (hread rfl (by decide)) sample_conforms
      sample_distinctKeys sample_exactIntegers
    have hlayered := (hunique c).mpr rfl
    refine ⟨c, hc, ?_, ?_, ?_, ?_, ?_⟩
    · exact (hlayered .version).unique (.byDefault hunset rfl)
    · exact (hlayered .workers).unique (.fromDocument hunset rfl sample_workers)
    · exact (hlayered .extensions).unique (.fromDocument hunset rfl rfl)
    · exact (hlayered .maxFileSize).unique (.byDefault (fun t h => (Option.some.inj h).symm) rfl)
    · exact (hlayered .prefixMatch).unique (.fromVariable rfl (by decide) rfl)
  · -- the variable is not set, so that the search goes to the other project
    have hcontent : sampleProject.content (file "/p/a$b") = .ok sampleText := rfl
    have hother : sampleProject.content (Path.join (SearchPath.place sampleProject
        sampleEnvironment (directory "/p/a$b")) "config.json") = .ok "\x7b\x7d" := rfl
    obtain ⟨-, hloaded, -⟩ := layers_stay_apart SettingsLibrary.standard_documented 8 hcontent
      sample_element sample_distinctKeys sample_setsSettings
    have hempty : HasDistinctKeys (.object []) ∧ HasExactIntegers (.object []) := by
      simp [HasDistinctKeys, HasExactIntegers, JsonValue.KeysDiffer, JsonValue.keys,
        JsonValue.integer?]
    obtain ⟨c, hc, hunique⟩ := hloaded sample_conforms _ (.file hother empty_element)
      (.object (by simp [PartSchema.AcceptsMembers])) hempty.1 hempty.2
    exact ⟨c, hc, (((hunique c).mpr rfl) .workers).unique (.byDefault hunset rfl)⟩

end Config

end DependencyAudit
