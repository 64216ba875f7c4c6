import Mathlib.Data.List.Nodup
import DependencyAudit.Proofs.Config.Library

/-!
# Conforming documents are plain

A conforming document has known keys only, and known keys differ in lower case too and hold no dots.
So the document can be read in one way only: looking up the place of a setting without regard to
case finds what is written there.

## Main results

* `PartSchema.Conforms.isPlain`: a conforming document is plain;
* `Setting.inDocument?_path`: the place of a setting is found without regard to case;
* `Setting.exists_ofJson?`: what stands there is a value of the setting.
-/

namespace DependencyAudit

open JsonValue (keys foldedKeys HasDistinctKeys HasExactIntegers FoldedKeysDiffer NumberIsInteger
  everywhere_object_iff within_of_field? mem_of_lookup)

/-! ## Known keys -/

namespace PartSchema.AcceptsMembers

variable {α : Type} {accepts : α → JsonValue → Prop} {known : List (Text × α)}
  {members : List (Text × JsonValue)}

theorem mem_names (h : AcceptsMembers accepts known members) {key : Text}
    (hkey : key ∈ keys members) : key ∈ known.map (·.1) := by
  obtain ⟨m, hm, rfl⟩ := List.mem_map.mp hkey
  obtain ⟨s, hs, -⟩ := h m hm
  exact List.mem_map_of_mem (mem_of_lookup hs)

theorem of_field? (h : AcceptsMembers accepts known members) {name : Text} {w : JsonValue}
    (hw : (JsonValue.object members).field? name = some w) :
    ∃ s, known.lookup name = some s ∧ accepts s w := by
  obtain ⟨m, hm, rfl, rfl⟩ := JsonValue.exists_mem_of_field? hw
  exact h m hm

/-- Distinct keys among known names differ in lower case, and hold dots only if the names do. -/
theorem foldedKeysDiffer (h : AcceptsMembers accepts known members) (hkeys : (keys members).Nodup)
    (hnames : ((known.map (·.1)).map Text.lower).Nodup)
    (hdots : ∀ name ∈ known.map (·.1), Ascii.dot ∉ name.lower) :
    FoldedKeysDiffer (.object members) := by
  refine ⟨hkeys.map_on fun key hkey other hother heq => ?_, fun key hkey => ?_⟩
  · exact List.inj_on_of_nodup_map hnames (h.mem_names hkey) (h.mem_names hother) heq
  · obtain ⟨name, hname, rfl⟩ := List.mem_map.mp hkey
    exact hdots name (h.mem_names hname)

/-- A known name is found without regard to case. -/
theorem folded?_eq (h : AcceptsMembers accepts known members)
    (hnames : ((known.map (·.1)).map Text.lower).Nodup) {name : Text}
    (hname : name ∈ known.map (·.1)) :
    (JsonValue.object members).folded? name = (JsonValue.object members).field? name := by
  have hinj := List.inj_on_of_nodup_map hnames
  induction members with
  | nil => rfl
  | cons m more ih =>
    have hmore := ih fun other hother => h other (List.mem_cons_of_mem _ hother)
    have hkey : JsonString.decode m.1 ∈ known.map (·.1) := h.mem_names List.mem_cons_self
    -- names that are equal in lower case are equal
    have heq : (name.lower == (JsonString.decode m.1).lower) = (name == JsonString.decode m.1) := by
      rw [Bool.eq_iff_iff, beq_iff_eq, beq_iff_eq]
      exact ⟨hinj hname hkey, congrArg _⟩
    simp only [JsonValue.folded?, JsonValue.field?, List.map_cons, List.lookup_cons, heq]
      at hmore ⊢
    rw [hmore]

end PartSchema.AcceptsMembers

/-- The names of the settings of a group. -/
def PartSchema.names : PartSchema → List Text
  | setting _ => []
  | group settings => settings.map (·.1)

namespace Config

/-- The names of the parts differ in lower case. -/
theorem nodup_lower_schema : ((schema.map (·.1)).map Text.lower).Nodup := by
  decide

/-- So do the names of the settings of each group. -/
theorem nodup_lower_names : ∀ p ∈ schema, (p.2.names.map Text.lower).Nodup := by
  decide

/-- No part has a name with a dot. -/
theorem dot_not_mem_schema : ∀ name ∈ schema.map (·.1), Ascii.dot ∉ name.lower := by
  decide

/-- No setting of a group has such a name either. -/
theorem dot_not_mem_names : ∀ p ∈ schema, ∀ name ∈ p.2.names, Ascii.dot ∉ name.lower := by
  decide

end Config

/-! ## Plain documents -/

/-- A value of a setting holds no objects, and it holds integers only. -/
theorem SettingSchema.Accepts.everywhere {s : SettingSchema} {v : JsonValue} (h : s.Accepts v) :
    v.Everywhere FoldedKeysDiffer ∧ v.Everywhere NumberIsInteger := by
  cases h with
  | integer hk _ => simpa [FoldedKeysDiffer, NumberIsInteger] using ⟨_, hk⟩
  | nonNegative hk _ _ => simpa [FoldedKeysDiffer, NumberIsInteger] using ⟨_, hk⟩
  | @texts items hitems =>
    have htext : ∀ v ∈ items, v.Everywhere FoldedKeysDiffer ∧ v.Everywhere NumberIsInteger := by
      intro v hv
      obtain ⟨body, rfl⟩ := hitems v hv
      simp [FoldedKeysDiffer, NumberIsInteger]
    exact ⟨JsonValue.everywhere_array_iff.mpr ⟨trivial, fun v hv => (htext v hv).1⟩,
      JsonValue.everywhere_array_iff.mpr ⟨trivial, fun v hv => (htext v hv).2⟩⟩
  | _ => simp [FoldedKeysDiffer, NumberIsInteger]

/-- A part is plain if its keys are distinct. -/
theorem PartSchema.Accepts.everywhere {name : Text} {part : PartSchema} {v : JsonValue}
    (hpart : (name, part) ∈ Config.schema) (h : part.Accepts v) (hkeys : v.HasDistinctKeys) :
    v.Everywhere FoldedKeysDiffer ∧ v.Everywhere NumberIsInteger := by
  cases h with
  | setting h => exact h.everywhere
  | @group settings inner h =>
    have hinner : ∀ m ∈ inner, m.2.Everywhere FoldedKeysDiffer ∧ m.2.Everywhere NumberIsInteger :=
      fun m hm => (h m hm).elim fun s hs => hs.2.everywhere
    have hdiffer := h.foldedKeysDiffer (everywhere_object_iff.mp hkeys).1
      (Config.nodup_lower_names _ hpart) (Config.dot_not_mem_names _ hpart)
    exact ⟨everywhere_object_iff.mpr ⟨hdiffer, fun m hm => (hinner m hm).1⟩,
      everywhere_object_iff.mpr ⟨trivial, fun m hm => (hinner m hm).2⟩⟩

/-- A conforming document with distinct keys and exact integers is plain. -/
theorem PartSchema.Conforms.isPlain {v : JsonValue} (h : Config.Conforms v)
    (hkeys : v.HasDistinctKeys) (hexact : v.HasExactIntegers) : v.IsPlain := by
  have hdepth : v.depth ≤ JsonValue.Reader.maxDepth := Nat.le_trans h.depth_le (by decide)
  obtain @⟨members, haccepts⟩ := h
  obtain ⟨hdistinct, hmembers⟩ := everywhere_object_iff.mp hkeys
  have hparts : ∀ m ∈ members, m.2.Everywhere FoldedKeysDiffer ∧ m.2.Everywhere NumberIsInteger :=
    fun m hm => (haccepts m hm).elim fun part hpart =>
      hpart.2.everywhere (mem_of_lookup hpart.1) (hmembers m hm)
  have hdiffer := haccepts.foldedKeysDiffer hdistinct Config.nodup_lower_schema
    Config.dot_not_mem_schema
  exact ⟨⟨_, rfl⟩, everywhere_object_iff.mpr ⟨hdiffer, fun m hm => (hparts m hm).1⟩,
    everywhere_object_iff.mpr ⟨trivial, fun m hm => (hparts m hm).2⟩, hexact, hdepth⟩

/-! ## The places of settings -/

/-- A list of strings stands for a list of texts. -/
theorem JsonValue.exists_mapM_text? {items : List JsonValue}
    (h : ∀ v ∈ items, ∃ body, v = .string body) : ∃ texts, items.mapM text? = some texts := by
  induction items with
  | nil => exact ⟨[], rfl⟩
  | cons v more ih =>
    obtain ⟨⟨body, rfl⟩, hmore⟩ := List.forall_mem_cons.mp h
    obtain ⟨texts, htexts⟩ := ih hmore
    exact ⟨JsonString.decode body :: texts, by simp [text?, htexts]⟩

section Document

variable {members : List (Text × JsonValue)}
  (haccepts : PartSchema.AcceptsMembers PartSchema.Accepts Config.schema members)

include haccepts

/-- A group of the document is an object with settings of the group. -/
theorem Config.exists_group {g : Text} {settings : List (Text × SettingSchema)} {w : JsonValue}
    (hgroup : Config.schema.lookup g = some (.group settings))
    (hw : (JsonValue.object members).field? g = some w) :
    ∃ inner, w = .object inner ∧
      PartSchema.AcceptsMembers SettingSchema.Accepts settings inner := by
  obtain ⟨part, hpart, haccept⟩ := haccepts.of_field? hw
  obtain rfl := Option.some.inj (hpart.symm.trans hgroup)
  cases haccept with
  | group h => exact ⟨_, rfl, h⟩

/-- The name of a part is found without regard to case. -/
theorem Config.folded?_part {name : Text} {part : PartSchema}
    (hpart : Config.schema.lookup name = some part) :
    (JsonValue.object members).folded? name = (JsonValue.object members).field? name :=
  haccepts.folded?_eq Config.nodup_lower_schema (List.mem_map_of_mem (mem_of_lookup hpart))

/-- The group of a setting is a group of the document, if the document has it. -/
theorem Setting.exists_object {s : Setting} {g : Text} {w : JsonValue} (hg : s.group = some g)
    (hw : (JsonValue.object members).folded? g = some w) : ∃ inner, w = .object inner := by
  obtain ⟨settings, -, hsettings, -, -⟩ := Setting.exists_schema_of_group hg
  rw [Config.folded?_part haccepts hsettings] at hw
  obtain ⟨inner, rfl, -⟩ := Config.exists_group haccepts hsettings hw
  exact ⟨inner, rfl⟩

/-- The place of a setting is found without regard to case. -/
theorem Setting.inDocument?_path (s : Setting) :
    s.path.inDocument? (.object members) = s.inDocument? (.object members) := by
  unfold SettingPath.inDocument? Setting.inDocument? Setting.path
  cases hgroup : s.group with
  | none =>
    obtain ⟨schema, hschema, -⟩ := Setting.exists_schema hgroup
    exact Config.folded?_part haccepts hschema
  | some g =>
    obtain ⟨settings, schema, hsettings, hschema, -⟩ := Setting.exists_schema_of_group hgroup
    dsimp only
    rw [Config.folded?_part haccepts hsettings]
    cases hw : (JsonValue.object members).field? g with
    | none => rfl
    | some w =>
      obtain ⟨inner, rfl, hinner⟩ := Config.exists_group haccepts hsettings hw
      exact hinner.folded?_eq (Config.nodup_lower_names _ (mem_of_lookup hsettings))
        (List.mem_map_of_mem (mem_of_lookup hschema))

/-- The value at the place of a setting is one that the setting may have. -/
theorem Setting.exists_accepts {s : Setting} {w : JsonValue}
    (hw : s.inDocument? (.object members) = some w) :
    ∃ schema : SettingSchema, schema.kind = s.kind ∧ schema.Accepts w := by
  unfold Setting.inDocument? at hw
  split at hw
  · -- a setting outside of all groups is a part of its own
    rename_i hgroup
    obtain ⟨schema, hschema, hkind⟩ := Setting.exists_schema hgroup
    obtain ⟨part, hpart, haccept⟩ := haccepts.of_field? hw
    obtain rfl := Option.some.inj (hpart.symm.trans hschema)
    cases haccept with
    | setting h => exact ⟨schema, hkind, h⟩
  · -- any other setting is inside of its group, which is an object
    rename_i g hgroup
    obtain ⟨settings, schema, hsettings, hschema, hkind⟩ := Setting.exists_schema_of_group hgroup
    obtain ⟨u, hu, hw⟩ := Option.bind_eq_some_iff.mp hw
    obtain ⟨inner, rfl, hinner⟩ := Config.exists_group haccepts hsettings hu
    obtain ⟨found, hfound, haccept⟩ := hinner.of_field? hw
    obtain rfl := Option.some.inj (hfound.symm.trans hschema)
    exact ⟨found, hkind, haccept⟩

/-- What stands at the place of a setting is a value of the setting. -/
theorem Setting.exists_ofJson? {s : Setting} {w : JsonValue}
    (hw : s.inDocument? (.object members) = some w) :
    w ≠ .null ∧ ∃ a, s.kind.ofJson? w = some a := by
  obtain ⟨schema, hkind, haccept⟩ := Setting.exists_accepts haccepts hw
  rw [← hkind]
  cases haccept with
  | integer hk _ => exact ⟨nofun, _, hk⟩
  | nonNegative hk _ _ => exact ⟨nofun, _, hk⟩
  | text body => exact ⟨nofun, _, rfl⟩
  | bool b => exact ⟨nofun, _, rfl⟩
  | oneOf hword => exact ⟨nofun, _, rfl⟩
  | texts hitems =>
    obtain ⟨texts, htexts⟩ := JsonValue.exists_mapM_text? hitems
    exact ⟨nofun, some texts, congrArg (Option.map some) htexts⟩

end Document

end DependencyAudit
