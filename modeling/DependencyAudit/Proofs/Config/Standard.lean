import DependencyAudit.Proofs.Config.Search
import DependencyAudit.Proofs.Config.Table
import DependencyAudit.Proofs.Config.Validator

/-!
# The standard library keeps its promises

The libraries that the tool is built with behave as documented: nothing stands between a setting and
its layers as long as the layers are regular.

## Main results

* `SettingLayers.value?_eq`: where the value of a setting comes from;
* `SettingsLibrary.standard_documented`: the standard library keeps all promises.
-/

namespace DependencyAudit

open JsonGrammar (Element)
open JsonValue (everywhere_object_iff everywhere_number_iff mem_of_lookup)

/-! ## Fitting values -/

namespace SettingKind

/-- The text of a variable is fitted like any other text. -/
theorem fit_text (k : SettingKind) {t : Text} (h : t ≠ []) : k.fit (.text t) = k.ofVariable? t := by
  have hempty : ¬t.isEmpty = true := by simpa using h
  cases k with
  | integer => exact if_neg hempty
  | truth => exact if_neg hempty
  | text => rfl
  | texts => exact congrArg (Option.map some) (if_neg hempty)

theorem exists_fit_texts {items : List JsonValue} {texts : List Text}
    (h : items.mapM JsonValue.text? = some texts) :
    SettingValue.ofItems? items = some (texts.map .text) := by
  induction items generalizing texts with
  | nil =>
    obtain rfl := Option.some.inj h
    rfl
  | cons v more ih =>
    simp only [List.mapM_cons, Option.pure_def, Option.bind_eq_bind, Option.bind_eq_some_iff,
      Option.some.injEq] at h
    obtain ⟨t, ht, rest, hrest, rfl⟩ := h
    cases v with
    | string body =>
      obtain rfl := Option.some.inj ht
      simp [SettingValue.ofItems?, SettingValue.ofJson?, ih hrest]
    | _ => cases ht

/-- A value of a document that stands for a value of the kind is fitted to this value. -/
theorem exists_fit (k : SettingKind) {w : JsonValue} {a : k.Value} (hexact : w.HasExactIntegers)
    (hnull : w ≠ .null) (ha : k.ofJson? w = some a) :
    ∃ x, SettingValue.ofJson? w = some x ∧ x.isNull = false ∧ k.fit x = some a := by
  cases k with
  | integer =>
    cases w with
    | number source =>
      obtain ⟨x, hx, hfit⟩ :=
        SettingValue.exists_ofJson?_number ha (everywhere_number_iff.mp hexact _ ha)
      exact ⟨_, hx, rfl, hfit⟩
    | _ => cases ha
  | truth =>
    cases w with
    | bool b => exact ⟨_, rfl, rfl, ha⟩
    | _ => cases ha
  | text =>
    cases w with
    | string body => exact ⟨_, rfl, rfl, ha⟩
    | _ => cases ha
  | texts =>
    cases w with
    | null => exact absurd rfl hnull
    | array items =>
      -- a list is fitted item by item, and every item is a text already
      obtain ⟨texts, htexts, rfl⟩ := Option.map_eq_some_iff.mp ha
      refine ⟨.list (texts.map .text), ?_, rfl, ?_⟩
      · rw [SettingValue.ofJson?, exists_fit_texts htexts, Option.map_some]
      · have hread : (texts.map SettingValue.text).mapM SettingValue.toText? = some texts := by
          rw [List.mapM_map]
          exact (List.mapM_pure (f := id)).trans (by simp)
        exact congrArg (Option.map some) hread
    | _ => cases ha

end SettingKind

/-! ## Looking up in the layers -/

namespace SettingLayers

variable {l : SettingLayers} {p : SettingPath} {d : SettingDefault} {v : JsonValue}

/-- The table of the settings file is that of the document. -/
theorem exists_table (hl : l.Holds v) (hplain : v.IsPlain) :
    ∃ members t, v = .object members ∧ SettingValue.ofMembers? members = some t ∧
      l.table = .table t := by
  cases hl with
  | file hfile helement =>
    obtain ⟨members, t, hv, ht, htable⟩ := SettingValue.exists_ofText? helement hplain
    exact ⟨members, t, hv, ht, by simp [table, hfile, htable]⟩
  | nothing hfile => exact ⟨[], [], rfl, rfl, by simp [table, hfile]⟩

/-- The default is found in lower case. -/
theorem default?_eq (h : l.IsRegular p d v) : l.default? p d.kind = some d.value := by
  have hmem : (p.dotted.lower, d) ∈ l.defaults.map fun d => (d.1.lower, d.2) :=
    List.mem_map_of_mem (f := fun d => (d.1.lower, d.2)) (mem_of_lookup h.isDefault)
  have hnodup : ((l.defaults.map fun d => (d.1.lower, d.2)).map (·.1)).Nodup := by
    rw [List.map_map]
    exact h.nodup
  rw [default?, lookup_reverse hnodup, lookup_of_mem hnodup hmem]
  simp [SettingDefault.as?]

/-- The value of a setting comes from its variable, from its place in the document or from its
default. -/
theorem value?_eq (h : l.IsRegular p d v) :
    l.value? p d.kind =
      (l.variableValue? p.keys).elim
        ((((p.inDocument? v).bind SettingValue.ofJson?).filter (!·.isNull)).elim (some d.value)
          d.kind.fit)
        (fun t => d.kind.fit (.text t)) := by
  obtain ⟨members, t, rfl, ht, htable⟩ := exists_table h.holds h.plain
  have hdefault := default?_eq h
  obtain ⟨⟨hnodup, -⟩, -⟩ := everywhere_object_iff.mp h.plain.keysDiffer
  obtain ⟨group, key⟩ := p
  cases group with
  | none =>
    have hkeys : SettingPath.keys ⟨none, key⟩ = [key] := rfl
    rw [hkeys]
    simp only [value?, top?, SettingPath.inDocument?, htable,
      SettingValue.member?_ofMembers? ht hnodup, hdefault]
    cases l.variableValue? [key] with
    | some word => rfl
    | none =>
      dsimp only
      split <;> simp [*]
  | some g =>
    have hkeys : SettingPath.keys ⟨some g, key⟩ = [g, key] := rfl
    have hvariable := h.noVariable g rfl
    -- the document has the group as a group, or not at all
    have hvalue : l.value? ⟨some g, key⟩ d.kind = l.inGroup? g key d.kind := by
      obtain ⟨-, hmember⟩ | ⟨inner, t', -, -, -, hmember⟩ :=
        SettingValue.member?_group ht h.plain (h.isGroup g · rfl)
      · simp only [value?, htable, hmember]
      · simp only [value?, htable, hmember]
    rw [hvalue, inGroup?, hkeys, hvariable, htable, hdefault,
      SettingValue.at?_ofMembers? ht h.plain (h.isGroup g · rfl), SettingPath.inDocument?]
    cases l.variableValue? [g, key] with
    | some word => rfl
    | none =>
      simp only [Option.isSome_none, Bool.false_eq_true, if_false]
      split <;> simp [*]

end SettingLayers

/-! ## The promises -/

theorem SettingPath.within_of_inDocument? {p : SettingPath} {v w : JsonValue}
    (h : p.inDocument? v = some w) : JsonValue.Within w v := by
  have hfolded {name : Text} {u w : JsonValue} (hw : u.folded? name = some w) :
      JsonValue.Within w u := by
    cases u with
    | object members =>
      obtain ⟨m, hm, heq⟩ := List.mem_map.mp (mem_of_lookup hw)
      obtain ⟨-, rfl⟩ := Prod.mk.inj heq
      exact .member hm .self
    | _ => cases hw
  unfold inDocument? at h
  split at h
  · exact hfolded h
  · obtain ⟨u, hu, hw⟩ := Option.bind_eq_some_iff.mp h
    exact (hfolded hw).trans (hfolded hu)

namespace SettingsLibrary

/-- The violations of a document with distinct keys are none if and only if it conforms. -/
theorem violations?_standard {parts : List (Text × PartSchema)} {v : JsonValue} {text : Text}
    (helement : Element v text) (hkeys : v.HasDistinctKeys) :
    standard.violations? parts text = some [] ↔ PartSchema.Conforms parts v := by
  change (JsonValue.first? text).map (PartSchema.documentViolations parts) = some [] ↔ _
  by_cases hdepth : v.depth ≤ JsonValue.Reader.maxDepth
  · rw [JsonValue.first?_of_element helement hdepth, Option.map_some, Option.some.injEq,
      PartSchema.documentViolations_eq_nil_iff hkeys]
  · -- a document that is nested too deeply is not read, and it does not conform either
    rw [JsonValue.first?_eq_none_of_element helement (Nat.not_le.mp hdepth), Option.map_none]
    refine iff_of_false nofun fun hconforms => hdepth ?_
    exact Nat.le_trans hconforms.depth_le (by decide)

/-- The standard library keeps all promises. -/
theorem standard_documented : standard.Documented where
  violations := violations?_standard
  find := fun _ h => SearchPath.find?_of_content h
  found := SearchPath.exists_of_find?
  readable := fun helement hplain => by
    obtain ⟨members, t, -, -, htext⟩ := SettingValue.exists_ofText? helement hplain
    simp [standard, htext]
  fromVariable := fun {l p d v t a} hl ht ha => by
    have hne : t ≠ [] := by simpa using (Option.filter_eq_some_iff.mp ht).2
    change l.value? p d.kind = some a
    rw [SettingLayers.value?_eq hl, ht]
    exact (d.kind.fit_text hne).trans ha
  fromDocument := fun {l p d v w a} hl ht hw hnull ha => by
    obtain ⟨x, hx, hxnull, hfit⟩ := d.kind.exists_fit
      (hl.plain.exact.within (SettingPath.within_of_inDocument? hw)) hnull ha
    change l.value? p d.kind = some a
    rw [SettingLayers.value?_eq hl, ht, hw]
    simp [hx, Option.filter, hxnull, hfit]
  fromDefault := fun {l p d v} hl ht hw => by
    change l.value? p d.kind = some d.value
    rw [SettingLayers.value?_eq hl, ht, hw]
    rfl

end SettingsLibrary

end DependencyAudit
