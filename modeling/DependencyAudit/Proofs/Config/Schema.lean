import DependencyAudit.Config.Schema
import DependencyAudit.Proofs.Json.Content
import DependencyAudit.Proofs.Json.Reader

/-!
# Documents that conform to the schema

What it means for a document to conform to the schema of settings files, in terms of the values
themselves: every key is known at its level, and every setting has a value that it may have.

## Main definitions

* `SettingSchema.Accepts`, `PartSchema.Accepts`: the values of settings and of groups;
* `Config.Conforms`: the documents that are settings files;
* `Fault.IsConfigError`: the faults that tell what is wrong with a settings file.

## Main results

* `Config.schemaFault?_eq_none_iff`, `Config.isConfigError_of_schemaFault?`: what violations of the
  schema come to.
-/

namespace DependencyAudit

open JsonValue (itemsDepth_le_iff membersDepth_le_iff)

/-! ## Conformance -/

/-- The value is one that the setting may have. A number with an exponent out of all proportion is
not taken for an integer. -/
inductive SettingSchema.Accepts : SettingSchema → JsonValue → Prop
  | integer {source : Text} {k : Int} (hk : (JsonNumber.ofSource source).integer? = some k)
      (hproportion : (JsonNumber.ofSource source).InProportion) :
      Accepts .integer (.number source)
  | nonNegative {source : Text} {k : Int} (hk : (JsonNumber.ofSource source).integer? = some k)
      (hproportion : (JsonNumber.ofSource source).InProportion) (hnonneg : 0 ≤ k) :
      Accepts .nonNegative (.number source)
  | text (body : Text) : Accepts .text (.string body)
  | bool (b : Bool) : Accepts .bool (.bool b)
  | texts {items : List JsonValue} (hitems : ∀ v ∈ items, ∃ body, v = .string body) :
      Accepts .texts (.array items)
  | oneOf {words : List Text} {body : Text} (hword : JsonString.decode body ∈ words) :
      Accepts (.oneOf words) (.string body)

/-- Every member has a known key and a value that is accepted for it. -/
def PartSchema.AcceptsMembers {α : Type} (accepts : α → JsonValue → Prop)
    (known : List (Text × α)) (members : List (Text × JsonValue)) : Prop :=
  ∀ m ∈ members, ∃ s, known.lookup (JsonString.decode m.1) = some s ∧ accepts s m.2

/-- The value is one that the part may have. -/
inductive PartSchema.Accepts : PartSchema → JsonValue → Prop
  | setting {s : SettingSchema} {v : JsonValue} (h : s.Accepts v) : Accepts (.setting s) v
  | group {settings : List (Text × SettingSchema)} {members : List (Text × JsonValue)}
      (h : AcceptsMembers SettingSchema.Accepts settings members) :
      Accepts (.group settings) (.object members)

/-- The document is an object with the given parts. -/
inductive PartSchema.Conforms (parts : List (Text × PartSchema)) : JsonValue → Prop
  | object {members : List (Text × JsonValue)} (h : AcceptsMembers Accepts parts members) :
      Conforms parts (.object members)

/-- The document is an object with the parts of a settings file. -/
abbrev Config.Conforms : JsonValue → Prop :=
  PartSchema.Conforms Config.schema

theorem SettingSchema.Accepts.depth_le {s : SettingSchema} {v : JsonValue} (h : s.Accepts v) :
    v.depth ≤ 1 := by
  cases h with
  | texts hitems =>
    rw [JsonValue.depth]
    refine Nat.succ_le_succ (itemsDepth_le_iff.mpr fun v hv => ?_)
    obtain ⟨body, rfl⟩ := hitems v hv
    simp [JsonValue.depth]
  | _ => simp [JsonValue.depth]

theorem PartSchema.Accepts.depth_le {s : PartSchema} {v : JsonValue} (h : s.Accepts v) :
    v.depth ≤ 2 := by
  cases h with
  | setting h => exact Nat.le_succ_of_le h.depth_le
  | group h =>
    rw [JsonValue.depth]
    refine Nat.succ_le_succ (membersDepth_le_iff.mpr fun m hm => ?_)
    obtain ⟨s, -, hs⟩ := h m hm
    exact hs.depth_le

/-- A conforming document has no more than three containers inside each other. -/
theorem PartSchema.Conforms.depth_le {parts : List (Text × PartSchema)} {v : JsonValue}
    (h : Conforms parts v) : v.depth ≤ 3 := by
  obtain ⟨h⟩ := h
  rw [JsonValue.depth]
  refine Nat.succ_le_succ (membersDepth_le_iff.mpr fun m hm => ?_)
  obtain ⟨s, -, hs⟩ := h m hm
  exact hs.depth_le

/-! ## Faults -/

/-- The fault tells what is wrong with a settings file. -/
def Fault.IsConfigError : Fault → Prop
  | setting _ _ => True
  | violations _ => True
  | unreadableSettings => True
  | _ => False

theorem Config.schemaFault?_eq_none_iff {vs : List SchemaViolation} :
    schemaFault? vs = none ↔ vs = [] := by
  fun_cases schemaFault? vs with
  | case1 => simp
  | case2 v => simp
  | case3 vs hne _ => simpa using hne

theorem Config.isConfigError_of_schemaFault? {vs : List SchemaViolation} {f : Fault}
    (h : schemaFault? vs = some f) : f.IsConfigError := by
  fun_cases schemaFault? vs with
  | case1 => simp [schemaFault?] at h
  | case2 v =>
    obtain rfl := Option.some.inj h
    trivial
  | case3 vs _ hmany =>
    rw [schemaFault?.eq_3 vs ‹_› hmany] at h
    obtain rfl := Option.some.inj h
    trivial

end DependencyAudit
