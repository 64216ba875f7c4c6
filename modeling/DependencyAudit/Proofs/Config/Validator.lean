import DependencyAudit.Config.Validator
import DependencyAudit.Proofs.Config.Schema

/-!
# What the validator reports

The validator reports no violation of a document with distinct keys if and only if the document
conforms to the schema.

## Main results

* `PartSchema.documentViolations_eq_nil_iff`: conforming documents are those without violations.
-/

namespace DependencyAudit

open JsonValue (keys lastMembers everywhere_object_iff)

/-! ## Violations -/

theorem SettingSchema.itemViolations_eq_nil_iff {path : List Text} {n : Nat}
    {items : List JsonValue} :
    itemViolations path n items = [] ↔ ∀ v ∈ items, ∃ body, v = .string body := by
  fun_induction itemViolations path n items with
  | case1 => simp
  | case2 n body more ih => simp [ih]
  | case3 n v more hother ih => simpa using fun body hv => absurd hv (hother body)

theorem SettingSchema.violations_eq_nil_iff {path : List Text} {s : SettingSchema}
    {v : JsonValue} : s.violations path v = [] ↔ s.Accepts v := by
  -- one case for each row of the check: a type and a value that has it, or any other value
  fun_cases violations path s v with
  | case1 source hinteger =>
    obtain ⟨⟨k, hk⟩, hproportion⟩ := JsonNumber.isInteger_iff.mp hinteger
    exact iff_of_true rfl (.integer hk hproportion)
  | case2 source hinteger =>
    refine iff_of_false (by simp) fun haccepts => hinteger ?_
    cases haccepts with
    | integer hk hproportion => exact JsonNumber.isInteger_iff.mpr ⟨⟨_, hk⟩, hproportion⟩
  | case3 v hother => exact iff_of_false (by simp) (by rintro ⟨⟩; exact hother _ rfl)
  | case4 source hinteger =>
    refine iff_of_false (by simp) fun haccepts => ?_
    cases haccepts with
    | nonNegative hk hproportion _ =>
      simp [JsonNumber.isInteger_iff.mpr ⟨⟨_, hk⟩, hproportion⟩] at hinteger
  | case5 source hinteger hnegative =>
    -- an integer below zero has the right type, and its sign is what is wrong
    refine iff_of_false (by simp) fun haccepts => ?_
    cases haccepts with
    | nonNegative hk _ hnonneg =>
      exact absurd ((JsonNumber.isNegative_iff_of_integer? hk).mp hnegative)
        (Int.not_lt.mpr hnonneg)
  | case6 source hinteger hnegative =>
    obtain ⟨⟨k, hk⟩, hproportion⟩ := JsonNumber.isInteger_iff.mp (by simpa using hinteger)
    rw [JsonNumber.isNegative_iff_of_integer? hk] at hnegative
    exact iff_of_true rfl (.nonNegative hk hproportion (Int.not_lt.mp hnegative))
  | case7 v hother => exact iff_of_false (by simp) (by rintro ⟨⟩; exact hother _ rfl)
  | case8 body => exact iff_of_true rfl (.text body)
  | case9 v hother => exact iff_of_false (by simp) (by rintro ⟨⟩; exact hother _ rfl)
  | case10 b => exact iff_of_true rfl (.bool b)
  | case11 v hother => exact iff_of_false (by simp) (by rintro ⟨⟩; exact hother _ rfl)
  | case12 items =>
    rw [itemViolations_eq_nil_iff]
    exact ⟨.texts, by rintro ⟨⟩; assumption⟩
  | case13 v hother => exact iff_of_false (by simp) (by rintro ⟨⟩; exact hother _ rfl)
  | case14 words body hword => exact iff_of_true rfl (.oneOf (List.contains_iff_mem.mp hword))
  | case15 words body hword =>
    refine iff_of_false (by simp [wordViolations]) fun haccepts => hword ?_
    cases haccepts with
    | oneOf hmem => exact List.contains_iff_mem.mpr hmem
  | case16 words v hother =>
    exact iff_of_false (by simp [wordViolations]) (by rintro ⟨⟩; exact hother _ rfl)

/-- Members with distinct keys all count. -/
theorem lastMembers_of_nodup {members : List (Text × JsonValue)} (h : (keys members).Nodup) :
    lastMembers members = members.map fun m => (JsonString.decode m.1, m.2) := by
  induction members with
  | nil => rfl
  | cons m more ih =>
    obtain ⟨hnew, hmore⟩ := List.nodup_cons.mp h
    -- the key of the first member does not come again, so the member counts
    have hany : (lastMembers more).any (·.1 == JsonString.decode m.1) = false := by
      rw [ih hmore, List.any_eq_false]
      rintro _ hmem heq
      obtain ⟨other, hother, rfl⟩ := List.mem_map.mp hmem
      have hkey : JsonString.decode other.1 = JsonString.decode m.1 := eq_of_beq heq
      exact hnew (List.mem_map.mpr ⟨other, hother, hkey⟩)
    rw [lastMembers, hany, if_neg Bool.false_ne_true, ih hmore, List.map_cons]

theorem PartSchema.memberViolations_eq_nil_iff {α : Type}
    {check : Text → α → JsonValue → List SchemaViolation} {accepts : α → JsonValue → Prop}
    {path : List Text} {known : List (Text × α)} {members : List (Text × JsonValue)}
    (hkeys : (keys members).Nodup)
    (hcheck : ∀ m ∈ members, ∀ key s, check key s m.2 = [] ↔ accepts s m.2) :
    memberViolations check path known members = [] ↔ AcceptsMembers accepts known members := by
  rw [memberViolations, lastMembers_of_nodup hkeys, List.flatMap_eq_nil_iff, List.forall_mem_map]
  refine forall₂_congr fun m hm => ?_
  dsimp only
  cases known.lookup (JsonString.decode m.1) with
  | none => simp
  | some s => simp [hcheck m hm]

theorem PartSchema.violations_eq_nil_iff {name : Text} {s : PartSchema} {v : JsonValue}
    (h : v.HasDistinctKeys) : s.violations name v = [] ↔ s.Accepts v := by
  fun_cases violations name s v with
  | case1 v s =>
    rw [SettingSchema.violations_eq_nil_iff]
    exact ⟨.setting, by rintro ⟨⟩; assumption⟩
  | case2 settings members =>
    have hkeys : (keys members).Nodup := (everywhere_object_iff.mp h).1
    have hcheck : ∀ m ∈ members, ∀ (key : Text) (s : SettingSchema),
        s.violations [name, key] m.2 = [] ↔ s.Accepts m.2 :=
      fun _ _ _ _ => SettingSchema.violations_eq_nil_iff
    refine (memberViolations_eq_nil_iff hkeys hcheck).trans ?_
    exact ⟨.group, by rintro ⟨⟩; assumption⟩
  | case3 v settings hother =>
    exact iff_of_false (by simp) (by rintro ⟨⟩; exact hother _ rfl)

/-- A document with distinct keys conforms if and only if it has no violations. -/
theorem PartSchema.documentViolations_eq_nil_iff {parts : List (Text × PartSchema)}
    {v : JsonValue} (h : v.HasDistinctKeys) :
    documentViolations parts v = [] ↔ Conforms parts v := by
  fun_cases documentViolations parts v with
  | case1 members =>
    obtain ⟨hkeys, hmembers⟩ := everywhere_object_iff.mp h
    have hcheck : ∀ m ∈ members, ∀ (key : Text) (s : PartSchema),
        s.violations key m.2 = [] ↔ s.Accepts m.2 :=
      fun m hm _ _ => violations_eq_nil_iff (hmembers m hm)
    refine (memberViolations_eq_nil_iff hkeys hcheck).trans ?_
    exact ⟨.object, by rintro ⟨⟩; assumption⟩
  | case2 v hother => exact iff_of_false (by simp) (by rintro ⟨⟩; exact hother _ rfl)

end DependencyAudit
