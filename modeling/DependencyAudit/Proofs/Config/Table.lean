import Mathlib.Data.List.Nodup
import DependencyAudit.Config.Standard
import DependencyAudit.Proofs.Config.Library
import DependencyAudit.Proofs.Json.WholeText

/-!
# The table of a settings file

A document is kept as a table with keys in lower case. Since the keys of a plain document differ in
lower case too and hold no dots, looking a key up in the table finds the member of the document with
this very key, without regard to case.

## Main results

* `SettingValue.exists_ofText?`: a plain document is kept as a table;
* `SettingValue.member?_ofMembers?`, `SettingValue.at?_ofMembers?`: what the table says is what the
  document says.
-/

namespace DependencyAudit

open JsonGrammar (Element)
open JsonValue (FoldedKeysDiffer HasExactIntegers IsPlain NumberIsInteger foldedKeys
  everywhere_array_iff everywhere_number_iff everywhere_object_iff mem_of_lookup)

/-! ## Looking up without regard to order -/

/-- What stands under a key is found if the keys are distinct. -/
theorem lookup_of_mem {α : Type} {entries : List (Text × α)} {key : Text} {a : α}
    (hnodup : (entries.map (·.1)).Nodup) (hmem : (key, a) ∈ entries) :
    entries.lookup key = some a := by
  induction entries with
  | nil => cases hmem
  | cons entry more ih =>
    obtain ⟨hnew, hmore⟩ := List.nodup_cons.mp hnodup
    rcases List.mem_cons.mp hmem with rfl | hmem
    · simp
    · have hne : (key == entry.1) = false :=
        beq_eq_false_iff_ne.mpr fun heq => hnew (List.mem_map.mpr ⟨_, hmem, heq⟩)
      rw [List.lookup_cons, hne]
      exact ih hmore hmem

/-- Distinct keys may be looked up from the back. -/
theorem lookup_reverse {α : Type} {entries : List (Text × α)}
    (hnodup : (entries.map (·.1)).Nodup) (key : Text) :
    entries.reverse.lookup key = entries.lookup key := by
  have hreverse : (entries.reverse.map (·.1)).Nodup := by
    rwa [List.map_reverse, List.nodup_reverse]
  ext a
  constructor
  · exact fun h => lookup_of_mem hnodup (List.mem_reverse.mp (mem_of_lookup h))
  · exact fun h => lookup_of_mem hreverse (List.mem_reverse.mpr (mem_of_lookup h))

namespace SettingValue

/-! ## Values of plain documents -/

theorem exists_ofItems? {items : List JsonValue} (h : ∀ v ∈ items, ∃ x, ofJson? v = some x) :
    ∃ xs, ofItems? items = some xs := by
  induction items with
  | nil => exact ⟨[], rfl⟩
  | cons v more ih =>
    obtain ⟨⟨x, hx⟩, hmore⟩ := List.forall_mem_cons.mp h
    obtain ⟨xs, hxs⟩ := ih hmore
    exact ⟨x :: xs, by simp [ofItems?, hx, hxs]⟩

theorem exists_ofMembers? {members : List (Text × JsonValue)}
    (h : ∀ m ∈ members, ∃ x, ofJson? m.2 = some x) : ∃ table, ofMembers? members = some table := by
  induction members with
  | nil => exact ⟨[], rfl⟩
  | cons m more ih =>
    obtain ⟨⟨x, hx⟩, hmore⟩ := List.forall_mem_cons.mp h
    obtain ⟨table, htable⟩ := ih hmore
    exact ⟨((JsonString.decode m.1).lower, x) :: table, by simp [ofMembers?, hx, htable]⟩

/-- An integer up to `2 ^ 53` is kept as it is. -/
theorem exists_ofJson?_number {source : Text} {k : Int}
    (hk : (JsonNumber.ofSource source).integer? = some k) (hle : k.natAbs ≤ 2 ^ 53) :
    ∃ x, ofJson? (.number source) = some (.number x) ∧ (number x).toInteger? = some k := by
  obtain ⟨x, hx, hvalue⟩ := JsonNumber.toBinary64?_of_integer? hk hle
  refine ⟨x, by simp [ofJson?, hx], ?_⟩
  have hlimit : (signedLimit : Int) = 2 ^ 63 := by decide
  rw [toInteger?, hvalue, if_pos (by omega)]

/-- A value is kept if its numbers are integers that doubles can hold. -/
theorem exists_ofJson? : (v : JsonValue) → v.Everywhere NumberIsInteger → v.HasExactIntegers →
    ∃ x, ofJson? v = some x
  | .null, _, _ | .bool _, _, _ | .string _, _, _ => ⟨_, by rw [ofJson?]⟩
  | .number source, hnumber, hexact => by
    obtain ⟨k, hk⟩ := everywhere_number_iff.mp hnumber
    obtain ⟨x, hx, -⟩ := exists_ofJson?_number hk (everywhere_number_iff.mp hexact k hk)
    exact ⟨_, hx⟩
  | .array items, hnumber, hexact => by
    obtain ⟨xs, hxs⟩ := exists_ofItems? fun v hv =>
      exists_ofJson? v ((everywhere_array_iff.mp hnumber).2 v hv)
        ((everywhere_array_iff.mp hexact).2 v hv)
    exact ⟨.list xs, by rw [ofJson?, hxs, Option.map_some]⟩
  | .object members, hnumber, hexact => by
    obtain ⟨t, ht⟩ := exists_ofMembers? fun m hm =>
      exists_ofJson? m.2 ((everywhere_object_iff.mp hnumber).2 m hm)
        ((everywhere_object_iff.mp hexact).2 m hm)
    exact ⟨.table t, by rw [ofJson?, ht, Option.map_some]⟩
termination_by v => sizeOf v
decreasing_by
  · have := List.sizeOf_lt_of_mem hv
    simp only [JsonValue.array.sizeOf_spec]
    omega
  · obtain ⟨key, v⟩ := m
    have := List.sizeOf_lt_of_mem hm
    simp only [JsonValue.object.sizeOf_spec, Prod.mk.sizeOf_spec] at this ⊢
    omega

/-- A plain document is kept as a table. -/
theorem exists_ofText? {v : JsonValue} {text : Text} (helement : Element v text)
    (hplain : v.IsPlain) :
    ∃ members t, v = .object members ∧ ofMembers? members = some t ∧
      ofText? text = some (.table t) := by
  obtain ⟨members, rfl⟩ := hplain.isObject
  have hparse := JsonValue.parse?_eq_some_iff.mpr ⟨helement, hplain.depth_le⟩
  obtain ⟨t, ht⟩ := exists_ofMembers? fun m hm =>
    exists_ofJson? m.2 ((everywhere_object_iff.mp hplain.integers).2 m hm)
      ((everywhere_object_iff.mp hplain.exact).2 m hm)
  exact ⟨members, t, rfl, ht, by simp [ofText?, hparse, ht]⟩

/-! ## Looking up in the table -/

variable {members : List (Text × JsonValue)} {t : List (Text × SettingValue)}

/-- The keys of the table are those of the object in lower case. -/
theorem map_fst_ofMembers? (htable : ofMembers? members = some t) :
    t.map (·.1) = foldedKeys members := by
  induction members generalizing t with
  | nil =>
    obtain rfl := Option.some.inj htable
    rfl
  | cons m more ih =>
    simp only [ofMembers?, Option.bind_eq_bind, Option.bind_eq_some_iff,
      Option.some.injEq] at htable
    obtain ⟨x, hx, rest, hrest, rfl⟩ := htable
    exact congrArg _ (ih hrest)

theorem lookup_ofMembers? (htable : ofMembers? members = some t) (name : Text) :
    t.lookup name.lower = ((JsonValue.object members).folded? name).bind ofJson? := by
  induction members generalizing t with
  | nil =>
    obtain rfl := Option.some.inj htable
    rfl
  | cons m more ih =>
    simp only [ofMembers?, Option.bind_eq_bind, Option.bind_eq_some_iff,
      Option.some.injEq] at htable
    obtain ⟨x, hx, rest, hrest, rfl⟩ := htable
    have hmore := ih hrest
    simp only [JsonValue.folded?, List.map_cons, List.lookup_cons] at hmore ⊢
    split
    · simp [hx]
    · exact hmore

/-- A key finds the member with this key, as a value of the table. -/
theorem member?_ofMembers? (htable : ofMembers? members = some t)
    (hnodup : (foldedKeys members).Nodup) (name : Text) :
    (table t).member? name.lower = ((JsonValue.object members).folded? name).bind ofJson? := by
  rw [← map_fst_ofMembers? htable] at hnodup
  rw [member?, lookup_reverse hnodup, lookup_ofMembers? htable]

/-- A key that no member has in lower case finds nothing. -/
theorem member?_eq_none (htable : ofMembers? members = some t) {name : Text}
    (h : name ∉ foldedKeys members) : (table t).member? name = none := by
  rw [← map_fst_ofMembers? htable] at h
  rw [member?, Option.eq_none_iff_forall_ne_some]
  exact fun x hx => h (List.mem_map_of_mem (List.mem_reverse.mp (mem_of_lookup hx)))

/-- A group of a plain document is a table, or neither the document nor its table has it. -/
theorem member?_group (htable : ofMembers? members = some t)
    (hplain : (JsonValue.object members).IsPlain) {g : Text}
    (hgroup : ∀ w, (JsonValue.object members).folded? g = some w → ∃ inner, w = .object inner) :
    ((JsonValue.object members).folded? g = none ∧ (table t).member? g.lower = none) ∨
      ∃ inner t', (JsonValue.object members).folded? g = some (.object inner) ∧
        ofMembers? inner = some t' ∧ (foldedKeys inner).Nodup ∧
        (table t).member? g.lower = some (table t') := by
  obtain ⟨⟨hnodup, -⟩, hinside⟩ := everywhere_object_iff.mp hplain.keysDiffer
  rw [member?_ofMembers? htable hnodup]
  cases hw : (JsonValue.object members).folded? g with
  | none => exact .inl ⟨rfl, rfl⟩
  | some w =>
    obtain ⟨inner, rfl⟩ := hgroup w hw
    obtain ⟨m, hm, heq⟩ := List.mem_map.mp (mem_of_lookup hw)
    have hvalue : m.2 = .object inner := (Prod.mk.inj heq).2
    -- the group is kept as a table like the whole document
    obtain ⟨x, hx⟩ := exists_ofJson? m.2 ((everywhere_object_iff.mp hplain.integers).2 m hm)
      ((everywhere_object_iff.mp hplain.exact).2 m hm)
    have hinner := hinside m hm
    rw [hvalue] at hx hinner
    obtain ⟨t', ht', rfl⟩ := Option.map_eq_some_iff.mp ((ofJson?.eq_6 inner).symm.trans hx)
    exact .inr ⟨inner, t', rfl, ht', (everywhere_object_iff.mp hinner).1.1, hx⟩

/-- A path finds the member of the group, as a value of the table, unless this is `null`. -/
theorem at?_ofMembers? (htable : ofMembers? members = some t)
    (hplain : (JsonValue.object members).IsPlain) {g : Text}
    (hgroup : ∀ w, (JsonValue.object members).folded? g = some w → ∃ inner, w = .object inner)
    (key : Text) :
    (table t).at? (g.lower, key.lower) =
      ((((JsonValue.object members).folded? g).bind (·.folded? key)).bind ofJson?).filter
        (!·.isNull) := by
  obtain ⟨⟨-, hdots⟩, -⟩ := everywhere_object_iff.mp hplain.keysDiffer
  -- a key with a dot would go first, but no key holds one
  have hdotted : (table t).member? (Text.concat [g.lower, ".", key.lower]) = none := by
    refine member?_eq_none htable fun hmem => hdots _ hmem ?_
    have hdot : Ascii.dot ∈ Text.ofString "." := by decide
    simp [Text.concat, hdot]
  simp only [at?, hdotted, Option.filter_none]
  obtain ⟨hnone, hmember⟩ | ⟨inner, t', hsome, ht', hinner, hmember⟩ :=
    member?_group htable hplain hgroup
  · simp only [hnone, hmember, Option.bind_none]
  · simp only [hsome, hmember, Option.bind_some, member?_ofMembers? ht' hinner]

end SettingValue

end DependencyAudit
