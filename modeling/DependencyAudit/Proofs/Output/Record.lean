import DependencyAudit.Output.Format
import DependencyAudit.Proofs.Json.Content
import DependencyAudit.Proofs.Json.StringText
import DependencyAudit.Proofs.Json.WholeText
import DependencyAudit.Proofs.Text.Digits

/-!
# Records in JSON

Records are written as objects with one member per field. Whoever reads them looks a member up by
the name of its field and takes its value for a text, an integer, a truth value or a list. This
module has both sides: what is written is well-formed and not nested deeply, and it is read back as
what was written, provided that its texts are UTF-8.

## Main definitions

* `JsonValue.IsWritten`: a well-formed value with distinct keys and a bounded number of containers
  inside each other;
* `JsonValue.required?` and `JsonValue.optional?`: the value of a field, by its name.

## Main results

* `JsonValue.IsWritten.read_layout`: a written value is read back from its layout;
* `JsonValue.field?_ofMembers`: the fields of an object that was written;
* `JsonValue.text?_ofText`, `JsonValue.integer?_ofInt` and `JsonValue.list?_ofList`: values are
  read back as what was written.
-/

namespace DependencyAudit.JsonValue

open Utf8 (IsUtf8)

/-! ## Keys -/

section Keys

variable {members : List (Text × JsonValue)} (hkeys : members.all (·.1.isAscii) = true)

include hkeys

/-- The members of an object that was written are read back with their keys. -/
theorem decode_members :
    (members.map fun m => (JsonString.encode .document m.1, m.2)).map
      (fun m => (JsonString.decode m.1, m.2)) = members := by
  have hutf8 : ∀ m ∈ members, IsUtf8 m.1 := fun m hm =>
    Utf8.isUtf8_of_ascii fun b hb => by
      simpa using List.all_eq_true.mp (List.all_eq_true.mp hkeys m hm) b hb
  rw [List.map_map]
  refine (List.map_congr_left fun m hm => ?_).trans (List.map_id members)
  simp [JsonString.decode_encode, Utf8.scrub_of_isUtf8 (hutf8 m hm)]

/-- The keys that are written are read as the names of the members. -/
theorem keys_ofMembers :
    keys (members.map fun m => (JsonString.encode .document m.1, m.2)) = members.map (·.1) := by
  have hnames := congrArg (List.map Prod.fst) (decode_members hkeys)
  rw [List.map_map] at hnames
  exact hnames

end Keys

/-! ## Writing -/

/-- The value is well-formed, its objects have distinct keys, and no more than `n` of its containers
are inside each other. -/
structure IsWritten (n : Nat) (v : JsonValue) : Prop where
  /-- The value is spelled as values are. -/
  wellFormed : v.WellFormed
  /-- No key hides another one. -/
  distinctKeys : v.HasDistinctKeys
  /-- The value is at most `n` deep. -/
  depth_le : v.depth ≤ n

namespace IsWritten

/-- What is written within some depth is written within any greater one. -/
theorem mono {n m : Nat} {v : JsonValue} (h : IsWritten n v) (hle : n ≤ m) : IsWritten m v :=
  ⟨h.wellFormed, h.distinctKeys, Nat.le_trans h.depth_le hle⟩

theorem ofNull (n : Nat) : IsWritten n null :=
  ⟨by simp [WellFormed, tokens, JsonToken.WellFormed], by simp [HasDistinctKeys, KeysDiffer],
    by simp [depth]⟩

theorem ofBool (n : Nat) (b : Bool) : IsWritten n (bool b) :=
  ⟨by simp [WellFormed, tokens, JsonToken.WellFormed], by simp [HasDistinctKeys, KeysDiffer],
    by simp [depth]⟩

/-- A text is written at any depth. -/
theorem ofText (n : Nat) (t : Text) : IsWritten n (.ofText t) := by
  refine ⟨?_, by simp [JsonValue.ofText, HasDistinctKeys, KeysDiffer],
    by simp [JsonValue.ofText, depth]⟩
  simpa [JsonValue.ofText, WellFormed, tokens, JsonToken.WellFormed] using
    JsonString.isBody_encode .document t

/-- An integer is written at any depth. -/
theorem ofInt (n : Nat) (k : Int) : IsWritten n (.ofInt k) := by
  refine ⟨?_, by simp [JsonValue.ofInt, HasDistinctKeys, KeysDiffer],
    by simp [JsonValue.ofInt, depth]⟩
  simpa [JsonValue.ofInt, WellFormed, tokens, JsonToken.WellFormed] using Text.isNumber_ofInt k

/-- A list is one level deeper than its items. -/
theorem ofArray {n : Nat} {items : List JsonValue} (h : ∀ v ∈ items, IsWritten n v) :
    IsWritten (n + 1) (array items) := by
  refine ⟨wellFormed_array_iff.mpr fun v hv => (h v hv).wellFormed,
    everywhere_array_iff.mpr ⟨trivial, fun v hv => (h v hv).distinctKeys⟩, ?_⟩
  rw [depth]
  exact Nat.succ_le_succ (itemsDepth_le_iff.mpr fun v hv => (h v hv).depth_le)

/-- A list that may be absent is one level deeper than its items. -/
theorem ofList {α : Type} {f : α → JsonValue} {n : Nat} (h : ∀ a, IsWritten n (f a))
    (items : Option (List α)) : IsWritten (n + 1) (.ofList f items) := by
  cases items with
  | none => exact ofNull _
  | some items =>
    refine ofArray fun v hv => ?_
    obtain ⟨a, -, rfl⟩ := List.mem_map.mp hv
    exact h a

/-- A record is one level deeper than its members, if their names are ASCII and differ. -/
theorem ofMembers {n : Nat} {members : List (Text × JsonValue)}
    (hkeys : members.all (·.1.isAscii) = true) (hdistinct : (members.map (·.1)).Nodup)
    (h : ∀ m ∈ members, IsWritten n m.2) : IsWritten (n + 1) (.ofMembers members) := by
  refine ⟨wellFormed_object_iff.mpr fun m hm => ?_,
    everywhere_object_iff.mpr ⟨?_, fun m hm => ?_⟩, ?_⟩
  · obtain ⟨⟨key, v⟩, hmem, rfl⟩ := List.mem_map.mp hm
    exact ⟨JsonString.isBody_encode .document key, (h _ hmem).wellFormed⟩
  · rwa [KeysDiffer, keys_ofMembers hkeys]
  · obtain ⟨⟨key, v⟩, hmem, rfl⟩ := List.mem_map.mp hm
    exact (h _ hmem).distinctKeys
  · rw [JsonValue.ofMembers, depth]
    refine Nat.succ_le_succ (membersDepth_le_iff.mpr fun m hm => ?_)
    obtain ⟨⟨key, v⟩, hmem, rfl⟩ := List.mem_map.mp hm
    exact (h _ hmem).depth_le

/-- The layout of a written value is one of its texts, and the value is read back from it. -/
theorem read_layout {n : Nat} {v : JsonValue} (h : IsWritten n v) (hn : n ≤ Reader.maxDepth) :
    JsonGrammar.Element v (v.layout "  " 0) ∧ parse? (v.layout "  " 0) = some v := by
  have hindent : JsonLexeme.IsBlankText "  " :=
    List.all_eq_true.mp (show List.all (Text.ofString "  ") JsonToken.isJsonBlank = true from rfl)
  exact ⟨JsonValue.element_layout hindent 0 h.wellFormed,
    parse?_layout hindent 0 h.wellFormed (Nat.le_trans h.depth_le hn)⟩

end IsWritten

/-- A list of texts is written like any other list. -/
theorem ofTexts_eq_ofList (items : Option (List Text)) : ofTexts items = ofList ofText items := by
  cases items with
  | none => rfl
  | some items => rfl

/-- A list of texts is one level deep. -/
theorem IsWritten.ofTexts (n : Nat) (items : Option (List Text)) :
    IsWritten (n + 1) (.ofTexts items) := by
  rw [ofTexts_eq_ofList]
  exact .ofList (.ofText n) items

/-! ## Reading -/

/-- What the field of the given name stands for. -/
def required? {α : Type} (name : Text) (read? : JsonValue → Option α) (v : JsonValue) : Option α :=
  (v.field? name).bind read?

/-- What the field of the given name stands for, or the empty value if there is no such field. -/
def optional? {α : Type} (name : Text) (read? : JsonValue → Option α) (empty : α)
    (v : JsonValue) : Option α :=
  match v.field? name with
  | none => some empty
  | some w => read? w

@[simp]
theorem truth?_bool (b : Bool) : (bool b).truth? = some b :=
  rfl

/-- A text is read back if it is UTF-8. -/
theorem text?_ofText {t : Text} (h : IsUtf8 t) : (ofText t).text? = some t := by
  rw [ofText, text?, JsonString.decode_encode, Utf8.scrub_of_isUtf8 h]

/-- An integer that was written is read as itself. -/
@[simp]
theorem integer?_ofInt (n : Int) : (ofInt n).integer? = some n := by
  rw [ofInt, integer?, JsonNumber.ofSource_ofInt, JsonNumber.integer?_eq_some_iff,
    JsonNumber.value, JsonNumber.magnitude, zpow_zero, mul_one, Nat.cast_natAbs]
  by_cases hn : n < 0
  · simp [hn, abs_of_neg hn]
  · simp [hn, abs_of_nonneg (not_lt.mp hn)]

/-- If each item is read as what was written, the list is. -/
theorem mapM_map {α : Type} {f : α → JsonValue} {item? : JsonValue → Option α} {items : List α}
    (h : ∀ a ∈ items, item? (f a) = some a) : (items.map f).mapM item? = some items := by
  induction items with
  | nil => rfl
  | cons a more ih =>
    obtain ⟨ha, hmore⟩ := List.forall_mem_cons.mp h
    rw [List.map_cons, List.mapM_cons, ha, ih hmore]
    rfl

/-- A list is read back if its items are. -/
theorem list?_ofList {α : Type} {f : α → JsonValue} {item? : JsonValue → Option α}
    {items : Option (List α)} (h : ∀ a ∈ items.getD [], item? (f a) = some a) :
    (ofList f items).list? item? = some items := by
  cases items with
  | none => rfl
  | some items =>
    replace h : ∀ a ∈ items, item? (f a) = some a := h
    rw [ofList, list?, mapM_map h, Option.map_some]

/-- A list of well-formed texts is read as it was written. -/
theorem list?_ofTexts {items : Option (List Text)} (h : ∀ t ∈ items.getD [], IsUtf8 t) :
    (ofTexts items).list? text? = some items := by
  rw [ofTexts_eq_ofList]
  exact list?_ofList fun t ht => text?_ofText (h t ht)

section Fields

variable {members : List (Text × JsonValue)} (hkeys : members.all (·.1.isAscii) = true)

include hkeys

/-- A field of a record that was written is looked up by its name. -/
theorem field?_ofMembers (name : Text) : (ofMembers members).field? name = members.lookup name :=
  congrArg (List.lookup name) (decode_members hkeys)

variable {α : Type} {read? : JsonValue → Option α} {name : Text} {w : JsonValue} {a : α}

/-- A required field is read by the reader of its kind. -/
theorem required?_ofMembers (hfield : members.lookup name = some w) (hread : read? w = some a) :
    (ofMembers members).required? name read? = some a := by
  rw [required?, field?_ofMembers hkeys, hfield, Option.bind_some, hread]

/-- An optional field that is there is read by the reader of its kind. -/
theorem optional?_ofMembers (hfield : members.lookup name = some w) (hread : read? w = some a)
    (empty : α) : (ofMembers members).optional? name read? empty = some a := by
  rw [optional?, field?_ofMembers hkeys, hfield]
  exact hread

/-- An optional field that is left out is read as empty. -/
theorem optional?_ofMembers_of_none (hfield : members.lookup name = none) (empty : α) :
    (ofMembers members).optional? name read? empty = some empty := by
  rw [optional?, field?_ofMembers hkeys, hfield]

end Fields

end DependencyAudit.JsonValue
