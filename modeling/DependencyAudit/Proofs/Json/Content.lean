import DependencyAudit.Json.String
import DependencyAudit.Json.Value
import DependencyAudit.Proofs.Json.Integer

/-!
# The content of a value

What a value stands for, for those who expect a text, an integer, a truth value, a list or an object
with named fields. A value also holds the items of its arrays and the members of its objects, and
what these hold in turn: conditions on a document are conditions on all the values inside it.

## Main definitions

* `JsonValue.text?`, `JsonValue.integer?`, `JsonValue.truth?` and `JsonValue.list?`: what a value
  stands for;
* `JsonValue.field?`: the member of an object with a given key;
* `JsonValue.Within`: a value is inside another one, or it is this value itself;
* `JsonValue.HasDistinctKeys`: no object has two members with one key;
* `JsonValue.HasExactIntegers`: no integer is too large for a double.

## Main results

* `JsonValue.everywhere_array_iff` and `JsonValue.everywhere_object_iff`: a condition holds inside
  a container if it holds of the container and inside everything that it holds.
-/

namespace DependencyAudit.JsonValue

/-! ## What a value stands for -/

/-- The text that a value stands for. -/
def text? : JsonValue → Option Text
  | string body => some (JsonString.decode body)
  | _ => none

/-- The truth value that a value stands for. -/
def truth? : JsonValue → Option Bool
  | bool b => some b
  | _ => none

/-- The integer that a value stands for. -/
def integer? : JsonValue → Option Int
  | number source => (JsonNumber.ofSource source).integer?
  | _ => none

/-- The list that a value stands for, by what its items stand for; `null` is the list that is not
set. -/
def list? {α : Type} (item? : JsonValue → Option α) : JsonValue → Option (Option (List α))
  | null => some none
  | array items => (items.mapM item?).map some
  | _ => none

/-- The keys of an object. -/
def keys (members : List (Text × JsonValue)) : List Text :=
  members.map fun m => JsonString.decode m.1

/-- The member of an object with the given key. -/
def field? (name : Text) : JsonValue → Option JsonValue
  | object members => (members.map fun m => (JsonString.decode m.1, m.2)).lookup name
  | _ => none

/-- What is found under a key stands in the list. -/
theorem mem_of_lookup {α β : Type} [BEq α] [LawfulBEq α] {entries : List (α × β)} {a : α} {b : β}
    (h : entries.lookup a = some b) : (a, b) ∈ entries := by
  obtain ⟨front, back, rfl, -⟩ := List.lookup_eq_some_iff.mp h
  simp

/-- A field that is read is a member of this name. -/
theorem exists_mem_of_field? {members : List (Text × JsonValue)} {name : Text} {v : JsonValue}
    (h : (object members).field? name = some v) :
    ∃ m ∈ members, JsonString.decode m.1 = name ∧ m.2 = v := by
  obtain ⟨m, hm, heq⟩ := List.mem_map.mp (mem_of_lookup h)
  exact ⟨m, hm, Prod.mk.inj heq⟩

/-! ## Values inside a value -/

/-- The value is inside the other one, or it is this value itself. -/
inductive Within (u : JsonValue) : JsonValue → Prop
  | self : Within u u
  | item {items : List JsonValue} {v : JsonValue} (hmem : v ∈ items) (h : Within u v) :
      Within u (array items)
  | member {members : List (Text × JsonValue)} {m : Text × JsonValue} (hmem : m ∈ members)
      (h : Within u m.2) : Within u (object members)

/-- Parts of parts are parts. -/
theorem Within.trans {u v w : JsonValue} (huv : Within u v) (hvw : Within v w) : Within u w := by
  induction hvw with
  | self => exact huv
  | item hmem _ ih => exact .item hmem ih
  | member hmem _ ih => exact .member hmem ih

/-- A field is part of its object. -/
theorem within_of_field? {v w : JsonValue} {name : Text} (h : v.field? name = some w) :
    Within w v := by
  cases v with
  | object members =>
    obtain ⟨m, hm, -, rfl⟩ := exists_mem_of_field? h
    exact .member hm .self
  | _ => cases h

/-- The condition holds of the value and of all values inside it. -/
def Everywhere (p : JsonValue → Prop) (v : JsonValue) : Prop :=
  ∀ u, Within u v → p u

section Everywhere

variable {p : JsonValue → Prop}

/-- What holds everywhere in a value holds everywhere in its parts. -/
theorem Everywhere.within {u v : JsonValue} (h : Everywhere p v) (hu : Within u v) :
    Everywhere p u :=
  fun w hw => h w (hw.trans hu)

@[simp]
theorem everywhere_null_iff : Everywhere p null ↔ p null :=
  ⟨fun h => h _ .self, by rintro h u (_ | _); exact h⟩

@[simp]
theorem everywhere_bool_iff {b : Bool} : Everywhere p (bool b) ↔ p (bool b) :=
  ⟨fun h => h _ .self, by rintro h u (_ | _); exact h⟩

@[simp]
theorem everywhere_number_iff {source : Text} :
    Everywhere p (number source) ↔ p (number source) :=
  ⟨fun h => h _ .self, by rintro h u (_ | _); exact h⟩

@[simp]
theorem everywhere_string_iff {body : Text} : Everywhere p (string body) ↔ p (string body) :=
  ⟨fun h => h _ .self, by rintro h u (_ | _); exact h⟩

/-- What holds everywhere in a list holds of the list and everywhere in its items. -/
@[simp]
theorem everywhere_array_iff {items : List JsonValue} :
    Everywhere p (array items) ↔ p (array items) ∧ ∀ v ∈ items, Everywhere p v := by
  constructor
  · exact fun h => ⟨h _ .self, fun v hv u hu => h u (.item hv hu)⟩
  · rintro ⟨hself, hitems⟩ u hu
    cases hu with
    | self => exact hself
    | item hmem hu => exact hitems _ hmem u hu

/-- What holds everywhere in an object holds of the object and everywhere in its values. -/
@[simp]
theorem everywhere_object_iff {members : List (Text × JsonValue)} :
    Everywhere p (object members) ↔ p (object members) ∧ ∀ m ∈ members, Everywhere p m.2 := by
  constructor
  · exact fun h => ⟨h _ .self, fun m hm u hu => h u (.member hm hu)⟩
  · rintro ⟨hself, hmembers⟩ u hu
    cases hu with
    | self => exact hself
    | member hmem hu => exact hmembers _ hmem u hu

end Everywhere

/-! ## Keys -/

/-- If the value is an object, its members have distinct keys. -/
def KeysDiffer : JsonValue → Prop
  | object members => (keys members).Nodup
  | _ => True

/-- All objects have distinct keys. -/
def HasDistinctKeys (v : JsonValue) : Prop :=
  v.Everywhere KeysDiffer

/-! ## Integers -/

/-- All integers are at most `2 ^ 53` in magnitude. -/
def HasExactIntegers (v : JsonValue) : Prop :=
  v.Everywhere fun u => ∀ k, u.integer? = some k → k.natAbs ≤ 2 ^ 53

end DependencyAudit.JsonValue
