import DependencyAudit.Proofs.Import.ObjectPattern

/-!
# The names that the target of a program binds

A target in a program is a name or an object pattern. The default values of such a pattern are
names, so that no colon can stand in them.

## Main definitions

* `Binder.patternElement`: an element of a target as an element of an object pattern.

## Main results

* `patternNames_text`: the names of a target.
-/

namespace DependencyAudit.Import

def Blanks.spaces (b : Blanks) : Spaces :=
  ⟨b.text, Text.isSpace_of_isBlank b.blank⟩

/-- A name as a default value. -/
def Name.defaultValue (n : Name) : DefaultValue where
  text := n.text
  ne_nil := n.ne_nil
  noComma := n.not_mem (by decide)
  noBrace := n.isWord.noBrace
  uncommented := uncommented_of_not_mem (n.not_mem (by decide))

namespace Attached

def fieldName (a : Attached) : FieldName :=
  ⟨a.before.spaces, a.after.spaces, a.name⟩

def fieldValue (a : Attached) : FieldValue :=
  ⟨a.before.spaces, a.after.spaces, a.name.defaultValue⟩

end Attached

namespace Binder

def patternElement : Binder → PatternElement
  | field key newName value =>
    .field key (newName.map Attached.fieldName) (value.map Attached.fieldValue)
  | rest before name => .rest before.spaces name

theorem text_patternElement (e : Binder) : e.patternElement.text = e.text := by
  cases e with
  | field key newName value => cases newName <;> cases value <;> rfl
  | rest before name => rfl

theorem binds_patternElement (e : Binder) : e.patternElement.binds = e.binds := by
  cases e with
  | field key newName value => cases newName <;> rfl
  | rest before name => rfl

theorem binds_ne_nil (e : Binder) : e.binds ≠ [] :=
  e.binds_patternElement ▸ e.patternElement.binds_ne_nil

theorem isReadable_patternElement (e : Binder) : e.patternElement.isReadable = true := by
  cases e with
  | field key newName value =>
    cases newName with
    | some n => rfl
    | none =>
      cases value with
      | none => rfl
      | some v =>
        have hcolon : Ascii.colon ∉ v.fieldValue.value.text := v.name.not_mem (by decide)
        simp only [patternElement, Option.map_none, Option.map_some, PatternElement.isReadable,
          Text.cutAtByte_of_not_mem hcolon]
  | rest before name => rfl

end Binder

def BinderSlot.patternSlot (s : BinderSlot) : PatternSlot :=
  ⟨s.before.spaces, s.binder.patternElement, s.after.spaces⟩

theorem BinderSlot.text_patternSlot (s : BinderSlot) : s.patternSlot.text = s.text := by
  rw [PatternSlot.text, patternSlot, Binder.text_patternElement]
  rfl

/-- A pattern of a program as an object pattern. -/
def objectPattern (elements : Listing BinderSlot) (inner : Blanks) : ObjectPattern where
  before := noBlanks.spaces
  elements := elements.map BinderSlot.patternSlot
  inner := inner.spaces
  after := noBlanks.spaces

theorem text_objectPattern (elements : Listing BinderSlot) (inner : Blanks) :
    (objectPattern elements inner).text = (Target.pattern elements inner).text := by
  simp [ObjectPattern.text, ObjectPattern.content, objectPattern, Target.text, Listing.write_map,
    BinderSlot.text_patternSlot, Blanks.spaces, noBlanks]

/-- A target binds the names that it is written with. -/
theorem patternNames_text (t : Target) : patternNames t.text = t.names := by
  -- a name is kept as it is, and the elements of a pattern are read one by one
  cases t with
  | name n =>
    obtain ⟨b, rest, htext⟩ := List.exists_cons_of_ne_nil n.ne_nil
    have hb : b ≠ Ascii.openBrace := ne_of_class (n.nameByte b (by simp [htext])) (by decide)
    have hslash : Ascii.slash ∉ n.text := n.not_mem (by decide)
    rw [Target.text, patternNames, (strips_of_not_mem hslash).stripComments, n.trim_text,
      if_pos (by simp [htext, hb])]
    rfl
  | pattern elements inner =>
    have hslots : ∀ s ∈ elements.toList,
        patternElementName? s.patternSlot.text = some s.binder.binds := by
      intro s _
      rw [← s.binder.binds_patternElement]
      exact (patternElementName?_slot_iff s.patternSlot).mpr s.binder.isReadable_patternElement
    have hnames : (elements.toList.filterMap fun s => patternElementName? s.patternSlot.text) =
        elements.toList.map (·.binder.binds) :=
      List.filterMap_eq_map_iff_forall_eq_some.mpr hslots
    rw [← text_objectPattern, ObjectPattern.patternNames_text, objectPattern, Listing.toList_map,
      List.filterMap_map, Function.comp_def, hnames, Target.names]

end DependencyAudit.Import
