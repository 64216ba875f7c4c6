import DependencyAudit.Proofs.Import.Words
import Mathlib.Data.List.Basic

/-!
# The names that an object pattern binds

An object pattern is cut at its commas, and each of its elements at the first colon and then at
the first equals sign. What is left after trimming is the name that the element binds. A default
value is any text without commas, braces and comments.

The colon is sought in the whole element. So a default value with a colon in it, as in
`{ a = b ? c : d }`, is taken for the new name of the field. A field with a new name of its own is
safe, since its colon comes first, and so is a default value without colons.

## Main definitions

* `ObjectPattern`, with its `text` and its `names`;
* `boundName`: the name in a text that stands for a target;
* `ObjectPattern.isReadable`: no colon of a default value hides the name of its field.

## Main results

* `boundPart_of_colon` and `boundPart_of_not_mem`: an element with a colon and one without;
* `PatternElement.boundPart_iff`: the elements that are read as they are meant;
* `patternNames_eq_names_iff`: the patterns that are read as they are meant.
-/

namespace DependencyAudit.Import

/-! ## Patterns -/

/-- A run of white space. -/
structure Spaces where
  text : Text
  isSpace : Text.IsSpace text

/-- A default value. -/
structure DefaultValue where
  text : Text
  /-- There is a value. -/
  ne_nil : text ≠ []
  /-- The value does not end the element. -/
  noComma : Ascii.comma ∉ text
  /-- The value has no braces of its own. -/
  noBrace : ∀ b ∈ text, isBrace b = false
  /-- The value has no comments. -/
  uncommented : Uncommented text

/-- `: NAME`, with what stands in front of it. -/
structure FieldName where
  before : Spaces
  after : Spaces
  name : Name

/-- `= VALUE`, with what stands in front of it. -/
structure FieldValue where
  before : Spaces
  after : Spaces
  value : DefaultValue

def FieldName.text (n : FieldName) : Text :=
  n.before.text ++ Ascii.colon :: (n.after.text ++ n.name.text)

def FieldValue.text (v : FieldValue) : Text :=
  v.before.text ++ Ascii.equals :: (v.after.text ++ v.value.text)

/-- `a`, `a: b`, `a = E`, `a: b = E` or `...rest`. -/
inductive PatternElement
  | field (key : Name) (newName : Option FieldName) (value : Option FieldValue)
  | rest (before : Spaces) (name : Name)

/-- The name in a text that stands for a target: the text up to an equals sign, without leading
dots and without white space at its ends. -/
def boundName (target : Text) : Text :=
  let target := target.trim
  let target := (Text.dropPrefix? "..." target).getD target
  (target.cutAtByte Ascii.equals).1.trim

namespace PatternElement

def text : PatternElement → Text
  | field key newName value =>
    key.text ++ (newName.toList.flatMap FieldName.text ++ value.toList.flatMap FieldValue.text)
  | rest before name => Text.ofString "..." ++ (before.text ++ name.text)

/-- The name that the element binds. -/
def binds : PatternElement → Text
  | field key none _ => key.text
  | field _ (some newName) _ => newName.name.text
  | rest _ name => name.text

/-- What stands behind the first colon of a default value must happen to name the field. -/
def isReadable : PatternElement → Bool
  | field key none (some v) =>
    match v.value.text.cutAtByte Ascii.colon with
    | (_, some behind) => boundName behind == key.text
    | (_, none) => true
  | _ => true

end PatternElement

/-- An element with the white space around it. -/
structure PatternSlot where
  before : Spaces
  element : PatternElement
  after : Spaces

def PatternSlot.text (s : PatternSlot) : Text :=
  s.before.text ++ (s.element.text ++ s.after.text)

/-- `{ a, b: c, d = 1, ...rest }`. -/
structure ObjectPattern where
  before : Spaces
  elements : Listing PatternSlot
  inner : Spaces
  after : Spaces

namespace ObjectPattern

/-- What stands between the braces. -/
def content (p : ObjectPattern) : Text :=
  p.elements.write Ascii.comma PatternSlot.text ++ p.inner.text

def text (p : ObjectPattern) : Text :=
  p.before.text ++ ((Ascii.openBrace :: (p.content ++ [Ascii.closeBrace])) ++ p.after.text)

/-- The names that the pattern binds. -/
def names (p : ObjectPattern) : List Text :=
  p.elements.toList.map (·.element.binds)

def isReadable (p : ObjectPattern) : Bool :=
  p.elements.toList.all (·.element.isReadable)

end ObjectPattern

/-! ## The name of an element -/

/-- White space in front of an element does not change the name that it binds. -/
theorem boundName_space_append {space : Text} (h : Text.IsSpace space) (text : Text) :
    boundName (space ++ text) = boundName text := by
  rw [boundName, Text.trim_space_append h, boundName]

/-- White space behind an element does not change the name either. -/
theorem boundName_append_space {space : Text} (h : Text.IsSpace space) (text : Text) :
    boundName (text ++ space) = boundName text := by
  rw [boundName, Text.trim_append_space h, boundName]

/-- The part of an element that holds the bound name: what follows a colon, or all of it. -/
def boundPart (element : Text) : Text :=
  match element.cutAtByte Ascii.colon with
  | (_, some newName) => newName
  | (_, none) => element

/-- The name of an element is the one of its bound part, unless that is empty. -/
theorem patternElementName?_eq (element : Text) :
    patternElementName? element =
      if (boundName (boundPart element.trim)).isEmpty then none
      else some (boundName (boundPart element.trim)) :=
  rfl

/-- An element may have white space in front of it. -/
theorem patternElementName?_space_append {space : Text} (h : Text.IsSpace space) (text : Text) :
    patternElementName? (space ++ text) = patternElementName? text := by
  rw [patternElementName?_eq, Text.trim_space_append h, patternElementName?_eq]

/-- An element may have white space behind it. -/
theorem patternElementName?_append_space {space : Text} (h : Text.IsSpace space) (text : Text) :
    patternElementName? (text ++ space) = patternElementName? text := by
  rw [patternElementName?_eq, Text.trim_append_space h, patternElementName?_eq]

/-- An element is read behind its first colon. -/
theorem boundPart_of_colon {front : Text} (hhead : ∀ b ∈ front.head?, isInk b = true)
    (hcolon : Ascii.colon ∉ front) (rest : Text) :
    boundName (boundPart (Text.trim (front ++ Ascii.colon :: rest))) = boundName rest := by
  have hfirst : ∀ a ∈ (front ++ [Ascii.colon]).head?, isInk a = true := by
    cases front with
    | nil =>
      rintro a ⟨⟩
      decide
    | cons b more => exact hhead
  obtain ⟨kept, space, rfl, hspace, htrim⟩ :=
    @Text.exists_trim_append front rest Ascii.colon hfirst (by decide)
  rw [htrim, boundPart, Text.cutAtByte_append hcolon, boundName_append_space hspace]

/-- An element without colons is read as a whole. -/
theorem boundPart_of_not_mem {text : Text} (hne : text ≠ [])
    (hhead : ∀ b ∈ text.head?, isInk b = true) (hcolon : Ascii.colon ∉ text) :
    boundName (boundPart text.trim) = boundName text := by
  obtain ⟨b, rest, rfl⟩ := List.exists_cons_of_ne_nil hne
  obtain ⟨kept, space, rfl, hspace, hnil⟩ :=
    @Text.exists_trim_append [] rest b hhead (hhead b rfl)
  have htrim : Text.trim (b :: (kept ++ space)) = b :: kept := hnil
  have hkept : Ascii.colon ∉ b :: kept := fun hmem => hcolon (List.mem_append_left space hmem)
  rw [htrim, boundPart, Text.cutAtByte_of_not_mem hkept, ← List.cons_append,
    boundName_append_space hspace]

namespace Name

/-- A name begins with a character that is no white space. -/
theorem isInk_head (n : Name) (rest : Text) : ∀ b ∈ (n.text ++ rest).head?, isInk b = true := by
  rw [List.head?_append_of_ne_nil _ n.ne_nil]
  exact fun b hb => isInk_of_isNameByte (n.nameByte b (List.mem_of_mem_head? hb))

/-- A name ends with such a character too. -/
theorem isInk_getLast (n : Name) (front : Text) :
    ∀ b ∈ (front ++ n.text).getLast?, isInk b = true := by
  rw [List.getLast?_append_of_ne_nil _ n.ne_nil]
  exact fun b hb => isInk_of_isNameByte (n.nameByte b (List.mem_of_mem_getLast? hb))

/-- A name has no white space to trim. -/
theorem trim_text (n : Name) : n.text.trim = n.text := by
  have hhead := n.isInk_head []
  rw [List.append_nil] at hhead
  exact Text.trim_of_ink n.ne_nil hhead (n.isInk_getLast [])

/-- No name begins with dots. -/
theorem dropPrefix?_dots (n : Name) (rest : Text) :
    Text.dropPrefix? "..." (n.text ++ rest) = none := by
  obtain ⟨b, more, htext⟩ := List.exists_cons_of_ne_nil n.ne_nil
  have hb : Text.byte '.' ≠ b :=
    Ne.symm (ne_of_class (n.nameByte b (by simp [htext])) (by decide))
  rw [htext]
  exact if_neg hb

end Name

/-- A default value is cut off, whatever it is. -/
theorem boundName_value (n : Name) (value : Option FieldValue) :
    boundName (n.text ++ value.toList.flatMap FieldValue.text) = n.text := by
  cases value with
  | none =>
    rw [Option.toList_none, List.flatMap_nil, boundName, List.append_nil, n.trim_text]
    have hdots := n.dropPrefix?_dots []
    rw [List.append_nil] at hdots
    rw [hdots, Option.getD_none, Text.cutAtByte_of_not_mem (n.not_mem (by decide)), n.trim_text]
  | some v =>
    -- the equals sign of the default is the first one
    have hequals : Ascii.equals ∉ n.text ++ v.before.text := by
      rw [List.mem_append, not_or]
      exact ⟨n.not_mem (by decide), v.before.isSpace.not_mem (by decide)⟩
    have htext : n.text ++ (some v).toList.flatMap FieldValue.text =
        (n.text ++ v.before.text) ++ Ascii.equals :: (v.after.text ++ v.value.text) := by
      simp [FieldValue.text]
    have hhead : ∀ b ∈ ((n.text ++ v.before.text) ++ [Ascii.equals]).head?, isInk b = true := by
      rw [List.append_assoc]
      exact n.isInk_head _
    obtain ⟨kept, space, -, -, htrim⟩ :=
      @Text.exists_trim_append _ (v.after.text ++ v.value.text) _ hhead (by decide)
    rw [htext, boundName, htrim, List.append_assoc, n.dropPrefix?_dots, Option.getD_none,
      ← List.append_assoc, Text.cutAtByte_append hequals, Text.trim_append_space v.before.isSpace,
      n.trim_text]

/-- The name of a rest element stands behind its dots. -/
theorem boundName_rest (before : Spaces) (n : Name) :
    boundName (Text.ofString "..." ++ (before.text ++ n.text)) = n.text := by
  have hequals : Ascii.equals ∉ before.text ++ n.text := by
    rw [List.mem_append, not_or]
    exact ⟨before.isSpace.not_mem (by decide), n.not_mem (by decide)⟩
  have htrim : Text.trim (Text.ofString "..." ++ (before.text ++ n.text)) =
      Text.ofString "..." ++ (before.text ++ n.text) := by
    refine Text.trim_of_ink (List.cons_ne_nil _ _) ?_ ?_
    · rintro b ⟨⟩
      decide
    · rw [← List.append_assoc]
      exact n.isInk_getLast _
  rw [boundName, htrim, Text.dropPrefix?_eq_some_iff.mpr rfl, Option.getD_some,
    Text.cutAtByte_of_not_mem hequals, Text.trim_space_append before.isSpace, n.trim_text]

/-- A name with white space behind it holds no colon. -/
theorem colon_not_mem_append (n : Name) (space : Spaces) : Ascii.colon ∉ n.text ++ space.text := by
  rw [List.mem_append, not_or]
  exact ⟨n.not_mem (by decide), space.isSpace.not_mem (by decide)⟩

namespace PatternElement

/-- The colon of a new name is the first one of its element. -/
theorem boundPart_newName (key : Name) (n : FieldName) (value : Option FieldValue) :
    boundName (boundPart (field key (some n) value).text.trim) = n.name.text := by
  have htext : (field key (some n) value).text = (key.text ++ n.before.text) ++
      Ascii.colon :: (n.after.text ++ (n.name.text ++ value.toList.flatMap FieldValue.text)) := by
    simp [text, FieldName.text]
  rw [htext, boundPart_of_colon (key.isInk_head _) (colon_not_mem_append key n.before),
    boundName_space_append n.after.isSpace, boundName_value]

/-- The colon of a default value is taken for the one of a new name. -/
theorem boundPart_value (key : Name) (v : FieldValue) :
    boundName (boundPart (field key none (some v)).text.trim) = key.text ↔
      (field key none (some v)).isReadable = true := by
  have hfront : ∀ front, Ascii.colon ∉ front →
      Ascii.colon ∉ key.text ++ (v.before.text ++ Ascii.equals :: (v.after.text ++ front)) := by
    intro front hcolon
    have hkey : Ascii.colon ∉ key.text := key.not_mem (by decide)
    have hbefore : Ascii.colon ∉ v.before.text := v.before.isSpace.not_mem (by decide)
    have hafter : Ascii.colon ∉ v.after.text := v.after.isSpace.not_mem (by decide)
    have hequals : Ascii.colon ≠ Ascii.equals := by decide
    simp [hkey, hbefore, hafter, hequals, hcolon]
  by_cases hcolon : Ascii.colon ∈ v.value.text
  · -- what is in front of the first colon is dropped, the name and the equals sign included
    obtain ⟨front, behind, hvalue, hnone⟩ := List.eq_append_cons_of_mem hcolon
    have htext : (field key none (some v)).text =
        (key.text ++ (v.before.text ++ Ascii.equals :: (v.after.text ++ front))) ++
          Ascii.colon :: behind := by
      simp [text, FieldValue.text, hvalue]
    rw [htext, boundPart_of_colon (key.isInk_head _) (hfront front hnone), isReadable, hvalue,
      Text.cutAtByte_append hnone]
    exact beq_iff_eq.symm
  · have htext : (field key none (some v)).text =
        key.text ++ (v.before.text ++ Ascii.equals :: (v.after.text ++ v.value.text)) := by
      simp [text, FieldValue.text]
    have hne : key.text ++ (v.before.text ++ Ascii.equals :: (v.after.text ++ v.value.text)) ≠ [] :=
      List.append_ne_nil_of_left_ne_nil key.ne_nil _
    have hname := boundName_value key (some v)
    rw [isReadable, Text.cutAtByte_of_not_mem hcolon, htext,
      boundPart_of_not_mem hne (key.isInk_head _) (hfront _ hcolon)]
    refine iff_of_true ?_ rfl
    simpa [FieldValue.text] using hname

/-- The name that is read of an element. -/
theorem boundPart_iff (e : PatternElement) :
    boundName (boundPart e.text.trim) = e.binds ↔ e.isReadable = true := by
  cases e with
  | field key newName value =>
    -- only a default value can have a colon in the wrong place
    cases newName with
    | some n => exact iff_of_true (boundPart_newName key n value) rfl
    | none =>
      cases value with
      | some v => exact boundPart_value key v
      | none =>
        have htext : (field key none none).text = key.text ++ [] := rfl
        rw [htext, boundPart_of_not_mem (List.append_ne_nil_of_left_ne_nil key.ne_nil _)
          (key.isInk_head _) (by simpa using key.not_mem (by decide))]
        exact iff_of_true (boundName_value key none) rfl
  | rest before n =>
    have hcolon : Ascii.colon ∉ (rest before n).text := by
      have hdots : Ascii.colon ∉ Text.ofString "..." := by decide
      have hname : Ascii.colon ∉ n.text := n.not_mem (by decide)
      have hbefore : Ascii.colon ∉ before.text := before.isSpace.not_mem (by decide)
      simp [text, hdots, hname, hbefore]
    have hhead : ∀ b ∈ (rest before n).text.head?, isInk b = true := by
      rintro b ⟨⟩
      decide
    have hne : (rest before n).text ≠ [] := List.cons_ne_nil _ _
    rw [boundPart_of_not_mem hne hhead hcolon]
    exact iff_of_true (boundName_rest before n) rfl

theorem binds_ne_nil (e : PatternElement) : e.binds ≠ [] := by
  cases e with
  | field key newName value =>
    cases newName with
    | none => exact key.ne_nil
    | some n => exact n.name.ne_nil
  | rest before name => exact name.ne_nil

end PatternElement

/-- An element gives the name that it binds if and only if it is readable. -/
theorem patternElementName?_slot_iff (s : PatternSlot) :
    patternElementName? s.text = some s.element.binds ↔ s.element.isReadable = true := by
  rw [PatternSlot.text, patternElementName?_space_append s.before.isSpace,
    patternElementName?_append_space s.after.isSpace, ← s.element.boundPart_iff,
    patternElementName?_eq]
  split
  · -- an element that is dropped binds a name nevertheless
    rename_i hempty
    rw [List.isEmpty_iff.mp hempty]
    exact iff_of_false nofun (Ne.symm s.element.binds_ne_nil)
  · rw [Option.some_inj]

/-! ## The bytes of a pattern -/

/-- A byte that stands in no part of an element but its default value. -/
def isForeign (b : UInt8) : Bool :=
  isInk b && !isNameByte b && b != Ascii.colon && b != Ascii.equals && b != Ascii.dot

section Foreign

variable {b : UInt8} (h : isForeign b = true)

include h

theorem Spaces.not_mem (s : Spaces) : b ∉ s.text := by
  simp only [isForeign, Bool.and_eq_true] at h
  exact s.isSpace.not_mem h.1.1.1.1

/-- A name holds no byte that is foreign to names. -/
theorem Name.not_mem_of_isForeign (n : Name) : b ∉ n.text := by
  simp only [isForeign, Bool.and_eq_true, Bool.not_eq_true'] at h
  exact n.not_mem h.1.1.1.2

theorem FieldName.not_mem (n : FieldName) : b ∉ n.text := by
  have hcolon : b ≠ Ascii.colon := ne_of_class h (by decide)
  simp [text, n.before.not_mem h, n.after.not_mem h, n.name.not_mem_of_isForeign h, hcolon]

theorem flatMap_newName_not_mem (newName : Option FieldName) :
    b ∉ newName.toList.flatMap FieldName.text := by
  cases newName with
  | none => simp
  | some n => simpa using n.not_mem h

/-- A byte that is in no default value is nowhere behind a field. -/
theorem FieldValue.not_mem (v : FieldValue) (hvalue : b ∉ v.value.text) : b ∉ v.text := by
  have hequals : b ≠ Ascii.equals := ne_of_class h (by decide)
  simp [text, v.before.not_mem h, v.after.not_mem h, hequals, hvalue]

/-- A byte that is in no default value is nowhere in an element. -/
theorem PatternElement.not_mem (e : PatternElement)
    (hvalue : ∀ key newName v, e = field key newName (some v) → b ∉ v.value.text) :
    b ∉ e.text := by
  cases e with
  | field key newName value =>
    have hvalues : b ∉ value.toList.flatMap FieldValue.text := by
      cases value with
      | none => simp
      | some v => simpa using v.not_mem h (hvalue key newName v rfl)
    simp only [text, List.mem_append, not_or]
    exact ⟨key.not_mem_of_isForeign h, flatMap_newName_not_mem h newName, hvalues⟩
  | rest before n =>
    have hdots : b ∉ [Ascii.dot, Ascii.dot, Ascii.dot] := by
      simpa using (ne_of_class h (by decide) : b ≠ Ascii.dot)
    simp only [text, List.mem_append, not_or]
    exact ⟨hdots, before.not_mem h, n.not_mem_of_isForeign h⟩

/-- A byte that is in no default value is nowhere in an element with its white space. -/
theorem PatternSlot.not_mem (s : PatternSlot) (hvalue : ∀ v : DefaultValue, b ∉ v.text) :
    b ∉ s.text := by
  have helement := s.element.not_mem h fun _ _ v _ => hvalue v.value
  simp [text, s.before.not_mem h, s.after.not_mem h, helement]

end Foreign

/-- Default values hold no braces. -/
theorem DefaultValue.brace_not_mem (v : DefaultValue) {b : UInt8} (h : isBrace b = true) :
    b ∉ v.text := fun hmem => by
  rw [v.noBrace b hmem] at h
  cases h

/-- No element holds a comma, so that the elements can be split. -/
theorem PatternSlot.comma_not_mem (s : PatternSlot) : Ascii.comma ∉ s.text :=
  s.not_mem (by decide) DefaultValue.noComma

namespace PatternElement

/-- No comment begins in an element when something inert follows. -/
theorem strips (e : PatternElement) {tail : Text} (hne : tail ≠ [])
    (htail : ∀ b ∈ tail, isInert b = true) : Strips (e.text ++ tail) (e.text ++ tail) := by
  have hslash : Ascii.slash ∉ tail := fun hmem => absurd (htail _ hmem) (by decide)
  by_cases hvalue : ∃ key newName v, e = field key newName (some v)
  · -- slashes stand in the default value only, and it may end with one
    obtain ⟨key, newName, v, rfl⟩ := hvalue
    have hfront : Ascii.slash ∉ key.text ++ (newName.toList.flatMap FieldName.text ++
        (v.before.text ++ Ascii.equals :: v.after.text)) := by
      have hequals : Ascii.slash ≠ Ascii.equals := by decide
      simp only [List.mem_append, List.mem_cons, not_or]
      exact ⟨key.not_mem_of_isForeign (by decide), flatMap_newName_not_mem (by decide) newName,
        v.before.not_mem (by decide), hequals, v.after.not_mem (by decide)⟩
    have hstrips := (strips_of_not_mem hfront).append
      (strips_of_uncommented v.value.uncommented hne htail)
    simpa [text, FieldValue.text] using hstrips
  · have hnone : Ascii.slash ∉ e.text := e.not_mem (by decide) fun key newName v he =>
      absurd ⟨key, newName, v, he⟩ hvalue
    exact (strips_of_not_mem hnone).append (strips_of_not_mem hslash)

end PatternElement

/-- White space makes no comment of a slash in front of it. -/
theorem Spaces.isInert (s : Spaces) : ∀ b ∈ s.text, isInert b = true := by
  intro b hb
  simp only [Import.isInert, Bool.and_eq_true, bne_iff_ne]
  refine ⟨?_, ?_⟩
  · rintro rfl
    exact s.not_mem (by decide) hb
  · rintro rfl
    exact s.not_mem (by decide) hb

/-- There is no comment in an element with its white space that could be stripped. -/
theorem PatternSlot.strips (s : PatternSlot) {tail : Text} (hne : tail ≠ [])
    (htail : ∀ b ∈ tail, isInert b = true) : Strips (s.text ++ tail) (s.text ++ tail) := by
  have hslash : Ascii.slash ∉ s.before.text := s.before.not_mem (by decide)
  have helement : Strips (s.element.text ++ (s.after.text ++ tail))
      (s.element.text ++ (s.after.text ++ tail)) :=
    s.element.strips (List.append_ne_nil_of_right_ne_nil _ hne)
      (List.forall_mem_append.mpr ⟨s.after.isInert, htail⟩)
  simpa [text] using (strips_of_not_mem hslash).append helement

namespace ObjectPattern

/-- No comment begins in a pattern. -/
theorem stripComments_text (p : ObjectPattern) : stripComments p.text = p.text := by
  -- what follows a slash of a default makes no comment of it
  have hclose : ∀ b ∈ p.inner.text ++ [Ascii.closeBrace], isInert b = true :=
    List.forall_mem_append.mpr ⟨p.inner.isInert, by decide⟩
  have hopen : Ascii.slash ∉ p.before.text ++ [Ascii.openBrace] := by
    have hbrace : Ascii.slash ≠ Ascii.openBrace := by decide
    simpa [hbrace] using p.before.not_mem (by decide)
  have hitems : Strips (p.elements.items.flatMap fun s => s.text ++ [Ascii.comma])
      (p.elements.items.flatMap fun s => s.text ++ [Ascii.comma]) :=
    strips_flatMap _ fun s _ => s.strips (List.cons_ne_nil _ _) (by decide)
  have hlast : Strips (p.elements.last.toList.flatMap PatternSlot.text ++
      (p.inner.text ++ [Ascii.closeBrace])) (p.elements.last.toList.flatMap PatternSlot.text ++
        (p.inner.text ++ [Ascii.closeBrace])) := by
    cases p.elements.last with
    | none => exact strips_of_not_mem fun hmem => absurd (hclose _ hmem) (by decide)
    | some s => simpa using s.strips (List.append_ne_nil_of_right_ne_nil _ (by simp)) hclose
  have hafter := strips_of_not_mem (show Ascii.slash ∉ p.after.text from
    p.after.not_mem (by decide))
  -- each element strips to itself whatever follows, so the whole pattern does
  have hstrips := (strips_of_not_mem hopen).append (hitems.append (hlast.append hafter))
  have htext : p.text = (p.before.text ++ [Ascii.openBrace]) ++
      ((p.elements.items.flatMap fun s => s.text ++ [Ascii.comma]) ++
        ((p.elements.last.toList.flatMap PatternSlot.text ++
          (p.inner.text ++ [Ascii.closeBrace])) ++ p.after.text)) := by
    simp [text, content, Listing.write]
  rw [htext, hstrips.stripComments]

/-- A pattern is trimmed to its braces. -/
theorem trim_text (p : ObjectPattern) :
    p.text.trim = Ascii.openBrace :: (p.content ++ [Ascii.closeBrace]) := by
  refine Text.trim_space_append_space p.before.isSpace p.after.isSpace (List.cons_ne_nil _ _) ?_ ?_
  · rintro b ⟨⟩
    decide
  · rw [← List.cons_append, List.getLast?_concat]
    rintro b ⟨⟩
    decide

/-- There are no braces inside of a pattern. -/
theorem brace_not_mem_content (p : ObjectPattern) {b : UInt8} (h : isBrace b = true) :
    b ∉ p.content := by
  have hforeign : isForeign b = true ∧ b ≠ Ascii.comma := by
    rcases isBrace_iff.mp h with rfl | rfl <;> decide
  rw [content, List.mem_append, not_or]
  refine ⟨fun hmem => ?_, p.inner.not_mem hforeign.1⟩
  refine Listing.forall_mem_write (P := (· ≠ b)) (Ne.symm hforeign.2) (fun s _ c hc => ?_) b hmem
    rfl
  rintro rfl
  exact s.not_mem hforeign.1 (fun v => v.brace_not_mem h) hc

/-- Stripping the braces leaves the content of a pattern. -/
theorem stripWhile_isBrace (p : ObjectPattern) :
    Text.stripWhile isBrace (Ascii.openBrace :: (p.content ++ [Ascii.closeBrace])) = p.content := by
  by_cases hne : p.content = []
  · rw [hne]
    rfl
  · have hbraces : ∀ b ∈ p.content, isBrace b = false := fun b hb =>
      Bool.eq_false_iff.mpr fun hbrace => p.brace_not_mem_content hbrace hb
    exact @Text.stripWhile_append _ [Ascii.openBrace] _ _ (by decide) (by decide) hne
      (fun b hb => hbraces b (List.mem_of_mem_head? hb))
      fun b hb => hbraces b (List.mem_of_mem_getLast? hb)

/-- The elements of a pattern are read one by one. -/
theorem patternNames_text (p : ObjectPattern) :
    patternNames p.text = p.elements.toList.filterMap fun s => patternElementName? s.text := by
  rw [patternNames, p.stripComments_text, p.trim_text, List.head?_cons, if_neg (by simp),
    p.stripWhile_isBrace, content]
  exact p.elements.filterMap_splitOnByte_write PatternSlot.comma_not_mem
    (p.inner.not_mem (by decide)) (patternElementName?_append_space p.inner.isSpace) rfl

end ObjectPattern

/-- A pattern is read as it is meant unless a colon of a default value hides the name of its
field. -/
theorem patternNames_eq_names_iff (p : ObjectPattern) :
    patternNames p.text = p.names ↔ p.isReadable = true := by
  rw [p.patternNames_text, ObjectPattern.names, ObjectPattern.isReadable,
    List.filterMap_eq_map_iff_forall_eq_some, List.all_eq_true]
  exact forall₂_congr fun s _ => patternElementName?_slot_iff s

end DependencyAudit.Import
