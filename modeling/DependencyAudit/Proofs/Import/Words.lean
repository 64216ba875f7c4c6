import DependencyAudit.Proofs.Import.Layout
import DependencyAudit.Proofs.Text.Split

/-!
# The words of a clause

A clause without its comments is taken apart at its commas. Braces count as white space, and the
words that are left of an element decide which name it binds. White space and braces at the ends
of an element do not matter then, and neither do they at the ends of a clause.

## Main definitions

* `IsVoid`: white space and braces;
* `words`: the words of an element;
* `elementNames`: the names of the elements between the commas.

## Main results

* `words_void_append`, `words_append_void` and `words_append`: the words of an element, one by one;
* `Listing.filterMap_splitOnByte_write` and `Listing.filterMap_splitOnByte_lead`: elements between
  commas are taken one by one, also with a text in front of the first of them;
* `elementNames_void_append` and `elementNames_append_void`: the ends of a clause.
-/

namespace DependencyAudit.Import

/-! ## White space and braces -/

/-- Braces are blanked piece by piece. -/
theorem blankBraces_append (u v : Text) : blankBraces (u ++ v) = blankBraces u ++ blankBraces v :=
  List.map_append

/-- A text without braces is kept. -/
theorem blankBraces_eq_self {text : Text} (h : ∀ b ∈ text, isBrace b = false) :
    blankBraces text = text := by
  refine (List.map_congr_left fun b hb => ?_).trans (List.map_id text)
  rw [h b hb]
  rfl

/-- The braces are the opening and the closing one. -/
theorem isBrace_iff {b : UInt8} :
    isBrace b = true ↔ b = Ascii.openBrace ∨ b = Ascii.closeBrace := by
  simp [isBrace]

/-- White space and braces. -/
def IsVoid (text : Text) : Prop :=
  Text.IsSpace (blankBraces text)

theorem isVoid_nil : IsVoid [] :=
  .nil

/-- Two voids make one. -/
theorem IsVoid.append {u v : Text} (hu : IsVoid u) (hv : IsVoid v) : IsVoid (u ++ v) := by
  rw [IsVoid, blankBraces_append]
  exact Text.IsSpace.append hu hv

/-- White space is void. -/
theorem isVoid_of_isSpace {u : Text} (h : Text.IsSpace u) : IsVoid u := by
  have hbraces : ∀ b ∈ u, isBrace b = false := by
    intro b hb
    rw [Bool.eq_false_iff]
    intro hbrace
    rcases isBrace_iff.mp hbrace with rfl | rfl
    · exact h.not_mem (by decide) hb
    · exact h.not_mem (by decide) hb
  rwa [IsVoid, blankBraces_eq_self hbraces]

/-- Blanks are void. -/
theorem isVoid_of_isBlank {u : Text} (h : ∀ b ∈ u, isBlank b = true) : IsVoid u :=
  isVoid_of_isSpace (Text.isSpace_of_isBlank h)

/-- A brace is void. -/
theorem isVoid_brace {b : UInt8} (h : isBrace b = true) : IsVoid [b] := by
  have hspace : blankBraces [b] = [Ascii.space] := by simp [blankBraces, h]
  rw [IsVoid, hspace]
  exact Text.isSpace_of_isBlank (by decide)

/-- A comma is not void. -/
theorem IsVoid.comma_not_mem {u : Text} (h : IsVoid u) : Ascii.comma ∉ u := fun hmem =>
  Text.IsSpace.not_mem h (by decide) (List.mem_map.mpr ⟨Ascii.comma, hmem, rfl⟩)

/-! ## The words of an element -/

/-- The words of an element. -/
def words (text : Text) : List Text :=
  (blankBraces text).fields

@[simp]
theorem words_nil : words [] = [] :=
  rfl

/-- What is void in front adds no words. -/
theorem words_void_append {u : Text} (hu : IsVoid u) (v : Text) : words (u ++ v) = words v := by
  rw [words, blankBraces_append, Text.fields_space_append hu, words]

/-- What is void behind adds no words. -/
theorem words_append_void {u : Text} (hu : IsVoid u) (v : Text) : words (v ++ u) = words v := by
  rw [words, blankBraces_append, Text.fields_append_space hu, words]

/-- A word that is written without braces and white space. -/
structure IsWord (word : Text) : Prop where
  /-- A word is not empty. -/
  ne_nil : word ≠ []
  /-- A word has no white space. -/
  ink : ∀ b ∈ word, isInk b = true
  /-- A word has no braces. -/
  noBrace : ∀ b ∈ word, isBrace b = false

/-- A name is one word. -/
theorem Name.isWord (n : Name) : IsWord n.text where
  ne_nil := n.ne_nil
  ink := fun b hb => isInk_of_isNameByte (n.nameByte b hb)
  noBrace := fun b hb => by
    have h₁ : b ≠ Ascii.openBrace := ne_of_class (n.nameByte b hb) (by decide)
    have h₂ : b ≠ Ascii.closeBrace := ne_of_class (n.nameByte b hb) (by decide)
    simp [isBrace, h₁, h₂]

/-- The star is one word. -/
theorem isWord_star : IsWord [Ascii.star] :=
  ⟨by decide, by decide, by decide⟩

/-- A word, what separates it from the next one, and the words behind. -/
theorem words_append {word u : Text} (hword : IsWord word) (hu : IsVoid u) (hne : u ≠ [])
    (v : Text) : words (word ++ (u ++ v)) = word :: words v := by
  have hblank : blankBraces u ≠ [] := by simpa [blankBraces] using hne
  have hends : Text.EndsWord (blankBraces (u ++ v)) := by
    rw [blankBraces_append]
    exact Text.IsSpace.endsWord_append hu hblank _
  rw [words, blankBraces_append, blankBraces_eq_self hword.noBrace,
    Text.fields_word_append hword.ne_nil hword.ink hends]
  exact congrArg _ (words_void_append hu v)

/-- A word has itself as its only word. -/
theorem words_word {word : Text} (hword : IsWord word) : words word = [word] := by
  have hfields := Text.fields_word_append hword.ne_nil hword.ink Text.IsSpace.nil.endsWord
  rw [List.append_nil] at hfields
  rw [words, blankBraces_eq_self hword.noBrace, hfields]
  rfl

/-! ## Elements between commas -/

namespace Listing

section Map

variable {α β γ : Type}

def map (f : α → β) (l : Listing α) : Listing β :=
  ⟨l.items.map f, l.last.map f⟩

/-- The items of a changed list are the changed items. -/
theorem toList_map (f : α → β) (l : Listing α) : (l.map f).toList = l.toList.map f := by
  cases hlast : l.last <;> simp [map, toList, hlast]

/-- A changed list is written by its changed items. -/
theorem write_map (f : α → β) (comma : γ) (g : β → List γ) (l : Listing α) :
    (l.map f).write comma g = l.write comma fun a => g (f a) := by
  cases hlast : l.last <;> simp [map, write, hlast, List.flatMap_map]

end Map

variable {α : Type} {f : Text → Option Text} {g : α → Text} {tail : Text}

/-- The elements of a listing are taken one by one when what stands behind the last of them does
not matter. -/
theorem filterMap_splitOnByte_write (l : Listing α) (hcomma : ∀ a, Ascii.comma ∉ g a)
    (htail : Ascii.comma ∉ tail) (hf : ∀ text, f (text ++ tail) = f text) (hnil : f [] = none) :
    (Text.splitOnByte Ascii.comma (l.write Ascii.comma g ++ tail)).filterMap f =
      l.toList.filterMap fun a => f (g a) := by
  obtain ⟨items, last⟩ := l
  simp only [write, toList]
  induction items with
  | nil =>
    cases last with
    | none => simpa [Text.splitOnByte_of_not_mem htail, hnil] using hf []
    | some a =>
      have hnone : Ascii.comma ∉ g a ++ tail := by simp [hcomma a, htail]
      simp [Text.splitOnByte_of_not_mem hnone, hf, List.filterMap_cons]
  | cons a items ih =>
    simp only [List.append_assoc] at ih
    simp [Text.splitOnByte_append, Text.splitOnByte_of_not_mem (hcomma a), ih, List.filterMap_cons]

/-- A text in front of the elements belongs to the first of them. -/
theorem filterMap_splitOnByte_lead {lead : Text} (l : Listing α) (hcomma : ∀ a, Ascii.comma ∉ g a)
    (hlead : Ascii.comma ∉ lead) (htail : Ascii.comma ∉ tail)
    (hf : ∀ text, f (text ++ tail) = f text) (hnil : f [] = none) :
    (Text.splitOnByte Ascii.comma (lead ++ (l.write Ascii.comma g ++ tail))).filterMap f =
      match l.toList with
      | [] => (f lead).toList
      | first :: more => (f (lead ++ g first)).toList ++ more.filterMap fun a => f (g a) := by
  -- a text without commas is one element
  have hsingle : ∀ text, Ascii.comma ∉ text →
      (Text.splitOnByte Ascii.comma text).filterMap f = (f text).toList := by
    intro text htext
    rw [Text.splitOnByte_of_not_mem htext]
    cases hname : f text <;> simp [hname]
  obtain ⟨items, last⟩ := l
  -- only the first element stands behind the lead, so that no induction is needed
  cases items with
  | nil =>
    cases last with
    | none =>
      have hnone : Ascii.comma ∉ lead ++ tail := by simp [hlead, htail]
      simp [write, toList, hsingle _ hnone, hf]
    | some a =>
      have hnone : Ascii.comma ∉ (lead ++ g a) ++ tail := by simp [hlead, hcomma a, htail]
      have hfirst := hsingle _ hnone
      rw [hf] at hfirst
      simpa [write, toList] using hfirst
  | cons a items =>
    have hnone : Ascii.comma ∉ lead ++ g a := by simp [hlead, hcomma a]
    have htext : lead ++ ((Listing.mk (a :: items) last).write Ascii.comma g ++ tail) =
        (lead ++ g a) ++ Ascii.comma :: ((Listing.mk items last).write Ascii.comma g ++ tail) := by
      simp [write]
    rw [htext, Text.splitOnByte_append, List.filterMap_append, hsingle _ hnone,
      filterMap_splitOnByte_write _ hcomma htail hf hnil]
    rfl

end Listing

/-! ## The names of a clause -/

/-- The name that an element binds. -/
def readElement? (element : Text) : Option Text :=
  elementName? (words element)

/-- The names that the elements between the commas bind. -/
def elementNames (text : Text) : List Text :=
  (Text.splitOnByte Ascii.comma text).filterMap readElement?

/-- The names of a clause are those of its elements, less the comments. -/
theorem clauseNames_eq (clause : Text) :
    clauseNames clause = elementNames (stripComments clause) :=
  rfl

/-- An element may have what is void in front of it. -/
theorem readElement?_void_append {u : Text} (hu : IsVoid u) (v : Text) :
    readElement? (u ++ v) = readElement? v := by
  rw [readElement?, words_void_append hu, readElement?]

/-- An element may have what is void behind it. -/
theorem readElement?_append_void {u : Text} (hu : IsVoid u) (v : Text) :
    readElement? (v ++ u) = readElement? v := by
  rw [readElement?, words_append_void hu, readElement?]

/-- Without a comma there is one element. -/
theorem elementNames_of_not_mem {u : Text} (h : Ascii.comma ∉ u) :
    elementNames u = (readElement? u).toList := by
  rw [elementNames, Text.splitOnByte_of_not_mem h]
  cases helement : readElement? u <;> simp [helement]

/-- A comma separates the names on its two sides. -/
theorem elementNames_comma (u v : Text) :
    elementNames (u ++ Ascii.comma :: v) = elementNames u ++ elementNames v := by
  rw [elementNames, Text.splitOnByte_append, List.filterMap_append]
  rfl

/-- White space and braces in front of a clause do not matter. -/
theorem elementNames_void_append {u : Text} (hu : IsVoid u) (v : Text) :
    elementNames (u ++ v) = elementNames v := by
  obtain ⟨first, more, hv, huv⟩ := Text.splitOnByte_prepend_of_not_mem hu.comma_not_mem v
  rw [elementNames, elementNames, hv, huv, List.filterMap_cons, List.filterMap_cons,
    readElement?_void_append hu]

/-- White space and braces behind a clause do not matter. -/
theorem elementNames_append_void {u : Text} (hu : IsVoid u) (v : Text) :
    elementNames (v ++ u) = elementNames v := by
  obtain ⟨front, last, hv, hvu⟩ := Text.splitOnByte_append_of_not_mem hu.comma_not_mem v
  rw [elementNames, elementNames, hv, hvu, List.filterMap_append, List.filterMap_append,
    List.filterMap_cons, List.filterMap_cons, readElement?_append_void hu]

end DependencyAudit.Import
