import DependencyAudit.Log.Line
import DependencyAudit.Proofs.Text.Quoted
import DependencyAudit.Proofs.Text.Split

/-!
# Splitting log lines

The attributes of a log line can be taken apart again. The line is cut at its spaces, but not
inside double quotes, where a backslash takes the next byte along; each word is cut at its first
equals sign; and a value that begins with a quote is read as a quoted text. As keys hold neither
spaces nor quotes nor equals signs, and values that hold any of these are quoted, every value is
found again, whatever its bytes are.

## Main definitions

* `cut`: the pieces of a text between the spaces outside double quotes;
* `Passes`: a text that is not cut, with the places where it begins and ends;
* `attributes?`: the keys and values of a text.

## Main results

* `passes_onePiece`: a written value is not cut;
* `cut_flatMap`: words after spaces are cut into these words;
* `attributes_split_back`: the texts of a line, and their keys, are found again.
-/

namespace DependencyAudit.LogLine

open LogValue (needsQuotes onePiece attributeText attributesText)

/-! ## Taking a line apart -/

/-- Where a reader stands that goes through a line byte by byte. -/
inductive Place
  | outside
  /-- Between double quotes. -/
  | quoted
  /-- Between double quotes, right behind a backslash. -/
  | escaped
  deriving DecidableEq, Repr

/-- Where the reader stands behind the next byte. -/
def Place.behind : Place → UInt8 → Place
  | outside, b => if b = Ascii.quote then quoted else outside
  | quoted, b =>
    if b = Ascii.quote then outside else if b = Ascii.backslash then escaped else quoted
  | escaped, _ => quoted

/-- Puts a text in front of the first piece. -/
def attach (lead : Text) : List Text → List Text
  | [] => [lead]
  | piece :: more => (lead ++ piece) :: more

/-- The pieces of a text between the spaces that are not inside double quotes. -/
def cut : Place → Text → List Text
  | _, [] => [[]]
  | place, b :: rest =>
    if place = .outside ∧ b = Ascii.space then [] :: cut .outside rest
    else attach [b] (cut (place.behind b) rest)

/-- The words of a text: its pieces, less the empty ones. -/
def words (text : Text) : List Text :=
  (cut .outside text).filter (!·.isEmpty)

/-- The text that a written value stands for. -/
def value? (text : Text) : Option Text :=
  if text.head? = some Ascii.quote then Quoted.decode? text else some text

/-- The key and the value of a word. -/
def attribute? (word : Text) : Option (Text × Text) :=
  match Text.cutAtByte Ascii.equals word with
  | (_, none) => none
  | (key, some value) => (value? value).map (key, ·)

/-- The keys and values of a text, in order. -/
def attributes? (text : Text) : Option (List (Text × Text)) :=
  (words text).mapM attribute?

/-! ## Texts that are not cut -/

/-- Two texts are attached in front one after the other. -/
theorem attach_attach (a b : Text) (pieces : List Text) :
    attach a (attach b pieces) = attach (a ++ b) pieces := by
  cases pieces with
  | nil => rfl
  | cons piece more => simp [attach]

/-- A text has a piece at least. -/
theorem cut_ne_nil (place : Place) (text : Text) : cut place text ≠ [] := by
  cases text with
  | nil => simp [cut]
  | cons b rest =>
    rw [cut]
    split
    · simp
    · cases cut (place.behind b) rest <;> simp [attach]

/-- Outside of quotes a space ends a piece. -/
theorem cut_space (rest : Text) :
    cut .outside (Ascii.space :: rest) = [] :: cut .outside rest := by
  rw [cut, if_pos ⟨rfl, rfl⟩]

/-- The text is not cut: it belongs to the first piece of whatever follows it. -/
def Passes (start : Place) (text : Text) (stop : Place) : Prop :=
  ∀ rest, cut start (text ++ rest) = attach text (cut stop rest)

namespace Passes

variable {start middle stop : Place} {s t : Text}

theorem nil (place : Place) : Passes place [] place := by
  intro rest
  obtain ⟨piece, more, hcut⟩ := List.exists_cons_of_ne_nil (cut_ne_nil place rest)
  rw [List.nil_append, hcut]
  rfl

/-- What passes from place to place may be put together. -/
theorem append (hs : Passes start s middle) (ht : Passes middle t stop) :
    Passes start (s ++ t) stop := by
  intro rest
  rw [List.append_assoc, hs, ht, attach_attach]

/-- One byte that is no separator. -/
theorem byte {b : UInt8} (h : ¬ (start = .outside ∧ b = Ascii.space))
    (hstop : start.behind b = stop) : Passes start [b] stop := by
  intro rest
  rw [List.singleton_append, cut, if_neg h, hstop]

end Passes

/-- Without quotes only the spaces matter. -/
theorem passes_of_not_mem {text : Text} (hspace : Ascii.space ∉ text)
    (hquote : Ascii.quote ∉ text) : Passes .outside text .outside := by
  induction text with
  | nil => exact .nil _
  | cons b rest ih =>
    rw [List.mem_cons, not_or] at hspace hquote
    have hb : Passes .outside [b] .outside :=
      .byte (fun h => hspace.1 h.2.symm) (if_neg (Ne.symm hquote.1))
    exact hb.append (ih hspace.2 hquote.2)

/-- Between quotes an escape is passed in two steps, and every other byte in one. -/
theorem passes_body {body : Text} (h : Quoted.IsBody body) : Passes .quoted body .quoted := by
  induction h with
  | nil => exact .nil _
  | @escape e body _ _ ih =>
    have hslash : Passes .quoted [Ascii.backslash] .escaped := .byte (by decide) rfl
    have he : Passes .escaped [e] .quoted := .byte (by simp) rfl
    exact hslash.append (he.append ih)
  | @plain b body hb _ ih =>
    have hbehind : Place.quoted.behind b = .quoted := by
      simp only [Place.behind, if_neg hb.2.1, if_neg hb.2.2]
    have hplain : Passes .quoted [b] .quoted := .byte (by simp) hbehind
    exact hplain.append ih

/-- A quoted text begins and ends outside of quotes. -/
theorem passes_encode (text : Text) : Passes .outside (Quoted.encode text) .outside := by
  have hopen : Passes .outside [Ascii.quote] .quoted := .byte (by decide) rfl
  have hclose : Passes .quoted [Ascii.quote] .outside := .byte (by decide) rfl
  exact hopen.append ((passes_body (Quoted.isBody_body text)).append hclose)

/-! ## Written values -/

/-- A value without quotes holds none of the bytes that the quotes are for. -/
theorem not_mem_of_needsQuotes {text : Text} (h : needsQuotes text = false) :
    ∀ b ∈ (" \t\n\"=" : Text), b ∉ text := by
  intro b hb hmem
  rw [needsQuotes, Bool.or_eq_false_iff, List.any_eq_false] at h
  exact h.2 b hmem (List.contains_iff_mem.mpr hb)

/-- A written value is not cut. -/
theorem passes_onePiece (text : Text) : Passes .outside (onePiece text) .outside := by
  unfold onePiece
  cases h : needsQuotes text with
  | true => exact passes_encode text
  | false =>
    have hfree := not_mem_of_needsQuotes h
    exact passes_of_not_mem (hfree _ (by decide)) (hfree _ (by decide))

/-- A written value stays on its line. -/
theorem newline_not_mem_onePiece (text : Text) : Ascii.newline ∉ onePiece text := by
  unfold onePiece
  cases h : needsQuotes text with
  | true =>
    rw [if_pos rfl, Quoted.encode_eq, List.mem_cons, List.mem_append, List.mem_singleton]
    rintro (hquote | hbody | hquote)
    · exact absurd hquote (by decide)
    · exact (Quoted.isBody_body text).newline_not_mem hbody
    · exact absurd hquote (by decide)
  | false => exact not_mem_of_needsQuotes h _ (by decide)

/-- A written value is read back: one that begins with a quote has been quoted. -/
theorem value?_onePiece (text : Text) : value? (onePiece text) = some text := by
  unfold onePiece
  cases h : needsQuotes text with
  | true =>
    have hhead : (Quoted.encode text).head? = some Ascii.quote := rfl
    rw [if_pos rfl, value?, if_pos hhead, Quoted.decode?_encode]
  | false =>
    have hhead : text.head? ≠ some Ascii.quote := fun hhead =>
      not_mem_of_needsQuotes h Ascii.quote (by decide) (List.mem_of_mem_head? hhead)
    rw [if_neg (by decide), value?, if_neg hhead]

/-! ## Attributes -/

/-- A key that keeps words apart: it holds no space, newline, quote or equals sign. -/
def IsPlainKey (key : Text) : Prop :=
  (" \n\"=" : Text).all (!key.contains ·) = true

instance (key : Text) : Decidable (IsPlainKey key) :=
  inferInstanceAs (Decidable (_ = true))

/-- A plain key has none of the bytes that the reader looks for. -/
theorem IsPlainKey.not_mem {key : Text} (h : IsPlainKey key) :
    ∀ b ∈ (" \n\"=" : Text), b ∉ key := by
  intro b hb hmem
  have hfree := List.all_eq_true.mp h b hb
  rw [List.contains_iff_mem.mpr hmem] at hfree
  exact absurd hfree (by decide)

/-- A key with its value, as one word. -/
def word (key value : Text) : Text :=
  key ++ Ascii.equals :: onePiece value

section Word

variable {key : Text} (hkey : IsPlainKey key) (value : Text)

include hkey

/-- A word begins and ends outside of quotes. -/
theorem passes_word : Passes .outside (word key value) .outside := by
  have hequals : Passes .outside [Ascii.equals] .outside := .byte (by decide) rfl
  exact (passes_of_not_mem (hkey.not_mem _ (by decide)) (hkey.not_mem _ (by decide))).append
    (hequals.append (passes_onePiece value))

/-- A word is on one line, whatever the value. -/
theorem newline_not_mem_word : Ascii.newline ∉ word key value := by
  rw [word, List.mem_append, List.mem_cons]
  rintro (hmem | hequals | hvalue)
  · exact hkey.not_mem _ (by decide) hmem
  · exact absurd hequals (by decide)
  · exact newline_not_mem_onePiece value hvalue

/-- A word is read as its key and value. -/
theorem attribute?_word : attribute? (word key value) = some (key, value) := by
  rw [attribute?, word, Text.cutAtByte_append (hkey.not_mem _ (by decide))]
  simp only [value?_onePiece, Option.map_some]

end Word

/-- Words after spaces are cut into these words. -/
theorem cut_flatMap {ws : List Text} (h : ∀ w ∈ ws, Passes .outside w .outside) :
    cut .outside (ws.flatMap (Ascii.space :: ·)) = [] :: ws := by
  induction ws with
  | nil => rfl
  | cons w more ih =>
    obtain ⟨hw, hmore⟩ := List.forall_mem_cons.mp h
    -- what follows the word begins with a space or ends, so nothing is added to the word
    rw [List.flatMap_cons, List.cons_append, cut_space, hw, ih hmore, attach, List.append_nil]

/-- An attribute that is a text is one word after a space. -/
theorem attributeText_text (scope key value : Text) :
    attributeText scope key (.text value) = Ascii.space :: word (scope ++ key) value := by
  have hwritten : LogAttribute.isBlank (key, .text value) = false := by
    simp [LogAttribute.isBlank]
  rw [attributeText, hwritten, word, List.append_assoc]
  · simp only [Bool.false_eq_true, if_false, Text.concat, LogValue.inline, List.flatten_cons,
      List.flatten_nil, List.append_nil]
    rfl
  · exact fun _ h => nomatch h

/-- Attributes that are texts, word by word. -/
theorem attributesText_texts (scope : Text) (attributes : List (Text × Text)) :
    attributesText scope (attributes.map fun (key, value) => (key, .text value)) =
      (attributes.map fun (key, value) => word (scope ++ key) value).flatMap
        (Ascii.space :: ·) := by
  induction attributes with
  | nil =>
    rw [List.map_nil, attributesText]
    rfl
  | cons a more ih =>
    rw [List.map_cons, attributesText, attributeText_text, ih, List.map_cons, List.flatMap_cons]

section Attributes

variable {scope : Text} {attributes : List (Text × Text)}
  (hkeys : ∀ a ∈ attributes, IsPlainKey (scope ++ a.1))

include hkeys

/-- The words are those that were written, for none of them is empty. -/
theorem words_attributesText :
    words (attributesText scope (attributes.map fun (key, value) => (key, .text value))) =
      attributes.map fun (key, value) => word (scope ++ key) value := by
  have hpasses : ∀ w ∈ attributes.map fun (key, value) => word (scope ++ key) value,
      Passes .outside w .outside := by
    intro w hw
    obtain ⟨a, ha, rfl⟩ := List.mem_map.mp hw
    exact passes_word (hkeys a ha) a.2
  rw [words, attributesText_texts, cut_flatMap hpasses, List.filter_cons_of_neg (by simp),
    List.filter_eq_self]
  intro w hw
  obtain ⟨a, -, rfl⟩ := List.mem_map.mp hw
  simp [word]

/-- The words are read as the list of attributes. -/
theorem mapM_attribute? :
    (attributes.map fun (key, value) => word (scope ++ key) value).mapM attribute? =
      some (attributes.map fun (key, value) => (scope ++ key, value)) := by
  induction attributes with
  | nil => rfl
  | cons a more ih =>
    obtain ⟨ha, hmore⟩ := List.forall_mem_cons.mp hkeys
    rw [List.map_cons, List.mapM_cons, attribute?_word ha, ih hmore]
    rfl

/-- The attributes are on one line, whatever their values. -/
theorem newline_not_mem_attributesText :
    Ascii.newline ∉
      attributesText scope (attributes.map fun (key, value) => (key, .text value)) := by
  rw [attributesText_texts]
  intro hmem
  obtain ⟨w, hw, hmem⟩ := List.mem_flatMap.mp hmem
  obtain ⟨a, ha, rfl⟩ := List.mem_map.mp hw
  rcases List.mem_cons.mp hmem with hspace | hword
  · exact absurd hspace (by decide)
  · exact newline_not_mem_word (hkeys a ha) a.2 hword

end Attributes

/-- Attributes that are texts, of any bytes, are written on one line and can be taken apart again:
if their keys, with what the open groups put before them, hold no space, newline, quote or equals
sign, then the same keys and values are found in the same order. -/
theorem attributes_split_back (scope : Text) (attributes : List (Text × Text))
    (hkeys : ∀ a ∈ attributes, IsPlainKey (scope ++ a.1)) :
    Ascii.newline ∉
        attributesText scope (attributes.map fun (key, value) => (key, .text value)) ∧
      attributes?
          (attributesText scope (attributes.map fun (key, value) => (key, .text value))) =
        some (attributes.map fun (key, value) => (scope ++ key, value)) := by
  refine ⟨newline_not_mem_attributesText hkeys, ?_⟩
  rw [attributes?, words_attributesText hkeys]
  exact mapM_attribute? hkeys

/-- Values that are empty, or hold separators, escapes, control characters and bytes that are no
characters. -/
def hardAttributes : List (Text × Text) :=
  [("path", "src/big.js"), ("empty", ""), ("reason", "a \"b\" = c\n d"), ("\\", "\\\" \\"),
   ("bytes", [0, 127, 255, 32, 195, 40, 226, 130]), ("tab\t", "é\u2028 \ue000")]

/-- Values with quotes, equals signs, blanks and newlines, one that is empty and one that is not
well-formed. -/
theorem hardAttributes_split_back :
    (∀ a ∈ hardAttributes, IsPlainKey (("file." : Text) ++ a.1)) ∧
      Ascii.newline ∉
          attributesText "file." (hardAttributes.map fun (key, value) => (key, .text value)) ∧
      attributes?
          (attributesText "file." (hardAttributes.map fun (key, value) => (key, .text value))) =
        some (hardAttributes.map fun (key, value) => (("file." : Text) ++ key, value)) :=
  ⟨by decide, attributes_split_back "file." hardAttributes (by decide)⟩

end DependencyAudit.LogLine
