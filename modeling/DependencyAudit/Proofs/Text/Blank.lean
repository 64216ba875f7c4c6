import DependencyAudit.Text.Blank
import DependencyAudit.Proofs.Text.Utf8

/-!
# White space around and between words

A run of white space is made of white-space characters in UTF-8. It counts for nothing in front of
a text and behind it, whatever bytes the text consists of: the fields of the text stay the same,
and so does what trimming leaves of it. Between words it separates the fields.

## Main definitions

* `isInk`: the ASCII characters that are no white space;
* `Text.IsSpace`: runs of white space;
* `Text.IsSpaceless`: texts without any white space.

## Main results

* `Text.fields_space_append`, `Text.fields_append_space` and `Text.fields_word_append`: the fields
  of a text, word by word;
* `Text.stripWhile_append`: stripping the ends of a text;
* `Text.trim_space_append` and `Text.trim_append_space`: white space around a text;
* `Text.exists_trim_append`: trimming goes no further than the last ink that is known.
-/

namespace DependencyAudit

/-- An ASCII character that is no white space. -/
def isInk (b : UInt8) : Bool :=
  b < 0x80 && !isSpaceCode b.toNat

/-- White space of the patterns is a tab, a newline, a form feed, a carriage return or a space. -/
theorem isBlank_iff {b : UInt8} :
    isBlank b = true ↔ b = 9 ∨ b = 10 ∨ b = 12 ∨ b = 13 ∨ b = 32 := by
  simp [isBlank, or_assoc]

/-- All of it is ASCII. -/
theorem ascii_of_isBlank {b : UInt8} (h : isBlank b = true) : b < 0x80 := by
  rcases isBlank_iff.mp h with rfl | rfl | rfl | rfl | rfl <;> decide

/-- Ink is ASCII that is no white space of Unicode. -/
theorem isInk_iff {b : UInt8} : isInk b = true ↔ b < 0x80 ∧ isSpaceCode b.toNat = false := by
  simp [isInk]

@[simp]
theorem Glyph.isSpace_some (bytes : Text) (c : Nat) :
    Glyph.isSpace ⟨bytes, some c⟩ = isSpaceCode c :=
  rfl

/-- Every code point of white space can be encoded. -/
theorem isScalar_of_isSpaceCode {c : Nat} (h : isSpaceCode c = true) : Utf8.IsScalar c := by
  simp only [isSpaceCode, Bool.or_eq_true, Bool.and_eq_true, decide_eq_true_eq] at h
  unfold Utf8.IsScalar
  omega

namespace Utf8

/-- An ASCII byte is a glyph of its own. -/
theorem glyphs_cons_ascii {a : UInt8} (h : a < 0x80) (rest : Text) :
    glyphs (a :: rest) = ⟨[a], some a.toNat⟩ :: glyphs rest := by
  rw [glyphs_cons, first_ascii h]
  simp

/-- At an ASCII character a new glyph begins. -/
theorem glyphs_append_ascii {a : UInt8} (h : a < 0x80) (text rest : Text) :
    glyphs (text ++ a :: rest) = glyphs text ++ ⟨[a], some a.toNat⟩ :: glyphs rest := by
  have ha : a.toNat < 0x80 := UInt8.lt_iff_toNat_lt.mp h
  have happend := glyphs_append_encode (Or.inl (by omega) : IsScalar a.toNat) text rest
  rw [encode_one ha, List.singleton_append] at happend
  rw [happend, glyphs_cons_ascii h]

end Utf8

namespace Text

/-! ## Runs of white space -/

/-- A run of white-space characters. -/
inductive IsSpace : Text → Prop
  | nil : IsSpace []
  | cons {c : Nat} {rest : Text} (h : isSpaceCode c = true) (hrest : IsSpace rest) :
      IsSpace (Utf8.encode c ++ rest)

/-- White space may be joined. -/
theorem IsSpace.append {u v : Text} (hu : IsSpace u) (hv : IsSpace v) : IsSpace (u ++ v) := by
  induction hu with
  | nil => exact hv
  | cons h _ ih =>
    rw [List.append_assoc]
    exact .cons h ih

/-- A code point of white space is written as white space. -/
theorem isSpace_encode {c : Nat} (h : isSpaceCode c = true) : IsSpace (Utf8.encode c) := by
  have hspace := IsSpace.cons h .nil
  rwa [List.append_nil] at hspace

/-- White space of the patterns is white space of Unicode. -/
theorem isSpace_of_isBlank {blanks : Text} (h : ∀ b ∈ blanks, isBlank b = true) :
    IsSpace blanks := by
  induction blanks with
  | nil => exact .nil
  | cons b more ih =>
    obtain ⟨hb, hmore⟩ := List.forall_mem_cons.mp h
    have hascii : b.toNat < 0x80 := UInt8.lt_iff_toNat_lt.mp (ascii_of_isBlank hb)
    have hspace := IsSpace.cons (isSpaceCode_of_isBlank hb) (ih hmore)
    rwa [Utf8.encode_one hascii] at hspace

/-- No ink stands in white space. -/
theorem IsSpace.not_mem {space : Text} (h : IsSpace space) {b : UInt8} (hb : isInk b = true) :
    b ∉ space := by
  obtain ⟨hascii, hink⟩ := isInk_iff.mp hb
  have hlow : b.toNat < 0x80 := UInt8.lt_iff_toNat_lt.mp hascii
  induction h with
  | nil => simp
  | @cons c rest hc _ ih =>
    rw [List.mem_append, not_or]
    refine ⟨fun hmem => ?_, ih⟩
    -- an ASCII byte in an encoding is the code point itself
    by_cases hcode : c < 0x80
    · rw [Utf8.encode_ascii hcode, List.mem_singleton] at hmem
      rw [hmem, Utf8.toNat_toUInt8 (by omega), hc] at hink
      cases hink
    · have hscalar := isScalar_of_isSpaceCode hc
      have hbytes := Utf8.le_of_mem_encode (by omega)
        (by unfold Utf8.IsScalar at hscalar; omega) b hmem
      omega

/-- White space begins and ends a glyph, whatever stands around it. -/
theorem IsSpace.glyphs_append {space : Text} (h : IsSpace space) :
    ∃ spaces : List Glyph, (∀ g ∈ spaces, g.isSpace = true) ∧
      (∀ rest, Utf8.glyphs (space ++ rest) = spaces ++ Utf8.glyphs rest) ∧
      ∀ text, Utf8.glyphs (text ++ space) = Utf8.glyphs text ++ spaces := by
  induction h with
  | nil => exact ⟨[], by simp, fun _ => rfl, fun text => by simp⟩
  | @cons c rest hc _ ih =>
    obtain ⟨spaces, hspaces, hfront, hback⟩ := ih
    have hscalar := isScalar_of_isSpaceCode hc
    refine ⟨⟨Utf8.encode c, some c⟩ :: spaces, ?_, fun more => ?_, fun text => ?_⟩
    · rw [List.forall_mem_cons]
      exact ⟨hc, hspaces⟩
    · rw [List.append_assoc, Utf8.glyphs_encode hscalar, hfront, List.cons_append]
    · have hrest := hfront []
      simp only [List.append_nil, Utf8.glyphs_nil] at hrest
      rw [Utf8.glyphs_append_encode hscalar, Utf8.glyphs_encode hscalar, hrest]

/-! ## Fields -/

/-- The word that some glyphs begin with, up to white space, and the fields behind it. -/
private def splitGlyphs (glyphs : List Glyph) : Text × List Text :=
  glyphs.foldr
    (fun g (word, words) =>
      if g.isSpace then ([], if word.isEmpty then words else word :: words)
      else (g.bytes ++ word, words))
    ([], [])

/-- The fields of some glyphs. -/
private def fieldsOf (glyphs : List Glyph) : List Text :=
  if (splitGlyphs glyphs).1.isEmpty then (splitGlyphs glyphs).2
  else (splitGlyphs glyphs).1 :: (splitGlyphs glyphs).2

/-- The fields of a text are those of its glyphs. -/
private theorem fields_eq (text : Text) : fields text = fieldsOf (Utf8.glyphs text) :=
  rfl

/-- A field ends at white space. -/
private theorem splitGlyphs_cons_of_isSpace {g : Glyph} (h : g.isSpace = true)
    (rest : List Glyph) : splitGlyphs (g :: rest) = ([], fieldsOf rest) := by
  rw [splitGlyphs, List.foldr_cons]
  dsimp only
  rw [if_pos h]
  rfl

/-- A glyph that is no white space goes on with the field. -/
private theorem splitGlyphs_cons_of_not_isSpace {g : Glyph} (h : g.isSpace = false)
    (rest : List Glyph) :
    splitGlyphs (g :: rest) = (g.bytes ++ (splitGlyphs rest).1, (splitGlyphs rest).2) := by
  rw [splitGlyphs, List.foldr_cons]
  dsimp only
  rw [if_neg (by simp [h])]
  rfl

/-- White space in front adds no fields. -/
private theorem fieldsOf_spaces_append {spaces : List Glyph}
    (h : ∀ g ∈ spaces, g.isSpace = true) (rest : List Glyph) :
    fieldsOf (spaces ++ rest) = fieldsOf rest := by
  induction spaces with
  | nil => rfl
  | cons g more ih =>
    obtain ⟨hg, hmore⟩ := List.forall_mem_cons.mp h
    rw [List.cons_append, fieldsOf, splitGlyphs_cons_of_isSpace hg]
    exact ih hmore

/-- White space behind adds no fields. -/
private theorem splitGlyphs_append_spaces {spaces : List Glyph}
    (h : ∀ g ∈ spaces, g.isSpace = true) (glyphs : List Glyph) :
    splitGlyphs (glyphs ++ spaces) = splitGlyphs glyphs := by
  induction glyphs with
  | nil =>
    cases spaces with
    | nil => rfl
    | cons g more =>
      obtain ⟨hg, hmore⟩ := List.forall_mem_cons.mp h
      have hnone := fieldsOf_spaces_append hmore []
      rw [List.append_nil] at hnone
      rw [List.nil_append, splitGlyphs_cons_of_isSpace hg, hnone]
      rfl
  | cons g rest ih =>
    cases hg : g.isSpace with
    | true =>
      rw [List.cons_append, splitGlyphs_cons_of_isSpace hg, splitGlyphs_cons_of_isSpace hg,
        fieldsOf, fieldsOf, ih]
    | false =>
      rw [List.cons_append, splitGlyphs_cons_of_not_isSpace hg,
        splitGlyphs_cons_of_not_isSpace hg, ih]

/-- White space in front of a text does not change its fields. -/
theorem fields_space_append {space : Text} (h : IsSpace space) (rest : Text) :
    fields (space ++ rest) = fields rest := by
  obtain ⟨spaces, hspaces, hfront, -⟩ := h.glyphs_append
  rw [fields_eq, hfront, fieldsOf_spaces_append hspaces, fields_eq]

/-- White space behind a text does not change its fields. -/
theorem fields_append_space {space : Text} (h : IsSpace space) (text : Text) :
    fields (text ++ space) = fields text := by
  obtain ⟨spaces, hspaces, -, hback⟩ := h.glyphs_append
  rw [fields_eq, hback, fieldsOf, splitGlyphs_append_spaces hspaces]
  rfl

/-- A text is at its end or goes on with white space. -/
def EndsWord (text : Text) : Prop :=
  ∃ space rest, text = space ++ rest ∧ IsSpace space ∧ (space = [] → rest = [])

theorem IsSpace.endsWord {space : Text} (h : IsSpace space) : EndsWord space :=
  ⟨space, [], (List.append_nil space).symm, h, fun _ => rfl⟩

/-- A word ends in front of white space, whatever stands behind this. -/
theorem IsSpace.endsWord_append {space : Text} (h : IsSpace space) (hne : space ≠ [])
    (rest : Text) : EndsWord (space ++ rest) :=
  ⟨space, rest, rfl, h, fun hnil => absurd hnil hne⟩

/-- Where a word ends, nothing is left of the field. -/
private theorem splitGlyphs_of_endsWord {text : Text} (h : EndsWord text) :
    splitGlyphs (Utf8.glyphs text) = ([], fields text) := by
  obtain ⟨space, rest, rfl, hspace, hend⟩ := h
  cases hspace with
  | nil =>
    rw [hend rfl]
    rfl
  | cons hc hspace =>
    have hscalar := isScalar_of_isSpaceCode hc
    rw [fields_eq, List.append_assoc, Utf8.glyphs_encode hscalar, fieldsOf,
      splitGlyphs_cons_of_isSpace (by simpa using hc)]
    rfl

/-- A word and what follows it after white space. -/
theorem fields_word_append {word rest : Text} (hne : word ≠ []) (hword : ∀ b ∈ word, isInk b = true)
    (hrest : EndsWord rest) : fields (word ++ rest) = word :: fields rest := by
  have hsplit : splitGlyphs (Utf8.glyphs (word ++ rest)) = (word, fields rest) := by
    clear hne
    induction word with
    | nil => exact splitGlyphs_of_endsWord hrest
    | cons b more ih =>
      obtain ⟨hascii, hink⟩ := isInk_iff.mp (hword b List.mem_cons_self)
      rw [List.cons_append, Utf8.glyphs_cons_ascii hascii,
        splitGlyphs_cons_of_not_isSpace (by simpa using hink),
        ih fun c hc => hword c (List.mem_cons_of_mem _ hc)]
      rfl
  rw [fields_eq, fieldsOf, hsplit, if_neg (by simpa using hne)]

/-! ## Stripping -/

/-- Dropping stops at the first byte that is not of the class. -/
private theorem dropWhile_append_of_head {p : UInt8 → Bool} {l c : Text} (hl : ∀ b ∈ l, p b = true)
    (hc : ∀ b ∈ c.head?, p b = false) : (l ++ c).dropWhile p = c := by
  rw [List.dropWhile_append_of_pos hl]
  cases c with
  | nil => rfl
  | cons b rest => rw [List.dropWhile_cons_of_neg (by simpa using hc b rfl)]

/-- Stripping removes the two ends and keeps what lies between them. -/
theorem stripWhile_append {p : UInt8 → Bool} {l c r : Text} (hl : ∀ b ∈ l, p b = true)
    (hr : ∀ b ∈ r, p b = true) (hne : c ≠ []) (hhead : ∀ b ∈ c.head?, p b = false)
    (hlast : ∀ b ∈ c.getLast?, p b = false) : stripWhile p (l ++ (c ++ r)) = c := by
  have hdrop : (l ++ (c ++ r)).dropWhile p = c ++ r := by
    obtain ⟨a, rest, rfl⟩ := List.exists_cons_of_ne_nil hne
    exact dropWhile_append_of_head hl hhead
  have hreverse : (r.reverse ++ c.reverse).dropWhile p = c.reverse :=
    dropWhile_append_of_head (fun b hb => hr b (List.mem_reverse.mp hb))
      (by simpa [List.head?_reverse] using hlast)
  rw [stripWhile, dropRightWhile, hdrop, List.reverse_append, hreverse, List.reverse_reverse]

/-! ## Trimming -/

/-- White space in front of a text is trimmed. -/
theorem trim_space_append {space : Text} (h : IsSpace space) (text : Text) :
    trim (space ++ text) = trim text := by
  obtain ⟨spaces, hspaces, hfront, -⟩ := h.glyphs_append
  rw [trim, hfront, List.dropWhile_append_of_pos hspaces, trim]

/-- White space behind a text is trimmed. -/
theorem trim_append_space {space : Text} (h : IsSpace space) (text : Text) :
    trim (text ++ space) = trim text := by
  obtain ⟨spaces, hspaces, -, hback⟩ := h.glyphs_append
  have hreverse : ∀ g ∈ spaces.reverse, g.isSpace = true := fun g hg =>
    hspaces g (List.mem_reverse.mp hg)
  rw [trim, hback, List.dropWhile_append, trim]
  split
  · -- nothing but white space
    rename_i hempty
    have hnone : (spaces ++ []).dropWhile Glyph.isSpace = [] :=
      List.dropWhile_append_of_pos hspaces
    rw [List.append_nil] at hnone
    rw [List.isEmpty_iff.mp hempty, hnone]
  · rw [List.reverse_append, List.dropWhile_append_of_pos hreverse]

/-- Nothing is left of white space when it is trimmed. -/
theorem trim_space {space : Text} (h : IsSpace space) : trim space = [] :=
  trim_append_space h []

/-- Nothing is left of blanks either. -/
theorem trim_blanks {blanks : Text} (h : ∀ b ∈ blanks, isBlank b = true) : trim blanks = [] :=
  trim_space (isSpace_of_isBlank h)

/-- The glyphs of white space in a text are white space together. -/
private theorem isSpace_flatMap_bytes (text : Text) {spaces : List Glyph}
    (h : ∀ g ∈ spaces, g ∈ Utf8.glyphs text ∧ g.isSpace = true) :
    IsSpace (spaces.flatMap Glyph.bytes) := by
  induction spaces with
  | nil => exact .nil
  | cons g more ih =>
    obtain ⟨⟨hmem, hg⟩, hmore⟩ := List.forall_mem_cons.mp h
    rcases Utf8.glyph_cases hmem with ⟨c, -, rfl⟩ | hnone
    · exact .cons hg (ih hmore)
    · simp [Glyph.isSpace, hnone] at hg

/-- A text that begins with ink keeps everything up to its last ink when it is trimmed, and loses
white space only. -/
theorem exists_trim_append {front rest : Text} {b : UInt8}
    (hfront : ∀ a ∈ (front ++ [b]).head?, isInk a = true) (hb : isInk b = true) :
    ∃ kept space, rest = kept ++ space ∧ IsSpace space ∧
      trim (front ++ b :: rest) = front ++ b :: kept := by
  obtain ⟨hascii, hink⟩ := isInk_iff.mp hb
  have hglyphs := Utf8.glyphs_append_ascii hascii front rest
  -- the first glyph is ink, so nothing is lost in front
  have hhead : (Utf8.glyphs (front ++ b :: rest)).dropWhile Glyph.isSpace =
      Utf8.glyphs (front ++ b :: rest) := by
    cases front with
    | nil =>
      rw [List.nil_append, Utf8.glyphs_cons_ascii hascii]
      exact List.dropWhile_cons_of_neg (by simpa using hink)
    | cons a front =>
      obtain ⟨hascii', hink'⟩ := isInk_iff.mp (hfront a rfl)
      rw [List.cons_append, Utf8.glyphs_cons_ascii hascii']
      exact List.dropWhile_cons_of_neg (by simpa using hink')
  let spaces := (Utf8.glyphs rest).reverse.takeWhile Glyph.isSpace
  let others := (Utf8.glyphs rest).reverse.dropWhile Glyph.isSpace
  have hsplit : Utf8.glyphs rest = others.reverse ++ spaces.reverse := by
    rw [← List.reverse_append, List.takeWhile_append_dropWhile, List.reverse_reverse]
  refine ⟨others.reverse.flatMap Glyph.bytes, spaces.reverse.flatMap Glyph.bytes, ?_, ?_, ?_⟩
  · rw [← List.flatMap_append, ← hsplit, Utf8.flatMap_bytes_glyphs]
  · refine isSpace_flatMap_bytes rest fun g hg => ⟨?_, ?_⟩
    · rw [hsplit]
      exact List.mem_append_right _ hg
    · exact List.all_eq_true.mp List.all_takeWhile g (List.mem_reverse.mp hg)
  · have hback : (Utf8.glyphs (front ++ b :: rest)).reverse.dropWhile Glyph.isSpace =
        others ++ ⟨[b], some b.toNat⟩ :: (Utf8.glyphs front).reverse := by
      rw [hglyphs, List.reverse_append, List.reverse_cons, List.append_assoc,
        List.singleton_append, List.dropWhile_append]
      split
      · rename_i hempty
        rw [show others = [] from List.isEmpty_iff.mp hempty]
        exact List.dropWhile_cons_of_neg (by simpa using hink)
      · rfl
    rw [trim, hhead, hback, List.reverse_append, List.reverse_cons, List.reverse_reverse,
      List.append_assoc, List.singleton_append, List.flatMap_append, List.flatMap_cons,
      Utf8.flatMap_bytes_glyphs]
    rfl

/-- A text that begins and ends with ink is left as it is. -/
theorem trim_of_ink {text : Text} (hne : text ≠ []) (hhead : ∀ b ∈ text.head?, isInk b = true)
    (hlast : ∀ b ∈ text.getLast?, isInk b = true) : trim text = text := by
  obtain ⟨front, b, rfl⟩ : ∃ front b, text = front ++ [b] :=
    ⟨_, _, (List.dropLast_concat_getLast hne).symm⟩
  obtain ⟨kept, space, hnil, -, htrim⟩ :=
    @exists_trim_append front [] b hhead (hlast b (by simp))
  rw [htrim, (List.append_eq_nil_iff.mp hnil.symm).1]

/-- No glyph of the text is white space. -/
def IsSpaceless (text : Text) : Prop :=
  ∀ g ∈ Utf8.glyphs text, g.isSpace = false

instance (text : Text) : Decidable (IsSpaceless text) :=
  inferInstanceAs (Decidable (∀ g ∈ Utf8.glyphs text, g.isSpace = false))

/-- There is nothing to trim where there is no white space. -/
theorem IsSpaceless.trim_eq {text : Text} (h : IsSpaceless text) : trim text = text := by
  have hkeep : ∀ glyphs : List Glyph, (∀ g ∈ glyphs, g.isSpace = false) →
      glyphs.dropWhile Glyph.isSpace = glyphs := by
    intro glyphs hglyphs
    cases glyphs with
    | nil => rfl
    | cons g more =>
      exact List.dropWhile_cons_of_neg (by simpa using hglyphs g List.mem_cons_self)
  rw [trim, hkeep _ h, hkeep _ fun g hg => h g (List.mem_reverse.mp hg), List.reverse_reverse,
    Utf8.flatMap_bytes_glyphs]

/-- White space does not reach across an ASCII character. -/
theorem isSpaceless_append_ascii_iff {a : UInt8} (ha : isInk a = true) {text rest : Text} :
    IsSpaceless (text ++ a :: rest) ↔ IsSpaceless text ∧ IsSpaceless rest := by
  obtain ⟨hascii, hink⟩ := isInk_iff.mp ha
  simp only [IsSpaceless, Utf8.glyphs_append_ascii hascii, List.forall_mem_append,
    List.forall_mem_cons, Glyph.isSpace_some, hink, true_and]

/-- Trimming removes the white space around a text that begins and ends with ink. -/
theorem trim_space_append_space {before text after : Text} (hbefore : IsSpace before)
    (hafter : IsSpace after) (hne : text ≠ []) (hhead : ∀ b ∈ text.head?, isInk b = true)
    (hlast : ∀ b ∈ text.getLast?, isInk b = true) : trim (before ++ (text ++ after)) = text := by
  rw [trim_space_append hbefore, trim_append_space hafter, trim_of_ink hne hhead hlast]

end Text

end DependencyAudit
