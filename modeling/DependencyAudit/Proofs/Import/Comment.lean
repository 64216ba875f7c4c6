import DependencyAudit.Import.Comment

/-!
# Stripping comments

A space is written for each comment, from left to right. What becomes of a piece of text does not
depend on what stands behind it if every comment that begins in the piece also ends in it, and if
it does not end with a slash. Texts are stripped piece by piece then. A text in which no comment
begins is left as it is.

## Main definitions

* `Strips`: what becomes of a piece of text, whatever stands behind it;
* `Uncommented`: no comment begins in a text.

## Main results

* `Strips.append`: pieces are stripped one by one;
* `strips_line` and `strips_block`: a comment;
* `strips_of_uncommented`: a text without comments.
-/

namespace DependencyAudit.Import

/-! ## One comment -/

/-- A star in the body of a block comment is not followed by a slash, not even at its end. -/
theorem no_blockEnd {a : UInt8} {body : Text} (h : Text.containsText "*/" (a :: body) = false)
    (rest : Text) :
    ¬ (a = Ascii.star ∧ (body ++ (Text.ofString "*/" ++ rest)).head? = some Ascii.slash) ∧
      Text.containsText "*/" body = false := by
  rw [Text.containsText, Bool.or_eq_false_iff] at h
  refine ⟨?_, h.2⟩
  rintro ⟨rfl, hhead⟩
  cases body with
  | nil =>
    have hbytes : Ascii.star = Ascii.slash := Option.some.inj hhead
    exact absurd hbytes (by decide)
  | cons e more =>
    obtain rfl : e = Ascii.slash := Option.some.inj hhead
    exact absurd h.1 (by simp [show Text.ofString "*/" = [Ascii.star, Ascii.slash] from rfl])

/-- A line comment ends at the first newline. -/
private theorem afterLine?_append {body : Text} (h : Ascii.newline ∉ body) (rest : Text) :
    afterLine? (body ++ Ascii.newline :: rest) = some rest := by
  induction body with
  | nil => simp [afterLine?]
  | cons b body ih =>
    rw [List.mem_cons, not_or] at h
    rw [List.cons_append, afterLine?, if_neg (Ne.symm h.1), ih h.2]

/-- A block comment ends where its end mark is first. -/
private theorem afterBlock?_append {body : Text} (h : Text.containsText "*/" body = false)
    (rest : Text) : afterBlock? (body ++ (Text.ofString "*/" ++ rest)) = some rest := by
  induction body with
  | nil => rfl
  | cons b body ih =>
    obtain ⟨hends, hbody⟩ := no_blockEnd h rest
    rw [List.cons_append, afterBlock?, if_neg, ih hbody]
    rw [Bool.and_eq_true, decide_eq_true_eq, decide_eq_true_eq]
    exact hends

/-- No comment begins with another byte than a slash. -/
theorem afterComment?_of_ne_slash {b : UInt8} (h : b ≠ Ascii.slash) (rest : Text) :
    afterComment? (b :: rest) = none := by
  cases rest with
  | nil => rfl
  | cons c rest => simp [afterComment?, show b ≠ Text.byte '/' from h]

/-- A comment becomes a space. -/
private theorem stripComments_of_some {text rest : Text} (h : afterComment? text = some rest) :
    stripComments text = Ascii.space :: stripComments rest := by
  rw [stripComments]
  split
  · rename_i rest' hrest
    obtain rfl : rest' = rest := Option.some.inj (hrest.symm.trans h)
    rfl
  · rename_i hrest
    rw [h] at hrest
    cases hrest

/-- A byte at which no comment begins is kept. -/
private theorem stripComments_cons {b : UInt8} {rest : Text}
    (h : afterComment? (b :: rest) = none) :
    stripComments (b :: rest) = b :: stripComments rest := by
  rw [stripComments]
  split
  · rename_i rest' hrest
    rw [h] at hrest
    cases hrest
  · rfl

@[simp]
theorem stripComments_nil : stripComments [] = [] := by
  rw [stripComments]
  rfl

/-! ## Piece by piece -/

/-- With its comments stripped, `text` becomes `bare`, whatever stands behind it. -/
def Strips (text bare : Text) : Prop :=
  ∀ rest, stripComments (text ++ rest) = bare ++ stripComments rest

/-- A text that strips to another one does so without more text behind it. -/
theorem Strips.stripComments {text bare : Text} (h : Strips text bare) :
    stripComments text = bare := by
  have hend := h []
  rwa [List.append_nil, stripComments_nil, List.append_nil] at hend

/-- Texts that strip may be put together. -/
theorem Strips.append {u v u' v' : Text} (h : Strips u v) (h' : Strips u' v') :
    Strips (u ++ u') (v ++ v') := by
  intro rest
  rw [List.append_assoc, h, h', List.append_assoc]

/-- What holds no slash is left as it is. -/
theorem strips_of_not_mem {text : Text} (h : Ascii.slash ∉ text) : Strips text text := by
  intro rest
  induction text with
  | nil => rfl
  | cons b text ih =>
    rw [List.mem_cons, not_or] at h
    rw [List.cons_append, stripComments_cons (afterComment?_of_ne_slash (Ne.symm h.1) _), ih h.2,
      List.cons_append]

/-- Texts that strip one by one strip as a whole. -/
theorem strips_flatMap {α : Type} {f g : α → Text} (xs : List α)
    (h : ∀ x ∈ xs, Strips (f x) (g x)) : Strips (xs.flatMap f) (xs.flatMap g) := by
  induction xs with
  | nil => exact fun rest => rfl
  | cons x xs ih =>
    obtain ⟨hx, hxs⟩ := List.forall_mem_cons.mp h
    rw [List.flatMap_cons, List.flatMap_cons]
    exact hx.append (ih hxs)

/-- A line comment with its newline strips to a space. -/
theorem strips_line {body : Text} (h : Ascii.newline ∉ body) :
    Strips (Text.ofString "//" ++ (body ++ [Ascii.newline])) [Ascii.space] := by
  intro rest
  have hafter : afterComment? (Text.ofString "//" ++ (body ++ Ascii.newline :: rest)) = some rest :=
    afterLine?_append h rest
  rw [List.append_assoc, List.append_assoc, List.singleton_append, stripComments_of_some hafter]
  rfl

/-- A block comment strips to a space. -/
theorem strips_block {body : Text} (h : Text.containsText "*/" body = false) :
    Strips (Text.ofString "/*" ++ (body ++ Text.ofString "*/")) [Ascii.space] := by
  intro rest
  have hafter : afterComment? (Text.ofString "/*" ++ (body ++ (Text.ofString "*/" ++ rest))) =
      some rest :=
    afterBlock?_append h rest
  rw [List.append_assoc, List.append_assoc, stripComments_of_some hafter]
  rfl

/-! ## Texts without comments -/

/-- No comment begins in the text. -/
structure Uncommented (text : Text) : Prop where
  /-- No line comment begins. -/
  no_line : Text.containsText "//" text = false
  /-- No block comment begins. -/
  no_block : Text.containsText "/*" text = false

/-- A text without slashes has no comments. -/
theorem uncommented_of_not_mem {text : Text} (h : Ascii.slash ∉ text) : Uncommented text := by
  induction text with
  | nil => exact ⟨rfl, rfl⟩
  | cons b rest ih =>
    rw [List.mem_cons, not_or] at h
    obtain ⟨hline, hblock⟩ := ih h.2
    have hopens : ∀ second, List.isPrefixOf [Ascii.slash, second] (b :: rest) = false := by
      intro second
      simp [List.isPrefixOf, beq_false_of_ne h.1]
    refine ⟨?_, ?_⟩
    · rw [Text.containsText, Bool.or_eq_false_iff]
      exact ⟨hopens _, hline⟩
    · rw [Text.containsText, Bool.or_eq_false_iff]
      exact ⟨hopens _, hblock⟩

/-- A byte that does not make the beginning of a comment of a slash in front of it, and is not
such a slash. -/
def isInert (b : UInt8) : Bool :=
  b != Ascii.slash && b != Ascii.star

/-- What follows a byte of a text without comments has none either. -/
theorem Uncommented.tail {b : UInt8} {rest : Text} (h : Uncommented (b :: rest)) :
    Uncommented rest := by
  obtain ⟨hline, hblock⟩ := h
  rw [Text.containsText, Bool.or_eq_false_iff] at hline hblock
  exact ⟨hline.2, hblock.2⟩

/-- In a text without comments, a slash is not followed by a slash or a star. -/
theorem Uncommented.isInert_of_slash {b : UInt8} {rest : Text}
    (h : Uncommented (Ascii.slash :: b :: rest)) : isInert b = true := by
  obtain ⟨hline, hblock⟩ := h
  rw [Text.containsText, Bool.or_eq_false_iff] at hline hblock
  have hslash : b ≠ Ascii.slash := by
    rintro rfl
    exact absurd hline.1 (by simp [show Text.ofString "//" = [Ascii.slash, Ascii.slash] from rfl])
  have hstar : b ≠ Ascii.star := by
    rintro rfl
    exact absurd hblock.1 (by simp [show Text.ofString "/*" = [Ascii.slash, Ascii.star] from rfl])
  simp [isInert, hslash, hstar]

/-- A byte that is inert does not make a comment of what is in front of it. -/
private theorem afterComment?_of_isInert {a b : UInt8} (h : isInert b = true) (rest : Text) :
    afterComment? (a :: b :: rest) = none := by
  simp only [isInert, Bool.and_eq_true, bne_iff_ne] at h
  simp [afterComment?, show b ≠ Text.byte '/' from h.1, show b ≠ Text.byte '*' from h.2]

/-- A text without comments is left as it is when it goes on with something inert. -/
theorem strips_of_uncommented {text tail : Text} (h : Uncommented text) (hne : tail ≠ [])
    (htail : ∀ b ∈ tail, isInert b = true) : Strips (text ++ tail) (text ++ tail) := by
  have hslash : Ascii.slash ∉ tail := fun hmem => absurd (htail _ hmem) (by decide)
  induction text with
  | nil => exact strips_of_not_mem hslash
  | cons a text ih =>
    intro rest
    have hnone : afterComment? (a :: (text ++ tail ++ rest)) = none := by
      by_cases ha : a = Ascii.slash
      · -- what follows the slash stands in the text or at the front of the tail
        subst ha
        cases text with
        | nil =>
          obtain ⟨b, more, rfl⟩ := List.exists_cons_of_ne_nil hne
          exact afterComment?_of_isInert (htail b List.mem_cons_self) _
        | cons b more => exact afterComment?_of_isInert h.isInert_of_slash _
      · exact afterComment?_of_ne_slash ha _
    rw [List.cons_append, List.cons_append, stripComments_cons hnone, ih h.tail, List.cons_append]

end DependencyAudit.Import
