import DependencyAudit.Text.Basic

/-!
# Splitting and cutting texts

A text is split at every separator byte and cut at the first one. The pieces hold no separator,
and a text that is put together from such pieces is split into them again.

## Main results

* `Text.splitOnByte_append`: splitting a text with a separator in it;
* `Text.splitOnByte_prepend_of_not_mem` and `Text.splitOnByte_append_of_not_mem`: a text without a
  separator in front or behind;
* `Text.splitOnByte_join`: pieces that were joined are split again;
* `Text.cutAtByte_append`: cutting a text with a separator in it.
-/

namespace DependencyAudit.Text

variable {sep : UInt8}

@[simp]
theorem splitOnByte_nil : splitOnByte sep [] = [[]] :=
  rfl

/-- A text has a piece at least. -/
theorem splitOnByte_ne_nil (text : Text) : splitOnByte sep text ≠ [] := by
  cases text with
  | nil => simp
  | cons b rest =>
    simp only [splitOnByte, List.foldr_cons]
    split
    · simp
    · split <;> simp

/-- A separator ends a piece. -/
theorem splitOnByte_cons_self (rest : Text) :
    splitOnByte sep (sep :: rest) = [] :: splitOnByte sep rest := by
  simp [splitOnByte]

/-- Any other byte is the first one of a piece. -/
theorem splitOnByte_cons_of_ne {b : UInt8} (h : b ≠ sep) (rest : Text) :
    ∃ piece more, splitOnByte sep rest = piece :: more ∧
      splitOnByte sep (b :: rest) = (b :: piece) :: more := by
  obtain ⟨piece, more, hrest⟩ := List.exists_cons_of_ne_nil (splitOnByte_ne_nil rest)
  refine ⟨piece, more, hrest, ?_⟩
  simp only [splitOnByte] at hrest
  simp [splitOnByte, List.foldr_cons, h, hrest]

/-- A text is split at a separator wherever it stands. -/
theorem splitOnByte_append (a b : Text) :
    splitOnByte sep (a ++ sep :: b) = splitOnByte sep a ++ splitOnByte sep b := by
  induction a with
  | nil => rw [List.nil_append, splitOnByte_cons_self, splitOnByte_nil, List.singleton_append]
  | cons c rest ih =>
    by_cases h : c = sep
    · subst h
      rw [List.cons_append, splitOnByte_cons_self, splitOnByte_cons_self, ih, List.cons_append]
    · obtain ⟨piece, more, hpiece, hcons⟩ := splitOnByte_cons_of_ne h rest
      obtain ⟨piece', more', hpiece', hcons'⟩ := splitOnByte_cons_of_ne h (rest ++ sep :: b)
      rw [ih, hpiece, List.cons_append] at hpiece'
      obtain ⟨rfl, rfl⟩ := List.cons.inj hpiece'
      rw [List.cons_append, hcons', hcons, List.cons_append]

/-- Without separators the text is one piece. -/
theorem splitOnByte_of_not_mem {text : Text} (h : sep ∉ text) : splitOnByte sep text = [text] := by
  induction text with
  | nil => rfl
  | cons b rest ih =>
    rw [List.mem_cons, not_or] at h
    obtain ⟨piece, more, hpiece, hcons⟩ := splitOnByte_cons_of_ne (Ne.symm h.1) rest
    rw [ih h.2] at hpiece
    obtain ⟨rfl, rfl⟩ := List.cons.inj hpiece
    exact hcons

/-- What is put in front without a separator belongs to the first piece. -/
theorem splitOnByte_prepend_of_not_mem {lead : Text} (h : sep ∉ lead) (text : Text) :
    ∃ first more, splitOnByte sep text = first :: more ∧
      splitOnByte sep (lead ++ text) = (lead ++ first) :: more := by
  induction lead with
  | nil =>
    obtain ⟨first, more, htext⟩ := List.exists_cons_of_ne_nil (splitOnByte_ne_nil text)
    exact ⟨first, more, htext, htext⟩
  | cons b lead ih =>
    rw [List.mem_cons, not_or] at h
    obtain ⟨first, more, htext, hlead⟩ := ih h.2
    obtain ⟨piece, more', hpiece, hcons⟩ := splitOnByte_cons_of_ne (Ne.symm h.1) (lead ++ text)
    obtain ⟨rfl, rfl⟩ := List.cons.inj (hlead.symm.trans hpiece)
    exact ⟨first, more, htext, hcons⟩

/-- What is appended without a separator belongs to the last piece. -/
theorem splitOnByte_append_of_not_mem {tail : Text} (h : sep ∉ tail) (text : Text) :
    ∃ front last, splitOnByte sep text = front ++ [last] ∧
      splitOnByte sep (text ++ tail) = front ++ [last ++ tail] := by
  -- by induction on the text in front, since the last piece is the one that the tail joins
  induction text with
  | nil => exact ⟨[], [], rfl, splitOnByte_of_not_mem h⟩
  | cons b rest ih =>
    obtain ⟨front, last, hrest, htail⟩ := ih
    by_cases hb : b = sep
    · subst hb
      refine ⟨[] :: front, last, ?_, ?_⟩
      · rw [splitOnByte_cons_self, hrest, List.cons_append]
      · rw [List.cons_append, splitOnByte_cons_self, htail, List.cons_append]
    · obtain ⟨piece, more, hpiece, hcons⟩ := splitOnByte_cons_of_ne hb rest
      obtain ⟨piece', more', hpiece', hcons'⟩ := splitOnByte_cons_of_ne hb (rest ++ tail)
      rw [List.cons_append, hcons, hcons']
      rw [hrest] at hpiece
      rw [htail] at hpiece'
      -- the first byte goes to the first piece, which may also be the last
      cases front with
      | nil =>
        obtain ⟨rfl, rfl⟩ := List.cons.inj hpiece
        obtain ⟨rfl, rfl⟩ := List.cons.inj hpiece'
        exact ⟨[], b :: last, rfl, rfl⟩
      | cons first front =>
        obtain ⟨rfl, rfl⟩ := List.cons.inj hpiece
        obtain ⟨rfl, rfl⟩ := List.cons.inj hpiece'
        exact ⟨(b :: first) :: front, last, rfl, rfl⟩

/-- Pieces have no separators. -/
theorem not_mem_of_mem_splitOnByte {text piece : Text} (h : piece ∈ splitOnByte sep text) :
    sep ∉ piece := by
  induction text generalizing piece with
  | nil =>
    obtain rfl := List.mem_singleton.mp h
    simp
  | cons b rest ih =>
    by_cases hb : b = sep
    · subst hb
      rw [splitOnByte_cons_self, List.mem_cons] at h
      rcases h with rfl | h
      · simp
      · exact ih h
    · obtain ⟨first, more, hfirst, hcons⟩ := splitOnByte_cons_of_ne hb rest
      rw [hcons, List.mem_cons] at h
      rcases h with rfl | h
      · rw [List.mem_cons, not_or]
        exact ⟨Ne.symm hb, ih (hfirst ▸ List.mem_cons_self)⟩
      · exact ih (hfirst ▸ List.mem_cons_of_mem _ h)

/-- The bytes of pieces are bytes of the text. -/
theorem mem_of_mem_splitOnByte {text piece : Text} {b : UInt8} (h : piece ∈ splitOnByte sep text)
    (hb : b ∈ piece) : b ∈ text := by
  induction text generalizing piece with
  | nil =>
    obtain rfl := List.mem_singleton.mp h
    exact hb
  | cons a rest ih =>
    by_cases ha : a = sep
    · subst ha
      rw [splitOnByte_cons_self, List.mem_cons] at h
      rcases h with rfl | h
      · cases hb
      · exact List.mem_cons_of_mem _ (ih h hb)
    · obtain ⟨first, more, hfirst, hcons⟩ := splitOnByte_cons_of_ne ha rest
      rw [hcons, List.mem_cons] at h
      rcases h with rfl | h
      · rcases List.mem_cons.mp hb with rfl | hb
        · exact List.mem_cons_self
        · exact List.mem_cons_of_mem _ (ih (hfirst ▸ List.mem_cons_self) hb)
      · exact List.mem_cons_of_mem _ (ih (hfirst ▸ List.mem_cons_of_mem _ h) hb)

/-- Pieces that were joined are split again. -/
theorem splitOnByte_join {pieces : List Text} (hne : pieces ≠ [])
    (h : ∀ piece ∈ pieces, sep ∉ piece) : splitOnByte sep (join [sep] pieces) = pieces := by
  induction pieces with
  | nil => exact absurd rfl hne
  | cons piece more ih =>
    obtain ⟨hpiece, hmore⟩ := List.forall_mem_cons.mp h
    cases more with
    | nil => exact splitOnByte_of_not_mem hpiece
    | cons next rest =>
      have hjoin : join [sep] (piece :: next :: rest) =
          piece ++ sep :: join [sep] (next :: rest) := by
        rw [join]
        · simp
        · simp
      rw [hjoin, splitOnByte_append, splitOnByte_of_not_mem hpiece, ih (by simp) hmore,
        List.singleton_append]

/-! ## Cutting at the first separator -/

private theorem bne_of_not_mem {text : Text} (h : sep ∉ text) : ∀ b ∈ text, (b != sep) = true := by
  intro b hb
  simpa using fun heq : b = sep => h (heq ▸ hb)

/-- Without the byte there is nothing to cut. -/
theorem cutAtByte_of_not_mem {text : Text} (h : sep ∉ text) :
    cutAtByte sep text = (text, none) := by
  have hdrop : (text ++ []).dropWhile (· != sep) = [] :=
    List.dropWhile_append_of_pos (bne_of_not_mem h)
  rw [List.append_nil] at hdrop
  rw [cutAtByte, hdrop]

/-- A text is cut at the first such byte. -/
theorem cutAtByte_append {a : Text} (h : sep ∉ a) (b : Text) :
    cutAtByte sep (a ++ sep :: b) = (a, some b) := by
  rw [cutAtByte, List.dropWhile_append_of_pos (bne_of_not_mem h),
    List.takeWhile_append_of_pos (bne_of_not_mem h)]
  simp

end DependencyAudit.Text
