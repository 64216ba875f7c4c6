import DependencyAudit.Proofs.Import.Cursor
import DependencyAudit.Proofs.Import.Scan

/-!
# What can be read from a place on

`spacedReadings` computes the outlook of every place from right to left. The outlook is a
function of the text behind the place, and each of its fields satisfies an equation that goes
from left to right. Two facts about import statements follow. A clause is read up to the `from`
in front of the specifier and not beyond, whatever comments it holds. And a text in which a byte
that fits no clause comes before any specifier has no clause at all.

## Main definitions

* `Outlook.ofText`: the outlook in front of a text.

## Main results

* `Outlook.blocked`: nothing is read up to a byte that fits no clause;
* `Outlook.clause_texts` and `Outlook.spaced_texts`: the pieces of a clause are read;
* `importStatement?_texts`: an import statement is matched as a whole.
-/

namespace DependencyAudit.Import

@[simp]
theorem Reading.grow_grow (a b : Text) (r : Reading) : (r.grow b).grow a = r.grow (a ++ b) := by
  simp [grow, Nat.add_assoc]

namespace Outlook

/-! ## The outlook in front of a text -/

private def survey (text : Text) : Outlook × Outlook × List (Option Reading) :=
  text.foldr
    (fun b (next, after, readings) =>
      let here := Outlook.extend b next after
      (here, next, here.spaced :: readings))
    (Outlook.atEnd, Outlook.atEnd, [])

/-- What can be read from the beginning of a text on. -/
def ofText (text : Text) : Outlook :=
  (survey text).1

/-- A survey keeps the outlook behind the first byte. -/
private theorem survey_after (text : Text) : (survey text).2.1 = ofText text.tail := by
  cases text <;> rfl

/-- The outlook of a text is made of those behind its first two bytes. -/
theorem ofText_cons (b : UInt8) (rest : Text) :
    ofText (b :: rest) = extend b (ofText rest) (ofText rest.tail) := by
  rw [← survey_after]
  rfl

theorem spacedReadings_cons (b : UInt8) (rest : Text) :
    spacedReadings (b :: rest) = (ofText (b :: rest)).spaced :: spacedReadings rest :=
  rfl

@[simp]
theorem ahead_ofText (text : Text) : (ofText text).ahead = text := by
  induction text with
  | nil => rfl
  | cons b rest ih => rw [ofText_cons, extend, ih]

/-! ## Equations from left to right -/

variable {b : UInt8} {rest : Text}

/-- White space in front of the source is skipped. -/
theorem source_of_isBlank (h : isBlank b = true) :
    (ofText (b :: rest)).source = (ofText rest).source.map (Reading.shift 1) := by
  simp [ofText_cons, extend, h]

/-- Without white space the source has to begin right here. -/
theorem source_of_not_isBlank (h : isBlank b = false) :
    (ofText (b :: rest)).source = fromSource? (b :: rest) := by
  simp [ofText_cons, extend, h]

/-- A byte of a clause is one more item. -/
theorem items_of_isClauseByte (h : isClauseByte b = true) :
    (ofText (b :: rest)).items = (ofText rest).clause.map (Reading.grow [b]) := by
  simp [ofText_cons, extend, h]

/-- A clause ends as soon as it can. -/
theorem clause_eq :
    (ofText (b :: rest)).clause = ((ofText (b :: rest)).source <|> (ofText (b :: rest)).items) := by
  rw [ofText_cons]
  rfl

/-- The end of the clause goes first. -/
theorem clause_of_source {text : Text} {r : Reading} (h : (ofText text).source = some r) :
    (ofText text).clause = some r := by
  cases text with
  | nil => cases h
  | cons b rest =>
    rw [clause_eq, h]
    rfl

/-- Where the clause cannot end, it goes on. -/
theorem clause_of_items {text : Text} {r : Reading} (hsource : (ofText text).source = none)
    (h : (ofText text).items = some r) : (ofText text).clause = some r := by
  cases text with
  | nil => cases h
  | cons b rest =>
    rw [clause_eq, hsource, h]
    rfl

/-- Something that needs white space finds none. -/
theorem spaced_of_not_isBlank (h : isBlank b = false) : (ofText (b :: rest)).spaced = none := by
  simp [ofText_cons, extend, h]

/-! ## Texts without a clause -/

/-- `from` and a specifier are reached through clause bytes. -/
theorem fromSource?_reaches {text : Text} {r : Reading} (h : fromSource? text = some r) :
    ∃ blanks, Reaches (Text.ofString "from" ++ blanks) text ∧ ∀ b ∈ blanks, isBlank b = true := by
  obtain ⟨c, hword, h⟩ := Option.bind_eq_some_iff.mp h
  obtain ⟨quoted, hquoted, -⟩ := Option.bind_eq_some_iff.mp h
  obtain ⟨blanks, hahead, hblank⟩ := c.blanks_sound
  have htext : text = (Text.ofString "from" ++ blanks) ++ c.blanks.ahead := by
    rw [List.append_assoc, ← hahead]
    exact Cursor.expect?_sound hword
  have hunquoted : Unquoted (Text.ofString "from" ++ blanks) :=
    unquoted_append.mpr ⟨by decide, unquoted_of_isBlank hblank⟩
  have hreaches := (Cursor.quoted?_sound hquoted).append hunquoted
  rw [List.append_nil, ← htext] at hreaches
  exact ⟨blanks, hreaches, hblank⟩

/-- A byte at which no clause can go on: it fits none, opens no comment, and is no quote with a
specifier behind it. -/
structure Blocks (b : UInt8) (rest : Text) : Prop where
  /-- The byte fits no clause. -/
  not_clause : isClauseByte b = false
  /-- The byte opens no comment. -/
  no_comment : b = Ascii.slash → ∀ c ∈ rest.head?, c ≠ Ascii.slash ∧ c ≠ Ascii.star
  /-- The byte opens no specifier. -/
  not_closes : isQuote b = true → ¬ Closes rest

/-- No source begins in front of a byte that blocks it. -/
private theorem fromSource?_of_blocks {lead : Text} (hlead : ∀ c ∈ lead, isClauseByte c = true)
    (h : Blocks b rest) : fromSource? (lead ++ b :: rest) = none := by
  refine Option.eq_none_iff_forall_ne_some.mpr fun r hr => ?_
  obtain ⟨blanks, ⟨quote, rest', htext, -, hquote, hcloses⟩, hblank⟩ := fromSource?_reaches hr
  have hfrom : ∀ c ∈ Text.ofString "from" ++ blanks, isClauseByte c = true := by
    rw [List.forall_mem_append]
    exact ⟨by decide, fun c hc => isClauseByte_of_isBlank (hblank c hc)⟩
  have hstop : (!isClauseByte quote) = true := by
    rcases isQuote_iff.mp hquote with rfl | rfl | rfl <;> decide
  obtain ⟨-, rfl, rfl⟩ := split_inj (p := fun c => !isClauseByte c) (not_class hlead)
    (not_class hfrom) (by rw [h.not_clause]; rfl) hstop htext
  exact h.not_closes hquote hcloses

/-- A byte that blocks a clause is no item of one. -/
private theorem items_of_blocks (h : Blocks b rest) : (ofText (b :: rest)).items = none := by
  simp only [ofText_cons, extend, h.not_clause, ahead_ofText]
  split
  · cases ‹false = true›
  · split
    · rename_i hslash
      simp only [Bool.and_eq_true, decide_eq_true_eq] at hslash
      exact absurd rfl (h.no_comment hslash.1 Ascii.slash hslash.2).1
    · split
      · rename_i hstar
        simp only [Bool.and_eq_true, decide_eq_true_eq] at hstar
        exact absurd rfl (h.no_comment hstar.1 Ascii.star hstar.2).2
      · rfl

/-- There is no reading at all. -/
structure Dark (o : Outlook) : Prop where
  source : o.source = none
  items : o.items = none
  clause : o.clause = none
  spaced : o.spaced = none

/-- Nothing is read through clause bytes up to a byte that blocks the way. -/
theorem blocked {lead : Text} (hlead : ∀ c ∈ lead, isClauseByte c = true) (h : Blocks b rest) :
    Dark (ofText (lead ++ b :: rest)) := by
  induction lead with
  | nil =>
    have hblank : isBlank b = false := by
      rw [Bool.eq_false_iff]
      intro hblank
      have := h.not_clause
      rw [isClauseByte_of_isBlank hblank] at this
      cases this
    have hsource : (ofText (b :: rest)).source = none := by
      rw [source_of_not_isBlank hblank]
      exact fromSource?_of_blocks hlead h
    refine ⟨hsource, items_of_blocks h, ?_, spaced_of_not_isBlank hblank⟩
    rw [List.nil_append, clause_eq, hsource, items_of_blocks h]
    rfl
  | cons a lead ih =>
    -- a clause byte only hands on what comes behind it, unless `from` begins here
    obtain ⟨ha, hlead'⟩ := List.forall_mem_cons.mp hlead
    obtain ⟨hsource', hitems', hclause', hspaced'⟩ := ih hlead'
    have hsource : (ofText (a :: (lead ++ b :: rest))).source = none := by
      cases hblank : isBlank a with
      | true => rw [source_of_isBlank hblank, hsource', Option.map_none]
      | false =>
        rw [source_of_not_isBlank hblank]
        exact fromSource?_of_blocks hlead h
    have hitems : (ofText (a :: (lead ++ b :: rest))).items = none := by
      rw [items_of_isClauseByte ha, hclause', Option.map_none]
    refine ⟨hsource, hitems, ?_, ?_⟩
    · rw [List.cons_append, clause_eq, hsource, hitems]
      rfl
    · simp [ofText_cons, extend, hsource', hitems', hspaced']

/-! ## Comments -/

/-- A line comment ends with its line. -/
theorem inLine_append {body : Text} (hbody : Ascii.newline ∉ body) {r : Reading}
    (h : (ofText rest).clause = some r) :
    (ofText (body ++ Ascii.newline :: rest)).inLine = some (r.grow (body ++ [Ascii.newline])) := by
  induction body with
  | nil => simp [ofText_cons, extend, h]
  | cons a body ih =>
    rw [List.mem_cons, not_or] at hbody
    have ha : a ≠ Ascii.newline := Ne.symm hbody.1
    rw [List.cons_append, ofText_cons]
    simp only [extend, ha, if_false, ih hbody.2]
    simp

/-- A block comment ends with its mark. -/
private theorem inBlock_append {body : Text} (hbody : Text.containsText "*/" body = false)
    {r : Reading} (h : (ofText rest).clause = some r) :
    (ofText (body ++ (Text.ofString "*/" ++ rest))).inBlock =
      some (r.grow (body ++ Text.ofString "*/")) := by
  induction body with
  | nil =>
    have hends : Text.ofString "*/" ++ rest = Ascii.star :: Ascii.slash :: rest := rfl
    rw [List.nil_append, hends, ofText_cons]
    simp [extend, h]
  | cons a body ih =>
    obtain ⟨hends, hbody⟩ := no_blockEnd hbody rest
    rw [List.cons_append, ofText_cons]
    simp only [extend, ahead_ofText, ih hbody, Bool.and_eq_true, decide_eq_true_eq, hends,
      if_false]
    simp

/-- The rest of a clause goes on behind a comment. -/
theorem items_comment (c : Comment) {r : Reading} (h : (ofText rest).clause = some r) :
    (ofText (c.text ++ rest)).items = some (r.grow c.text) := by
  have hslash : isClauseByte Ascii.slash = false := by decide
  cases c with
  | line body _ hline =>
    rw [Comment.text_line_append, ofText_cons]
    simp only [extend, hslash, ahead_ofText, List.tail_cons, inLine_append hline h]
    simp [Comment.text]
  | block body _ hclosed =>
    rw [Comment.text_block_append, ofText_cons]
    have hstar : Ascii.star ≠ Ascii.slash := by decide
    simp only [extend, hslash, ahead_ofText, List.tail_cons, inBlock_append hclosed h]
    simp [Comment.text, hstar]

/-- The rest of a clause goes on behind a piece. -/
theorem items_piece {p : Piece} (hp : Fits [p]) {r : Reading} (h : (ofText rest).clause = some r) :
    (ofText (p.text ++ rest)).items = some (r.grow p.text) := by
  cases p with
  | byte b =>
    rw [Piece.text, List.singleton_append, items_of_isClauseByte (hp b (by simp)), h]
    rfl
  | comment c => exact items_comment c h

/-! ## Clauses -/

section Clause

variable (inner : Blanks) (l : Literal) (rest : Text)

/-- `from` and a quoted specifier. -/
def ending : Text :=
  Text.ofString "from" ++ (inner.text ++ l.opening :: (l.specifier ++ l.closing :: rest))

/-- The length of `from` and a quoted specifier. -/
def endingSize : Nat :=
  6 + inner.text.length + l.specifier.length

/-- The end of a statement is read as such, with its specifier. -/
private theorem fromSource?_ending :
    fromSource? (ending inner l rest) = some ⟨[], l.specifier, endingSize inner l⟩ := by
  have hquote : ∀ t, Cursor.Stops isBlank (l.opening :: t) := by
    rintro t b ⟨⟩
    exact isBlank_of_isQuote l.opening_isQuote
  rw [fromSource?, ending, Cursor.start, Cursor.expect?_append]
  simp only [Option.bind_eq_bind, Option.bind_some]
  rw [Cursor.blanks_append inner (hquote _), Cursor.quoted?_append]
  simp only [Option.bind_some, endingSize, show (Text.ofString "from").length = 4 from rfl]
  congr 2
  omega

/-- A text that is not empty has no `from` in front of the specifier but the last one. -/
private theorem fromSource?_append {text : Text} (hne : text ≠ []) (htext : Unquoted text) :
    fromSource? (text ++ ending inner l rest) = none := by
  refine Option.eq_none_iff_forall_ne_some.mpr fun r hr => ?_
  obtain ⟨blanks, hreaches, hblank⟩ := fromSource?_reaches hr
  have hlead : Unquoted (text ++ (Text.ofString "from" ++ inner.text)) := by
    rw [unquoted_append, unquoted_append]
    exact ⟨htext, by decide, inner.unquoted⟩
  have hsplit : text ++ ending inner l rest =
      (text ++ (Text.ofString "from" ++ inner.text)) ++ l.opening :: (l.specifier ++
        l.closing :: rest) := by
    simp [ending]
  rw [hsplit] at hreaches
  obtain ⟨heq, -⟩ := hreaches.eq hlead l.opening_isQuote
  -- both texts end in `from` and white space, so they have the same length in front of these
  have hfrom : Text.ofString "from" = Text.ofString "fro" ++ [Text.byte 'm'] := rfl
  have hends : Text.ofString "fro" ++ Text.byte 'm' :: blanks =
      (text ++ Text.ofString "fro") ++ Text.byte 'm' :: inner.text := by
    simpa [hfrom] using heq
  obtain ⟨hfront, -⟩ := ink_inj hblank inner.blank (by decide) (by decide) hends
  exact hne (List.append_left_eq_self.mp hfront.symm)

/-- The specifier is in sight through white space only. -/
private theorem source_texts {pieces : List Piece} (h : Fits pieces) :
    (ofText (Piece.texts pieces ++ ending inner l rest)).source =
      if pieces.all Piece.isBlank then
        some ⟨[], l.specifier, (Piece.texts pieces).length + endingSize inner l⟩
      else none := by
  -- white space is passed, and any other piece hides the specifier
  induction pieces with
  | nil =>
    have hfrom : ∃ tail, ending inner l rest = Text.byte 'f' :: tail := ⟨_, rfl⟩
    obtain ⟨tail, htail⟩ := hfrom
    have hsource := fromSource?_ending inner l rest
    rw [htail] at hsource ⊢
    rw [Piece.texts, List.flatMap_nil, List.nil_append, source_of_not_isBlank (by decide), hsource]
    simp
  | cons p pieces ih =>
    cases hp : p.isBlank with
    | true =>
      obtain ⟨b, rfl, hb⟩ := Piece.eq_byte_of_isBlank hp
      rw [Piece.texts_cons, Piece.text, List.append_assoc, List.singleton_append,
        source_of_isBlank hb, ih (fits_cons_byte.mp h).2, List.all_cons, hp, Bool.true_and]
      split
      · simp [Reading.shift]
        omega
      · rfl
    | false =>
      obtain ⟨a, more, htext, ha⟩ := Piece.text_eq_of_not_isBlank hp
      have hsource := fromSource?_append inner l rest
        (by simp [Piece.texts_cons, htext]) (unquoted_texts h)
      rw [Piece.texts_cons, htext, List.cons_append, List.cons_append] at hsource ⊢
      rw [source_of_not_isBlank ha, hsource, List.all_cons, hp]
      rfl

/-- The pieces of a clause are read up to white space in front of `from`. -/
theorem clause_texts {pieces : List Piece} (h : Fits pieces) :
    ∃ kept trailing, pieces = kept ++ trailing ∧ trailing.all Piece.isBlank = true ∧
      (ofText (Piece.texts pieces ++ ending inner l rest)).clause =
        some ⟨Piece.texts kept, l.specifier, (Piece.texts pieces).length + endingSize inner l⟩ := by
  induction pieces with
  | nil => exact ⟨[], [], rfl, rfl, clause_of_source (source_texts inner l rest h)⟩
  | cons p pieces ih =>
    -- the clause ends as early as it can: where only white space is left
    have hsource := source_texts inner l rest h
    split at hsource
    · rename_i hall
      exact ⟨[], p :: pieces, rfl, hall, clause_of_source hsource⟩
    · obtain ⟨hp, hpieces⟩ := fits_append.mp (show Fits ([p] ++ pieces) from h)
      obtain ⟨kept, trailing, rfl, htrailing, hclause⟩ := ih hpieces
      refine ⟨p :: kept, trailing, rfl, htrailing, ?_⟩
      have hitems := items_piece hp hclause
      rw [Piece.texts_cons, List.append_assoc] at hsource ⊢
      rw [clause_of_items hsource hitems]
      simp [Reading.grow, Nat.add_assoc]

/-- After white space, the pieces of a clause are read up to white space in front of `from`. -/
theorem spaced_texts {b : UInt8} {pieces : List Piece} (hb : isBlank b = true) (h : Fits pieces)
    (hink : pieces.all Piece.isBlank = false) :
    ∃ lead kept trailing, pieces = lead ++ (kept ++ trailing) ∧
      lead.all Piece.isBlank = true ∧ trailing.all Piece.isBlank = true ∧
      (ofText (b :: (Piece.texts pieces ++ ending inner l rest))).spaced =
        some ⟨Piece.texts kept, l.specifier,
          1 + (Piece.texts pieces).length + endingSize inner l⟩ := by
  -- by induction on the pieces: blanks are skipped, and the clause begins at the first other piece
  induction pieces generalizing b with
  | nil => cases hink
  | cons p pieces ih =>
    obtain ⟨hp, hpieces⟩ := fits_append.mp (show Fits ([p] ++ pieces) from h)
    cases hblank : p.isBlank with
    | true =>
      obtain ⟨c, rfl, hc⟩ := Piece.eq_byte_of_isBlank hblank
      rw [List.all_cons, hblank, Bool.true_and] at hink
      obtain ⟨lead, kept, trailing, rfl, hlead, htrailing, hspaced⟩ := ih hc hpieces hink
      refine ⟨Piece.byte c :: lead, kept, trailing, rfl, ?_, htrailing, ?_⟩
      · rw [List.all_cons, hblank, hlead]
        rfl
      · rw [ofText_cons]
        simp only [extend, ahead_ofText, hb, if_true]
        simp [Piece.text, hc, hspaced, Reading.shift]
        omega
    | false =>
      obtain ⟨kept, trailing, rfl, htrailing, hclause⟩ := clause_texts inner l rest hpieces
      obtain ⟨a, more, htext, ha⟩ := Piece.text_eq_of_not_isBlank hblank
      have hitems := items_piece hp hclause
      refine ⟨[], p :: kept, trailing, rfl, rfl, htrailing, ?_⟩
      rw [ofText_cons]
      simp only [extend, ahead_ofText, hb, if_true, Piece.texts_cons, List.append_assoc, hitems]
      simp [htext, ha, Reading.shift, Reading.grow]
      omega

end Clause

end Outlook

/-! ## Import statements -/

/-- What is matched as an import statement in front of a text. -/
def importAt? (text : Text) : Option ((Text × Text) × Nat) :=
  importStatement? text (spacedReadings text)

/-- An import statement is what the outlook behind its keyword says. -/
theorem importAt?_append (rest : Text) :
    importAt? (Text.ofString "import" ++ rest) =
      (Outlook.ofText rest).spaced.map fun r => ((r.clause, r.specifier), r.size + 6) := by
  have hstarts : Text.startsWith (Text.ofString "import" ++ rest) "import" = true :=
    List.isPrefixOf_iff_prefix.mpr (List.prefix_append _ _)
  have hdrop : (spacedReadings (Text.ofString "import" ++ rest)).drop 6 = spacedReadings rest := rfl
  rw [importAt?, importStatement?, if_pos hstarts, hdrop]
  cases rest with
  | nil => rfl
  | cons b rest =>
    rw [Outlook.spacedReadings_cons]
    cases (Outlook.ofText (b :: rest)).spaced <;> rfl

/-- A match begins with its keyword. -/
theorem importAt?_sound {text : Text} {result : (Text × Text) × Nat}
    (h : importAt? text = some result) :
    ∃ rest, text = Text.ofString "import" ++ rest ∧ (Outlook.ofText rest).spaced ≠ none := by
  have hstarts : Text.startsWith text "import" = true := by
    refine Decidable.byContradiction fun hnot => ?_
    rw [importAt?, importStatement?, if_neg hnot] at h
    cases h
  obtain ⟨rest, rfl⟩ := List.isPrefixOf_iff_prefix.mp hstarts
  refine ⟨rest, rfl, fun hnone => ?_⟩
  rw [importAt?_append, hnone] at h
  cases h

/-- An import statement is matched through its closing quote. The clause that is found lacks
white space at its ends. -/
theorem importAt?_clause (space : Space) (before : Gap) (c : Clause) (after : Gap)
    (inner : Blanks) (l : Literal) (rest : Text) :
    ∃ lead kept trailing,
      bytes space.text ++ (before.pieces ++ (c.pieces ++ after.pieces)) =
        lead ++ (kept ++ trailing) ∧
      lead.all Piece.isBlank = true ∧ trailing.all Piece.isBlank = true ∧
      importAt? ((Form.clause space before c after inner).opening ++
          l.opening :: (l.specifier ++ l.closing :: rest)) =
        some ((Piece.texts kept, l.specifier),
          ((Form.clause space before c after inner).opening ++
            l.opening :: (l.specifier ++ [l.closing])).length) := by
  obtain ⟨b, more, hspace⟩ := List.exists_cons_of_ne_nil space.ne_nil
  have hb : isBlank b = true := space.blank b (by simp [hspace])
  have hfits := fits_clause space before c after
  rw [hspace] at hfits ⊢
  have hmore : Fits (bytes more ++ (before.pieces ++ (c.pieces ++ after.pieces))) :=
    (fits_cons_byte.mp hfits).2
  -- a clause has more than blanks
  have hink : (bytes more ++ (before.pieces ++ (c.pieces ++ after.pieces))).all Piece.isBlank =
      false := by
    simp [List.all_append, c.all_isBlank_pieces]
  -- the clause is read up to the blanks in front of `from`
  obtain ⟨lead, kept, trailing, hsplit, hlead, htrailing, hspaced⟩ :=
    Outlook.spaced_texts inner l rest hb hmore hink
  refine ⟨Piece.byte b :: lead, kept, trailing, congrArg (Piece.byte b :: ·) hsplit, ?_, htrailing,
    ?_⟩
  · rw [List.all_cons, hlead, Bool.and_true]
    exact hb
  · have hopening : ∀ t, (Form.clause space before c after inner).opening ++ t =
        Text.ofString "import" ++ (b :: (Piece.texts (bytes more ++ (before.pieces ++ (c.pieces ++
          after.pieces))) ++ (Text.ofString "from" ++ (inner.text ++ t)))) := fun t => by
      simp [Form.opening, hspace, bytes, Piece.text]
    rw [hopening, hopening, importAt?_append]
    refine (congrArg _ hspaced).trans ?_
    simp [Outlook.endingSize, show (Text.ofString "import").length = 6 from rfl,
      show (Text.ofString "from").length = 4 from rfl]
    omega

/-- The readings from the right are the places from the left. -/
theorem findAll_importStatement? (text : Text) :
    findAll importStatement? text (spacedReadings text) = places importAt? text 0 false 0 :=
  findAll_eq_places importStatement? spacedReadings (fun _ _ => rfl) text

end DependencyAudit.Import
