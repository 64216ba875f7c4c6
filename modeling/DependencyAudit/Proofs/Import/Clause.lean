import DependencyAudit.Proofs.Import.ClauseNames

/-!
# The names that the clause of a program binds

The clause of an import statement in a program is an import clause without modifiers. It is found
without the white space at its ends, and this does not matter.

## Main definitions

* `bare`: a clause with a space for each comment;
* `Clause.body`: a clause as an import clause.

## Main results

* `strips_texts`: comments are stripped one by one;
* `clauseNames_texts`: the names of a clause, for any white space left out at its ends.
-/

namespace DependencyAudit.Import

/-! ## Comments -/

/-- The bytes of a clause, with a space for each comment. -/
def Piece.bare : Piece → UInt8
  | byte b => b
  | comment _ => Ascii.space

/-- A clause with a space for each comment. -/
def bare (pieces : List Piece) : Text :=
  pieces.map Piece.bare

@[simp]
theorem bare_append (p q : List Piece) : bare (p ++ q) = bare p ++ bare q :=
  List.map_append

@[simp]
theorem bare_cons (p : Piece) (q : List Piece) : bare (p :: q) = p.bare :: bare q :=
  rfl

@[simp]
theorem bare_bytes (text : Text) : bare (bytes text) = text := by
  rw [bare, bytes, List.map_map]
  exact List.map_id text

theorem texts_bytes (text : Text) : Piece.texts (bytes text) = text := by
  induction text with
  | nil => rfl
  | cons b rest ih => exact congrArg (b :: ·) ih

/-- Comments are stripped one by one. -/
theorem strips_texts {pieces : List Piece} (h : ∀ b, Piece.byte b ∈ pieces → b ≠ Ascii.slash) :
    Strips (Piece.texts pieces) (bare pieces) := by
  rw [bare, List.map_eq_flatMap]
  refine strips_flatMap pieces fun p hp => ?_
  cases p with
  | byte b => exact strips_of_not_mem (by simpa [Piece.text] using (h b hp).symm)
  | comment c =>
    cases c with
    | line body _ hline => exact strips_line hline
    | block body _ hclosed => exact strips_block hclosed

/-! ## Clauses of programs -/

/-- A piece of a gap as a filler. -/
def Piece.toFiller : (p : Piece) → p.isFiller = true → Filler
  | byte b, h => .space b.toNat (isSpaceCode_of_isBlank h)
  | comment (.line body _ hline), _ => .line body hline
  | comment (.block body _ hclosed), _ => .block body hclosed

/-- A filler piece has the same bare text as its filler. -/
theorem Piece.bare_toFiller (p : Piece) (h : p.isFiller = true) :
    (p.toFiller h).bare = [p.bare] := by
  cases p with
  | byte b => exact Utf8.encode_one (UInt8.lt_iff_toNat_lt.mp (ascii_of_isBlank h))
  | comment c => cases c <;> rfl

namespace Gap

def fillers (g : Gap) : List Filler :=
  g.pieces.pmap Piece.toFiller g.filler

/-- The fillers of a gap have the bare text of the gap. -/
theorem bares_fillers (g : Gap) : Token.bares (fill g.fillers) = bare g.pieces := by
  obtain ⟨pieces, hfiller⟩ := g
  induction pieces with
  | nil => rfl
  | cons p pieces ih =>
    have hmore := ih fun q hq => hfiller q (List.mem_cons_of_mem _ hq)
    exact congrArg₂ (· ++ ·) (p.bare_toFiller _) hmore

/-- A gap is void: blanks and comments only. -/
theorem isVoid (g : Gap) : IsVoid (bare g.pieces) :=
  g.bares_fillers ▸ isVoid_fill g.fillers

end Gap

def WideGap.divider (g : WideGap) : Divider where
  fillers := g.fillers
  ne_nil := by simpa [Gap.fillers] using g.ne_nil

namespace Slot

/-- An element of a program has no modifier. -/
def importElement (s : Slot) : ImportElement :=
  match s.element with
  | .plain name => ⟨s.before.fillers, none, name, none, s.after.fillers⟩
  | .renamed name before after localName =>
    ⟨s.before.fillers, none, name, some ⟨before.divider, after.divider, localName⟩,
      s.after.fillers⟩

/-- The tokens of an element have the bare text of the slot. -/
theorem bares_importElement (s : Slot) : Token.bares s.importElement.tokens = bare s.pieces := by
  cases he : s.element with
  | plain name =>
    simp [importElement, ImportElement.tokens, pieces, Element.pieces, he, Gap.bares_fillers,
      Token.bare, Token.text]
  | renamed name before after localName =>
    simp [importElement, ImportElement.tokens, pieces, Element.pieces, he, Gap.bares_fillers,
      Token.bare, Token.text, Alias.tokens, WideGap.divider, asName]

theorem binds_importElement (s : Slot) : s.importElement.binds = s.element.binds := by
  cases he : s.element <;> simp [importElement, he, ImportElement.binds, Element.binds]

theorem isReadable_importElement (s : Slot) :
    s.importElement.isReadable false = s.element.isReadable := by
  cases he : s.element <;>
    simp [importElement, he, ImportElement.isReadable, Element.isReadable, typeName, asName]

end Slot

/-- The tokens of a listing have the bare text of the listing. -/
theorem bare_write (l : Listing Slot) :
    Token.bares ((l.map Slot.importElement).write Token.comma ImportElement.tokens) =
      bare (l.write (Piece.byte Ascii.comma) Slot.pieces) := by
  obtain ⟨items, last⟩ := l
  induction items with
  | nil => cases last <;> simp [Listing.map, Listing.write, Slot.bares_importElement]; rfl
  | cons s items ih =>
    simpa [Listing.map, Listing.write, Piece.bare, Slot.bares_importElement, Token.bare,
      Token.text] using ih

namespace Group

def importGroup : Group → ImportGroup
  | braces elements inner => .named (elements.map Slot.importElement) inner.fillers
  | star before after name => .star before.divider after.divider name

/-- The tokens of a group have the bare text of the group. -/
theorem bares_importGroup (g : Group) : Token.bares g.importGroup.tokens = bare g.pieces := by
  cases g with
  | braces elements inner =>
    simp [importGroup, ImportGroup.tokens, pieces, bare_write, Gap.bares_fillers, Token.bare,
      Token.text, Piece.bare]
    rfl
  | star before after name =>
    simp [importGroup, ImportGroup.tokens, pieces, Gap.bares_fillers, Token.bare, Token.text,
      Piece.bare, WideGap.divider, asName]

/-- A group binds the same names in both grammars. -/
theorem names_importGroup (g : Group) : g.importGroup.names = g.names := by
  cases g with
  | braces elements inner =>
    simp [importGroup, ImportGroup.names, names, Listing.toList_map, Slot.binds_importElement]
  | star before after name => rfl

/-- A group is readable in both grammars, or in neither. -/
theorem isReadable_importGroup (g : Group) : g.importGroup.isReadable false = g.isReadable := by
  cases g with
  | braces elements inner =>
    have hall : (ImportElement.isReadable false ∘ Slot.importElement) = (·.element.isReadable) :=
      funext Slot.isReadable_importElement
    simp only [importGroup, ImportGroup.isReadable, isReadable, Listing.toList_map]
    cases elements.toList with
    | nil => rfl
    | cons first more =>
      simp only [List.map_cons, List.all_cons, List.all_map, hall, Slot.isReadable_importElement]
  | star before after name => rfl

end Group

namespace Clause

/-- A clause of a program as an import clause. -/
def body : Clause → ImportBody
  | default name => .default name
  | group g => .group g.importGroup
  | both name before after g => .both name before.fillers after.fillers g.importGroup

/-- The tokens of a clause have the bare text of the clause. -/
theorem bares_body (c : Clause) : Token.bares c.body.tokens = bare c.pieces := by
  cases c with
  | default name => simp [body, ImportBody.tokens, pieces, Token.bare, Token.text]
  | group g => exact g.bares_importGroup
  | both name before after g =>
    simp [body, ImportBody.tokens, pieces, Gap.bares_fillers, Group.bares_importGroup, Token.bare,
      Token.text, Piece.bare]

/-- A clause binds the same names in both grammars. -/
theorem names_body (c : Clause) : c.body.names = c.names := by
  cases c with
  | default name => rfl
  | group g => exact g.names_importGroup
  | both name before after g => exact congrArg (name.text :: ·) g.names_importGroup

/-- A clause is readable in both grammars, or in neither. -/
theorem isReadable_body (c : Clause) : c.body.isReadable false = c.isReadable := by
  cases c with
  | default name => rfl
  | group g => exact g.isReadable_importGroup
  | both name before after g => exact g.isReadable_importGroup

/-- Of a readable clause all the names are found. -/
theorem elementNames_bare (c : Clause) (hc : c.isReadable = true) :
    elementNames (bare c.pieces) = c.names := by
  have hbody := (@elementNames_body none c.body nofun).mpr (c.isReadable_body.trans hc)
  rwa [c.bares_body, c.names_body] at hbody

end Clause

/-- The clause that is found between `import` and `from` binds the names that were written,
though it lacks the white space at its ends. -/
theorem clauseNames_texts (space : Space) (before : Gap) {c : Clause} (hc : c.isReadable = true)
    (after : Gap) {lead kept trailing : List Piece}
    (h : bytes space.text ++ (before.pieces ++ (c.pieces ++ after.pieces)) =
      lead ++ (kept ++ trailing))
    (hlead : lead.all Piece.isBlank = true) (htrailing : trailing.all Piece.isBlank = true) :
    clauseNames (Piece.texts kept) = c.names := by
  -- what is kept still consists of bytes of clauses
  have hfits : Fits kept := by
    have hall := fits_clause space before c after
    rw [h] at hall
    exact (fits_append.mp (fits_append.mp hall).2).1
  have hvoid : ∀ {pieces : List Piece}, pieces.all Piece.isBlank = true → IsVoid (bare pieces) := by
    refine fun hpieces => isVoid_of_isBlank fun b hb => ?_
    obtain ⟨p, hp, rfl⟩ := List.mem_map.mp hb
    obtain ⟨b, rfl, hblank⟩ := Piece.eq_byte_of_isBlank (List.all_eq_true.mp hpieces p hp)
    exact hblank
  have hstrips := strips_texts fun b hb => ne_of_class (hfits b hb) (by decide)
  -- without its comments the clause has the same elements, and blanks at its ends add none
  calc clauseNames (Piece.texts kept)
      = elementNames (bare kept) := by rw [clauseNames_eq, hstrips.stripComments]
    _ = elementNames (bare lead ++ (bare kept ++ bare trailing)) := by
        rw [elementNames_void_append (hvoid hlead), elementNames_append_void (hvoid htrailing)]
    _ = elementNames (space.text ++ (bare before.pieces ++
          (bare c.pieces ++ bare after.pieces))) := by
        rw [← bare_append, ← bare_append, ← h]
        simp
    _ = elementNames (bare c.pieces) := by
        rw [elementNames_void_append (isVoid_of_isBlank space.blank),
          elementNames_void_append before.isVoid, elementNames_append_void after.isVoid]
    _ = c.names := c.elementNames_bare hc

end DependencyAudit.Import
