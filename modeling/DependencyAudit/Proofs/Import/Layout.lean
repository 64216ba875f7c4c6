import DependencyAudit.Proofs.Import.Comment
import DependencyAudit.Proofs.Import.Program
import DependencyAudit.Proofs.Text.Blank

/-!
# The bytes of a program

Which bytes the parts of a statement are made of. Matching depends on this at every turn: a
clause is a run of clause bytes and comments, a pattern has no brace inside, and the first quote
character of a statement is the one in front of its specifier.

## Main definitions

* `isPatternByte`: the bytes of the elements of an object pattern;
* `Unquoted`: a text without quote characters.

## Main results

* `Clause.isClauseByte_of_mem`: the bytes of a clause;
* `Target.text_bytes`: the bytes of a target;
* `Statement.unquoted_opening` and `Statement.unquoted_closing`: only the specifier is quoted.
-/

namespace DependencyAudit.Import

/-! ## Classes of bytes -/

/-- The quote characters are the single and the double quote and the backtick. -/
theorem isQuote_iff {b : UInt8} : isQuote b = true ↔ b = 39 ∨ b = 34 ∨ b = 96 := by
  simp [isQuote, or_assoc]

/-- A class that holds none of the three quote characters. -/
theorem isQuote_eq_false {p : UInt8 → Bool} (h₁ : p 39 = false) (h₂ : p 34 = false)
    (h₃ : p 96 = false) {b : UInt8} (h : p b = true) : isQuote b = false := by
  rw [Bool.eq_false_iff]
  intro hquote
  rcases isQuote_iff.mp hquote with rfl | rfl | rfl
  · exact absurd h (Bool.eq_false_iff.mp h₁)
  · exact absurd h (Bool.eq_false_iff.mp h₂)
  · exact absurd h (Bool.eq_false_iff.mp h₃)

/-- White space is no quote. -/
theorem isQuote_of_isBlank {b : UInt8} (h : isBlank b = true) : isQuote b = false :=
  isQuote_eq_false (by decide) (by decide) (by decide) h

/-- A quote is no white space. -/
theorem isBlank_of_isQuote {b : UInt8} (h : isQuote b = true) : isBlank b = false := by
  rcases isQuote_iff.mp h with rfl | rfl | rfl <;> decide

/-- No name holds white space. -/
theorem isNameByte_of_isBlank {b : UInt8} (h : isBlank b = true) : isNameByte b = false := by
  rcases isBlank_iff.mp h with rfl | rfl | rfl | rfl | rfl <;> decide

theorem isBlank_of_isNameByte {b : UInt8} (h : isNameByte b = true) : isBlank b = false := by
  rw [Bool.eq_false_iff]
  intro hblank
  rw [isNameByte_of_isBlank hblank] at h
  cases h

/-- The bytes of names are ASCII characters that are no white space of any kind. -/
theorem isInk_of_isNameByte {b : UInt8} (h : isNameByte b = true) : isInk b = true := by
  have hbounds : 36 ≤ b.toNat ∧ b.toNat ≤ 122 := by
    simp only [isNameByte, isWordByte, Text.isLetter, Text.isUpper, Text.isLower, Text.isDigit,
      Bool.or_eq_true, Bool.and_eq_true, decide_eq_true_eq, UInt8.le_iff_toNat_le,
      ← UInt8.toNat_inj] at h
    change ((((65 ≤ _ ∧ _ ≤ 90) ∨ (97 ≤ _ ∧ _ ≤ 122)) ∨ (48 ≤ _ ∧ _ ≤ 57)) ∨ _ = 95) ∨ _ = 36 at h
    omega
  rw [isInk_iff, UInt8.lt_iff_toNat_lt]
  refine ⟨show b.toNat < 128 by omega, ?_⟩
  simp only [isSpaceCode, Bool.or_eq_false_iff, Bool.and_eq_false_iff, decide_eq_false_iff_not]
  omega

/-- No name holds a quote. -/
theorem isQuote_of_isNameByte {b : UInt8} (h : isNameByte b = true) : isQuote b = false :=
  isQuote_eq_false (by decide) (by decide) (by decide) h

/-- No specifier holds a quote, so it ends at the first one. -/
theorem isQuote_of_isSpecifierByte {b : UInt8} (h : isSpecifierByte b = true) :
    isQuote b = false :=
  isQuote_eq_false (by decide) (by decide) (by decide) h

/-- A byte of one class is none of another. -/
theorem ne_of_class {p : UInt8 → Bool} {b c : UInt8} (hb : p b = true) (hc : p c = false) :
    b ≠ c := by
  rintro rfl
  rw [hb] at hc
  cases hc

/-- The bytes of a class are not in its complement. -/
theorem not_class {p : UInt8 → Bool} {text : Text} (h : ∀ b ∈ text, p b = true) :
    ∀ b ∈ text, (!p b) = false := fun b hb => by
  rw [h b hb]
  rfl

/-- A byte that does not occur, as a class. -/
theorem beq_of_not_mem {a : UInt8} {text : Text} (h : a ∉ text) :
    ∀ b ∈ text, (b == a) = false := fun b hb => by
  simpa using fun heq : b = a => h (heq ▸ hb)

/-- Two ways to split a text at the first byte of a class are the same. -/
theorem split_inj {p : UInt8 → Bool} {u v r s : Text} {a b : UInt8} (hu : ∀ c ∈ u, p c = false)
    (hv : ∀ c ∈ v, p c = false) (ha : p a = true) (hb : p b = true)
    (h : u ++ a :: r = v ++ b :: s) : u = v ∧ a = b ∧ r = s := by
  induction u generalizing v with
  | nil =>
    cases v with
    | nil => exact ⟨rfl, List.cons.inj h⟩
    | cons c v =>
      obtain ⟨rfl, -⟩ := List.cons.inj h
      exact absurd (hv a List.mem_cons_self) (by simp [ha])
  | cons c u ih =>
    cases v with
    | nil =>
      obtain ⟨rfl, -⟩ := List.cons.inj h
      exact absurd (hu c List.mem_cons_self) (by simp [hb])
    | cons d v =>
      obtain ⟨rfl, hmore⟩ := List.cons.inj h
      obtain ⟨rfl, heq⟩ := ih (fun c hc => hu c (List.mem_cons_of_mem _ hc))
        (fun c hc => hv c (List.mem_cons_of_mem _ hc)) hmore
      exact ⟨rfl, heq⟩

/-- A text without bytes of a class ends in front of the first such byte. -/
theorem lead_of_class {p : UInt8 → Bool} {u v rest tail : Text} {a : UInt8}
    (hu : ∀ c ∈ u, p c = false) (ha : p a = true) (h : u ++ tail = v ++ a :: rest) :
    ∃ more, v = u ++ more ∧ tail = more ++ a :: rest := by
  rcases List.append_eq_append_iff.mp h with ⟨more, hv, htail⟩ | ⟨c, hu', htail⟩
  · exact ⟨more, hv, htail⟩
  · cases c with
    | nil => exact ⟨[], by simpa using hu'.symm, by simpa using htail.symm⟩
    | cons d c =>
      obtain ⟨rfl, -⟩ := List.cons.inj htail
      rw [hu a (by simp [hu'])] at ha
      cases ha

/-- A text lies in front of the first byte of a class, or it goes on behind this byte. -/
theorem split_lead {p : UInt8 → Bool} {u v r s : Text} {a : UInt8} (hu : ∀ c ∈ u, p c = false)
    (h : u ++ a :: r = v ++ s) :
    (∀ c ∈ v, p c = false) ∨ ∃ more, v = u ++ a :: more ∧ r = more ++ s := by
  rcases List.append_eq_append_iff.mp h with ⟨more, rfl, hmore⟩ | ⟨c, rfl, -⟩
  · cases more with
    | nil => exact Or.inl (by simpa using hu)
    | cons d more =>
      obtain ⟨rfl, rfl⟩ := List.cons.inj hmore
      exact Or.inr ⟨more, rfl, rfl⟩
  · exact Or.inl fun d hd => hu d (List.mem_append_left _ hd)

/-- Two ways to split a text at its last byte that is no white space are the same. -/
theorem ink_inj {u v r s : Text} {a b : UInt8} (hr : ∀ c ∈ r, isBlank c = true)
    (hs : ∀ c ∈ s, isBlank c = true) (ha : isBlank a = false) (hb : isBlank b = false)
    (h : u ++ a :: r = v ++ b :: s) : u = v ∧ a = b ∧ r = s := by
  have hreverse : r.reverse ++ a :: u.reverse = s.reverse ++ b :: v.reverse := by
    simpa using congrArg List.reverse h
  have hink : ∀ {t : Text}, (∀ c ∈ t, isBlank c = true) →
      ∀ c ∈ t.reverse, (!isBlank c) = false := fun ht c hc => by
    rw [ht c (List.mem_reverse.mp hc)]
    rfl
  obtain ⟨hrs, hab, huv⟩ := split_inj (p := fun c => !isBlank c) (hink hr) (hink hs)
    (by rw [ha]; rfl) (by rw [hb]; rfl) hreverse
  exact ⟨List.reverse_inj.mp huv, hab, List.reverse_inj.mp hrs⟩

/-- A name has bytes of names only. -/
theorem Name.not_mem (n : Name) {b : UInt8} (h : isNameByte b = false) : b ∉ n.text := fun hmem =>
  ne_of_class (n.nameByte b hmem) h rfl

/-- Blanks are white space only. -/
theorem Blanks.not_mem (x : Blanks) {b : UInt8} (h : isBlank b = false) : b ∉ x.text := fun hmem =>
  ne_of_class (x.blank b hmem) h rfl

/-! ## Texts without quotes -/

/-- The text has no quote character. -/
def Unquoted (text : Text) : Prop :=
  ∀ b ∈ text, isQuote b = false

instance (text : Text) : Decidable (Unquoted text) :=
  inferInstanceAs (Decidable (∀ b ∈ text, isQuote b = false))

/-- A text is unquoted if and only if both of its halves are. -/
theorem unquoted_append {u v : Text} : Unquoted (u ++ v) ↔ Unquoted u ∧ Unquoted v :=
  List.forall_mem_append

theorem unquoted_cons {b : UInt8} {u : Text} :
    Unquoted (b :: u) ↔ isQuote b = false ∧ Unquoted u :=
  List.forall_mem_cons

/-- White space is unquoted. -/
theorem unquoted_of_isBlank {u : Text} (h : ∀ b ∈ u, isBlank b = true) : Unquoted u :=
  fun b hb => isQuote_of_isBlank (h b hb)

/-- Names are unquoted. -/
theorem unquoted_of_isNameByte {u : Text} (h : ∀ b ∈ u, isNameByte b = true) : Unquoted u :=
  fun b hb => isQuote_of_isNameByte (h b hb)

/-- The words that calls begin with are unquoted. -/
theorem unquoted_of_mem_callees {word : Text} (h : word ∈ callees) : Unquoted word :=
  (by decide : ∀ w ∈ callees, Unquoted w) word h

/-- A text without quotes ends in front of the first quote. -/
theorem unquoted_lead {u v rest tail : Text} {quote : UInt8} (hu : Unquoted u)
    (hquote : isQuote quote = true) (h : u ++ tail = v ++ quote :: rest) :
    ∃ more, v = u ++ more ∧ tail = more ++ quote :: rest :=
  lead_of_class hu hquote h

/-! ## Patterns -/

/-- A byte that may stand in an element of an object pattern. -/
def isPatternByte (b : UInt8) : Bool :=
  isNameByte b || isBlank b || b = Ascii.colon || b = Ascii.equals || b = Ascii.dot

/-- Names may stand in a pattern. -/
theorem isPatternByte_of_isNameByte {b : UInt8} (h : isNameByte b = true) :
    isPatternByte b = true := by
  simp [isPatternByte, h]

/-- White space may stand in a pattern. -/
theorem isPatternByte_of_isBlank {b : UInt8} (h : isBlank b = true) : isPatternByte b = true := by
  simp [isPatternByte, h]

/-- What holds of the separator and inside every item holds all through a list. -/
theorem Listing.forall_mem_write {α β : Type} {P : β → Prop} {comma : β} {f : α → List β}
    {l : Listing α} (hcomma : P comma) (h : ∀ a ∈ l.toList, ∀ x ∈ f a, P x) :
    ∀ x ∈ l.write comma f, P x := by
  intro x hx
  rcases List.mem_append.mp hx with hx | hx
  · obtain ⟨a, ha, hx⟩ := List.mem_flatMap.mp hx
    rcases List.mem_append.mp hx with hx | hx
    · exact h a (List.mem_append_left _ ha) x hx
    · exact List.mem_singleton.mp hx ▸ hcomma
  · obtain ⟨a, ha, hx⟩ := List.mem_flatMap.mp hx
    exact h a (List.mem_append_right _ ha) x hx

/-- What is attached to an element keeps to the bytes of patterns. -/
theorem Attached.isPatternByte {sign : UInt8} (hsign : isPatternByte sign = true) (a : Attached) :
    ∀ b ∈ a.text sign, isPatternByte b = true := by
  rw [Attached.text, List.forall_mem_append, List.forall_mem_cons, List.forall_mem_append]
  exact ⟨fun b hb => isPatternByte_of_isBlank (a.before.blank b hb), hsign,
    fun b hb => isPatternByte_of_isBlank (a.after.blank b hb),
    fun b hb => isPatternByte_of_isNameByte (a.name.nameByte b hb)⟩

/-- So does the element itself. -/
theorem Binder.isPatternByte (e : Binder) : ∀ b ∈ e.text, isPatternByte b = true := by
  have hattached : ∀ {sign : UInt8} (a? : Option Attached), Import.isPatternByte sign = true →
      ∀ b ∈ a?.toList.flatMap (Attached.text sign), Import.isPatternByte b = true := by
    intro sign a? hsign b hb
    obtain ⟨a, -, hb⟩ := List.mem_flatMap.mp hb
    exact a.isPatternByte hsign b hb
  cases e with
  | field key newName value =>
    rw [text, List.forall_mem_append, List.forall_mem_append]
    exact ⟨fun b hb => isPatternByte_of_isNameByte (key.nameByte b hb),
      hattached newName (by decide), hattached value (by decide)⟩
  | rest before name =>
    rw [text, List.forall_mem_append, List.forall_mem_append]
    exact ⟨by decide, fun b hb => isPatternByte_of_isBlank (before.blank b hb),
      fun b hb => isPatternByte_of_isNameByte (name.nameByte b hb)⟩

/-- With the white space around it the element still keeps to these bytes. -/
theorem BinderSlot.isPatternByte (s : BinderSlot) : ∀ b ∈ s.text, isPatternByte b = true := by
  rw [text, List.forall_mem_append, List.forall_mem_append]
  exact ⟨fun b hb => isPatternByte_of_isBlank (s.before.blank b hb), s.binder.isPatternByte,
    fun b hb => isPatternByte_of_isBlank (s.after.blank b hb)⟩

/-- Between its braces, an object pattern is made of pattern bytes and commas. -/
theorem bytes_elements (elements : Listing BinderSlot) (inner : Blanks) :
    ∀ b ∈ elements.write Ascii.comma BinderSlot.text ++ inner.text,
      (isPatternByte b || b = Ascii.comma) = true := by
  rw [List.forall_mem_append]
  refine ⟨Listing.forall_mem_write (by decide) fun s _ b hb => ?_, fun b hb => ?_⟩
  · rw [s.isPatternByte b hb, Bool.true_or]
  · rw [isPatternByte_of_isBlank (inner.blank b hb), Bool.true_or]

/-- A target is made of pattern bytes, commas and braces. -/
theorem Target.text_bytes (t : Target) :
    ∀ b ∈ t.text, (isPatternByte b || b = Ascii.comma || isBrace b) = true := by
  cases t with
  | name n =>
    intro b hb
    rw [isPatternByte_of_isNameByte (n.nameByte b hb), Bool.true_or, Bool.true_or]
  | pattern elements inner =>
    rw [text, List.forall_mem_cons, ← List.append_assoc, List.forall_mem_append]
    refine ⟨by decide, fun b hb => ?_, by decide⟩
    rw [bytes_elements elements inner b hb, Bool.true_or]

/-! ## Comments -/

namespace Comment

/-- A line comment is written from its two slashes to the end of the line. -/
theorem text_line_append {body : Text} {hbody : ∀ b ∈ body, isQuote b = false}
    {hline : Ascii.newline ∉ body} (rest : Text) :
    (line body hbody hline).text ++ rest =
      Ascii.slash :: Ascii.slash :: (body ++ Ascii.newline :: rest) := by
  simp [text, show Text.ofString "//" = [Ascii.slash, Ascii.slash] from rfl]

/-- A block comment is written from its opening to its closing mark. -/
theorem text_block_append {body : Text} {hbody : ∀ b ∈ body, isQuote b = false}
    {hclosed : Text.containsText "*/" body = false} (rest : Text) :
    (block body hbody hclosed).text ++ rest =
      Ascii.slash :: Ascii.star :: (body ++ (Text.ofString "*/" ++ rest)) := by
  simp [text, show Text.ofString "/*" = [Ascii.slash, Ascii.star] from rfl]

end Comment

/-! ## Clauses -/

/-- The bytes between the comments may stand in a clause. -/
def Fits (pieces : List Piece) : Prop :=
  ∀ b, Piece.byte b ∈ pieces → Outlook.isClauseByte b = true

/-- Pieces fit into a clause if and only if both halves do. -/
theorem fits_append {p q : List Piece} : Fits (p ++ q) ↔ Fits p ∧ Fits q := by
  simp [Fits, or_imp, forall_and]

theorem fits_cons_byte {b : UInt8} {p : List Piece} :
    Fits (Piece.byte b :: p) ↔ Outlook.isClauseByte b = true ∧ Fits p := by
  simp [Fits, or_imp, forall_and]

/-- Names may stand in a clause. -/
theorem isClauseByte_of_isNameByte {b : UInt8} (h : isNameByte b = true) :
    Outlook.isClauseByte b = true := by
  simp [Outlook.isClauseByte, h]

/-- White space may stand in a clause. -/
theorem isClauseByte_of_isBlank {b : UInt8} (h : isBlank b = true) :
    Outlook.isClauseByte b = true := by
  simp [Outlook.isClauseByte, h]

/-- No clause holds a quote outside of its comments. -/
theorem isQuote_of_isClauseByte {b : UInt8} (h : Outlook.isClauseByte b = true) :
    isQuote b = false :=
  isQuote_eq_false (by decide) (by decide) (by decide) h

/-- Bytes of clauses fit into a clause. -/
theorem fits_bytes {text : Text} (h : ∀ b ∈ text, Outlook.isClauseByte b = true) :
    Fits (bytes text) := by
  intro b hb
  obtain ⟨c, hc, heq⟩ := List.mem_map.mp hb
  exact Piece.byte.inj heq ▸ h c hc

/-- A name fits into a clause. -/
theorem Name.fits (n : Name) : Fits (bytes n.text) :=
  fits_bytes fun b hb => isClauseByte_of_isNameByte (n.nameByte b hb)

/-- The bytes of a gap are white space; the rest of it are comments. -/
theorem Gap.blank (g : Gap) (b : UInt8) (h : Piece.byte b ∈ g.pieces) : isBlank b = true :=
  g.filler _ h

/-- A gap fits into a clause. -/
theorem Gap.fits (g : Gap) : Fits g.pieces :=
  fun b hb => isClauseByte_of_isBlank (g.blank b hb)

/-- An element fits into a clause. -/
theorem Element.fits (e : Element) : Fits e.pieces := by
  cases e with
  | plain name => exact name.fits
  | renamed name before after localName =>
    rw [pieces, fits_append, fits_append, fits_append, fits_append]
    exact ⟨name.fits, before.fits, fits_bytes (by decide), after.fits, localName.fits⟩

theorem Slot.fits (s : Slot) : Fits s.pieces := by
  rw [pieces, fits_append, fits_append]
  exact ⟨s.before.fits, s.element.fits, s.after.fits⟩

/-- A group in braces fits into a clause. -/
theorem Group.fits (g : Group) : Fits g.pieces := by
  cases g with
  | braces elements inner =>
    rw [pieces, fits_cons_byte, fits_append, fits_append]
    refine ⟨by decide, ?_, inner.fits, @fits_bytes [Ascii.closeBrace] (by decide)⟩
    intro b hb
    exact Listing.forall_mem_write (P := fun p => ∀ c, p = Piece.byte c → Outlook.isClauseByte c)
      (by rintro c ⟨⟩; decide) (fun s _ p hp c hc => s.fits c (hc ▸ hp)) _ hb b rfl
  | star before after name =>
    rw [pieces, fits_cons_byte, fits_append, fits_append, fits_append]
    exact ⟨by decide, before.fits, fits_bytes (by decide), after.fits, name.fits⟩

/-- The pieces of a clause fit into a clause. -/
theorem Clause.fits (c : Clause) : Fits c.pieces := by
  cases c with
  | default name => exact name.fits
  | group g => exact g.fits
  | both name before after g =>
    rw [pieces, fits_append, fits_append, fits_cons_byte, fits_append]
    exact ⟨name.fits, before.fits, by decide, after.fits, g.fits⟩

namespace Piece

/-- White space outside comments. -/
def isBlank : Piece → Bool
  | byte b => DependencyAudit.isBlank b
  | comment _ => false

/-- A blank piece is a byte of white space. -/
theorem eq_byte_of_isBlank {p : Piece} (h : p.isBlank = true) :
    ∃ b, p = byte b ∧ DependencyAudit.isBlank b = true := by
  cases p with
  | byte b => exact ⟨b, rfl, h⟩
  | comment c => cases h

/-- Any other piece begins with a byte that is no white space. -/
theorem text_eq_of_not_isBlank {p : Piece} (h : p.isBlank = false) :
    ∃ a more, p.text = a :: more ∧ DependencyAudit.isBlank a = false := by
  cases p with
  | byte b => exact ⟨b, [], rfl, h⟩
  | comment c => cases c <;> exact ⟨Ascii.slash, _, rfl, by decide⟩

@[simp]
theorem texts_cons (p : Piece) (pieces : List Piece) :
    texts (p :: pieces) = p.text ++ texts pieces :=
  List.flatMap_cons

end Piece

/-- A name is more than white space. -/
theorem Name.all_isBlank_bytes (n : Name) : (bytes n.text).all Piece.isBlank = false := by
  obtain ⟨b, more, htext⟩ := List.exists_cons_of_ne_nil n.ne_nil
  have hb : isBlank b = false := isBlank_of_isNameByte (n.nameByte b (by simp [htext]))
  simp [htext, bytes, Piece.isBlank, hb]

/-- A group is more than white space, since it has braces. -/
theorem Group.all_isBlank_pieces (g : Group) : g.pieces.all Piece.isBlank = false := by
  cases g with
  | braces => rfl
  | star => rfl

/-- A clause is more than white space. -/
theorem Clause.all_isBlank_pieces (c : Clause) : c.pieces.all Piece.isBlank = false := by
  cases c with
  | default name => exact name.all_isBlank_bytes
  | group g => exact g.all_isBlank_pieces
  | both name before after g => rw [pieces, List.all_append, name.all_isBlank_bytes, Bool.false_and]

/-! ## Statements -/

theorem Blanks.unquoted (b : Blanks) : Unquoted b.text :=
  unquoted_of_isBlank b.blank

/-- A literal has no quote between its quotes. -/
theorem Literal.unquoted_specifier (l : Literal) : Unquoted l.specifier := fun b hb =>
  isQuote_of_isSpecifierByte (l.specifierByte b hb)

/-- A comment of a clause holds no quotes. -/
theorem Comment.unquoted (c : Comment) : Unquoted c.text := by
  cases c with
  | line body hbody _ =>
    rw [text, unquoted_append, unquoted_append]
    exact ⟨by decide, hbody, by decide⟩
  | block body hbody _ =>
    rw [text, unquoted_append, unquoted_append]
    exact ⟨by decide, hbody, by decide⟩

/-- Whatever fits into a clause is unquoted. -/
theorem unquoted_texts {pieces : List Piece} (h : Fits pieces) : Unquoted (Piece.texts pieces) := by
  intro b hb
  obtain ⟨p, hp, hb⟩ := List.mem_flatMap.mp hb
  cases p with
  | byte c =>
    obtain rfl := List.mem_singleton.mp hb
    exact isQuote_of_isClauseByte (h b hp)
  | comment c => exact c.unquoted b hb

/-- The target of an assignment is unquoted. -/
theorem Target.unquoted (t : Target) : Unquoted t.text := fun b hb =>
  isQuote_eq_false (p := fun b => isPatternByte b || b = Ascii.comma || isBrace b) (by decide)
    (by decide) (by decide) (t.text_bytes b hb)

/-- The opening parenthesis with its white space is unquoted. -/
theorem Parens.unquoted_opening (p : Parens) : Unquoted p.opening := by
  rw [opening, unquoted_append, unquoted_cons]
  exact ⟨p.before.unquoted, by decide, p.inner.unquoted⟩

/-- Everything between `import` and `from`. -/
theorem fits_clause (space : Space) (before : Gap) (c : Clause) (after : Gap) :
    Fits (bytes space.text ++ (before.pieces ++ (c.pieces ++ after.pieces))) := by
  rw [fits_append, fits_append, fits_append]
  exact ⟨fits_bytes fun b hb => isClauseByte_of_isBlank (space.blank b hb), before.fits, c.fits,
    after.fits⟩

/-- Nothing in front of the specifier is quoted. -/
theorem Form.unquoted_opening (f : Form) : Unquoted f.opening := by
  cases f with
  | clause space before c after inner =>
    rw [opening, unquoted_append, unquoted_append, unquoted_append]
    exact ⟨by decide, unquoted_texts (fits_clause space before c after), by decide, inner.unquoted⟩
  | assignment word hword space target before after parens =>
    have hwords : ∀ w ∈ declarators, Unquoted w := by decide
    rw [opening, unquoted_append, unquoted_append, unquoted_append, unquoted_append, unquoted_cons,
      unquoted_append, unquoted_append]
    exact ⟨hwords word hword, space.unquoted, target.unquoted, before.unquoted, by decide,
      after.unquoted, by decide, parens.unquoted_opening⟩
  | call word hword parens =>
    rw [opening, unquoted_append]
    exact ⟨unquoted_of_mem_callees hword, parens.unquoted_opening⟩

/-- There is no quote in front of the opening quote. -/
theorem Statement.unquoted_opening (s : Statement) : Unquoted s.opening :=
  unquoted_append.mpr ⟨s.before.unquoted, s.form.unquoted_opening⟩

/-- A byte that may stand behind the specifier of a statement. -/
def isClosingByte (b : UInt8) : Bool :=
  isBlank b || b = Text.byte ')' || b = Text.byte ';'

theorem isClosingByte_of_isBlank {b : UInt8} (h : isBlank b = true) : isClosingByte b = true := by
  simp [isClosingByte, h]

/-- A statement ends in white space, parentheses and semicolons. -/
theorem Statement.isClosingByte_closing (s : Statement) :
    ∀ b ∈ s.closing, isClosingByte b = true := by
  have hparens : ∀ p : Parens, ∀ b ∈ p.closing, isClosingByte b = true := fun p => by
    rw [Parens.closing, List.forall_mem_append]
    exact ⟨fun b hb => isClosingByte_of_isBlank (p.after.blank b hb), by decide⟩
  have hform : ∀ b ∈ s.form.closing, isClosingByte b = true := by
    cases s.form with
    | clause => exact fun b hb => absurd hb (List.not_mem_nil)
    | assignment _ _ _ _ _ _ parens => exact hparens parens
    | call _ _ parens => exact hparens parens
  rw [closing, List.forall_mem_append, List.forall_mem_append]
  exact ⟨hform, fun b hb => isClosingByte_of_isBlank (s.after.blank b hb), by decide⟩

/-- There is no quote from the closing quote to the end of the line. -/
theorem Statement.closing_eq (s : Statement) :
    ∃ tail, s.closing = tail ++ [Ascii.newline] ∧ Unquoted tail := by
  have hclosing : s.closing =
      s.form.closing ++ (s.after.text ++ [Text.byte ';']) ++ [Ascii.newline] := by
    rw [closing, List.append_assoc, List.append_assoc]
    rfl
  refine ⟨_, hclosing, fun b hb => ?_⟩
  have hbyte := s.isClosingByte_closing b (hclosing ▸ List.mem_append_left _ hb)
  exact isQuote_eq_false (by decide) (by decide) (by decide) hbyte

end DependencyAudit.Import
