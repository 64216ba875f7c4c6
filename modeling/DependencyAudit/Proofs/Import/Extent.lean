import DependencyAudit.Proofs.Import.Outlook
import Mathlib.Data.Option.Basic

/-!
# How far a match goes

A step of the cursor passes a definite piece of the text, and the count of what has been passed
grows by the length of this piece. So a match does not only say that something stands in the
text: its size says where it ends. Together with the lemmas that read what stands there, this
gives the exact texts in front of which a call is matched. An import statement that is matched
ends with `from` and the specifier that is returned, wherever its clause has been stretched to.

## Main definitions

* `Cursor.Passes`: the text between two cursors;
* `Outlook.Takes`: the text that a reading takes.

## Main results

* `call?_eq_some_iff`: the texts that begin with a call;
* `Outlook.source_cases`, `Outlook.items_cases` and so on: where a reading comes from;
* `Outlook.sound` and `importAt?_takes`: what a reading takes ends with its specifier.
-/

namespace DependencyAudit.Import

namespace Cursor

/-- The second cursor stands behind `text`, which begins at the first one. -/
structure Passes (c : Cursor) (text : Text) (c' : Cursor) : Prop where
  /-- What was ahead is the text and what is still ahead. -/
  ahead : c.ahead = text ++ c'.ahead
  /-- As many bytes have been passed as the text has. -/
  passed : c'.passed = c.passed + text.length

/-- Two stretches make one. -/
theorem Passes.trans {c₁ c₂ c₃ : Cursor} {u v : Text} (h : Passes c₁ u c₂) (h' : Passes c₂ v c₃) :
    Passes c₁ (u ++ v) c₃ where
  ahead := by rw [h.ahead, h'.ahead, List.append_assoc]
  passed := by rw [h'.passed, h.passed, List.length_append, Nat.add_assoc]

/-- A run passes what it eats. -/
theorem run_passes (p : UInt8 → Bool) (c : Cursor) : Passes c (c.run p).1 (c.run p).2 :=
  ⟨(c.run_sound p).1, rfl⟩

/-- Skipping passes blanks. -/
theorem blanks_passes (c : Cursor) : ∃ b : Blanks, Passes c b.text c.blanks :=
  ⟨⟨(c.run isBlank).1, (c.run_sound isBlank).2⟩, c.run_passes isBlank⟩

/-- An expected word is passed. -/
theorem expect?_passes {c c' : Cursor} {word : Text} (h : c.expect? word = some c') :
    Passes c word c' := by
  refine ⟨expect?_sound h, ?_⟩
  obtain ⟨rest, -, rfl⟩ := Option.map_eq_some_iff.mp h
  rfl

/-- An expected quote is passed. -/
theorem quote?_passes {c c' : Cursor} (h : c.quote? = some c') :
    ∃ quote, isQuote quote = true ∧ Passes c [quote] c' := by
  unfold quote? at h
  split at h
  · rename_i b rest hahead
    split at h
    · rename_i hb
      obtain rfl := Option.some.inj h
      exact ⟨b, hb, hahead, rfl⟩
    · cases h
  · cases h

/-- A literal is passed whole. -/
theorem quoted?_passes {c c' : Cursor} {specifier : Text}
    (h : c.quoted? = some (specifier, c')) :
    ∃ l : Literal, l.specifier = specifier ∧
      Passes c (l.opening :: (l.specifier ++ [l.closing])) c' := by
  obtain ⟨c₁, hopen, h⟩ := Option.bind_eq_some_iff.mp h
  dsimp only at h
  split at h
  · cases h
  · rename_i hne
    obtain ⟨c₂, hclose, h⟩ := Option.bind_eq_some_iff.mp h
    obtain ⟨rfl, rfl⟩ := Prod.mk.inj (Option.some.inj h)
    obtain ⟨opening, hopening, hpasses⟩ := quote?_passes hopen
    obtain ⟨closing, hclosing, hpasses'⟩ := quote?_passes hclose
    exact ⟨⟨opening, _, closing, hopening, hclosing, by simpa using hne, (c₁.run_sound _).2⟩, rfl,
      hpasses.trans ((c₁.run_passes isSpecifierByte).trans hpasses')⟩

/-- An argument is a literal in parentheses. -/
theorem argument?_passes {c c' : Cursor} {specifier : Text}
    (h : c.argument? = some (specifier, c')) :
    ∃ (p : Parens) (l : Literal), l.specifier = specifier ∧
      Passes c (p.opening ++ l.opening :: (l.specifier ++ l.closing :: p.closing)) c' := by
  obtain ⟨c₁, hopen, h⟩ := Option.bind_eq_some_iff.mp h
  obtain ⟨⟨specifier', c₂⟩, hquoted, h⟩ := Option.bind_eq_some_iff.mp h
  obtain ⟨c₃, hclose, h⟩ := Option.bind_eq_some_iff.mp h
  obtain ⟨rfl, rfl⟩ := Prod.mk.inj (Option.some.inj h)
  obtain ⟨before, hbefore⟩ := c.blanks_passes
  obtain ⟨inner, hinner⟩ := c₁.blanks_passes
  obtain ⟨l, rfl, hliteral⟩ := quoted?_passes hquoted
  obtain ⟨after, hafter⟩ := c₂.blanks_passes
  refine ⟨⟨before, inner, after⟩, l, rfl, ?_⟩
  have hpasses := hbefore.trans ((expect?_passes hopen).trans (hinner.trans (hliteral.trans
    (hafter.trans (expect?_passes hclose)))))
  simpa [Parens.opening, Parens.closing, show Text.ofString "(" = [Text.byte '('] from rfl,
    show Text.ofString ")" = [Text.byte ')'] from rfl] using hpasses

end Cursor

/-- A call is matched exactly in front of its keyword and a literal in parentheses, and through
its closing parenthesis. -/
theorem call?_eq_some_iff {keyword text specifier : Text} {size : Nat} :
    call? keyword text = some (specifier, size) ↔
      ∃ (p : Parens) (l : Literal) (rest : Text), l.specifier = specifier ∧
        text = keyword ++ (p.opening ++ l.opening :: (l.specifier ++ l.closing ::
          (p.closing ++ rest))) ∧
        size = (keyword ++ (p.opening ++ l.opening :: (l.specifier ++ l.closing ::
          p.closing))).length := by
  constructor
  · intro h
    obtain ⟨c₁, hword, h⟩ := Option.bind_eq_some_iff.mp h
    obtain ⟨⟨specifier', c₂⟩, hargument, h⟩ := Option.bind_eq_some_iff.mp h
    obtain ⟨rfl, rfl⟩ := Prod.mk.inj (Option.some.inj h)
    obtain ⟨p, l, hl, hpasses⟩ := Cursor.argument?_passes hargument
    have hall := (Cursor.expect?_passes hword).trans hpasses
    refine ⟨p, l, c₂.ahead, hl, ?_, ?_⟩
    · simpa [Cursor.start] using hall.ahead
    · simpa [Cursor.start] using hall.passed
  · rintro ⟨p, l, rest, rfl, rfl, rfl⟩
    exact call?_append keyword p l rest

/-! ## Import statements -/

/-- What is put in front of a clause counts for the size. -/
theorem Reading.size_grow (head : Text) (r : Reading) : (r.grow head).size = head.length + r.size :=
  rfl

namespace Outlook

/-- The reading takes a text that ends with `from` and its quoted specifier. -/
def Takes (text : Text) (r : Reading) : Prop :=
  ∃ (front : Text) (inner : Blanks) (l : Literal) (rest : Text),
    text = front ++ (Text.ofString "from" ++ (inner.text ++ l.opening :: (l.specifier ++
      l.closing :: rest))) ∧
    r.specifier = l.specifier ∧
    r.size = (front ++ (Text.ofString "from" ++ (inner.text ++ l.opening :: (l.specifier ++
      [l.closing])))).length

/-- A reading may start earlier. -/
theorem Takes.append {text : Text} {r r' : Reading} (h : Takes text r) (head : Text)
    (hspecifier : r'.specifier = r.specifier) (hsize : r'.size = head.length + r.size) :
    Takes (head ++ text) r' := by
  obtain ⟨front, inner, l, rest, rfl, hl, hlength⟩ := h
  refine ⟨head ++ front, inner, l, rest, by rw [List.append_assoc], hspecifier.trans hl, ?_⟩
  rw [hsize, hlength, ← List.length_append, List.append_assoc]

/-- A reading that grows takes what is put in front. -/
theorem Takes.grow {text : Text} {r : Reading} (h : Takes text r) (head : Text) :
    Takes (head ++ text) (r.grow head) :=
  h.append head rfl rfl

/-- A reading that is shifted takes the byte in front. -/
theorem Takes.shift {text : Text} {r : Reading} (h : Takes text r) (b : UInt8) :
    Takes (b :: text) (r.shift 1) :=
  h.append [b] rfl rfl

/-- `from` and a specifier stand in front of the text. -/
theorem fromSource?_extent {text : Text} {r : Reading} (h : fromSource? text = some r) :
    ∃ (inner : Blanks) (l : Literal) (rest : Text),
      text = Text.ofString "from" ++ (inner.text ++ l.opening :: (l.specifier ++
        l.closing :: rest)) ∧
      r = ⟨[], l.specifier, (Text.ofString "from" ++ (inner.text ++ l.opening :: (l.specifier ++
        [l.closing]))).length⟩ := by
  obtain ⟨c₁, hword, h⟩ := Option.bind_eq_some_iff.mp h
  obtain ⟨⟨specifier, c₂⟩, hquoted, h⟩ := Option.bind_eq_some_iff.mp h
  obtain rfl := Option.some.inj h
  obtain ⟨inner, hinner⟩ := c₁.blanks_passes
  obtain ⟨l, rfl, hliteral⟩ := Cursor.quoted?_passes hquoted
  have hall := (Cursor.expect?_passes hword).trans (hinner.trans hliteral)
  have hpassed : c₂.passed = (Text.ofString "from" ++ (inner.text ++ l.opening :: (l.specifier ++
      [l.closing]))).length := by
    simpa [Cursor.start] using hall.passed
  refine ⟨inner, l, c₂.ahead, ?_, by rw [hpassed]⟩
  simpa [Cursor.start] using hall.ahead

/-- The end of a statement takes as many bytes as it counts. -/
theorem fromSource?_takes {text : Text} {r : Reading} (h : fromSource? text = some r) :
    Takes text r := by
  obtain ⟨inner, l, rest, rfl, rfl⟩ := fromSource?_extent h
  exact ⟨[], inner, l, rest, rfl, rfl, rfl⟩

/-! ### What one step to the left can add

Each field of an outlook comes from the outlooks at the next two places. The inversions say how;
everything about readings follows from them by induction on the text. -/

section Cases

variable {b : UInt8} {rest : Text} {r : Reading}

/-- The source is reached through white space, or it begins right here. -/
theorem source_cases (h : (ofText (b :: rest)).source = some r) :
    (isBlank b = true ∧ ∃ s, (ofText rest).source = some s ∧ r = s.shift 1) ∨
      (isBlank b = false ∧ fromSource? (b :: rest) = some r) := by
  cases hb : isBlank b with
  | true =>
    rw [source_of_isBlank hb] at h
    obtain ⟨s, hs, rfl⟩ := Option.map_eq_some_iff.mp h
    exact Or.inl ⟨rfl, s, hs, rfl⟩
  | false =>
    rw [source_of_not_isBlank hb] at h
    exact Or.inr ⟨rfl, h⟩

/-- A clause is at its end, or it has more items. -/
theorem clause_cases (h : (ofText (b :: rest)).clause = some r) :
    (ofText (b :: rest)).source = some r ∨ (ofText (b :: rest)).items = some r := by
  rw [clause_eq] at h
  cases hsource : (ofText (b :: rest)).source with
  | some s =>
    rw [hsource] at h
    exact Or.inl h
  | none =>
    rw [hsource] at h
    exact Or.inr h

/-- An item is a byte of a clause or a comment. -/
theorem items_cases (h : (ofText (b :: rest)).items = some r) :
    (isClauseByte b = true ∧ ∃ s, (ofText rest).clause = some s ∧ r = s.grow [b]) ∨
      (∃ after s, b :: rest = Text.ofString "//" ++ after ∧ (ofText after).inLine = some s ∧
        r = s.grow (Text.ofString "//")) ∨
      ∃ after s, b :: rest = Text.ofString "/*" ++ after ∧ (ofText after).inBlock = some s ∧
        r = s.grow (Text.ofString "/*") := by
  -- a byte of a clause goes first, then the two beginnings of comments
  by_cases hb : isClauseByte b = true
  · rw [items_of_isClauseByte hb] at h
    obtain ⟨s, hs, rfl⟩ := Option.map_eq_some_iff.mp h
    exact Or.inl ⟨hb, s, hs, rfl⟩
  · rw [ofText_cons] at h
    simp only [extend, ahead_ofText, if_neg hb] at h
    split at h
    · rename_i hslash
      simp only [Bool.and_eq_true, decide_eq_true_eq] at hslash
      obtain ⟨s, hs, rfl⟩ := Option.map_eq_some_iff.mp h
      obtain ⟨after, rfl⟩ := List.head?_eq_some_iff.mp hslash.2
      exact Or.inr (Or.inl ⟨after, s, by rw [hslash.1]; rfl, hs, rfl⟩)
    · split at h
      · rename_i hstar
        simp only [Bool.and_eq_true, decide_eq_true_eq] at hstar
        obtain ⟨s, hs, rfl⟩ := Option.map_eq_some_iff.mp h
        obtain ⟨after, rfl⟩ := List.head?_eq_some_iff.mp hstar.2
        exact Or.inr (Or.inr ⟨after, s, by rw [hstar.1]; rfl, hs, rfl⟩)
      · cases h

/-- A line comment goes on, or the clause goes on behind it. -/
theorem inLine_cases (h : (ofText (b :: rest)).inLine = some r) :
    ∃ s, ((ofText rest).clause = some s ∨ (ofText rest).inLine = some s) ∧ r = s.grow [b] := by
  rw [ofText_cons] at h
  simp only [extend] at h
  obtain ⟨s, hs, rfl⟩ := Option.map_eq_some_iff.mp h
  split at hs
  · exact ⟨s, Or.inl hs, rfl⟩
  · exact ⟨s, Or.inr hs, rfl⟩

/-- A block comment is closed, or it goes on. -/
theorem inBlock_cases (h : (ofText (b :: rest)).inBlock = some r) :
    (∃ after s, b :: rest = Text.ofString "*/" ++ after ∧ (ofText after).clause = some s ∧
        r = s.grow (Text.ofString "*/")) ∨
      ∃ s, (ofText rest).inBlock = some s ∧ r = s.grow [b] := by
  rw [ofText_cons] at h
  simp only [extend, ahead_ofText] at h
  rcases (Option.orElse_eq_some _ _ _).mp h with h | ⟨-, h⟩
  · split at h
    · rename_i hends
      simp only [Bool.and_eq_true, decide_eq_true_eq] at hends
      obtain ⟨s, hs, rfl⟩ := Option.map_eq_some_iff.mp h
      obtain ⟨after, rfl⟩ := List.head?_eq_some_iff.mp hends.2
      exact Or.inl ⟨after, s, by rw [hends.1]; rfl, hs, rfl⟩
    · cases h
  · obtain ⟨s, hs, rfl⟩ := Option.map_eq_some_iff.mp h
    exact Or.inr ⟨s, hs, rfl⟩

/-- Behind white space there is more of it, the source or the items of a clause. -/
theorem spaced_cases (h : (ofText (b :: rest)).spaced = some r) :
    isBlank b = true ∧ ∃ s, r.specifier = s.specifier ∧ r.size = 1 + s.size ∧
      ((ofText rest).spaced = some s ∨ (ofText rest).source = some s ∨
        (ofText rest).items = some s) := by
  rw [ofText_cons] at h
  simp only [extend] at h
  split at h
  · rename_i hb
    refine ⟨hb, ?_⟩
    split at h
    · rcases (Option.orElse_eq_some _ _ _).mp h with h | ⟨-, h⟩
      · obtain ⟨s, hs, rfl⟩ := Option.map_eq_some_iff.mp h
        exact ⟨s, rfl, rfl, Or.inl hs⟩
      · obtain ⟨s, hs, rfl⟩ := Option.map_eq_some_iff.mp h
        exact ⟨s, rfl, Nat.add_comm _ _, Or.inr (Or.inl hs)⟩
    · obtain ⟨s, hs, rfl⟩ := Option.map_eq_some_iff.mp h
      exact ⟨s, rfl, rfl, Or.inr (Or.inr hs)⟩
  · cases h

end Cases

/-- Every reading from a place on takes a text from this place on. -/
structure Sound (text : Text) : Prop where
  source : ∀ r, (ofText text).source = some r → Takes text r
  items : ∀ r, (ofText text).items = some r → Takes text r
  clause : ∀ r, (ofText text).clause = some r → Takes text r
  inLine : ∀ r, (ofText text).inLine = some r → Takes text r
  inBlock : ∀ r, (ofText text).inBlock = some r → Takes text r
  spaced : ∀ r, (ofText text).spaced = some r → Takes text r

private theorem sound_nil : Sound [] where
  source := by rintro r ⟨⟩
  items := by rintro r ⟨⟩
  clause := by rintro r ⟨⟩
  inLine := by rintro r ⟨⟩
  inBlock := by rintro r ⟨⟩
  spaced := by rintro r ⟨⟩

/-- What holds behind a byte, and behind the next one, holds in front of it. -/
private theorem sound_cons {b : UInt8} {rest : Text} (h : Sound rest) (h' : Sound rest.tail) :
    Sound (b :: rest) := by
  -- a comment sign is two bytes long, and what comes behind it is the rest behind the next place
  have htail : ∀ {a c : UInt8} {after : Text}, b :: rest = [a, c] ++ after → Sound after := by
    intro a c after heq
    obtain ⟨-, rfl⟩ := List.cons.inj heq
    exact h'
  have hsource : ∀ r, (ofText (b :: rest)).source = some r → Takes (b :: rest) r := by
    intro r hr
    rcases source_cases hr with ⟨-, s, hs, rfl⟩ | ⟨-, hr⟩
    · exact (h.source s hs).shift b
    · exact fromSource?_takes hr
  have hitems : ∀ r, (ofText (b :: rest)).items = some r → Takes (b :: rest) r := by
    intro r hr
    rcases items_cases hr with ⟨-, s, hs, rfl⟩ | ⟨after, s, heq, hs, rfl⟩ | ⟨after, s, heq, hs, rfl⟩
    · exact (h.clause s hs).grow [b]
    · rw [heq]
      exact ((htail heq).inLine s hs).grow _
    · rw [heq]
      exact ((htail heq).inBlock s hs).grow _
  refine ⟨hsource, hitems, fun r hr => ?_, fun r hr => ?_, fun r hr => ?_, fun r hr => ?_⟩
  · exact (clause_cases hr).elim (hsource r) (hitems r)
  · obtain ⟨s, hs, rfl⟩ := inLine_cases hr
    exact (hs.elim (h.clause s) (h.inLine s)).grow [b]
  · rcases inBlock_cases hr with ⟨after, s, heq, hs, rfl⟩ | ⟨s, hs, rfl⟩
    · rw [heq]
      exact ((htail heq).clause s hs).grow _
    · exact (h.inBlock s hs).grow [b]
  · obtain ⟨-, s, hspecifier, hsize, hs⟩ := spaced_cases hr
    have htakes : Takes rest s := hs.elim (h.spaced s) fun hs => hs.elim (h.source s) (h.items s)
    exact htakes.append [b] hspecifier hsize

/-- All readings of any text take what they say they take. -/
theorem sound (text : Text) : Sound text := by
  -- the outlook at a place comes from the next two places
  have hboth : Sound text ∧ Sound text.tail := by
    induction text with
    | nil => exact ⟨sound_nil, sound_nil⟩
    | cons b rest ih => exact ⟨sound_cons ih.1 ih.2, ih.1⟩
  exact hboth.1

end Outlook

/-- A matched import statement ends with its quoted specifier. -/
theorem importAt?_takes {text clause specifier : Text} {size : Nat}
    (h : importAt? text = some ((clause, specifier), size)) :
    Outlook.Takes text ⟨clause, specifier, size⟩ := by
  obtain ⟨rest, rfl, -⟩ := importAt?_sound h
  rw [importAt?_append] at h
  obtain ⟨r, hr, heq⟩ := Option.map_eq_some_iff.mp h
  obtain ⟨⟨rfl, rfl⟩, rfl⟩ : (r.clause = clause ∧ r.specifier = specifier) ∧ r.size + 6 = size := by
    simpa using heq
  exact ((Outlook.sound rest).spaced r hr).append _ rfl (Nat.add_comm _ _)

end DependencyAudit.Import
