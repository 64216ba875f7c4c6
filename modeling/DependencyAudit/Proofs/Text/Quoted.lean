import DependencyAudit.Number.Power
import DependencyAudit.Proofs.Json.StringText
import DependencyAudit.Text.Quoted

/-!
# Reading quoted texts

A quoted text is read back character by character: a backslash begins an escape, every other
character stands for itself, and the quote that is not part of an escape ends the text. A byte
that is no character is written as an escape of its own, so nothing is lost for any bytes.

Writing is looked at once: `Spells` lists the forms that a character or a byte can take, and what
is known about quoted texts is known form by form.

## Main definitions

* `decode?`: the text that a quoted text stands for;
* `Spells`: a character and a form that it is written in;
* `IsBody`: what stands between the quotes, as far as its extent goes.

## Main results

* `isBody_body`: between the quotes there is no newline, and no quote but behind a backslash;
* `decode?_encode`: every text is read back.
-/

namespace DependencyAudit.Quoted

open JsonToken (IsPlain)
open JsonString (IsPlainCode isPlain_of_mem_encode)
open Utf8 (IsScalar)

/-! ## Reading -/

/-- The letters behind a backslash that stand for one byte, with that byte. -/
def shortEscapes : List (UInt8 × UInt8) :=
  [(Text.byte 'a', 7), (Text.byte 'b', Ascii.backspace), (Text.byte 'f', Ascii.formFeed),
   (Text.byte 'n', Ascii.newline), (Text.byte 'r', Ascii.carriageReturn),
   (Text.byte 't', Ascii.tab), (Text.byte 'v', 11), (Ascii.backslash, Ascii.backslash),
   (Ascii.quote, Ascii.quote)]

/-- The number that digits of a base write. -/
def number? (base : Nat) (digits : Text) : Option Nat :=
  digits.foldlM
    (fun n b => (Text.hexValue? b).bind fun d => if d < base then some (n * base + d) else none) 0

/-- The byte with a number. -/
def byteText? (n : Nat) : Option Text :=
  if n < 256 then some [n.toUInt8] else none

/-- The character with a number. -/
def codeText? (n : Nat) : Option Text :=
  if IsScalar n then some (Utf8.encode n) else none

/-- Reads a number of `width` digits: what it stands for, and what follows it. -/
def numeral? (meaning? : Nat → Option Text) (base width : Nat) (text : Text) :
    Option (Text × Text) :=
  if text.length < width then none
  else ((number? base (text.take width)).bind meaning?).map (·, text.drop width)

/-- Reads what stands behind a backslash: the bytes that it stands for, and what follows it. -/
def escape? : Text → Option (Text × Text)
  | [] => none
  | e :: rest =>
    if e = Text.byte 'x' then numeral? byteText? 16 2 rest
    else if e = Text.byte 'u' then numeral? codeText? 16 4 rest
    else if e = Text.byte 'U' then numeral? codeText? 16 8 rest
    else if Text.isDigit e then numeral? byteText? 8 3 (e :: rest)
    else (shortEscapes.lookup e).map fun b => ([b], rest)

/-- Reads one character of the text that starts with `b` and goes on with `rest`. What is no
character becomes the replacement. -/
def character? (b : UInt8) (rest : Text) : Option (Text × Text) :=
  if b = Ascii.backslash then escape? rest
  else if b = Ascii.newline then none
  else
    let glyph := Utf8.first b rest
    some (Utf8.encode (glyph.code?.getD Utf8.replacement), rest.drop (glyph.bytes.length - 1))

/-- Reading a numeral takes text away. -/
theorem length_numeral? {meaning? : Nat → Option Text} {base width : Nat}
    {text bytes after : Text} (h : numeral? meaning? base width text = some (bytes, after)) :
    after.length ≤ text.length := by
  unfold numeral? at h
  split at h
  · exact absurd h (by simp)
  · obtain ⟨read, -, heq⟩ := Option.map_eq_some_iff.mp h
    obtain ⟨-, rfl⟩ := Prod.mk.inj heq
    rw [List.length_drop]
    omega

/-- Reading an escape takes text away. -/
theorem length_escape? {text bytes after : Text} (h : escape? text = some (bytes, after)) :
    after.length ≤ text.length := by
  cases text with
  | nil => exact absurd h (by simp [escape?])
  | cons e rest =>
    simp only [escape?] at h
    rw [List.length_cons]
    split at h
    · exact Nat.le_succ_of_le (length_numeral? h)
    split at h
    · exact Nat.le_succ_of_le (length_numeral? h)
    split at h
    · exact Nat.le_succ_of_le (length_numeral? h)
    split at h
    · exact length_numeral? h
    · obtain ⟨b, -, heq⟩ := Option.map_eq_some_iff.mp h
      obtain ⟨-, rfl⟩ := Prod.mk.inj heq
      exact Nat.le_succ _

/-- Reading a character takes text away. -/
theorem length_character? {b : UInt8} {rest bytes after : Text}
    (h : character? b rest = some (bytes, after)) : after.length ≤ rest.length := by
  unfold character? at h
  split at h
  · exact length_escape? h
  split at h
  · exact absurd h (by simp)
  · obtain ⟨-, rfl⟩ := Prod.mk.inj (Option.some.inj h)
    rw [List.length_drop]
    omega

/-- Reads up to the closing quote, which has to end the text. -/
def readBody? (text : Text) : Option Text :=
  match text with
  | [] => none
  | b :: rest =>
    if b = Ascii.quote then if rest.isEmpty then some [] else none
    else
      match _h : character? b rest with
      | none => none
      | some (bytes, after) => (readBody? after).map (bytes ++ ·)
termination_by text.length
decreasing_by exact Nat.lt_succ_of_le (length_character? (by assumption))

/-- The text that a quoted text stands for. -/
def decode? : Text → Option Text
  | Ascii.quote :: rest => readBody? rest
  | _ => none

theorem readBody?_quote : readBody? [Ascii.quote] = some [] := by
  rw [readBody?]
  rfl

/-- A text is read character by character. -/
theorem readBody?_of_character? {b : UInt8} {rest bytes after : Text} (hb : b ≠ Ascii.quote)
    (h : character? b rest = some (bytes, after)) :
    readBody? (b :: rest) = (readBody? after).map (bytes ++ ·) := by
  rw [readBody?, if_neg hb]
  split
  · rename_i hnone
    exact absurd (hnone.symm.trans h) (by simp)
  · rename_i hsome
    obtain ⟨rfl, rfl⟩ := Prod.mk.inj (Option.some.inj (hsome.symm.trans h))
    rfl

/-! ## Hexadecimal digits -/

/-- Hexadecimal numerals consist of hexadecimal digits. -/
theorem mem_hex {width n : Nat} {b : UInt8} (h : b ∈ Text.hex width n) :
    ∃ d < 16, b = Text.hexDigit d := by
  induction width generalizing n with
  | zero => exact absurd h (by simp [Text.hex])
  | succ width ih =>
    rw [Text.hex, List.mem_append, List.mem_singleton] at h
    rcases h with h | rfl
    · exact ih h
    · exact ⟨n % 16, Nat.mod_lt n (by decide), rfl⟩

/-- Hexadecimal digits are plain. -/
theorem isPlain_of_mem_hex {width n : Nat} : ∀ b ∈ Text.hex width n, IsPlain b := by
  have hdigit : ∀ d < 16, Ascii.space ≤ Text.hexDigit d ∧ Text.hexDigit d ≠ Ascii.quote ∧
      Text.hexDigit d ≠ Ascii.backslash := by decide
  intro b hb
  obtain ⟨d, hd, rfl⟩ := mem_hex hb
  exact hdigit d hd

/-- The digits of a number that fits are read back. -/
theorem number?_hex {width n : Nat} (h : n < twoPow (4 * width)) :
    number? 16 (Text.hex width n) = some n := by
  induction width generalizing n with
  | zero =>
    obtain rfl : n = 0 := Nat.lt_one_iff.mp h
    rfl
  | succ width ih =>
    have hsize : twoPow (4 * (width + 1)) = twoPow (4 * width) * 2 * 2 * 2 * 2 := rfl
    have hlast : n % 16 < 16 := Nat.mod_lt n (by decide)
    have hmore : number? 16 (Text.hex width (n / 16)) = some (n / 16) := ih (by omega)
    unfold number? at hmore ⊢
    rw [Text.hex, List.foldlM_append, hmore]
    simp only [Option.bind_eq_bind, Option.bind_some, List.foldlM_cons, List.foldlM_nil,
      JsonString.hexValue?_hexDigit _ hlast, if_pos hlast, Option.pure_def, Option.some.injEq]
    omega

/-- A numeral of a fixed width is read as its number, whatever follows. -/
theorem numeral?_hex (meaning? : Nat → Option Text) {width n : Nat}
    (h : n < twoPow (4 * width)) (rest : Text) :
    numeral? meaning? 16 width (Text.hex width n ++ rest) = (meaning? n).map (·, rest) := by
  have hlength : ¬ (Text.hex width n ++ rest).length < width := by
    rw [List.length_append, Text.length_hex]
    omega
  rw [numeral?, if_neg hlength, List.take_left' (Text.length_hex width n),
    List.drop_left' (Text.length_hex width n), number?_hex h, Option.bind_some]

/-! ## Forms of a character -/

/-- Between quotes, the bytes of a character or a byte that is part of none can be written as the
piece. -/
inductive Spells : Text → Text → Prop
  | short {e b : UInt8} (h : (e, b) ∈ shortEscapes) : Spells [b] [Ascii.backslash, e]
  | byte (b : UInt8) :
      Spells [b] (Ascii.backslash :: Text.byte 'x' :: Text.hex 2 b.toNat)
  | code {c width : Nat} (mark : UInt8) (hc : IsScalar c) (hfits : c < twoPow (4 * width))
      (hmark : mark = Text.byte 'u' ∧ width = 4 ∨ mark = Text.byte 'U' ∧ width = 8) :
      Spells (Utf8.encode c) (Ascii.backslash :: mark :: Text.hex width c)
  | plain {c : Nat} (hc : IsPlainCode c) : Spells (Utf8.encode c) (Utf8.encode c)

/-- The letters of the short escapes are neither digits nor the marks of numbers. -/
theorem escape?_short {e b : UInt8} (h : (e, b) ∈ shortEscapes) (rest : Text) :
    escape? (e :: rest) = some ([b], rest) := by
  have hall : ∀ entry ∈ shortEscapes, escape? (entry.1 :: rest) = some ([entry.2], rest) := by
    simp only [shortEscapes, List.forall_mem_cons]
    exact ⟨rfl, rfl, rfl, rfl, rfl, rfl, rfl, rfl, rfl, by simp⟩
  exact hall (e, b) h

/-- What stands between quotes: a backslash takes the byte behind it along, every other byte
stands for itself. -/
inductive IsBody : Text → Prop
  | nil : IsBody []
  | escape {e : UInt8} {body : Text} (he : e ≠ Ascii.newline) (h : IsBody body) :
      IsBody (Ascii.backslash :: e :: body)
  | plain {b : UInt8} {body : Text} (hb : IsPlain b) (h : IsBody body) : IsBody (b :: body)

namespace IsBody

/-- Two bodies are one body. -/
theorem append {s t : Text} (hs : IsBody s) (ht : IsBody t) : IsBody (s ++ t) := by
  induction hs with
  | nil => exact ht
  | escape he _ ih => exact .escape he ih
  | plain hb _ ih => exact .plain hb ih

/-- A text of plain bytes is a body. -/
theorem of_plain {text : Text} (h : ∀ b ∈ text, IsPlain b) : IsBody text := by
  induction text with
  | nil => exact .nil
  | cons b rest ih =>
    obtain ⟨hb, hrest⟩ := List.forall_mem_cons.mp h
    exact .plain hb (ih hrest)

/-- A body is on one line. -/
theorem newline_not_mem {body : Text} (h : IsBody body) : Ascii.newline ∉ body := by
  induction h with
  | nil => exact List.not_mem_nil
  | @escape e body he _ ih =>
    rw [List.mem_cons, List.mem_cons]
    rintro (hbackslash | rfl | hbody)
    · exact absurd hbackslash (by decide)
    · exact he rfl
    · exact ih hbody
  | @plain b body hb _ ih =>
    rw [List.mem_cons]
    rintro (rfl | hbody)
    · exact absurd hb.1 (by decide)
    · exact ih hbody

end IsBody

namespace Spells

variable {bytes piece : Text}

/-- The spelling of a character is a body. -/
theorem isBody (h : Spells bytes piece) : IsBody piece := by
  cases h with
  | @short e b h =>
    have hletters : shortEscapes.all (·.1 != Ascii.newline) = true := by decide
    exact .escape (by simpa using List.all_eq_true.mp hletters _ h) .nil
  | byte b => exact .escape (by decide) (.of_plain isPlain_of_mem_hex)
  | code mark _ _ hmark =>
    refine .escape ?_ (.of_plain isPlain_of_mem_hex)
    rcases hmark with ⟨rfl, -⟩ | ⟨rfl, -⟩ <;> decide
  | plain hc => exact .of_plain (isPlain_of_mem_encode hc)

/-- Whatever follows it, a written form is read as the bytes that it was written for. -/
theorem readBody?_append (h : Spells bytes piece) (rest : Text) :
    readBody? (piece ++ rest) = (readBody? rest).map (bytes ++ ·) := by
  have hescape {tail : Text} (h : escape? tail = some (bytes, rest)) :
      readBody? (Ascii.backslash :: tail) = (readBody? rest).map (bytes ++ ·) :=
    readBody?_of_character? (by decide) h
  -- the short, byte and code spellings start with a backslash; a plain character is itself
  cases h with
  | short h => exact hescape (escape?_short h rest)
  | byte b =>
    have hbyte : b.toNat < 256 := b.toNat_lt
    have hread : numeral? byteText? 16 2 (Text.hex 2 b.toNat ++ rest) = some ([b], rest) := by
      rw [numeral?_hex byteText? hbyte, byteText?, if_pos hbyte]
      simp
    exact hescape hread
  | @code c width mark hc hfits hmark =>
    have hread : numeral? codeText? 16 width (Text.hex width c ++ rest) =
        some (Utf8.encode c, rest) := by
      rw [numeral?_hex codeText? hfits, codeText?, if_pos hc, Option.map_some]
    rcases hmark with ⟨rfl, rfl⟩ | ⟨rfl, rfl⟩
    · exact hescape hread
    · exact hescape hread
  | @plain c hc =>
    obtain ⟨b, tail, hcode, hfirst⟩ := Utf8.first_encode hc.isScalar rest
    have hb : IsPlain b := isPlain_of_mem_encode hc b (by simp [hcode])
    have hnewline : b ≠ Ascii.newline := by
      rintro rfl
      exact absurd hb.1 (by decide)
    have hlength : (Utf8.encode c).length - 1 = tail.length := by simp [hcode]
    have hread : character? b (tail ++ rest) = some (Utf8.encode c, rest) := by
      rw [character?, if_neg hb.2.2, if_neg hnewline, hfirst]
      simp [hlength]
    rw [← readBody?_of_character? hb.2.1 hread, hcode, List.cons_append]

end Spells

/-! ## Writing -/

/-- An escape is one of the forms, whether or not the character needs it. -/
theorem spells_escapeCode {c : Nat} (hc : IsScalar c) :
    Spells (Utf8.encode c) (escapeCode c) := by
  unfold escapeCode
  -- the characters with a letter of their own, in the order in which they are tried
  split
  · rename_i h
    subst h
    exact .short (e := Text.byte 'a') (b := 7) (by decide)
  split
  · rename_i h
    subst h
    exact .short (e := Text.byte 'b') (b := 8) (by decide)
  split
  · rename_i h
    subst h
    exact .short (e := Text.byte 'f') (b := 12) (by decide)
  split
  · rename_i h
    subst h
    exact .short (e := Text.byte 'n') (b := 10) (by decide)
  split
  · rename_i h
    subst h
    exact .short (e := Text.byte 'r') (b := 13) (by decide)
  split
  · rename_i h
    subst h
    exact .short (e := Text.byte 't') (b := 9) (by decide)
  split
  · rename_i h
    subst h
    exact .short (e := Text.byte 'v') (b := 11) (by decide)
  -- the others by their numbers: control characters as bytes, then the first plane, then the rest
  split
  · rename_i h
    simp only [Bool.or_eq_true, decide_eq_true_eq] at h
    have hspells := Spells.byte c.toUInt8
    rw [Utf8.toNat_toUInt8 (by omega)] at hspells
    rw [Utf8.encode_ascii (by omega)]
    exact hspells
  split
  · rename_i hsize
    exact .code (Text.byte 'u') hc hsize (.inl ⟨rfl, rfl⟩)
  · have hsize : c < 4294967296 := by
      unfold IsScalar at hc
      omega
    exact .code (Text.byte 'U') hc hsize (.inr ⟨rfl, rfl⟩)

/-- Control characters are not printable. -/
theorem space_le_of_isPrintable {c : Nat} (h : isPrintable c = true) : 32 ≤ c := by
  unfold isPrintable at h
  split at h
  · exact decide_eq_true_eq.mp h
  · omega

/-- Every glyph of a text is written in one of the forms. -/
theorem spells_encodeGlyph {text : Text} {g : Glyph} (h : g ∈ Utf8.glyphs text) :
    Spells g.bytes (encodeGlyph g) := by
  rcases Utf8.glyph_cases h with ⟨c, hc, rfl⟩ | hnone
  · unfold encodeGlyph
    simp only
    split
    · rename_i hquote
      subst hquote
      exact .short (e := Ascii.quote) (b := 34) (by decide)
    split
    · rename_i hbackslash
      subst hbackslash
      exact .short (e := Ascii.backslash) (b := 92) (by decide)
    split
    · rename_i hquote hbackslash hprintable
      exact .plain ⟨hc, space_le_of_isPrintable hprintable, hquote, hbackslash⟩
    · exact spells_escapeCode hc
  · obtain ⟨b, rfl⟩ := Utf8.eq_byte_of_mem_glyphs h hnone
    have hpiece : encodeGlyph ⟨[b], none⟩ =
        Ascii.backslash :: Text.byte 'x' :: Text.hex 2 b.toNat := by
      simp only [encodeGlyph, List.flatMap_cons, List.flatMap_nil, List.append_nil]
      rfl
    rw [hpiece]
    exact .byte b

/-- What stands between the quotes of a text. -/
def body (text : Text) : Text :=
  (Utf8.glyphs text).flatMap encodeGlyph

theorem encode_eq (text : Text) : encode text = Ascii.quote :: (body text ++ [Ascii.quote]) :=
  rfl

/-- A text and what it is written as, piece by piece. -/
private theorem body_induction {motive : Text → Text → Prop} (text : Text) (nil : motive [] [])
    (cons : ∀ bytes piece text body, Spells bytes piece → motive text body →
      motive (bytes ++ text) (piece ++ body)) : motive text (body text) := by
  have hall : ∀ g ∈ Utf8.glyphs text, Spells g.bytes (encodeGlyph g) :=
    fun g hg => spells_encodeGlyph hg
  -- the text is the bytes of its glyphs, so both sides are lists over the same glyphs
  have htext := Utf8.flatMap_bytes_glyphs text
  unfold body
  generalize Utf8.glyphs text = glyphs at hall htext
  subst htext
  induction glyphs with
  | nil => exact nil
  | cons g more ih =>
    obtain ⟨hg, hmore⟩ := List.forall_mem_cons.mp hall
    rw [List.flatMap_cons, List.flatMap_cons]
    exact cons _ _ _ _ hg (ih hmore)

/-- What is written between the quotes is a body. -/
theorem isBody_body (text : Text) : IsBody (body text) :=
  body_induction (motive := fun _ body => IsBody body) text .nil
    fun _ _ _ _ hpiece hbody => hpiece.isBody.append hbody

/-- Every text is read back from its quoted form. -/
theorem decode?_encode (text : Text) : decode? (encode text) = some text := by
  have hread : readBody? (body text ++ [Ascii.quote]) = some text := by
    refine body_induction (motive := fun text body => readBody? (body ++ [Ascii.quote]) = some text)
      text readBody?_quote fun bytes piece text body hpiece hbody => ?_
    rw [List.append_assoc, hpiece.readBody?_append, hbody, Option.map_some]
  exact hread

end DependencyAudit.Quoted
