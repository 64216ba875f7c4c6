import DependencyAudit.Json.String
import DependencyAudit.Proofs.Json.StringBody
import DependencyAudit.Proofs.Text.Utf8

/-!
# Escapes of JSON strings

Writing a text as the body of a string and reading it back gives the text again, except that
bytes which are part of no character become the replacement character. What is read from a
body is always well-formed UTF-8, so a key that was read from one text and written into another
is read again as the same key.

## Main results

* `isBody_encode`: an encoded text is the body of a string;
* `decode_encode`: decoding an encoded text scrubs it;
* `isUtf8_decode`: a decoded body is well-formed;
* `decode_encode_decode`: a decoded body survives being written and read again.
-/

namespace DependencyAudit.JsonString

open JsonToken (IsBody IsPlain isHex isShortEscape)
open Utf8 (IsScalar IsUtf8)

/-! ## Hexadecimal digits -/

/-- A hexadecimal digit is an ASCII character, and its value is below sixteen. -/
theorem hexValue?_lt {b : UInt8} {n : Nat} (h : Text.hexValue? b = some n) :
    b.toNat < 0x80 ∧ n < 16 := by
  have hbytes : (Text.byte '0').toNat = 48 ∧ (Text.byte '9').toNat = 57 ∧
      (Text.byte 'a').toNat = 97 ∧ (Text.byte 'f').toNat = 102 ∧
      (Text.byte 'A').toNat = 65 ∧ (Text.byte 'F').toNat = 70 := by decide
  simp only [Text.hexValue?, Text.isDigit, Bool.and_eq_true, decide_eq_true_eq,
    UInt8.le_iff_toNat_le] at h
  split at h
  · obtain rfl := Option.some.inj h
    omega
  split at h
  · obtain rfl := Option.some.inj h
    omega
  split at h
  · obtain rfl := Option.some.inj h
    omega
  · exact absurd h (by simp)

/-- The value of a hexadecimal digit is below sixteen. -/
private theorem getD_hexValue?_lt (b : UInt8) : (Text.hexValue? b).getD 0 < 16 := by
  cases h : Text.hexValue? b with
  | none => decide
  | some n => exact (hexValue?_lt h).2

/-- Four hexadecimal digits stay below the first supplementary code. -/
theorem hex4_lt (a b c d : UInt8) : hex4 a b c d < 0x10000 := by
  have ha := getD_hexValue?_lt a
  have hb := getD_hexValue?_lt b
  have hc := getD_hexValue?_lt c
  have hd := getD_hexValue?_lt d
  unfold hex4
  simp only
  omega

/-- A hexadecimal digit that was written is read as its value. -/
theorem hexValue?_hexDigit : ∀ n < 16, Text.hexValue? (Text.hexDigit n) = some n := by
  decide

/-! ## Single escapes -/

/-- The number is half of a surrogate pair. -/
def IsSurrogate (n : Nat) : Prop :=
  (isHigh n || isLow n) = true

instance (n : Nat) : Decidable (IsSurrogate n) :=
  inferInstanceAs (Decidable ((isHigh n || isLow n) = true))

/-- A code of sixteen bits is a scalar value, if it is no surrogate. -/
theorem isScalar_of_not_isSurrogate {n : Nat} (hn : n < 0x10000) (h : ¬ IsSurrogate n) :
    IsScalar n := by
  simp only [IsSurrogate, isHigh, isLow, Bool.or_eq_true, Bool.and_eq_true,
    decide_eq_true_eq] at h
  unfold IsScalar
  omega

/-- The character that an escape with four digits stands for on its own. -/
def loneCode (n : Nat) : Nat :=
  if isHigh n || isLow n then Utf8.replacement else n

/-- What a lone code stands for is a scalar value. -/
theorem isScalar_loneCode {n : Nat} (hn : n < 0x10000) : IsScalar (loneCode n) := by
  unfold loneCode
  split
  · exact Utf8.isScalar_replacement
  · rename_i h
    exact isScalar_of_not_isSurrogate hn h

/-- A code that is no surrogate stands for itself. -/
theorem loneCode_of_not_isSurrogate {n : Nat} (h : ¬ IsSurrogate n) : loneCode n = n :=
  if_neg h

/-- An escape with four digits is the first half of a pair, or stands on its own. -/
theorem unescape_code (a b c d : UInt8) (rest : Text) :
    (∃ e f g h more, rest = Ascii.backslash :: Ascii.lowerU :: e :: f :: g :: h :: more ∧
      isHigh (hex4 a b c d) = true ∧ isLow (hex4 e f g h) = true ∧
      unescape (Ascii.backslash :: Ascii.lowerU :: a :: b :: c :: d :: rest) =
        Utf8.encode (0x10000 + (hex4 a b c d - 0xD800) * 0x400 + (hex4 e f g h - 0xDC00)) ++
          unescape more) ∨
    unescape (Ascii.backslash :: Ascii.lowerU :: a :: b :: c :: d :: rest) =
      Utf8.encode (loneCode (hex4 a b c d)) ++ unescape rest := by
  -- only in front of another escape with four digits is there a choice
  by_cases hnext : ∃ e f g h more,
      rest = Ascii.backslash :: Ascii.lowerU :: e :: f :: g :: h :: more
  · obtain ⟨e, f, g, h, more, rfl⟩ := hnext
    have hread := unescape.eq_2 a b c d e f g h more
    by_cases hpair : (isHigh (hex4 a b c d) && isLow (hex4 e f g h)) = true
    · rw [if_pos hpair] at hread
      rw [Bool.and_eq_true] at hpair
      exact Or.inl ⟨e, f, g, h, more, rfl, hpair.1, hpair.2, hread⟩
    · rw [if_neg hpair] at hread
      exact Or.inr hread
  · have hread := unescape.eq_3 a b c d rest fun e f g h more hrest =>
      hnext ⟨e, f, g, h, more, hrest⟩
    exact Or.inr hread

/-- An escaped code that is no surrogate is the character with that code. -/
theorem unescape_code_of_not_isSurrogate {a b c d : UInt8} (h : ¬ IsSurrogate (hex4 a b c d))
    (rest : Text) :
    unescape (Ascii.backslash :: Ascii.lowerU :: a :: b :: c :: d :: rest) =
      Utf8.encode (hex4 a b c d) ++ unescape rest := by
  rcases unescape_code a b c d rest with ⟨e, f, g, i, more, -, hhigh, -⟩ | hread
  · exact absurd (by rw [IsSurrogate, hhigh]; rfl) h
  · rw [hread, loneCode_of_not_isSurrogate h]

/-- The bytes of the short escapes. -/
theorem mem_of_isShortEscape {e : UInt8} (h : isShortEscape e = true) :
    e ∈ ([34, 92, 47, 98, 102, 110, 114, 116] : Text) :=
  List.contains_iff_mem.mp h

/-- A short escape is the byte that it stands for. -/
theorem unescape_short {e : UInt8} (h : isShortEscape e = true) (rest : Text) :
    unescape (Ascii.backslash :: e :: rest) = shortEscape e :: unescape rest := by
  have hu : e ≠ Ascii.lowerU := by
    rintro rfl
    exact absurd h (by decide)
  exact unescape.eq_4 e rest (fun _ _ _ _ _ _ _ _ _ he _ => hu he) fun _ _ _ _ _ he _ => hu he

/-- A byte that is no backslash is kept. -/
theorem unescape_plain {b : UInt8} (h : b ≠ Ascii.backslash) (rest : Text) :
    unescape (b :: rest) = b :: unescape rest :=
  unescape.eq_5 b rest (fun _ _ _ _ _ _ _ _ _ hb _ => h hb) (fun _ _ _ _ _ hb _ => h hb)
    fun _ _ hb _ => h hb

/-- Bytes that are no backslash are left alone. -/
theorem unescape_append {text : Text} (h : ∀ b ∈ text, b ≠ Ascii.backslash) (rest : Text) :
    unescape (text ++ rest) = text ++ unescape rest := by
  induction text with
  | nil => rfl
  | cons b more ih =>
    obtain ⟨hb, hmore⟩ := List.forall_mem_cons.mp h
    rw [List.cons_append, unescape_plain hb, ih hmore, List.cons_append]

/-- A short escape is made of ASCII characters, and stands for one. -/
theorem lt_of_isShortEscape {e : UInt8} (h : isShortEscape e = true) :
    e < 0x80 ∧ shortEscape e < 0x80 := by
  have hmem := mem_of_isShortEscape h
  simp only [List.mem_cons, List.not_mem_nil, or_false] at hmem
  rcases hmem with rfl | rfl | rfl | rfl | rfl | rfl | rfl | rfl <;> decide

/-! ## Bodies in well-formed UTF-8 -/

/-- The code points that stand for themselves in a string. -/
structure IsPlainCode (c : Nat) : Prop where
  /-- The code is that of a character. -/
  isScalar : IsScalar c
  /-- The character is no control character. -/
  space_le : 32 ≤ c
  /-- The character does not end the string. -/
  ne_quote : c ≠ 34
  /-- The character begins no escape. -/
  ne_backslash : c ≠ 92

/-- A byte is plain if it is neither a control character, a quote nor a backslash. -/
private theorem isPlain_of_toNat {b : UInt8} (hspace : 32 ≤ b.toNat) (hquote : b.toNat ≠ 34)
    (hslash : b.toNat ≠ 92) : IsPlain b :=
  ⟨UInt8.le_iff_toNat_le.mpr hspace, fun hb => hquote (congrArg UInt8.toNat hb),
    fun hb => hslash (congrArg UInt8.toNat hb)⟩

/-- The bytes of such a code point stand for themselves too. -/
theorem isPlain_of_mem_encode {c : Nat} (hc : IsPlainCode c) :
    ∀ b ∈ Utf8.encode c, IsPlain b := by
  obtain ⟨hscalar, hspace, hquote, hslash⟩ := hc
  intro b hb
  by_cases hascii : c < 0x80
  · rw [Utf8.encode_ascii hascii, List.mem_singleton] at hb
    have hcode : b.toNat = c := by
      rw [hb]
      exact Utf8.toNat_toUInt8 (by omega)
    exact isPlain_of_toNat (by omega) (by omega) (by omega)
  · unfold IsScalar at hscalar
    have hle := Utf8.le_of_mem_encode (by omega) (by omega) b hb
    exact isPlain_of_toNat (by omega) (by omega) (by omega)

/-- A body whose plain bytes are encoded code points. -/
inductive IsCharBody : Text → Prop
  | nil : IsCharBody []
  | code {a b c d : UInt8} {body : Text} (h : IsCharBody body) :
      IsCharBody (Ascii.backslash :: Ascii.lowerU :: a :: b :: c :: d :: body)
  | short {e : UInt8} {body : Text} (he : isShortEscape e = true) (h : IsCharBody body) :
      IsCharBody (Ascii.backslash :: e :: body)
  | plain {c : Nat} {body : Text} (hc : IsPlainCode c) (h : IsCharBody body) :
      IsCharBody (Utf8.encode c ++ body)

/-- What is read from a well-formed body is well-formed. -/
theorem isUtf8_unescape {body : Text} (h : IsCharBody body) : IsUtf8 (unescape body) := by
  -- a pair of escapes is read at once, so two escapes in a row are looked at together
  suffices hboth : IsUtf8 (unescape body) ∧ ∀ a b c d rest,
      body = Ascii.backslash :: Ascii.lowerU :: a :: b :: c :: d :: rest →
        IsUtf8 (unescape rest) from hboth.1
  induction h with
  | nil => exact ⟨Utf8.isUtf8_nil, by simp⟩
  | @code a b c d body _ ih =>
    obtain ⟨hbody, hnext⟩ := ih
    constructor
    · rcases unescape_code a b c d body with ⟨e, f, g, i, more, hmore, hhigh, hlow, hread⟩ | hread
      · -- two halves of a pair make a code point above the first plane
        simp only [isHigh, isLow, Bool.and_eq_true, decide_eq_true_eq] at hhigh hlow
        have hscalar : IsScalar
            (0x10000 + (hex4 a b c d - 0xD800) * 0x400 + (hex4 e f g i - 0xDC00)) := by
          unfold IsScalar
          omega
        rw [hread]
        exact (Utf8.isUtf8_encode hscalar).append (hnext e f g i more hmore)
      · rw [hread]
        exact (Utf8.isUtf8_encode (isScalar_loneCode (hex4_lt a b c d))).append hbody
    · intro a' b' c' d' rest heq
      simp only [List.cons.injEq, true_and] at heq
      obtain ⟨-, -, -, -, rfl⟩ := heq
      exact hbody
  | @short e body he _ ih =>
    constructor
    · rw [unescape_short he]
      have hchar : ∀ b ∈ [shortEscape e], b < 0x80 := by
        simpa using (lt_of_isShortEscape he).2
      exact (Utf8.isUtf8_of_ascii hchar).append ih.1
    · -- a short escape is not one with four digits
      intro a b c d rest heq
      obtain rfl : e = Ascii.lowerU := by simpa using (List.cons.inj (List.cons.inj heq).2).1
      exact absurd he (by decide)
  | @plain c body hc _ ih =>
    have hplain : ∀ b ∈ Utf8.encode c, b ≠ Ascii.backslash :=
      fun b hb => (isPlain_of_mem_encode hc b hb).2.2
    constructor
    · rw [unescape_append hplain]
      exact (Utf8.isUtf8_encode hc.isScalar).append ih.1
    · intro a b c' d rest heq
      obtain ⟨first, tail, hcode, -⟩ := Utf8.first_encode hc.isScalar []
      rw [hcode, List.cons_append] at heq
      exact absurd (List.cons.inj heq).1 (hplain first (by simp [hcode]))

/-- Hexadecimal digits are ASCII. -/
theorem lt_of_isHex {b : UInt8} (h : isHex b = true) : b < 0x80 := by
  obtain ⟨n, hn⟩ := Option.isSome_iff_exists.mp h
  exact UInt8.lt_iff_toNat_lt.mpr (hexValue?_lt hn).1

/-- Bytes above ASCII are in no escape. -/
private theorem isBody_of_cons {b : UInt8} {rest : Text} (hb : 0x80 ≤ b.toNat)
    (h : IsBody (b :: rest)) : IsBody rest := by
  cases h with
  | code => exact absurd hb (by decide)
  | short => exact absurd hb (by decide)
  | plain _ h => exact h

/-- Bytes of a character's tail do not matter for whether a text is the body of a string. -/
private theorem isBody_of_append {tail more : Text} (htail : ∀ b ∈ tail, 0x80 ≤ b.toNat)
    (h : IsBody (tail ++ more)) : IsBody more := by
  induction tail with
  | nil => exact h
  | cons b tail ih =>
    obtain ⟨hb, htail⟩ := List.forall_mem_cons.mp htail
    exact ih htail (isBody_of_cons hb h)

/-- Scrubbing leaves the escapes alone. -/
theorem isCharBody_scrub {body : Text} (h : IsBody body) : IsCharBody (Utf8.scrub body) := by
  -- a character can take several bytes, so the induction is on the length
  induction hn : body.length using Nat.strongRecOn generalizing body with
  | ind n ih =>
    cases h with
    | nil => exact .nil
    | @code a b c d rest ha hb hc hd h =>
      rw [Utf8.scrub_ascii (by decide), Utf8.scrub_ascii (by decide),
        Utf8.scrub_ascii (lt_of_isHex ha), Utf8.scrub_ascii (lt_of_isHex hb),
        Utf8.scrub_ascii (lt_of_isHex hc), Utf8.scrub_ascii (lt_of_isHex hd)]
      exact .code (ih _ (by simp only [← hn, List.length_cons]; omega) h rfl)
    | @short e rest he h =>
      rw [Utf8.scrub_ascii (by decide), Utf8.scrub_ascii (lt_of_isShortEscape he).1]
      exact .short he (ih _ (by simp only [← hn, List.length_cons]; omega) h rfl)
    | @plain b rest hb h =>
      by_cases hascii : b < 0x80
      · have hnat : b.toNat < 128 := UInt8.lt_iff_toNat_lt.mp hascii
        have hplain : IsPlainCode b.toNat :=
          ⟨Or.inl (by omega), UInt8.le_iff_toNat_le.mp hb.1,
            fun hquote => hb.2.1 (UInt8.toNat_inj.mp hquote),
            fun hslash => hb.2.2 (UInt8.toNat_inj.mp hslash)⟩
        have hrest := ih rest.length (by simp only [← hn, List.length_cons]; omega) h rfl
        have hbody := IsCharBody.plain hplain hrest
        rw [Utf8.encode_one hnat] at hbody
        rw [Utf8.scrub_ascii hascii]
        exact hbody
      · -- the bytes of the character, or a byte of none and its replacement
        obtain ⟨code, tail, more, hcode, hscalar, htail, rfl, hread⟩ :=
          Utf8.scrub_cons (Utf8.not_ascii_iff.mp hascii) rest
        have hshorter : more.length < n := by
          simp only [← hn, List.length_cons, List.length_append]
          omega
        have hmore := ih more.length hshorter (isBody_of_append htail h) rfl
        rw [hread]
        exact .plain ⟨hscalar, by omega, by omega, by omega⟩ hmore

/-- What is read from the body of a string is well-formed. -/
theorem isUtf8_decode {body : Text} (h : IsBody body) : IsUtf8 (decode body) :=
  isUtf8_unescape (isCharBody_scrub h)

/-! ## Writing -/

/-- The text stands for the character in the body of a string. -/
inductive Spells : Nat → Text → Prop
  | short {e : UInt8} (he : isShortEscape e = true) :
      Spells (shortEscape e).toNat [Ascii.backslash, e]
  | code {a b c d : UInt8} (ha : isHex a = true) (hb : isHex b = true) (hc : isHex c = true)
      (hd : isHex d = true) (h : ¬ IsSurrogate (hex4 a b c d)) :
      Spells (hex4 a b c d) [Ascii.backslash, Ascii.lowerU, a, b, c, d]
  | plain {c : Nat} (hc : IsPlainCode c) : Spells c (Utf8.encode c)

/-- Plain bytes are the body of a string. -/
private theorem isBody_of_plain {text : Text} (h : ∀ b ∈ text, IsPlain b) : IsBody text := by
  induction text with
  | nil => exact .nil
  | cons b rest ih =>
    obtain ⟨hb, hrest⟩ := List.forall_mem_cons.mp h
    exact .plain hb (ih hrest)

namespace Spells

variable {c : Nat} {piece : Text}

/-- A spelling of a character may stand in a string. -/
theorem isBody (h : Spells c piece) : IsBody piece := by
  cases h with
  | short he => exact .short he .nil
  | code ha hb hc hd _ => exact .code ha hb hc hd .nil
  | plain hc => exact isBody_of_plain (isPlain_of_mem_encode hc)

/-- A spelling of a character is well-formed. -/
theorem isUtf8 (h : Spells c piece) : IsUtf8 piece := by
  cases h with
  | short he =>
    refine Utf8.isUtf8_of_ascii ?_
    simp only [List.forall_mem_cons]
    exact ⟨by decide, (lt_of_isShortEscape he).1, by simp⟩
  | code ha hb hc hd _ =>
    refine Utf8.isUtf8_of_ascii ?_
    simp only [List.forall_mem_cons]
    exact ⟨by decide, by decide, lt_of_isHex ha, lt_of_isHex hb, lt_of_isHex hc, lt_of_isHex hd,
      by simp⟩
  | plain hc => exact Utf8.isUtf8_encode hc.isScalar

/-- A spelling is read as its character, whatever follows it. -/
theorem unescape_append (h : Spells c piece) (rest : Text) :
    unescape (piece ++ rest) = Utf8.encode c ++ unescape rest := by
  cases h with
  | @short e he =>
    have hchar : (shortEscape e).toNat < 0x80 :=
      UInt8.lt_iff_toNat_lt.mp (lt_of_isShortEscape he).2
    rw [Utf8.encode_one hchar]
    exact unescape_short he rest
  | code _ _ _ _ h => exact unescape_code_of_not_isSurrogate h rest
  | plain hc =>
    exact JsonString.unescape_append (fun b hb => (isPlain_of_mem_encode hc b hb).2.2) rest

end Spells

/-- An escape with four digits, of a character below the surrogates. -/
private theorem spells_hex {c : Nat} (h : c < 256) :
    Spells c (Text.concat ["\\u00", Text.hex 2 c]) := by
  have hhigh := hexValue?_hexDigit (c / 16) (by omega)
  have hlow := hexValue?_hexDigit (c % 16) (by omega)
  have hzero : Text.hexValue? 48 = some 0 := by decide
  -- the first two of the four digits are zeros
  have hvalue : hex4 48 48 (Text.hexDigit (c / 16)) (Text.hexDigit (c % 16)) = c := by
    simp only [hex4, hhigh, hlow, hzero, Option.getD_some]
    omega
  have hspells := Spells.code (a := 48) (b := 48) (c := Text.hexDigit (c / 16))
    (d := Text.hexDigit (c % 16)) (by decide) (by decide) (by simp [isHex, hhigh])
    (by simp [isHex, hlow]) (by
      simp only [hvalue, IsSurrogate, isHigh, isLow, Bool.or_eq_true, Bool.and_eq_true,
        decide_eq_true_eq]
      omega)
  rw [hvalue] at hspells
  have hdigits : Text.hex 2 c = [Text.hexDigit (c / 16), Text.hexDigit (c % 16)] := by
    have hmod : c / 16 % 16 = c / 16 := Nat.mod_eq_of_lt (by omega)
    simp [Text.hex, hmod]
  rw [hdigits]
  exact hspells

/-- A character is written in one of the three ways. -/
theorem spells_encodeGlyph (s : Style) {c : Nat} (hc : IsScalar c) :
    Spells c (encodeGlyph s ⟨Utf8.encode c, some c⟩) := by
  unfold encodeGlyph
  simp only
  -- the characters with short escapes, in the order in which they are tried
  split
  · rename_i h
    subst h
    exact .short (e := 34) (by decide)
  split
  · rename_i h
    subst h
    exact .short (e := 92) (by decide)
  split
  · rename_i h
    subst h
    exact .short (e := 110) (by decide)
  split
  · rename_i h
    subst h
    exact .short (e := 114) (by decide)
  split
  · rename_i h
    subst h
    exact .short (e := 116) (by decide)
  split
  · rename_i h
    simp only [Bool.and_eq_true, decide_eq_true_eq] at h
    obtain ⟨-, rfl⟩ := h
    exact .short (e := 98) (by decide)
  split
  · rename_i h
    simp only [Bool.and_eq_true, decide_eq_true_eq] at h
    obtain ⟨-, rfl⟩ := h
    exact .short (e := 102) (by decide)
  -- control characters and those that a style avoids
  split
  · rename_i h
    simp only [Bool.or_eq_true, Bool.and_eq_true, decide_eq_true_eq] at h
    exact spells_hex (by omega)
  -- the two line separators
  split
  · rename_i h
    subst h
    exact .code (a := 50) (b := 48) (c := 50) (d := 56) (by decide) (by decide) (by decide)
      (by decide) (by decide)
  split
  · rename_i h
    subst h
    exact .code (a := 50) (b := 48) (c := 50) (d := 57) (by decide) (by decide) (by decide)
      (by decide) (by decide)
  · rename_i hquote hslash _ _ _ _ _ hcontrol _ _
    simp only [Bool.or_eq_true, decide_eq_true_eq, not_or] at hcontrol
    exact .plain ⟨hc, by omega, hquote, hslash⟩

/-- What is no character is written as the replacement. -/
private theorem spells_encodeGlyph_of_mem (s : Style) {text : Text} {g : Glyph}
    (h : g ∈ Utf8.glyphs text) : Spells (g.code?.getD Utf8.replacement) (encodeGlyph s g) := by
  rcases Utf8.glyph_cases h with ⟨c, hc, rfl⟩ | hnone
  · exact spells_encodeGlyph s hc
  · rw [encodeGlyph, hnone]
    exact .code (a := 102) (b := 102) (c := 102) (d := 100) (by decide) (by decide) (by decide)
      (by decide) (by decide)

/-- The pieces that a text is written in. -/
private theorem encode_induction {motive : List Nat → Text → Prop} (s : Style) (text : Text)
    (nil : motive [] [])
    (cons : ∀ c piece codes body, Spells c piece → motive codes body →
      motive (c :: codes) (piece ++ body)) :
    motive (Utf8.codes text) (encode s text) := by
  -- glyph by glyph, once it is known that each one is spelled properly
  have hall : ∀ g ∈ Utf8.glyphs text, Spells (g.code?.getD Utf8.replacement) (encodeGlyph s g) :=
    fun g hg => spells_encodeGlyph_of_mem s hg
  unfold Utf8.codes encode
  generalize Utf8.glyphs text = glyphs at hall
  induction glyphs with
  | nil => exact nil
  | cons g more ih =>
    obtain ⟨hg, hmore⟩ := List.forall_mem_cons.mp hall
    rw [List.map_cons, List.flatMap_cons]
    exact cons _ _ _ _ hg (ih hmore)

/-- An encoded text is the body of a string. -/
theorem isBody_encode (s : Style) (text : Text) : IsBody (encode s text) :=
  encode_induction (motive := fun _ body => IsBody body) s text .nil
    fun _ _ _ _ hpiece hbody => hpiece.isBody.append hbody

/-- What is written is well-formed, also of a text that is not. -/
theorem isUtf8_encode (s : Style) (text : Text) : IsUtf8 (encode s text) :=
  encode_induction (motive := fun _ body => IsUtf8 body) s text Utf8.isUtf8_nil
    fun _ _ _ _ hpiece hbody => hpiece.isUtf8.append hbody

/-- What is written is read as the characters of the text. -/
theorem unescape_encode (s : Style) (text : Text) :
    unescape (encode s text) = (Utf8.codes text).flatMap Utf8.encode := by
  refine encode_induction (motive := fun codes body => unescape body = codes.flatMap Utf8.encode)
    s text rfl fun c piece codes body hpiece hbody => ?_
  rw [hpiece.unescape_append, hbody, List.flatMap_cons]

/-- Writing a text and reading it back scrubs it. -/
theorem decode_encode (s : Style) (text : Text) : decode (encode s text) = Utf8.scrub text := by
  rw [decode, Utf8.scrub_of_isUtf8 (isUtf8_encode s text), unescape_encode, Utf8.scrub_eq]

/-- A text that was read from a string survives being written and read again. -/
theorem decode_encode_decode (s : Style) {body : Text} (h : IsBody body) :
    decode (encode s (decode body)) = decode body := by
  rw [decode_encode, Utf8.scrub_of_isUtf8 (isUtf8_decode h)]

end DependencyAudit.JsonString
