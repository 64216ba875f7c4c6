import DependencyAudit.Text.Basic

/-!
# Characters in byte texts

A byte text is read as a sequence of glyphs: a well-formed UTF-8 character of one to four
bytes, or a single byte that starts no such character. Reading loses nothing: the bytes of
the glyphs concatenate to the text (`flatMap_bytes_glyphs`).
-/

namespace DependencyAudit

/-- The bytes of one character, with its code point; a byte that is part of no well-formed
character stands alone and has none. -/
structure Glyph where
  /-- The bytes as they stand in the text. -/
  bytes : Text
  /-- The code point, when the bytes are well-formed UTF-8. -/
  code? : Option Nat
  deriving DecidableEq, Repr

namespace Utf8

/-- The code point that stands in for undecodable bytes. -/
def replacement : Nat := 0xFFFD

/-- The UTF-8 bytes of a code point. -/
def encode (code : Nat) : Text :=
  if code < 0x80 then [code.toUInt8]
  else if code < 0x800 then
    [(0xC0 + code / 0x40).toUInt8, (0x80 + code % 0x40).toUInt8]
  else if code < 0x10000 then
    [(0xE0 + code / 0x1000).toUInt8, (0x80 + code / 0x40 % 0x40).toUInt8,
      (0x80 + code % 0x40).toUInt8]
  else
    [(0xF0 + code / 0x40000).toUInt8, (0x80 + code / 0x1000 % 0x40).toUInt8,
      (0x80 + code / 0x40 % 0x40).toUInt8, (0x80 + code % 0x40).toUInt8]

/-- Is the byte a continuation byte? -/
def isContinuation (b : UInt8) : Bool := 0x80 ≤ b && b ≤ 0xBF

/-- The payload of a continuation byte. -/
def low (b : UInt8) : Nat := b.toNat - 0x80

/-- The second bytes that may follow the lead byte of a three-byte character: overlong forms
and surrogates are excluded. -/
def secondOfThree (a b : UInt8) : Bool :=
  if a = 0xE0 then 0xA0 ≤ b && b ≤ 0xBF
  else if a = 0xED then 0x80 ≤ b && b ≤ 0x9F
  else isContinuation b

/-- The second bytes that may follow the lead byte of a four-byte character: overlong forms
and code points above 10FFFF are excluded. -/
def secondOfFour (a b : UInt8) : Bool :=
  if a = 0xF0 then 0x90 ≤ b && b ≤ 0xBF
  else if a = 0xF4 then 0x80 ≤ b && b ≤ 0x8F
  else isContinuation b

/-- The first glyph of the text that starts with `a` and goes on with `rest`. -/
def first (a : UInt8) (rest : Text) : Glyph :=
  if a < 0x80 then ⟨[a], some a.toNat⟩
  else if 0xC2 ≤ a && a ≤ 0xDF then
    match rest with
    | b :: _ =>
      if isContinuation b then ⟨[a, b], some ((a.toNat - 0xC0) * 0x40 + low b)⟩ else ⟨[a], none⟩
    | [] => ⟨[a], none⟩
  else if 0xE0 ≤ a && a ≤ 0xEF then
    match rest with
    | b :: c :: _ =>
      if secondOfThree a b && isContinuation c then
        ⟨[a, b, c], some ((a.toNat - 0xE0) * 0x1000 + low b * 0x40 + low c)⟩
      else ⟨[a], none⟩
    | _ => ⟨[a], none⟩
  else if 0xF0 ≤ a && a ≤ 0xF4 then
    match rest with
    | b :: c :: d :: _ =>
      if secondOfFour a b && isContinuation c && isContinuation d then
        ⟨[a, b, c, d],
          some ((a.toNat - 0xF0) * 0x40000 + low b * 0x1000 + low c * 0x40 + low d)⟩
      else ⟨[a], none⟩
    | _ => ⟨[a], none⟩
  else ⟨[a], none⟩

/-- The bytes of the first glyph stand at the front of the text. -/
theorem first_bytes_append (a : UInt8) (rest : Text) :
    ∃ tail, (first a rest).bytes = a :: tail ∧ rest = tail ++ rest.drop tail.length := by
  unfold first
  split
  · exact ⟨[], rfl, rfl⟩
  split
  · split
    · split
      · exact ⟨[_], rfl, rfl⟩
      · exact ⟨[], rfl, rfl⟩
    · exact ⟨[], rfl, rfl⟩
  split
  · split
    · split
      · exact ⟨[_, _], rfl, rfl⟩
      · exact ⟨[], rfl, rfl⟩
    · exact ⟨[], rfl, rfl⟩
  split
  · split
    · split
      · exact ⟨[_, _, _], rfl, rfl⟩
      · exact ⟨[], rfl, rfl⟩
    · exact ⟨[], rfl, rfl⟩
  · exact ⟨[], rfl, rfl⟩

/-- Reads glyphs in front of those already found (`found`, latest first). `skip` counts the
bytes that still belong to the glyph read last. -/
def glyphs.go : (text : Text) → (skip : Nat) → (found : List Glyph) → List Glyph
  | [], _, found => found.reverse
  | _ :: rest, skip + 1, found => go rest skip found
  | a :: rest, 0, found =>
    let glyph := first a rest
    go rest (glyph.bytes.length - 1) (glyph :: found)

/-- The glyphs of a text, in order. -/
def glyphs (text : Text) : List Glyph :=
  glyphs.go text 0 []

theorem glyphs.flatMap_bytes_go (text : Text) (skip : Nat) (found : List Glyph) :
    (go text skip found).flatMap Glyph.bytes =
      found.reverse.flatMap Glyph.bytes ++ text.drop skip := by
  induction text generalizing skip found with
  | nil => simp [go]
  | cons a rest ih =>
    cases skip with
    | succ skip => simp [go, ih]
    | zero =>
      obtain ⟨tail, hb, hr⟩ := first_bytes_append a rest
      simp only [go, ih, hb, List.length_cons, Nat.add_sub_cancel, List.reverse_cons,
        List.flatMap_append, List.flatMap_cons, List.flatMap_nil, List.append_nil,
        List.append_assoc, List.cons_append, List.drop_zero]
      rw [← hr]

/-- Reading a text as glyphs loses no byte. -/
theorem flatMap_bytes_glyphs (text : Text) : (glyphs text).flatMap Glyph.bytes = text := by
  simp [glyphs, glyphs.flatMap_bytes_go]

/-- Is every byte of the text part of a well-formed character? -/
def isValid (text : Text) : Bool :=
  (glyphs text).all (·.code?.isSome)

/-- Writes the replacement character for every byte that is part of no character. -/
def scrub (text : Text) : Text :=
  (glyphs text).flatMap fun g => if g.code?.isSome then g.bytes else encode replacement

/-- The number of glyphs of a text. -/
def count (text : Text) : Nat :=
  (glyphs text).length

end Utf8

end DependencyAudit
