import DependencyAudit.Text.Utf8

/-!
# White space

Two classes of white space occur. `isBlank` is the ASCII class that separates the tokens of
source statements: tab, newline, form feed, carriage return and space. `Glyph.isSpace` is the
Unicode class that `trim` and `fields` work with.
-/

namespace DependencyAudit

/-- Tab, newline, form feed, carriage return or space. -/
def isBlank (b : UInt8) : Bool :=
  b = Ascii.tab || b = Ascii.newline || b = Ascii.formFeed || b = Ascii.carriageReturn ||
    b = Ascii.space

/-- Is the code point white space? -/
def isSpaceCode (c : Nat) : Bool :=
  (9 ≤ c && c ≤ 13) || c = 0x20 || c = 0x85 || c = 0xA0 || c = 0x1680 ||
    (0x2000 ≤ c && c ≤ 0x200A) || c = 0x2028 || c = 0x2029 || c = 0x202F || c = 0x205F ||
    c = 0x3000

/-- Is the glyph a white-space character? An undecodable byte is not. -/
def Glyph.isSpace (g : Glyph) : Bool :=
  match g.code? with
  | some c => isSpaceCode c
  | none => false

theorem isSpaceCode_of_isBlank {b : UInt8} (h : isBlank b = true) : isSpaceCode b.toNat = true := by
  have : b = 9 ∨ b = 10 ∨ b = 12 ∨ b = 13 ∨ b = 32 := by simpa [isBlank, or_assoc] using h
  rcases this with rfl | rfl | rfl | rfl | rfl <;> decide

namespace Text

/-- Removes the white space at both ends. -/
def trim (text : Text) : Text :=
  (((Utf8.glyphs text).dropWhile Glyph.isSpace).reverse.dropWhile Glyph.isSpace).reverse.flatMap
    Glyph.bytes

/-- The maximal runs of glyphs that are no white space. -/
def fields (text : Text) : List Text :=
  let (word, words) := (Utf8.glyphs text).foldr
    (fun g (word, words) =>
      if g.isSpace then ([], if word.isEmpty then words else word :: words)
      else (g.bytes ++ word, words))
    (([], []) : Text × List Text)
  if word.isEmpty then words else word :: words

end Text

end DependencyAudit
