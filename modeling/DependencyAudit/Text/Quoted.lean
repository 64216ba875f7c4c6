import DependencyAudit.Text.Printable

/-!
# Quoted texts

A text between double quotes in which quotes, backslashes and everything that is not
printable are escaped, so that any byte text is written on one line and can be read back.
-/

namespace DependencyAudit.Quoted

/-- The escape of a code point that is not printable. -/
def escapeCode (c : Nat) : Text :=
  if c = 7 then "\\a"
  else if c = 8 then "\\b"
  else if c = 12 then "\\f"
  else if c = 10 then "\\n"
  else if c = 13 then "\\r"
  else if c = 9 then "\\t"
  else if c = 11 then "\\v"
  else if c < 0x20 || c = 0x7F then Text.ofString "\\x" ++ Text.hex 2 c
  else if c < 0x10000 then Text.ofString "\\u" ++ Text.hex 4 c
  else Text.ofString "\\U" ++ Text.hex 8 c

/-- The written form of one glyph inside quotes. -/
def encodeGlyph (g : Glyph) : Text :=
  match g.code? with
  | none => Text.ofString "\\x" ++ g.bytes.flatMap (Text.hex 2 ·.toNat)
  | some c =>
    if c = 34 then "\\\""
    else if c = 92 then "\\\\"
    else if isPrintable c then g.bytes
    else escapeCode c

/-- Writes a text between double quotes. -/
def encode (text : Text) : Text :=
  Ascii.quote :: ((Utf8.glyphs text).flatMap encodeGlyph ++ [Ascii.quote])

end DependencyAudit.Quoted
