import DependencyAudit.Text.Utf8

/-!
# JSON strings

The escapes between the quotes of a JSON string. `decode` undoes them; what is no character
(a byte that is not UTF-8, half of a surrogate pair) becomes the replacement character.
`encode` writes them; which characters have an escape depends on the style.
-/

namespace DependencyAudit.JsonString

/-- Which characters are escaped, and how. -/
structure Style where
  /-- Escape `<`, `>` and `&`, so that the text can stand inside a web page. -/
  html : Bool
  /-- Write `\b` and `\f` for backspace and form feed. -/
  shortControls : Bool
  deriving DecidableEq, Repr

/-- The style of documents. -/
def Style.document : Style := ⟨true, true⟩

/-- The escaped form of a glyph. -/
def encodeGlyph (s : Style) (g : Glyph) : Text :=
  match g.code? with
  | none => "\\ufffd"
  | some c =>
    if c = 34 then "\\\""
    else if c = 92 then "\\\\"
    else if c = 10 then "\\n"
    else if c = 13 then "\\r"
    else if c = 9 then "\\t"
    else if s.shortControls && c = 8 then "\\b"
    else if s.shortControls && c = 12 then "\\f"
    else if c < 32 || (s.html && (c = 60 || c = 62 || c = 38)) then
      Text.concat ["\\u00", Text.hex 2 c]
    else if c = 0x2028 then "\\u2028"
    else if c = 0x2029 then "\\u2029"
    else g.bytes

/-- The body of the string with the given text. -/
def encode (s : Style) (text : Text) : Text :=
  (Utf8.glyphs text).flatMap (encodeGlyph s)

/-- The string with the given text, with its quotes. -/
def quoted (s : Style) (text : Text) : Text :=
  Ascii.quote :: (encode s text ++ [Ascii.quote])

/-- The value of four hexadecimal digits. -/
def hex4 (a b c d : UInt8) : Nat :=
  let v (b : UInt8) := (Text.hexValue? b).getD 0
  ((v a * 16 + v b) * 16 + v c) * 16 + v d

/-- Is the number the first half of a surrogate pair? -/
def isHigh (n : Nat) : Bool := 0xD800 ≤ n && n < 0xDC00

/-- Is the number the second half of a surrogate pair? -/
def isLow (n : Nat) : Bool := 0xDC00 ≤ n && n < 0xE000

/-- The character of a short escape. -/
def shortEscape (e : UInt8) : UInt8 :=
  if e = Text.byte 'b' then Ascii.backspace
  else if e = Text.byte 'f' then Ascii.formFeed
  else if e = Text.byte 'n' then Ascii.newline
  else if e = Text.byte 'r' then Ascii.carriageReturn
  else if e = Text.byte 't' then Ascii.tab
  else e

/-- Undoes the escapes of a body, leaving other bytes alone. -/
def unescape : Text → Text
  | [] => []
  | Ascii.backslash :: Ascii.lowerU :: a :: b :: c :: d ::
      Ascii.backslash :: Ascii.lowerU :: e :: f :: g :: h :: rest =>
    let high := hex4 a b c d
    let low := hex4 e f g h
    if isHigh high && isLow low then
      Utf8.encode (0x10000 + (high - 0xD800) * 0x400 + (low - 0xDC00)) ++ unescape rest
    else
      Utf8.encode (if isHigh high || isLow high then Utf8.replacement else high) ++
        unescape (Ascii.backslash :: Ascii.lowerU :: e :: f :: g :: h :: rest)
  | Ascii.backslash :: Ascii.lowerU :: a :: b :: c :: d :: rest =>
    let code := hex4 a b c d
    Utf8.encode (if isHigh code || isLow code then Utf8.replacement else code) ++ unescape rest
  | Ascii.backslash :: e :: rest => shortEscape e :: unescape rest
  | b :: rest => b :: unescape rest

/-- The text of the string with the given body. -/
def decode (body : Text) : Text :=
  unescape (Utf8.scrub body)

end DependencyAudit.JsonString
