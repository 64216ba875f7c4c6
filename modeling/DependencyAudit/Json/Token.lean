import DependencyAudit.Text.Basic

/-!
# Tokens of JSON texts

A JSON text is cut into tokens, each together with the white space in front of it, so that
the lexemes concatenate to the text. Cutting stops at the first byte that starts no token.
-/

namespace DependencyAudit

/-- The tokens of JSON. Strings and numbers keep their source text. -/
inductive JsonToken
  | openObject
  | closeObject
  | openArray
  | closeArray
  | comma
  | colon
  /-- A string; `body` is the source text between its quotes. -/
  | string (body : Text)
  | number (source : Text)
  | bool (b : Bool)
  | null
  /-- The text does not go on with a token. -/
  | bad
  deriving DecidableEq, Repr

namespace JsonToken

/-- The source text of a token. -/
def source : JsonToken → Text
  | openObject => [Ascii.openBrace]
  | closeObject => [Ascii.closeBrace]
  | openArray => [Ascii.openBracket]
  | closeArray => [Ascii.closeBracket]
  | comma => [Ascii.comma]
  | colon => [Ascii.colon]
  | string body => Ascii.quote :: (body ++ [Ascii.quote])
  | number source => source
  | bool true => "true"
  | bool false => "false"
  | null => "null"
  | bad => []

/-- Space, tab, newline or carriage return. -/
def isJsonBlank (b : UInt8) : Bool :=
  b = Ascii.space || b = Ascii.tab || b = Ascii.newline || b = Ascii.carriageReturn

/-- Is the byte a hexadecimal digit? -/
def isHex (b : UInt8) : Bool := (Text.hexValue? b).isSome

/-- May the byte follow a backslash? -/
def isShortEscape (b : UInt8) : Bool :=
  ("\"\\/bfnrt" : Text).contains b

/-- Reads a string behind its opening quote: its body, and what follows the closing quote. -/
def stringBody? : Text → Option (Text × Text)
  | [] => none
  | Ascii.quote :: rest => some ([], rest)
  | Ascii.backslash :: Ascii.lowerU :: a :: b :: c :: d :: rest =>
    if isHex a && isHex b && isHex c && isHex d then
      (stringBody? rest).map fun (body, after) =>
        (Ascii.backslash :: Ascii.lowerU :: a :: b :: c :: d :: body, after)
    else none
  | Ascii.backslash :: e :: rest =>
    if isShortEscape e then
      (stringBody? rest).map fun (body, after) => (Ascii.backslash :: e :: body, after)
    else none
  | b :: rest =>
    if b < Ascii.space || b = Ascii.backslash then none
    else (stringBody? rest).map fun (body, after) => (b :: body, after)

/-- Reads one or more decimal digits. -/
def digits? (text : Text) : Option (Text × Text) :=
  let run := text.takeWhile Text.isDigit
  if run.isEmpty then none else some (run, text.dropWhile Text.isDigit)

/-- Reads the whole part of a number: a zero, or digits that do not start with one. -/
def wholePart? : Text → Option (Text × Text)
  | Ascii.zero :: rest => some ([Ascii.zero], rest)
  | text => digits? text

/-- Reads a fraction, if there is a point. -/
def fraction? : Text → Option (Text × Text)
  | Ascii.dot :: rest => (digits? rest).map fun (ds, after) => (Ascii.dot :: ds, after)
  | text => some ([], text)

/-- Reads an exponent, if there is a mark. -/
def exponent? : Text → Option (Text × Text)
  | mark :: rest =>
    if mark = Text.byte 'e' || mark = Text.byte 'E' then
      match rest with
      | sign :: more =>
        if sign = Ascii.plus || sign = Ascii.dash then
          (digits? more).map fun (ds, after) => (mark :: sign :: ds, after)
        else (digits? rest).map fun (ds, after) => (mark :: ds, after)
      | [] => none
    else some ([], mark :: rest)
  | [] => some ([], [])

/-- Reads a number: as much as belongs to it, and what follows. -/
def number? (text : Text) : Option (Text × Text) := do
  let (sign, text) : Text × Text := match text with
    | Ascii.dash :: rest => ([Ascii.dash], rest)
    | text => ([], text)
  let (whole, text) ← wholePart? text
  let (fraction, text) ← fraction? text
  let (exponent, text) ← exponent? text
  some (sign ++ whole ++ fraction ++ exponent, text)

/-- The tokens of a single byte. -/
def marks : List JsonToken :=
  [openObject, closeObject, openArray, closeArray, comma, colon]

/-- The token that consists of the given byte. -/
def mark? (b : UInt8) : Option JsonToken :=
  marks.find? (·.source = [b])

/-- Reads one token at a place that is not white space. -/
def next : Text → JsonToken × Text
  | [] => (bad, [])
  | b :: rest =>
    match mark? b with
    | some mark => (mark, rest)
    | none =>
      if b = Ascii.quote then
        match stringBody? rest with
        | some (body, after) => (string body, after)
        | none => (bad, rest)
      else if b = Ascii.dash || Text.isDigit b then
        match number? (b :: rest) with
        | some (source, after) => (number source, after)
        | none => (bad, rest)
      else
        match Text.dropPrefix? "true" (b :: rest) with
        | some after => (bool true, after)
        | none =>
          match Text.dropPrefix? "false" (b :: rest) with
          | some after => (bool false, after)
          | none =>
            match Text.dropPrefix? "null" (b :: rest) with
            | some after => (null, after)
            | none => (bad, rest)

end JsonToken

/-- A token with the white space in front of it. -/
structure JsonLexeme where
  blank : Text
  token : JsonToken
  deriving DecidableEq, Repr

namespace JsonLexeme

/-- The text of a lexeme. -/
def source (l : JsonLexeme) : Text := l.blank ++ l.token.source

/-- The text of some lexemes, without the white space in front of the first. -/
def sourceOf : List JsonLexeme → Text
  | [] => []
  | first :: more => first.token.source ++ more.flatMap source

/-- Cuts a text into at most `fuel` lexemes, ending at the first bad token. -/
def lexUpTo : (fuel : Nat) → Text → List JsonLexeme
  | 0, _ => []
  | fuel + 1, text =>
    match text.dropWhile JsonToken.isJsonBlank with
    | [] => []
    | b :: rest =>
      let blank := text.takeWhile JsonToken.isJsonBlank
      match JsonToken.next (b :: rest) with
      | (.bad, _) => [⟨blank, .bad⟩]
      | (token, after) => ⟨blank, token⟩ :: lexUpTo fuel after

/-- Cuts a text into lexemes. Each takes at least one byte, so there are no more of them than
bytes. -/
def lex (text : Text) : List JsonLexeme :=
  lexUpTo text.length text

end JsonLexeme

end DependencyAudit
