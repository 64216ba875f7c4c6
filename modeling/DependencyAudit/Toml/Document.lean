import DependencyAudit.Toml.Text

/-!
# TOML documents

A document is a list of expressions: pairs of key and value, and headers of tables and of
elements of table arrays. Numbers, booleans and dates are only recognised, since nothing here
reads them.
-/

namespace DependencyAudit.Toml

/-- A dotted key. -/
abbrev Key := List Text

/-- A value. -/
inductive Value
  | text (t : Text)
  /-- A number, boolean or date. -/
  | other
  | array (items : List Value)
  | table (members : List (Key × Value))
  deriving Repr

/-- An expression of a document. -/
inductive Expression
  | pair (key : Key) (value : Value)
  | header (key : Key)
  | arrayHeader (key : Key)
  deriving Repr

/-- May the byte occur in a key without quotes? -/
def isBareKeyByte (b : UInt8) : Bool :=
  Text.isLetter b || Text.isDigit b || b = Ascii.underscore || b = Ascii.dash

/-- Passes spaces and tabs. -/
def skipBlanks (text : Text) : Text := text.dropWhile isBlank

/-- Passes one given byte. -/
def expect? (b : UInt8) : Text → Option Text
  | [] => none
  | c :: rest => if c = b then some rest else none

/-- Reads one part of a key. -/
def simpleKey? (text : Text) : Option (Text × Text) :=
  match text with
  | [] => none
  | b :: _ =>
    if b = Ascii.quote || b = Ascii.apostrophe then simpleString? text
    else if isBareKeyByte b then
      some (text.takeWhile isBareKeyByte, text.dropWhile isBareKeyByte)
    else none

/-- Reads a dotted key. -/
def key? : (fuel : Nat) → Text → Option (Key × Text)
  | 0, _ => none
  | fuel + 1, text => do
    let (part, rest) ← simpleKey? text
    match skipBlanks rest with
    | Ascii.dot :: more =>
      let (parts, after) ← key? fuel (skipBlanks more)
      some (part :: parts, after)
    | after => some ([part], after)

/-- Passes a line end. -/
def newline? : Text → Option Text
  | Ascii.newline :: rest => some rest
  | Ascii.carriageReturn :: Ascii.newline :: rest => some rest
  | _ => none

/-- Passes white space, comments and line ends. -/
def skipFiller? : (fuel : Nat) → Text → Option Text
  | 0, _ => none
  | fuel + 1, text => do
    let text := skipBlanks text
    let text ← match text with
      | Ascii.hash :: _ => comment? (text.length + 1) text
      | _ => some text
    match text with
    | [] => some []
    | b :: _ =>
      if b = Ascii.newline || b = Ascii.carriageReturn then
        (newline? text).bind (skipFiller? fuel)
      else some text

/-- Passes a number that is no date. -/
def number? (text : Text) : Option Text :=
  match text with
  | Ascii.zero :: b :: c :: rest =>
    if b = Ascii.dot || b = Text.byte 'e' || b = Text.byte 'E' then decimal? text
    else
      let digits (p : UInt8 → Bool) :=
        some ((c :: rest).dropWhile fun d => p d || d = Ascii.underscore)
      if b = Text.byte 'x' then digits fun d => (Text.hexValue? d).isSome
      else if b = Text.byte 'o' then digits ("01234567" : Text).contains
      else if b = Text.byte 'b' then digits ("01" : Text).contains
      else some (b :: c :: rest)
  | _ => decimal? text
where
  /-- Passes digits, signs, underscores, points and exponent marks, up to a possible `inf` or
  `nan`. -/
  decimal? (text : Text) : Option Text :=
    let isPart (b : UInt8) : Bool := Text.isDigit b || ("+-_.eE" : Text).contains b
    let rest := text.dropWhile isPart
    match rest.head? with
    | some 105 => Text.dropPrefix? "inf" rest
    | some 110 => Text.dropPrefix? "nan" rest
    | _ => if (text.takeWhile isPart).isEmpty then none else some rest

/-- Passes a date or time. One space may stand between date and time. -/
def date (spaced : Bool) : Text → Text
  | [] => []
  | Ascii.space :: d :: rest =>
    if !spaced && Text.isDigit d then date true rest else Ascii.space :: d :: rest
  | b :: rest =>
    if Text.isDigit b || ("-+:.TtZz" : Text).contains b then date spaced rest else b :: rest

/-- Does a date or time start here? -/
def isDate (text : Text) : Bool :=
  let digits := (text.take 5).takeWhile Text.isDigit
  text.length ≥ 3 &&
    ((digits.length = 2 && text[2]? = some Ascii.colon) ||
      (digits.length = 4 && text[4]? = some Ascii.dash))

/-- Passes a number or a date. -/
def scalar? (text : Text) : Option Text :=
  match text with
  | [] => none
  | b :: _ =>
    if b = Text.byte 'i' then Text.dropPrefix? "inf" text
    else if b = Text.byte 'n' then Text.dropPrefix? "nan" text
    else if isDate text then some (date false text)
    else number? text

mutual

/-- Reads a value. -/
def value? : (fuel : Nat) → Text → Option (Value × Text)
  | 0, _ => none
  | fuel + 1, text =>
    match text with
    | [] => none
    | b :: rest =>
      if b = Ascii.quote || b = Ascii.apostrophe then
        (string? text).map fun (t, after) => (.text t, after)
      else if b = Text.byte 't' then (Text.dropPrefix? "true" text).map (.other, ·)
      else if b = Text.byte 'f' then (Text.dropPrefix? "false" text).map (.other, ·)
      else if b = Ascii.openBracket then
        (items? fuel true rest).map fun (vs, after) => (.array vs, after)
      else if b = Ascii.openBrace then
        (members? fuel true rest).map fun (ms, after) => (.table ms, after)
      else (scalar? text).map (.other, ·)

/-- Reads the items of an array up to its end. A comma may stand behind the last one. -/
def items? : (fuel : Nat) → (first : Bool) → Text → Option (List Value × Text)
  | 0, _, _ => none
  | fuel + 1, first, text => do
    let text ← skipFiller? (text.length + 1) text
    let text ← match text, first with
      | Ascii.closeBracket :: _, _ => some text
      | Ascii.comma :: rest, false => skipFiller? (rest.length + 1) rest
      | _, true => some text
      | _, false => none
    match text with
    | Ascii.closeBracket :: rest => some ([], rest)
    | _ =>
      let (v, rest) ← value? fuel text
      let (more, after) ← items? fuel false rest
      some (v :: more, after)

/-- Reads the members of an inline table up to its end, which lies on the same line. -/
def members? : (fuel : Nat) → (first : Bool) → Text → Option (List (Key × Value) × Text)
  | 0, _, _ => none
  | fuel + 1, first, text =>
    match skipBlanks text with
    | Ascii.closeBrace :: rest => some ([], rest)
    | text => do
      let text ← if first then some text else (expect? Ascii.comma text).map skipBlanks
      let (key, rest) ← key? (text.length + 1) text
      let rest ← expect? Ascii.equals rest
      let (v, rest) ← value? fuel (skipBlanks rest)
      let (more, after) ← members? fuel false rest
      some ((key, v) :: more, after)

end

/-- Reads a pair of key and value. -/
def pair? (text : Text) : Option (Expression × Text) := do
  let (key, rest) ← key? (text.length + 1) text
  let rest ← expect? Ascii.equals rest
  let (v, after) ← value? (rest.length + 1) (skipBlanks rest)
  some (.pair key v, after)

/-- Reads the header of a table or of an element of a table array. -/
def header? (text : Text) : Option (Expression × Text) :=
  match text with
  | Ascii.openBracket :: Ascii.openBracket :: rest => do
    let (key, rest) ← key? (rest.length + 1) (skipBlanks rest)
    let rest ← expect? Ascii.closeBracket rest
    let after ← expect? Ascii.closeBracket rest
    some (.arrayHeader key, after)
  | Ascii.openBracket :: rest => do
    let (key, rest) ← key? (rest.length + 1) (skipBlanks rest)
    let after ← expect? Ascii.closeBracket rest
    some (.header key, after)
  | _ => none

/-- Reads the rest of a line: an expression, a comment, both or neither. -/
def line? (text : Text) : Option (Option Expression × Text) := do
  let text := skipBlanks text
  let (expression, text) : Option Expression × Text ← match text with
    | [] => some (none, [])
    | b :: _ =>
      if b = Ascii.hash || b = Ascii.newline || b = Ascii.carriageReturn then some (none, text)
      else if b = Ascii.openBracket then (header? text).map fun (e, rest) => (some e, rest)
      else (pair? text).map fun (e, rest) => (some e, rest)
  let text := skipBlanks text
  match text with
  | Ascii.hash :: _ => (comment? (text.length + 1) text).map (expression, ·)
  | _ => some (expression, text)

/-- Reads the lines of a document. -/
def lines? : (fuel : Nat) → Text → Option (List Expression)
  | 0, _ => none
  | fuel + 1, text => do
    let (expression, rest) ← line? text
    let more ← match rest with
      | [] => some []
      | _ =>
        match newline? rest with
        | some [] => some []
        | some rest => lines? fuel rest
        | none => none
    some (expression.toList ++ more)

/-- The expressions of a document. -/
def parse? (text : Text) : Option (List Expression) :=
  lines? (text.length + 1) text

end DependencyAudit.Toml
