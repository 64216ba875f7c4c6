import DependencyAudit.Json.Token

/-!
# JSON values

A JSON value as the tree of its tokens: numbers and strings keep their source text and
objects the order of their members, so that the tokens of a value can be written back
unchanged. Values are read by a machine that keeps the unfinished containers on a stack.
-/

namespace DependencyAudit

/-- A JSON value. -/
inductive JsonValue
  | null
  | bool (b : Bool)
  /-- A number by its source text. -/
  | number (source : Text)
  /-- A string by the source text between its quotes. -/
  | string (body : Text)
  | array (items : List JsonValue)
  /-- The members in order; a key is given by the source text between its quotes. -/
  | object (members : List (Text × JsonValue))
  deriving Repr

namespace JsonValue

/-- An unfinished container, its finished parts in reverse. -/
inductive Frame
  | array (items : List JsonValue)
  | object (members : List (Text × JsonValue))
  /-- An object whose last member has a key and still lacks its value. -/
  | member (members : List (Text × JsonValue)) (key : Text)
  deriving Repr

/-- What may come next. -/
inductive Expects
  /-- A value. -/
  | value
  /-- A value or the end of the array. -/
  | firstItem
  /-- A key or the end of the object. -/
  | firstKey
  /-- A key. -/
  | key
  /-- The colon after a key. -/
  | colon
  /-- A comma or the end of the container. -/
  | more
  /-- Nothing: the value is complete. -/
  | nothing (v : JsonValue)
  deriving Repr

/-- The machine that reads one value. -/
structure Reader where
  /-- The unfinished containers, innermost first. -/
  stack : List Frame
  expects : Expects

namespace Reader

/-- The greatest number of containers inside each other. -/
def maxDepth : Nat := 10000

/-- The machine before the first token. -/
def start : Reader := ⟨[], .value⟩

/-- Puts a finished value where it belongs. -/
def finish (v : JsonValue) : List Frame → Option Reader
  | [] => some ⟨[], .nothing v⟩
  | .array items :: outer => some ⟨.array (v :: items) :: outer, .more⟩
  | .member members key :: outer => some ⟨.object ((key, v) :: members) :: outer, .more⟩
  | .object _ :: _ => none

/-- Starts a container. -/
def enter (frame : Frame) (expects : Expects) (stack : List Frame) : Option Reader :=
  if stack.length < maxDepth then some ⟨frame :: stack, expects⟩ else none

/-- Reads the first token of a value. -/
def startValue (stack : List Frame) : JsonToken → Option Reader
  | .openObject => enter (.object []) .firstKey stack
  | .openArray => enter (.array []) .firstItem stack
  | .string body => finish (.string body) stack
  | .number source => finish (.number source) stack
  | .bool b => finish (.bool b) stack
  | .null => finish .null stack
  | _ => none

/-- Reads a key. -/
def readKey : List Frame → JsonToken → Option Reader
  | .object members :: outer, .string body => some ⟨.member members body :: outer, .colon⟩
  | _, _ => none

/-- Ends the innermost container. -/
def close : List Frame → JsonToken → Option Reader
  | .array items :: outer, .closeArray => finish (.array items.reverse) outer
  | .object members :: outer, .closeObject => finish (.object members.reverse) outer
  | _, _ => none

/-- Reads one token; there is none that may follow a complete value. -/
def feed (r : Reader) (t : JsonToken) : Option Reader :=
  match r.expects, t with
  | .value, t => startValue r.stack t
  | .firstItem, .closeArray => close r.stack .closeArray
  | .firstItem, t => startValue r.stack t
  | .firstKey, .closeObject => close r.stack .closeObject
  | .firstKey, t => readKey r.stack t
  | .key, t => readKey r.stack t
  | .colon, .colon => some ⟨r.stack, .value⟩
  | .more, .comma =>
    match r.stack with
    | .array _ :: _ => some ⟨r.stack, .value⟩
    | .object _ :: _ => some ⟨r.stack, .key⟩
    | _ => none
  | .more, t => close r.stack t
  | _, _ => none

/-- Runs the machine until its value is complete. Returns the value, the lexemes that it was
read from and those behind it. -/
def run (r : Reader) (eaten : List JsonLexeme) :
    List JsonLexeme → Option (JsonValue × List JsonLexeme × List JsonLexeme)
  | [] => none
  | l :: rest =>
    match r.feed l.token with
    | none => none
    | some r =>
      match r.expects with
      | .nothing v => some (v, (l :: eaten).reverse, rest)
      | _ => run r (l :: eaten) rest

end Reader

/-- Reads a value from the front of some lexemes. Returns the value, the lexemes that it was
read from and those behind it. -/
def read? (lexemes : List JsonLexeme) :
    Option (JsonValue × List JsonLexeme × List JsonLexeme) :=
  Reader.start.run [] lexemes

/-- Reads the value at the front of a text; what follows it is not looked at. -/
def first? (text : Text) : Option JsonValue :=
  (read? (JsonLexeme.lex text)).map (·.1)

/-- Reads a text that is one value. -/
def parse? (text : Text) : Option JsonValue :=
  match read? (JsonLexeme.lex text) with
  | some (v, _, []) => some v
  | _ => none

mutual

/-- The tokens of a value. -/
def tokens : JsonValue → List JsonToken
  | null => [.null]
  | bool b => [.bool b]
  | number source => [.number source]
  | string body => [.string body]
  | array items => .openArray :: (itemTokens items ++ [.closeArray])
  | object members => .openObject :: (memberTokens members ++ [.closeObject])

/-- The tokens of the items of an array. -/
def itemTokens : List JsonValue → List JsonToken
  | [] => []
  | v :: more =>
    tokens v ++
      match more with
      | [] => []
      | _ :: _ => .comma :: itemTokens more

/-- The tokens of the members of an object. -/
def memberTokens : List (Text × JsonValue) → List JsonToken
  | [] => []
  | (key, v) :: more =>
    .string key :: .colon :: (tokens v ++
      match more with
      | [] => []
      | _ :: _ => .comma :: memberTokens more)

end

mutual

/-- The greatest number of containers of a value that are inside each other. -/
def depth : JsonValue → Nat
  | array items => itemsDepth items + 1
  | object members => membersDepth members + 1
  | _ => 0

/-- The greatest depth of some items. -/
def itemsDepth : List JsonValue → Nat
  | [] => 0
  | v :: more => max (depth v) (itemsDepth more)

/-- The greatest depth of the values of some members. -/
def membersDepth : List (Text × JsonValue) → Nat
  | [] => 0
  | (_, v) :: more => max (depth v) (membersDepth more)

end

/-- A new line at a depth. -/
def newLine (indent : Text) (depth : Nat) : Text :=
  Ascii.newline :: (List.replicate depth indent).flatten

mutual

/-- A value with one item or member per line, each container `indent` deeper than the one
around it. Empty containers are written without a break. -/
def layout (indent : Text) (depth : Nat) : JsonValue → Text
  | null => "null"
  | bool b => if b then "true" else "false"
  | number source => source
  | string body => Ascii.quote :: (body ++ [Ascii.quote])
  | array [] => "[]"
  | array (v :: more) =>
    Ascii.openBracket :: (layoutItems indent (depth + 1) (v :: more) ++
      newLine indent depth ++ [Ascii.closeBracket])
  | object [] => "\x7b\x7d"
  | object (m :: more) =>
    Ascii.openBrace :: (layoutMembers indent (depth + 1) (m :: more) ++
      newLine indent depth ++ [Ascii.closeBrace])

/-- The items of an array, each on its line. -/
def layoutItems (indent : Text) (depth : Nat) : List JsonValue → Text
  | [] => []
  | v :: more =>
    newLine indent depth ++ layout indent depth v ++
      match more with
      | [] => []
      | _ :: _ => Ascii.comma :: layoutItems indent depth more

/-- The members of an object, each on its line. -/
def layoutMembers (indent : Text) (depth : Nat) : List (Text × JsonValue) → Text
  | [] => []
  | (key, v) :: more =>
    newLine indent depth ++ Ascii.quote :: (key ++ [Ascii.quote, Ascii.colon, Ascii.space]) ++
      layout indent depth v ++
      match more with
      | [] => []
      | _ :: _ => Ascii.comma :: layoutMembers indent depth more

end

end JsonValue

end DependencyAudit
