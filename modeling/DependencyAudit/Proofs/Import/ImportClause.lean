import DependencyAudit.Proofs.Import.Words

/-!
# Import clauses

The clauses of import statements: a default name, names in braces, `* as ns`, or a default name
and one of the others, with `type` in front of the clause or of a name in braces. They are written
in tokens, with any white space and comments between them. Names are any words, also `type`, `as`
and `from`.

What is read of an element are its words, so that white space and comments do not matter, whatever
they hold. Three forms are misread, since only the first word of an element can be its modifier,
and `type` is taken for one whenever another word follows:

* `{ type as a }` is read as the name `as`;
* `type { type A }` is read as the name `type`;
* `type {}` is read as the name `type`.

## Main definitions

* `Filler`: white space and comments;
* `ImportClause`, with its `text` and its `names`;
* `ImportClause.isReadable`: it has none of the three forms.

## Main results

* `strips_tokens`: comments are stripped token by token;
* `ImportElement.words_bares`: the words of an element, whatever its layout.
-/

namespace DependencyAudit.Import

/-! ## Layout -/

/-- White space or a comment. -/
inductive Filler
  | space (code : Nat) (isSpace : isSpaceCode code = true)
  /-- `// BODY`, up to the end of the line. -/
  | line (body : Text) (oneLine : Ascii.newline ∉ body)
  /-- `/* BODY */`. -/
  | block (body : Text) (unclosed : Text.containsText "*/" body = false)

namespace Filler

def text : Filler → Text
  | space code _ => Utf8.encode code
  | line body _ => Text.ofString "//" ++ (body ++ [Ascii.newline])
  | block body _ => Text.ofString "/*" ++ (body ++ Text.ofString "*/")

/-- The filler with a space for a comment. -/
def bare : Filler → Text
  | space code _ => Utf8.encode code
  | line .. => [Ascii.space]
  | block .. => [Ascii.space]

end Filler

/-- White space and comments that separate two words. -/
structure Divider where
  fillers : List Filler
  ne_nil : fillers ≠ []

/-- What a clause is written in. -/
inductive Token
  | filler (filler : Filler)
  | name (name : Name)
  | star
  | comma
  | openBrace
  | closeBrace

namespace Token

def text : Token → Text
  | filler f => f.text
  | name n => n.text
  | star => [Ascii.star]
  | comma => [Ascii.comma]
  | openBrace => [Ascii.openBrace]
  | closeBrace => [Ascii.closeBrace]

/-- The token with a space for a comment. -/
def bare : Token → Text
  | filler f => f.bare
  | token => token.text

def texts (tokens : List Token) : Text :=
  tokens.flatMap text

def bares (tokens : List Token) : Text :=
  tokens.flatMap bare

end Token

/-- White space and comments as tokens. -/
def fill (fillers : List Filler) : List Token :=
  fillers.map Token.filler

/-! ## Clauses -/

def typeName : Name :=
  ⟨Text.ofString "type", by decide, by decide⟩

def asName : Name :=
  ⟨Text.ofString "as", by decide, by decide⟩

/-- `as LOCAL`, with what stands in front of it. -/
structure Alias where
  before : Divider
  after : Divider
  localName : Name

def Alias.tokens (a : Alias) : List Token :=
  fill a.before.fillers ++ (Token.name asName :: (fill a.after.fillers ++ [Token.name a.localName]))

/-- `NAME` or `NAME as LOCAL`, with an optional modifier `type` in front of it. -/
structure ImportElement where
  before : List Filler
  /-- What separates the modifier from the name. -/
  modifier : Option Divider
  name : Name
  newName : Option Alias
  after : List Filler

namespace ImportElement

def tokens (e : ImportElement) : List Token :=
  fill e.before ++ (e.modifier.toList.flatMap (fun d => Token.name typeName :: fill d.fillers) ++
    (Token.name e.name :: (e.newName.toList.flatMap Alias.tokens ++ fill e.after)))

/-- The local name that the element binds. -/
def binds (e : ImportElement) : Text :=
  match e.newName with
  | some a => a.localName.text
  | none => e.name.text

/-- Is the element read as it is meant? It matters whether it comes behind the `type` of a clause.
Elsewhere `type as a` is taken for the name `as` with a modifier; there `type A` is taken for the
name `type`, since the modifier is found already. -/
def isReadable (behindType : Bool) (e : ImportElement) : Bool :=
  match behindType, e.modifier, e.newName with
  | false, none, some a => e.name.text != typeName.text || a.localName.text == asName.text
  | true, some _, none => e.name.text == typeName.text
  | _, _, _ => true

end ImportElement

/-- `{ a, b as c }` or `* as ns`. -/
inductive ImportGroup
  | named (elements : Listing ImportElement) (inner : List Filler)
  | star (before after : Divider) (name : Name)

namespace ImportGroup

def tokens : ImportGroup → List Token
  | named elements inner =>
    Token.openBrace :: (elements.write Token.comma ImportElement.tokens ++
      (fill inner ++ [Token.closeBrace]))
  | star before after name =>
    Token.star :: (fill before.fillers ++ (Token.name asName :: (fill after.fillers ++
      [Token.name name])))

/-- The local names that the group binds. -/
def names : ImportGroup → List Text
  | named elements _ => elements.toList.map ImportElement.binds
  | star _ _ name => [name.text]

/-- Only the first element comes behind the `type` of a clause; if there is none, the `type` itself
is taken for a name. -/
def isReadable (behindType : Bool) : ImportGroup → Bool
  | named elements _ =>
    match elements.toList with
    | [] => !behindType
    | first :: more => first.isReadable behindType && more.all (ImportElement.isReadable false)
  | star .. => true

end ImportGroup

/-- A default name, a group, or both. -/
inductive ImportBody
  | default (name : Name)
  | group (group : ImportGroup)
  | both (name : Name) (before after : List Filler) (group : ImportGroup)

namespace ImportBody

def tokens : ImportBody → List Token
  | default name => [Token.name name]
  | group g => g.tokens
  | both name before after g =>
    Token.name name :: (fill before ++ (Token.comma :: (fill after ++ g.tokens)))

/-- The local names that the body binds. -/
def names : ImportBody → List Text
  | default name => [name.text]
  | group g => g.names
  | both name _ _ g => name.text :: g.names

def isReadable (behindType : Bool) : ImportBody → Bool
  | default _ => true
  | group g => g.isReadable behindType
  | both _ _ _ g => g.isReadable false

/-- A brace needs no white space in front of it. -/
def opensBrace : ImportBody → Bool
  | group (.named ..) => true
  | _ => false

end ImportBody

/-- What stands between `import` and `from`. -/
structure ImportClause where
  before : List Filler
  /-- What follows the `type` in front of the clause. -/
  modifier : Option (List Filler)
  body : ImportBody
  after : List Filler
  /-- Where nothing separates them, the modifier stands before a brace. -/
  separated : modifier = some [] → body.opensBrace = true

/-- A leading `type` and what follows it. -/
def leadTokens (modifier : Option (List Filler)) : List Token :=
  modifier.toList.flatMap fun fillers => Token.name typeName :: fill fillers

namespace ImportClause

def tokens (c : ImportClause) : List Token :=
  fill c.before ++ (leadTokens c.modifier ++ (c.body.tokens ++ fill c.after))

def text (c : ImportClause) : Text :=
  Token.texts c.tokens

/-- The local names that the clause binds. -/
def names (c : ImportClause) : List Text :=
  c.body.names

/-- None of the three forms that are misread occurs. -/
def isReadable (c : ImportClause) : Bool :=
  c.body.isReadable c.modifier.isSome

end ImportClause

/-! ## Comments and commas -/

namespace Token

@[simp]
theorem bares_nil : bares [] = [] :=
  rfl

@[simp]
theorem bares_append (ts us : List Token) : bares (ts ++ us) = bares ts ++ bares us :=
  List.flatMap_append

@[simp]
theorem bares_cons (t : Token) (ts : List Token) : bares (t :: ts) = t.bare ++ bares ts :=
  List.flatMap_cons

/-- A token strips to its bare text. -/
theorem strips (t : Token) : Strips t.text t.bare := by
  cases t with
  | filler f =>
    cases f with
    | space code h => exact strips_of_not_mem ((Text.isSpace_encode h).not_mem (by decide))
    | line body h => exact strips_line h
    | block body h => exact strips_block h
  | name n => exact strips_of_not_mem (n.not_mem (by decide))
  | star => exact strips_of_not_mem (by decide)
  | comma => exact strips_of_not_mem (by decide)
  | openBrace => exact strips_of_not_mem (by decide)
  | closeBrace => exact strips_of_not_mem (by decide)

end Token

/-- A space is written for each comment. -/
theorem strips_tokens (ts : List Token) : Strips (Token.texts ts) (Token.bares ts) :=
  strips_flatMap ts fun t _ => t.strips

/-- Fillers are white space but for their comments. -/
theorem Filler.isSpace_bare (f : Filler) : Text.IsSpace f.bare := by
  have hspace : Text.IsSpace [Ascii.space] := Text.isSpace_of_isBlank (by decide)
  cases f with
  | space code h => exact Text.isSpace_encode h
  | line => exact hspace
  | block => exact hspace

/-- No filler is empty. -/
theorem Filler.bare_ne_nil (f : Filler) : f.bare ≠ [] := by
  cases f with
  | space code h =>
    obtain ⟨b, more, hencode, -⟩ := Utf8.encode_eq_cons (isScalar_of_isSpaceCode h)
    rw [bare, hencode]
    exact List.cons_ne_nil b more
  | line => exact List.cons_ne_nil _ _
  | block => exact List.cons_ne_nil _ _

/-- Fillers leave nothing but white space. -/
theorem isVoid_fill (fillers : List Filler) : IsVoid (Token.bares (fill fillers)) := by
  induction fillers with
  | nil => exact isVoid_nil
  | cons f more ih => exact (isVoid_of_isSpace f.isSpace_bare).append ih

/-- Fillers leave some white space, if there are any. -/
theorem bares_fill_ne_nil {fillers : List Filler} (h : fillers ≠ []) :
    Token.bares (fill fillers) ≠ [] := by
  obtain ⟨f, more, rfl⟩ := List.exists_cons_of_ne_nil h
  exact List.append_ne_nil_of_left_ne_nil f.bare_ne_nil _

/-- Commas stand where they are tokens. -/
theorem comma_not_mem_bares {ts : List Token} (h : Token.comma ∉ ts) :
    Ascii.comma ∉ Token.bares ts := by
  intro hmem
  obtain ⟨t, ht, hcomma⟩ := List.mem_flatMap.mp hmem
  cases t with
  | filler f => exact f.isSpace_bare.not_mem (by decide) hcomma
  | name n => exact n.not_mem (by decide) hcomma
  | star => exact absurd hcomma (by decide)
  | comma => exact h ht
  | openBrace => exact absurd hcomma (by decide)
  | closeBrace => exact absurd hcomma (by decide)

/-- There are no commas among fillers. -/
theorem comma_not_mem_fill (fillers : List Filler) : Token.comma ∉ fill fillers := by
  simp [fill]

/-- There are no commas in an element. -/
theorem ImportElement.comma_not_mem (e : ImportElement) : Token.comma ∉ e.tokens := by
  simp [tokens, Alias.tokens, comma_not_mem_fill]

/-! ## Words -/

/-- A name, what separates it from the next word, and the words behind. -/
theorem words_name_fill (n : Name) {fillers : List Filler} (h : fillers ≠ []) (rest : Text) :
    words (n.text ++ (Token.bares (fill fillers) ++ rest)) = n.text :: words rest :=
  words_append n.isWord (isVoid_fill fillers) (bares_fill_ne_nil h) rest

namespace ImportElement

/-- The words of an element. -/
def words (e : ImportElement) : List Text :=
  e.modifier.toList.map (fun _ => typeName.text) ++
    (e.name.text :: e.newName.toList.flatMap fun a => [asName.text, a.localName.text])

/-- The layout of an element does not matter. -/
theorem words_bares (e : ImportElement) : Import.words (Token.bares e.tokens) = e.words := by
  -- the name with its alias, each separated by fillers
  have hname : Import.words (e.name.text ++ Token.bares (e.newName.toList.flatMap Alias.tokens)) =
      e.name.text :: e.newName.toList.flatMap fun a => [asName.text, a.localName.text] := by
    cases e.newName with
    | none => simpa using words_word e.name.isWord
    | some a =>
      have htext : Token.bares ((some a).toList.flatMap Alias.tokens) =
          Token.bares (fill a.before.fillers) ++ (asName.text ++
            (Token.bares (fill a.after.fillers) ++ a.localName.text)) := by
        simp [Alias.tokens, Token.bare, Token.text]
      rw [htext, words_name_fill _ a.before.ne_nil, words_name_fill _ a.after.ne_nil,
        words_word a.localName.isWord]
      rfl
  have htext : Token.bares e.tokens = Token.bares (fill e.before) ++
      (Token.bares (e.modifier.toList.flatMap fun d => Token.name typeName :: fill d.fillers) ++
        ((e.name.text ++ Token.bares (e.newName.toList.flatMap Alias.tokens)) ++
          Token.bares (fill e.after))) := by
    simp [tokens, Token.bare, Token.text]
  rw [htext, words_void_append (isVoid_fill _), ← List.append_assoc,
    words_append_void (isVoid_fill _), words]
  -- the modifier is one more word in front
  cases e.modifier with
  | none => exact hname
  | some d =>
    have hmodifier := words_name_fill typeName d.ne_nil
      (e.name.text ++ Token.bares (e.newName.toList.flatMap Alias.tokens))
    rw [hname] at hmodifier
    simpa [Token.bare, Token.text] using hmodifier

end ImportElement

end DependencyAudit.Import
