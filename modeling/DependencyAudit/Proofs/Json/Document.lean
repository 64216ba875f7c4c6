import DependencyAudit.Proofs.Json.Layout

/-!
# Documents line by line

A document is a value with one member or item per line. It is described by its lines alone: how
many levels each one is indented, and what stands on it. A container that is not empty takes a line
for its opening bracket and one for its closing bracket, and its parts stand between them one level
deeper; everything else takes one line. In front of a value on its line may stand the key that it
belongs to, behind it the comma that separates it from the next part.

The layout of a value breaks lines in front of its parts, a document ends each of its lines. Both
are the same text.

## Main definitions

* `JsonValue.lines`: the lines of a value;
* `JsonValue.document`: the text of these lines.

## Main results

* `document_eq_layout`: a document is a laid out value and a final newline;
* `map_token_lex_lines`: a document has the tokens of its value.
-/

namespace DependencyAudit.JsonValue

open JsonLexeme (token lex IsBlankText)

/-- A line of a document. -/
structure Line where
  /-- How many levels the line is indented. -/
  depth : Nat
  /-- What stands on the line behind the indentation. -/
  text : Text

namespace Line

/-- A line in a text, with the newline at its end. -/
def source (indent : Text) (l : Line) : Text :=
  (List.replicate l.depth indent).flatten ++ (l.text ++ [Ascii.newline])

end Line

/-- A value without any white space. -/
def compact (v : JsonValue) : Text :=
  v.tokens.flatMap JsonToken.source

/-- A comma, unless nothing follows. -/
def separator {α : Type} : List α → Text
  | [] => []
  | _ :: _ => [Ascii.comma]

mutual

/-- The lines of a value. `lead` stands in front of the value on its first line and `tail` behind
it on its last. -/
def lines (depth : Nat) (lead tail : Text) : JsonValue → List Line
  | array (v :: more) =>
    ⟨depth, lead ++ [Ascii.openBracket]⟩ ::
      (itemLines (depth + 1) (v :: more) ++ [⟨depth, Ascii.closeBracket :: tail⟩])
  | object (m :: more) =>
    ⟨depth, lead ++ [Ascii.openBrace]⟩ ::
      (memberLines (depth + 1) (m :: more) ++ [⟨depth, Ascii.closeBrace :: tail⟩])
  | v => [⟨depth, lead ++ (v.compact ++ tail)⟩]

/-- The lines of the items of an array. -/
def itemLines (depth : Nat) : List JsonValue → List Line
  | [] => []
  | v :: more => lines depth [] (separator more) v ++ itemLines depth more

/-- The lines of the members of an object; a colon and a space stand behind a key. -/
def memberLines (depth : Nat) : List (Text × JsonValue) → List Line
  | [] => []
  | (key, v) :: more =>
    lines depth (Ascii.quote :: (key ++ [Ascii.quote, Ascii.colon, Ascii.space])) (separator more) v
      ++ memberLines depth more

end

/-- A value with one member or item per line. -/
def document (indent : Text) (v : JsonValue) : Text :=
  (lines 0 [] [] v).flatMap (Line.source indent)

/-! ## Documents and layouts -/

section Lines

variable (indent : Text)

-- a document ends its lines, a layout begins them; so the statement about parts has a newline in
-- front on the one side and behind on the other

mutual

/-- The text of the lines of a value. -/
theorem flatMap_lines : (v : JsonValue) → (depth : Nat) → (lead tail : Text) →
    (lines depth lead tail v).flatMap (Line.source indent) =
      (List.replicate depth indent).flatten ++
        (lead ++ (layout indent depth v ++ (tail ++ [Ascii.newline])))
  | .null, depth, lead, tail | .bool true, depth, lead, tail | .bool false, depth, lead, tail
  | .number _, depth, lead, tail | .string _, depth, lead, tail => by
    simp [lines, layout, Line.source, compact, tokens, JsonToken.source]
  | .array [], depth, lead, tail => by
    have hempty : Text.ofString "[]" = [Ascii.openBracket, Ascii.closeBracket] := by decide
    simp [lines, layout, Line.source, compact, tokens, itemTokens, JsonToken.source, hempty]
  | .object [], depth, lead, tail => by
    have hempty : Text.ofString "\x7b\x7d" = [Ascii.openBrace, Ascii.closeBrace] := by decide
    simp [lines, layout, Line.source, compact, tokens, memberTokens, JsonToken.source, hempty]
  | .array (v :: more), depth, lead, tail => by
    have hitems := flatMap_itemLines v more (depth + 1)
    rw [lines, layout, List.flatMap_cons, List.flatMap_append, List.flatMap_singleton]
    simp only [Line.source, newLine, List.append_assoc, List.cons_append, List.nil_append]
      at hitems ⊢
    rw [← List.cons_append, hitems]
    simp
  | .object (m :: more), depth, lead, tail => by
    have hmembers := flatMap_memberLines m more (depth + 1)
    rw [lines, layout, List.flatMap_cons, List.flatMap_append, List.flatMap_singleton]
    simp only [Line.source, newLine, List.append_assoc, List.cons_append, List.nil_append]
      at hmembers ⊢
    rw [← List.cons_append, hmembers]
    simp
termination_by v => sizeOf v

/-- The text of the lines of some items. -/
theorem flatMap_itemLines : (v : JsonValue) → (more : List JsonValue) → (depth : Nat) →
    Ascii.newline :: (itemLines depth (v :: more)).flatMap (Line.source indent) =
      layoutItems indent depth (v :: more) ++ [Ascii.newline]
  | v, [], depth => by
    have hv := flatMap_lines v depth [] []
    simp [itemLines, layoutItems, separator, newLine, hv]
  | v, w :: more, depth => by
    have hv := flatMap_lines v depth [] [Ascii.comma]
    have hmore := flatMap_itemLines w more depth
    rw [itemLines, layoutItems, separator, List.flatMap_append, hv]
    simp only [newLine, List.append_assoc, List.cons_append, List.nil_append]
    rw [hmore]
termination_by v more => sizeOf (v :: more)

/-- The text of the lines of some members. -/
theorem flatMap_memberLines : (m : Text × JsonValue) → (more : List (Text × JsonValue)) →
    (depth : Nat) →
    Ascii.newline :: (memberLines depth (m :: more)).flatMap (Line.source indent) =
      layoutMembers indent depth (m :: more) ++ [Ascii.newline]
  | (key, v), [], depth => by
    have hv := flatMap_lines v depth
      (Ascii.quote :: (key ++ [Ascii.quote, Ascii.colon, Ascii.space])) []
    simp [memberLines, layoutMembers, separator, newLine, hv]
  | (key, v), w :: more, depth => by
    have hv := flatMap_lines v depth
      (Ascii.quote :: (key ++ [Ascii.quote, Ascii.colon, Ascii.space])) [Ascii.comma]
    have hmore := flatMap_memberLines w more depth
    rw [memberLines, layoutMembers, separator, List.flatMap_append, hv]
    simp only [newLine, List.append_assoc, List.cons_append, List.nil_append]
    rw [hmore]
termination_by m more => sizeOf (m :: more)

end

/-- A document is a laid out value and a final newline. -/
theorem document_eq_layout (v : JsonValue) :
    document indent v = layout indent 0 v ++ [Ascii.newline] := by
  rw [document, flatMap_lines]
  simp

/-- A document has the tokens of its value. -/
theorem map_token_lex_lines (hindent : IsBlankText indent) {v : JsonValue} (hv : v.WellFormed) :
    (lex (document indent v)).map token = v.tokens := by
  rw [document_eq_layout]
  exact map_token_lex_document hindent v 0 hv

end Lines

end DependencyAudit.JsonValue
