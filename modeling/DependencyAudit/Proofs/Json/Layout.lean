import DependencyAudit.Proofs.Json.Grammar

/-!
# Laid out values

`JsonValue.layout` decides about white space only: at every depth it writes a value as one of its
texts, so cut into lexemes the text has the tokens of the value again.

## Main results

* `value_layout`: the layout of a value is one of its texts;
* `map_token_lex_document`: the tokens of a text that consists of a value and a final newline.
-/

namespace DependencyAudit.JsonValue

open JsonLexeme (token lex IsBlankText)
open JsonGrammar (Value Element Elements Member Members)

theorem isBlankText_nil : IsBlankText [] :=
  fun _ hb => absurd hb List.not_mem_nil

theorem isBlankText_space : IsBlankText [Ascii.space] := by
  simp [IsBlankText, JsonToken.isJsonBlank]

theorem isBlankText_newLine {indent : Text} (h : IsBlankText indent) (depth : Nat) :
    IsBlankText (newLine indent depth) := by
  intro b hb
  rcases List.mem_cons.mp hb with rfl | hb
  · decide
  · obtain ⟨line, hline, hb⟩ := List.mem_flatten.mp hb
    rw [(List.mem_replicate.mp hline).2] at hb
    exact h b hb

section Layout

variable {indent : Text} (hindent : IsBlankText indent)

include hindent

-- a line break stands in front of every part of a container; the one in front of its end is the
-- white space behind its last part

mutual

/-- The layout of a value is one of its texts. -/
theorem value_layout : (v : JsonValue) → (depth : Nat) → v.WellFormed →
    Value v (layout indent depth v)
  | .null, _, _ => .null
  | .bool true, _, _ => .yes
  | .bool false, _, _ => .no
  | .number source, _, hv => .number (hv (.number source) (by simp [tokens]))
  | .string body, _, hv => .string (hv (.string body) (by simp [tokens]))
  | .array [], _, _ => .emptyArray isBlankText_nil
  | .array (v :: more), depth, hv => by
    have hitems : ∀ t ∈ itemTokens (v :: more), t.WellFormed :=
      fun t ht => hv t (by simp [tokens, ht])
    exact .array (elements_layout v more (depth + 1) hitems (isBlankText_newLine hindent depth))
  | .object [], _, _ => .emptyObject isBlankText_nil
  | .object ((key, v) :: more), depth, hv => by
    have hmembers : ∀ t ∈ memberTokens ((key, v) :: more), t.WellFormed :=
      fun t ht => hv t (by simp [tokens, ht])
    exact .object
      (members_layout key v more (depth + 1) hmembers (isBlankText_newLine hindent depth))
termination_by v => sizeOf v

/-- The layout of some items, with white space behind them. -/
theorem elements_layout : (v : JsonValue) → (more : List JsonValue) → (depth : Nat) →
    (∀ t ∈ itemTokens (v :: more), t.WellFormed) → {after : Text} → IsBlankText after →
      Elements (v :: more) (layoutItems indent depth (v :: more) ++ after)
  | v, [], depth, hitems, after, hafter => by
    have hv : v.WellFormed := fun t ht => hitems t (by simp [itemTokens, ht])
    have helement := Element.mk (isBlankText_newLine hindent depth) (value_layout v depth hv) hafter
    simpa [layoutItems] using Elements.last helement
  | v, w :: more, depth, hitems, after, hafter => by
    have hv : v.WellFormed := fun t ht => hitems t (by simp [itemTokens, ht])
    have hmore : ∀ t ∈ itemTokens (w :: more), t.WellFormed :=
      fun t ht => hitems t (by simp [itemTokens_cons v, laterItems, ht])
    have helement := Element.mk (isBlankText_newLine hindent depth) (value_layout v depth hv)
      isBlankText_nil
    have helements := elements_layout w more depth hmore hafter
    simpa [layoutItems] using Elements.cons helement helements
termination_by v more => sizeOf (v :: more)

/-- The layout of some members, with white space behind them. -/
theorem members_layout : (key : Text) → (v : JsonValue) → (more : List (Text × JsonValue)) →
    (depth : Nat) → (∀ t ∈ memberTokens ((key, v) :: more), t.WellFormed) → {after : Text} →
    IsBlankText after →
      Members ((key, v) :: more) (layoutMembers indent depth ((key, v) :: more) ++ after)
  | key, v, [], depth, hmembers, after, hafter => by
    have hkey : (JsonToken.string key).WellFormed := hmembers _ (by simp [memberTokens])
    have hv : v.WellFormed := fun t ht => hmembers t (by simp [memberTokens, ht])
    have helement := Element.mk isBlankText_space (value_layout v depth hv) hafter
    simpa [layoutMembers] using Members.last
      (.mk (isBlankText_newLine hindent depth) hkey isBlankText_nil helement)
  | key, v, (key', w) :: more, depth, hmembers, after, hafter => by
    have hkey : (JsonToken.string key).WellFormed := hmembers _ (by simp [memberTokens])
    have hv : v.WellFormed := fun t ht => hmembers t (by simp [memberTokens, ht])
    have hmore : ∀ t ∈ memberTokens ((key', w) :: more), t.WellFormed :=
      fun t ht => hmembers t (by simp [memberTokens_cons key v, laterMembers, ht])
    have helement := Element.mk isBlankText_space (value_layout v depth hv)
      isBlankText_nil
    have hothers := members_layout key' w more depth hmore hafter
    simpa [layoutMembers] using Members.cons
      (.mk (isBlankText_newLine hindent depth) hkey isBlankText_nil helement)
      hothers
termination_by key v more => sizeOf ((key, v) :: more)

end

/-- The tokens of a document: a value and a final newline. -/
theorem map_token_lex_document (v : JsonValue) (depth : Nat) (hv : v.WellFormed) :
    (lex (layout indent depth v ++ [Ascii.newline])).map token = v.tokens := by
  have hnewline : IsBlankText [Ascii.newline] := by simp [IsBlankText, JsonToken.isJsonBlank]
  have helement := Element.mk isBlankText_nil (value_layout hindent v depth hv) hnewline
  exact helement.map_token_lex

end Layout

end DependencyAudit.JsonValue
