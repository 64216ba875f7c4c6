import DependencyAudit.Proofs.Json.Layout

/-!
# Texts that are one value

`JsonValue.parse?` reads a text that is one value. It accepts exactly the texts of the grammar, up
to the depth that the reader can hold, and returns the value that the grammar gives the text.

## Main results

* `read?_lex_of_element`: the lexemes of a text of the grammar are used up by its value;
* `parse?_eq_some_iff`: which texts are read, and as what;
* `parse?_layout`: a value is read back from its layout.
-/

namespace DependencyAudit.JsonValue

open JsonLexeme (lex IsBlankText)
open JsonGrammar (Element)

theorem read?_lex_of_element {v : JsonValue} {text : Text} (h : Element v text)
    (hdepth : v.depth ≤ Reader.maxDepth) : read? (lex text) = some (v, lex text, []) := by
  have hread := read?_append [] h.map_token_lex hdepth
  rwa [List.append_nil] at hread

/-- A text is read as a value if and only if it is one of the texts of this value, and the value
is not nested too deeply. -/
theorem parse?_eq_some_iff {v : JsonValue} {text : Text} :
    parse? text = some v ↔ Element v text ∧ v.depth ≤ Reader.maxDepth := by
  constructor
  · intro h
    unfold parse? at h
    split at h
    · rename_i found eaten hread
      obtain rfl := Option.some.inj h
      obtain ⟨hlex, htokens, hdepth, hgood⟩ := read?_sound hread
      rw [List.append_nil] at hlex
      subst hlex
      refine ⟨JsonGrammar.element_of_lex htokens.symm fun t ht => ?_, hdepth⟩
      -- the tokens of a text are well-formed unless they are bad, and none of them is
      rw [htokens] at ht
      obtain ⟨l, hl, rfl⟩ := List.mem_map.mp ht
      exact JsonLexeme.wellFormed_of_mem_lex hl (hgood l hl)
    · cases h
  · rintro ⟨helement, hdepth⟩
    rw [parse?, read?_lex_of_element helement hdepth]

theorem first?_of_element {v : JsonValue} {text : Text} (h : Element v text)
    (hdepth : v.depth ≤ Reader.maxDepth) : first? text = some v := by
  rw [first?, read?_lex_of_element h hdepth]
  rfl

/-- A value that is nested too deeply is not read at all. -/
theorem first?_eq_none_of_element {v : JsonValue} {text : Text} (h : Element v text)
    (hdepth : Reader.maxDepth < v.depth) : first? text = none := by
  rw [first?, Option.map_eq_none_iff, Option.eq_none_iff_forall_ne_some]
  rintro ⟨found, eaten, rest⟩ hread
  obtain ⟨hlex, htokens, hfound, -⟩ := read?_sound hread
  -- what is read has the tokens that the text begins with, so it is the value itself
  have hall := h.map_token_lex
  rw [hlex, List.map_append, ← htokens] at hall
  obtain ⟨rfl, -⟩ := tokens_append_inj found v (rest.map JsonLexeme.token) []
    (hall.trans (List.append_nil _).symm)
  omega

theorem element_layout {indent : Text} (hindent : IsBlankText indent) {v : JsonValue} (depth : Nat)
    (hv : v.WellFormed) : Element v (layout indent depth v) := by
  have helement := Element.mk isBlankText_nil (value_layout hindent v depth hv) isBlankText_nil
  rwa [List.nil_append, List.append_nil] at helement

/-- A value is read back from its layout. -/
theorem parse?_layout {indent : Text} (hindent : IsBlankText indent) {v : JsonValue} (depth : Nat)
    (hv : v.WellFormed) (hdepth : v.depth ≤ Reader.maxDepth) :
    parse? (layout indent depth v) = some v :=
  parse?_eq_some_iff.mpr ⟨element_layout hindent depth hv, hdepth⟩

end DependencyAudit.JsonValue
