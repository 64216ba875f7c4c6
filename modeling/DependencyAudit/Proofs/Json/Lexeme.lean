import DependencyAudit.Proofs.Json.Number
import DependencyAudit.Proofs.Json.StringBody

/-!
# Cutting JSON texts into lexemes

A well-formed token is read back from its source text, and every token that is cut out of a
text is well-formed. Together with the white space between tokens this determines the lexemes
of any text that is put together from tokens.

## Main definitions

* `JsonToken.WellFormed`: the token has a source text of the grammar;
* `JsonToken.Follows`: a text may stand behind a token without being taken for a part of it.

## Main results

* `JsonToken.next_sound` and `JsonToken.next_append`: `next` reads exactly the well-formed
  tokens;
* `JsonLexeme.lex_source`: a token behind white space is the first lexeme of its text;
* `JsonLexeme.wellFormed_of_mem_lex`: the tokens of a text are well-formed.
-/

namespace DependencyAudit

namespace JsonToken

/-- The token has a source text of the grammar. -/
def WellFormed : JsonToken → Prop
  | string body => IsBody body
  | number source => IsNumber source
  | bad => False
  | _ => True

/-- The text does not continue the token in front of it. -/
def Follows (rest : Text) : JsonToken → Prop
  | number _ => EndsNumber rest
  | _ => True

/-- The source text of a well-formed token does not begin with white space. -/
theorem WellFormed.exists_cons {t : JsonToken} (h : t.WellFormed) :
    ∃ b tail, t.source = b :: tail ∧ isJsonBlank b = false := by
  cases t with
  | number source =>
    obtain ⟨b, tail, hsource, rfl | hb⟩ := IsNumber.exists_cons h
    · exact ⟨_, tail, hsource, by decide⟩
    · -- no digit is white space
      refine ⟨b, tail, hsource, ?_⟩
      rw [Bool.eq_false_iff]
      intro hblank
      have hcases : ((b = 32 ∨ b = 9) ∨ b = 10) ∨ b = 13 := by simpa [isJsonBlank] using hblank
      rcases hcases with ((rfl | rfl) | rfl) | rfl <;> exact absurd hb (by decide)
  | bad => exact h.elim
  | string body => exact ⟨_, _, rfl, by decide⟩
  | bool b => cases b <;> exact ⟨_, _, rfl, by decide⟩
  | _ => exact ⟨_, _, rfl, by decide⟩

theorem mark?_sound {b : UInt8} {t : JsonToken} (h : mark? b = some t) :
    t.WellFormed ∧ t.source = [b] := by
  refine ⟨?_, by simpa using List.find?_some h⟩
  -- there are six marks
  have hmem := List.mem_of_find?_eq_some h
  simp only [marks, List.mem_cons, List.not_mem_nil, or_false] at hmem
  rcases hmem with rfl | rfl | rfl | rfl | rfl | rfl <;> trivial

/-- A token that is read is well-formed, and nothing of the text is lost. -/
theorem next_sound {text after : Text} {t : JsonToken} (h : next text = (t, after))
    (ht : t ≠ bad) : t.WellFormed ∧ text = t.source ++ after := by
  unfold next at h
  split at h
  · exact absurd (Prod.mk.inj h).1.symm ht
  rename_i b rest
  split at h
  · rename_i mark hmark
    obtain ⟨rfl, rfl⟩ := Prod.mk.inj h
    obtain ⟨hwell, hsource⟩ := mark?_sound hmark
    exact ⟨hwell, by rw [hsource]; rfl⟩
  split at h
  -- a string
  · rename_i hb
    split at h
    · rename_i body behind hbody
      obtain ⟨rfl, rfl⟩ := Prod.mk.inj h
      obtain ⟨hwell, rfl⟩ := stringBody?_sound hbody
      exact ⟨hwell, by rw [hb]; simp [source]⟩
    · exact absurd (Prod.mk.inj h).1.symm ht
  split at h
  -- a number
  · split at h
    · rename_i source behind hnumber
      obtain ⟨rfl, rfl⟩ := Prod.mk.inj h
      obtain ⟨hwell, htext⟩ := number?_sound hnumber
      exact ⟨hwell, htext⟩
    · exact absurd (Prod.mk.inj h).1.symm ht
  -- the three words
  split at h
  · rename_i behind hword
    obtain ⟨rfl, rfl⟩ := Prod.mk.inj h
    exact ⟨trivial, Text.dropPrefix?_eq_some_iff.mp hword⟩
  split at h
  · rename_i behind hword
    obtain ⟨rfl, rfl⟩ := Prod.mk.inj h
    exact ⟨trivial, Text.dropPrefix?_eq_some_iff.mp hword⟩
  split at h
  · rename_i behind hword
    obtain ⟨rfl, rfl⟩ := Prod.mk.inj h
    exact ⟨trivial, Text.dropPrefix?_eq_some_iff.mp hword⟩
  · exact absurd (Prod.mk.inj h).1.symm ht

/-- A byte that begins a number begins no other token. -/
private theorem next_of_number {b : UInt8} {rest source after : Text}
    (hb : b = Ascii.dash ∨ Text.isDigit b = true)
    (h : number? (b :: rest) = some (source, after)) :
    next (b :: rest) = (number source, after) := by
  -- the branches in front of the one for numbers are not taken
  have hmark : mark? b = none := by
    rw [mark?, List.find?_eq_none]
    intro t ht hsource
    simp only [marks, List.mem_cons, List.not_mem_nil, or_false] at ht
    rcases ht with rfl | rfl | rfl | rfl | rfl | rfl <;>
      · obtain rfl := by simpa [JsonToken.source] using hsource
        exact absurd hb (by decide)
  have hquote : b ≠ Ascii.quote := by
    rintro rfl
    exact absurd hb (by decide)
  have hcond : (decide (b = Ascii.dash) || Text.isDigit b) = true := by simpa using hb
  rw [next, hmark]
  simp only [if_neg hquote, if_pos hcond, h]

/-- A well-formed token is read back in front of a text that does not continue it. -/
theorem next_append {t : JsonToken} {rest : Text} (h : t.WellFormed) (hrest : t.Follows rest) :
    next (t.source ++ rest) = (t, rest) := by
  cases t with
  | string body =>
    -- the body ends at the first quote that is not escaped, which is the closing one
    have hbody : stringBody? ((body ++ [Ascii.quote]) ++ rest) = some (body, rest) := by
      rw [List.append_assoc, List.singleton_append, stringBody?_append h]
    have hmark : mark? Ascii.quote = none := by decide
    show next (Ascii.quote :: ((body ++ [Ascii.quote]) ++ rest)) = _
    rw [next, hmark]
    simp only [if_pos, hbody]
  | number source =>
    obtain ⟨b, tail, rfl, hb⟩ := IsNumber.exists_cons h
    exact next_of_number hb (number?_append h hrest)
  | bad => exact h.elim
  | bool b => cases b <;> rfl
  | _ => rfl

/-- Reading a token takes at least one byte. -/
theorem length_next {b : UInt8} {rest after : Text} {t : JsonToken}
    (h : next (b :: rest) = (t, after)) (ht : t ≠ bad) : after.length ≤ rest.length := by
  obtain ⟨hwell, htext⟩ := next_sound h ht
  obtain ⟨c, tail, hsource, -⟩ := hwell.exists_cons
  rw [hsource, List.cons_append] at htext
  rw [(List.cons.inj htext).2, List.length_append]
  exact Nat.le_add_left _ _

end JsonToken

namespace JsonLexeme

open JsonToken

/-- Does the text hold only white space? -/
def IsBlankText (blank : Text) : Prop :=
  ∀ b ∈ blank, isJsonBlank b = true

/-- More fuel than bytes does not change the lexemes. -/
theorem lexUpTo_eq_of_le {text : Text} {n m : Nat} (hn : text.length ≤ n) (hm : text.length ≤ m) :
    lexUpTo n text = lexUpTo m text := by
  induction n generalizing m text with
  | zero =>
    obtain rfl : text = [] := by simpa using hn
    cases m <;> rfl
  | succ n ih =>
    cases m with
    | zero =>
      obtain rfl : text = [] := by simpa using hm
      rfl
    | succ m =>
      unfold lexUpTo
      split
      · rfl
      · rename_i b rest htext
        split
        · rfl
        · rename_i t after hbad hnext
          -- the rest behind a token is shorter than the text
          have hlength : (text.dropWhile isJsonBlank).length ≤ text.length :=
            (List.dropWhile_suffix _).length_le
          rw [htext, List.length_cons] at hlength
          have hafter := length_next hnext hbad
          rw [ih (m := m) (by omega) (by omega)]

/-- One step of the lexer: white space, a token, and the lexemes of the rest. -/
theorem lex_eq (text : Text) :
    lex text =
      match text.dropWhile isJsonBlank with
      | [] => []
      | b :: rest =>
        match next (b :: rest) with
        | (.bad, _) => [⟨text.takeWhile isJsonBlank, .bad⟩]
        | (t, after) => ⟨text.takeWhile isJsonBlank, t⟩ :: lex after := by
  -- one more unit of fuel than needed lets the equation of the loop apply
  have hfuel : lex text = lexUpTo (text.length + 1) text :=
    lexUpTo_eq_of_le (Nat.le_refl _) (Nat.le_succ _)
  rw [hfuel, lexUpTo]
  cases htext : text.dropWhile isJsonBlank with
  | nil => rfl
  | cons b rest =>
    have hlength : (text.dropWhile isJsonBlank).length ≤ text.length :=
      (List.dropWhile_suffix _).length_le
    rw [htext, List.length_cons] at hlength
    rcases hnext : next (b :: rest) with ⟨t, after⟩
    by_cases hbad : t = bad
    · subst hbad
      simp only [hnext]
    · have hafter := length_next hnext hbad
      have hrest : lexUpTo text.length after = lex after :=
        lexUpTo_eq_of_le (by omega) (Nat.le_refl _)
      simp only [hnext, hrest]

/-- What stands behind white space has the same tokens without it. -/
theorem map_token_lex_blank {blank : Text} (h : IsBlankText blank) (text : Text) :
    (lex (blank ++ text)).map token = (lex text).map token := by
  rw [lex_eq, lex_eq text, List.dropWhile_append_of_pos h]
  split
  · rfl
  · split <;> rfl

/-- A token behind white space is the first lexeme of its text. -/
theorem lex_source {blank rest : Text} {t : JsonToken} (hblank : IsBlankText blank)
    (ht : t.WellFormed) (hrest : t.Follows rest) :
    lex (blank ++ (t.source ++ rest)) = ⟨blank, t⟩ :: lex rest := by
  -- the white space ends where the token begins
  obtain ⟨b, tail, hsource, hb⟩ := ht.exists_cons
  have hnext := next_append ht hrest
  rw [hsource, List.cons_append] at hnext ⊢
  have htake : (blank ++ b :: (tail ++ rest)).takeWhile isJsonBlank = blank := by
    rw [List.takeWhile_append_of_pos hblank, List.takeWhile_cons_of_neg (by simp [hb]),
      List.append_nil]
  rw [lex_eq, List.dropWhile_append_of_pos hblank, List.dropWhile_cons_of_neg (by simp [hb]),
    htake]
  simp only [hnext]
  split
  · rename_i heq
    obtain ⟨rfl, -⟩ := Prod.mk.inj heq
    exact ht.elim
  · rename_i heq
    obtain ⟨rfl, rfl⟩ := Prod.mk.inj heq
    rfl

/-- The tokens of a text that begins with a token. -/
theorem map_token_lex_source {rest : Text} {t : JsonToken} (ht : t.WellFormed)
    (hrest : t.Follows rest) :
    (lex (t.source ++ rest)).map token = t :: (lex rest).map token := by
  have hlex : lex ([] ++ (t.source ++ rest)) = ⟨[], t⟩ :: lex rest :=
    lex_source (fun _ h => absurd h (by simp)) ht hrest
  rw [List.nil_append] at hlex
  rw [hlex, List.map_cons]

/-- The tokens of a text are well-formed. -/
theorem wellFormed_of_mem_lex {text : Text} {l : JsonLexeme} (hl : l ∈ lex text)
    (hbad : l.token ≠ bad) : l.token.WellFormed := by
  -- how much fuel there is does not matter here
  unfold lex at hl
  generalize text.length = n at hl
  induction n generalizing text with
  | zero => exact absurd hl (by simp [lexUpTo])
  | succ n ih =>
    unfold lexUpTo at hl
    split at hl
    · exact absurd hl (by simp)
    · split at hl
      · obtain rfl := by simpa using hl
        exact absurd rfl hbad
      · rename_i hnext
        rcases List.mem_cons.mp hl with rfl | hmem
        · exact (next_sound hnext hbad).1
        · exact ih hmem

end JsonLexeme

end DependencyAudit
