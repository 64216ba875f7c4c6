import DependencyAudit.Proofs.Json.Lexeme
import DependencyAudit.Proofs.Json.ReadBack

/-!
# The grammar of JSON texts

The texts of a value, rule by rule as in RFC 8259: an element is a value with white space around
it, and the structural characters stand between elements. A string body may hold any byte from
the space on, and numbers and strings are part of the value by their source text, so a text
belongs to at most one value.

Cutting a text into lexemes and comparing tokens decides the grammar. In the one direction the
white space of the rules is swallowed by the lexer, in the other each lexeme brings the white
space in front of it, and what is left at the end is white space too.

## Main definitions

* `JsonGrammar.Value`, `JsonGrammar.Element`: the texts of a value, without and with white space
  around it;
* `JsonGrammar.Members`: the texts of the members of an object.

## Main results

* `Element.map_token_lex`: a text of the grammar has the tokens of its value;
* `element_of_lex`: a text with the tokens of a value is one of its texts.
-/

namespace DependencyAudit

namespace JsonValue

/-- Every token of the value has a source text of the grammar. -/
def WellFormed (v : JsonValue) : Prop :=
  ∀ t ∈ v.tokens, t.WellFormed

/-- An object is well-formed if its keys and its values are. -/
theorem wellFormed_object_iff {members : List (Text × JsonValue)} :
    (object members).WellFormed ↔
      ∀ m ∈ members, JsonToken.IsBody m.1 ∧ m.2.WellFormed := by
  have hmembers : (object members).WellFormed ↔ ∀ t ∈ memberTokens members, t.WellFormed := by
    rw [WellFormed, tokens, List.forall_mem_cons, List.forall_mem_append]
    simp [JsonToken.WellFormed]
  rw [hmembers]
  clear hmembers
  induction members with
  | nil => simp [memberTokens]
  | cons m more ih =>
    obtain ⟨key, v⟩ := m
    -- the comma in between is well-formed
    have hlater : (∀ t ∈ laterMembers more, t.WellFormed) ↔
        ∀ t ∈ memberTokens more, t.WellFormed := by
      cases more with
      | nil => simp [laterMembers, memberTokens]
      | cons => simp [laterMembers, JsonToken.WellFormed]
    rw [memberTokens_cons, List.forall_mem_cons, List.forall_mem_cons, List.forall_mem_append,
      List.forall_mem_cons, hlater.trans ih]
    simp [JsonToken.WellFormed, WellFormed, and_assoc]

/-- An array is well-formed if its items are. -/
theorem wellFormed_array_iff {items : List JsonValue} :
    (array items).WellFormed ↔ ∀ v ∈ items, v.WellFormed := by
  have hitems : (array items).WellFormed ↔ ∀ t ∈ itemTokens items, t.WellFormed := by
    rw [WellFormed, tokens, List.forall_mem_cons, List.forall_mem_append]
    simp [JsonToken.WellFormed]
  rw [hitems]
  clear hitems
  induction items with
  | nil => simp [itemTokens]
  | cons v more ih =>
    have hlater : (∀ t ∈ laterItems more, t.WellFormed) ↔
        ∀ t ∈ itemTokens more, t.WellFormed := by
      cases more with
      | nil => simp [laterItems, itemTokens]
      | cons => simp [laterItems, JsonToken.WellFormed]
    rw [itemTokens_cons, List.forall_mem_append, List.forall_mem_cons, hlater.trans ih, WellFormed]

end JsonValue

namespace JsonGrammar

open JsonToken (IsNumber IsBody EndsNumber)
open JsonLexeme (IsBlankText lex token map_token_lex_blank map_token_lex_source)
open JsonValue (itemTokens itemTokens_cons laterItems memberTokens memberTokens_cons laterMembers)

/-! ## The rules -/

mutual

/-- The text is the value. -/
inductive Value : JsonValue → Text → Prop
  | null : Value .null "null"
  | yes : Value (.bool true) "true"
  | no : Value (.bool false) "false"
  | number {source : Text} (h : IsNumber source) : Value (.number source) source
  | string {body : Text} (h : IsBody body) :
      Value (.string body) (Ascii.quote :: (body ++ [Ascii.quote]))
  | emptyArray {blank : Text} (h : IsBlankText blank) :
      Value (.array []) (Ascii.openBracket :: (blank ++ [Ascii.closeBracket]))
  | array {items : List JsonValue} {text : Text} (h : Elements items text) :
      Value (.array items) (Ascii.openBracket :: (text ++ [Ascii.closeBracket]))
  | emptyObject {blank : Text} (h : IsBlankText blank) :
      Value (.object []) (Ascii.openBrace :: (blank ++ [Ascii.closeBrace]))
  | object {members : List (Text × JsonValue)} {text : Text} (h : Members members text) :
      Value (.object members) (Ascii.openBrace :: (text ++ [Ascii.closeBrace]))

/-- The text is the value with white space around it. -/
inductive Element : JsonValue → Text → Prop
  | mk {v : JsonValue} {before text after : Text} (hbefore : IsBlankText before)
      (h : Value v text) (hafter : IsBlankText after) : Element v (before ++ (text ++ after))

/-- The text is one element or more, with commas between them. -/
inductive Elements : List JsonValue → Text → Prop
  | last {v : JsonValue} {text : Text} (h : Element v text) : Elements [v] text
  | cons {v : JsonValue} {more : List JsonValue} {text rest : Text} (h : Element v text)
      (hmore : Elements more rest) : Elements (v :: more) (text ++ Ascii.comma :: rest)

/-- The text is a key, a colon and an element. -/
inductive Member : Text × JsonValue → Text → Prop
  | mk {key : Text} {v : JsonValue} {before after text : Text} (hbefore : IsBlankText before)
      (hkey : IsBody key) (hafter : IsBlankText after) (h : Element v text) :
      Member (key, v)
        (before ++ Ascii.quote :: (key ++ Ascii.quote :: (after ++ Ascii.colon :: text)))

/-- The text is one member or more, with commas between them. -/
inductive Members : List (Text × JsonValue) → Text → Prop
  | last {m : Text × JsonValue} {text : Text} (h : Member m text) : Members [m] text
  | cons {m : Text × JsonValue} {more : List (Text × JsonValue)} {text rest : Text}
      (h : Member m text) (hmore : Members more rest) :
      Members (m :: more) (text ++ Ascii.comma :: rest)

end

/-! ## From the rules to the tokens -/

/-- A text that begins with a byte of no number ends the number in front of it. -/
theorem endsNumber_cons {b : UInt8} (rest : Text)
    (hb : b = Ascii.newline ∨ b = Ascii.comma ∨ b = Ascii.closeBracket ∨ b = Ascii.closeBrace) :
    EndsNumber (b :: rest) := by
  intro c hc
  obtain rfl : b = c := by simpa using hc
  rcases hb with rfl | rfl | rfl | rfl <;> decide

/-- A mark in a text is a token of it. -/
theorem map_token_lex_mark {t : JsonToken} {b : UInt8} (rest : Text) (hmark : t.source = [b])
    (ht : t.WellFormed) (hfollows : t.Follows rest) :
    (lex (b :: rest)).map token = t :: (lex rest).map token := by
  have hlex := map_token_lex_source ht hfollows
  rw [hmark] at hlex
  exact hlex

/-- White space in front of a text that does not continue a number does not continue one. -/
theorem endsNumber_blank_append {blank rest : Text} (hblank : IsBlankText blank)
    (hrest : EndsNumber rest) : EndsNumber (blank ++ rest) := by
  cases blank with
  | nil => exact hrest
  | cons b more =>
    intro c hc
    obtain rfl : b = c := by simpa using hc
    have hb : ((b = 32 ∨ b = 9) ∨ b = 10) ∨ b = 13 := by
      simpa [JsonToken.isJsonBlank] using hblank b List.mem_cons_self
    rcases hb with ((rfl | rfl) | rfl) | rfl <;> decide

/-- More items stand behind a comma. -/
theorem laterItems_eq {more : List JsonValue} (h : more ≠ []) :
    laterItems more = .comma :: itemTokens more := by
  cases more with
  | nil => exact absurd rfl h
  | cons => rfl

/-- More members stand behind a comma. -/
theorem laterMembers_eq {more : List (Text × JsonValue)} (h : more ≠ []) :
    laterMembers more = .comma :: memberTokens more := by
  cases more with
  | nil => exact absurd rfl h
  | cons => rfl

/-- A spelling of items is of one item at least. -/
theorem Elements.ne_nil {items : List JsonValue} {text : Text} (h : Elements items text) :
    items ≠ [] := by
  cases h <;> simp

/-- A spelling of members is of one member at least. -/
theorem Members.ne_nil {members : List (Text × JsonValue)} {text : Text}
    (h : Members members text) : members ≠ [] := by
  cases h <;> simp

-- each rule is followed by a text that does not continue a number: the commas, brackets and
-- braces between the parts, and at the end whatever the statement allows

mutual

/-- A text of a value has its tokens, whatever follows. -/
theorem Value.map_token_lex : {v : JsonValue} → {text : Text} → Value v text →
    (rest : Text) → EndsNumber rest →
      (lex (text ++ rest)).map token = v.tokens ++ (lex rest).map token
  | _, _, .null, rest, _ => map_token_lex_source (t := .null) trivial trivial
  | _, _, .yes, rest, _ => map_token_lex_source (t := .bool true) trivial trivial
  | _, _, .no, rest, _ => map_token_lex_source (t := .bool false) trivial trivial
  | _, _, .number h, rest, hrest => map_token_lex_source (t := .number _) h hrest
  | _, _, .string h, rest, _ => map_token_lex_source (t := .string _) h trivial
  | _, _, .emptyArray hblank, rest, _ => by
    rw [List.cons_append, List.append_assoc, List.singleton_append,
      map_token_lex_mark (t := .openArray) _ rfl trivial trivial, map_token_lex_blank hblank,
      map_token_lex_mark (t := .closeArray) _ rfl trivial trivial]
    simp [JsonValue.tokens, itemTokens]
  | _, _, .array h, rest, _ => by
    have hclose : EndsNumber (Ascii.closeBracket :: rest) :=
      endsNumber_cons rest (by simp)
    rw [List.cons_append, List.append_assoc, List.singleton_append,
      map_token_lex_mark (t := .openArray) _ rfl trivial trivial, h.map_token_lex _ hclose,
      map_token_lex_mark (t := .closeArray) _ rfl trivial trivial]
    simp [JsonValue.tokens]
  | _, _, .emptyObject hblank, rest, _ => by
    rw [List.cons_append, List.append_assoc, List.singleton_append,
      map_token_lex_mark (t := .openObject) _ rfl trivial trivial, map_token_lex_blank hblank,
      map_token_lex_mark (t := .closeObject) _ rfl trivial trivial]
    simp [JsonValue.tokens, memberTokens]
  | _, _, .object h, rest, _ => by
    have hclose : EndsNumber (Ascii.closeBrace :: rest) :=
      endsNumber_cons rest (by simp)
    rw [List.cons_append, List.append_assoc, List.singleton_append,
      map_token_lex_mark (t := .openObject) _ rfl trivial trivial, h.map_token_lex _ hclose,
      map_token_lex_mark (t := .closeObject) _ rfl trivial trivial]
    simp [JsonValue.tokens]

/-- White space around a value adds no token. -/
theorem Element.map_token_lex_append : {v : JsonValue} → {text : Text} → Element v text →
    (rest : Text) → EndsNumber rest →
      (lex (text ++ rest)).map token = v.tokens ++ (lex rest).map token
  | _, _, .mk hbefore h hafter, rest, hrest => by
    rw [List.append_assoc, List.append_assoc, map_token_lex_blank hbefore,
      h.map_token_lex _ (endsNumber_blank_append hafter hrest), map_token_lex_blank hafter]

/-- A spelling of items is read as their tokens. -/
theorem Elements.map_token_lex : {items : List JsonValue} → {text : Text} → Elements items text →
    (rest : Text) → EndsNumber rest →
      (lex (text ++ rest)).map token = itemTokens items ++ (lex rest).map token
  | _, _, .last h, rest, hrest => by
    rw [h.map_token_lex_append rest hrest]
    simp [itemTokens]
  | _, _, .cons h hmore, rest, hrest => by
    have hcomma : ∀ more : Text, EndsNumber (Ascii.comma :: more) :=
      fun more => endsNumber_cons more (by simp)
    rw [List.append_assoc, List.cons_append, h.map_token_lex_append _ (hcomma _),
      map_token_lex_mark (t := .comma) _ rfl trivial trivial, hmore.map_token_lex rest hrest,
      itemTokens_cons, laterItems_eq hmore.ne_nil]
    simp

/-- A spelling of a member is read as its key, a colon and the tokens of its value. -/
theorem Member.map_token_lex : {m : Text × JsonValue} → {text : Text} → Member m text →
    (rest : Text) → EndsNumber rest →
      (lex (text ++ rest)).map token =
        .string m.1 :: .colon :: (m.2.tokens ++ (lex rest).map token)
  | _, _, @Member.mk key v before after text hbefore hkey hafter h, rest, hrest => by
    -- the key is a string with its quotes
    have hsplit : before ++ Ascii.quote :: (key ++ Ascii.quote :: (after ++ Ascii.colon :: text)) ++
        rest = before ++ ((JsonToken.string key).source ++
          (after ++ Ascii.colon :: (text ++ rest))) := by
      simp [JsonToken.source]
    rw [hsplit, map_token_lex_blank hbefore,
      map_token_lex_source (t := .string key) hkey trivial, map_token_lex_blank hafter,
      map_token_lex_mark (t := .colon) _ rfl trivial trivial, h.map_token_lex_append rest hrest]

/-- A spelling of members is read as their tokens. -/
theorem Members.map_token_lex : {members : List (Text × JsonValue)} → {text : Text} →
    Members members text → (rest : Text) → EndsNumber rest →
      (lex (text ++ rest)).map token = memberTokens members ++ (lex rest).map token
  | _, _, @Members.last (_, _) _ h, rest, hrest => by
    rw [h.map_token_lex rest hrest]
    simp [memberTokens]
  | _, _, @Members.cons (_, _) _ _ _ h hmore, rest, hrest => by
    have hcomma : ∀ more : Text, EndsNumber (Ascii.comma :: more) :=
      fun more => endsNumber_cons more (by simp)
    rw [List.append_assoc, List.cons_append, h.map_token_lex _ (hcomma _),
      map_token_lex_mark (t := .comma) _ rfl trivial trivial, hmore.map_token_lex rest hrest,
      memberTokens_cons, laterMembers_eq hmore.ne_nil]
    simp

end

/-- A text of the grammar has the tokens of its value. -/
theorem Element.map_token_lex {v : JsonValue} {text : Text} (h : Element v text) :
    (lex text).map token = v.tokens := by
  have hlex := h.map_token_lex_append [] (by simp [EndsNumber])
  have hnil : lex [] = [] := rfl
  rwa [List.append_nil, hnil, List.map_nil, List.append_nil] at hlex

end JsonGrammar

/-! ## From the tokens to the rules -/

namespace JsonLexeme

open JsonToken (isJsonBlank)

/-- The lexeme may stand in a text of the grammar. -/
structure Clean (l : JsonLexeme) : Prop where
  /-- In front of the token there is white space only. -/
  blank : IsBlankText l.blank
  /-- The token is spelled as it should be. -/
  token : l.token.WellFormed

/-- A text without bad tokens is the text of its lexemes and white space behind them. -/
theorem exists_text_of_lex {text : Text} (h : ∀ l ∈ lex text, l.token ≠ .bad) :
    ∃ after, IsBlankText after ∧ text = (lex text).flatMap source ++ after ∧
      ∀ l ∈ lex text, l.Clean := by
  -- the rest behind the first token is shorter than the text
  induction hn : text.length using Nat.strongRecOn generalizing text with
  | ind n ih =>
    have hblank : IsBlankText (text.takeWhile isJsonBlank) :=
      List.all_eq_true.mp List.all_takeWhile
    have hsplit := List.takeWhile_append_dropWhile (p := isJsonBlank) (l := text)
    rw [lex_eq] at h ⊢
    cases htext : text.dropWhile isJsonBlank with
    | nil =>
      rw [htext, List.append_nil] at hsplit
      exact ⟨text, hsplit ▸ hblank, rfl, by simp⟩
    | cons b rest =>
      rw [htext] at h hsplit
      rcases hnext : JsonToken.next (b :: rest) with ⟨t, after⟩
      by_cases hbad : t = .bad
      · subst hbad
        simp [hnext] at h
      · simp only [hnext, List.forall_mem_cons] at h
        obtain ⟨hwell, hrest⟩ := JsonToken.next_sound hnext hbad
        have hlength := JsonToken.length_next hnext hbad
        have hshorter : after.length < n := by
          rw [← hn, ← hsplit, List.length_append, List.length_cons]
          omega
        obtain ⟨tail, htail, hafter, hclean⟩ := ih after.length hshorter h.2 rfl
        refine ⟨tail, htail, ?_, ?_⟩
        · simp only [hnext, List.flatMap_cons, source, List.append_assoc]
          rw [← hafter, ← hrest, hsplit]
        · simp only [hnext, List.forall_mem_cons]
          exact ⟨⟨hblank, hwell⟩, hclean⟩

end JsonLexeme

namespace JsonGrammar

open JsonLexeme (IsBlankText Clean lex token source)
open JsonValue (itemTokens itemTokens_cons laterItems memberTokens memberTokens_cons laterMembers)

/-- A single lexeme is the text of a value. -/
theorem element_singleton {v : JsonValue} {l : JsonLexeme} {after : Text}
    (hl : l.Clean) (hafter : IsBlankText after) (h : Value v l.token.source) :
    Element v ([l].flatMap source ++ after) := by
  have helement := Element.mk hl.blank h hafter
  simpa [source] using helement

/-- The lexemes of a container begin and end with its brackets. -/
theorem exists_delimited {lexemes : List JsonLexeme} {t t' : JsonToken} {ts : List JsonToken}
    (h : lexemes.map token = t :: (ts ++ [t'])) :
    ∃ l inner l', lexemes = l :: (inner ++ [l']) ∧ l.token = t ∧ inner.map token = ts ∧
      l'.token = t' := by
  obtain ⟨l, tail, rfl, hl, htail⟩ := List.map_eq_cons_iff.mp h
  obtain ⟨inner, back, rfl, hinner, hback⟩ := List.map_eq_append_iff.mp htail
  obtain ⟨l', rfl, hl'⟩ := List.map_eq_singleton_iff.mp hback
  exact ⟨l, inner, l', rfl, hl, hinner, hl'⟩

/-- Lexemes between brackets are the text of a value. -/
theorem element_delimited {v : JsonValue} {l l' : JsonLexeme} {inner : List JsonLexeme}
    {after : Text} (hl : l.Clean) (hafter : IsBlankText after)
    (h : Value v (l.token.source ++ (inner.flatMap source ++ l'.blank ++ l'.token.source))) :
    Element v ((l :: (inner ++ [l'])).flatMap source ++ after) := by
  have helement := Element.mk hl.blank h hafter
  simpa [source] using helement

-- white space belongs to the lexeme behind it, so what stands behind the last lexeme is part of
-- the statements: it is the white space of the comma, of the closing bracket, or of the end

mutual

/-- Lexemes with the tokens of a value are one of its texts. -/
theorem element_of_tokens : (v : JsonValue) → (lexemes : List JsonLexeme) → (after : Text) →
    lexemes.map token = v.tokens → (∀ l ∈ lexemes, l.Clean) → IsBlankText after →
      Element v (lexemes.flatMap source ++ after)
  | .null, _, _, htokens, hclean, hafter => by
    obtain ⟨l, rfl, hl⟩ := List.map_eq_singleton_iff.mp htokens
    exact element_singleton (hclean l (by simp)) hafter (hl ▸ .null)
  | .bool true, _, _, htokens, hclean, hafter => by
    obtain ⟨l, rfl, hl⟩ := List.map_eq_singleton_iff.mp htokens
    exact element_singleton (hclean l (by simp)) hafter (hl ▸ .yes)
  | .bool false, _, _, htokens, hclean, hafter => by
    obtain ⟨l, rfl, hl⟩ := List.map_eq_singleton_iff.mp htokens
    exact element_singleton (hclean l (by simp)) hafter (hl ▸ .no)
  | .number _, _, _, htokens, hclean, hafter => by
    obtain ⟨l, rfl, hl⟩ := List.map_eq_singleton_iff.mp htokens
    have hl_clean := hclean l (by simp)
    have hnumber := hl_clean.token
    rw [hl] at hnumber
    exact element_singleton hl_clean hafter (hl ▸ .number hnumber)
  | .string _, _, _, htokens, hclean, hafter => by
    obtain ⟨l, rfl, hl⟩ := List.map_eq_singleton_iff.mp htokens
    have hl_clean := hclean l (by simp)
    have hbody := hl_clean.token
    rw [hl] at hbody
    exact element_singleton hl_clean hafter (hl ▸ .string hbody)
  | .array [], _, _, htokens, hclean, hafter => by
    rw [JsonValue.tokens] at htokens
    obtain ⟨l, inner, l', rfl, hl, hinner, hl'⟩ := exists_delimited htokens
    obtain rfl := List.map_eq_nil_iff.mp hinner
    simp only [List.forall_mem_cons, List.forall_mem_append] at hclean
    obtain ⟨hopen, -, hclose, -⟩ := hclean
    refine element_delimited hopen hafter ?_
    rw [hl, hl']
    exact .emptyArray hclose.blank
  | .array (v :: more), _, _, htokens, hclean, hafter => by
    rw [JsonValue.tokens] at htokens
    obtain ⟨l, inner, l', rfl, hl, hinner, hl'⟩ := exists_delimited htokens
    simp only [List.forall_mem_cons, List.forall_mem_append] at hclean
    obtain ⟨hopen, hclean_inner, hclose, -⟩ := hclean
    refine element_delimited hopen hafter ?_
    rw [hl, hl']
    exact .array (elements_of_tokens v more inner l'.blank hinner hclean_inner hclose.blank)
  | .object [], _, _, htokens, hclean, hafter => by
    rw [JsonValue.tokens] at htokens
    obtain ⟨l, inner, l', rfl, hl, hinner, hl'⟩ := exists_delimited htokens
    obtain rfl := List.map_eq_nil_iff.mp hinner
    simp only [List.forall_mem_cons, List.forall_mem_append] at hclean
    obtain ⟨hopen, -, hclose, -⟩ := hclean
    refine element_delimited hopen hafter ?_
    rw [hl, hl']
    exact .emptyObject hclose.blank
  | .object ((key, v) :: more), _, _, htokens, hclean, hafter => by
    rw [JsonValue.tokens] at htokens
    obtain ⟨l, inner, l', rfl, hl, hinner, hl'⟩ := exists_delimited htokens
    simp only [List.forall_mem_cons, List.forall_mem_append] at hclean
    obtain ⟨hopen, hclean_inner, hclose, -⟩ := hclean
    refine element_delimited hopen hafter ?_
    rw [hl, hl']
    exact .object (members_of_tokens key v more inner l'.blank hinner hclean_inner hclose.blank)
termination_by v => sizeOf v

/-- Lexemes with the tokens of some items are one of their texts. -/
theorem elements_of_tokens : (v : JsonValue) → (more : List JsonValue) →
    (lexemes : List JsonLexeme) → (after : Text) →
    lexemes.map token = itemTokens (v :: more) → (∀ l ∈ lexemes, l.Clean) → IsBlankText after →
      Elements (v :: more) (lexemes.flatMap source ++ after)
  | v, [], _, after, htokens, hclean, hafter => by
    rw [itemTokens_cons, laterItems, List.append_nil] at htokens
    exact .last (element_of_tokens v _ after htokens hclean hafter)
  | v, w :: others, _, after, htokens, hclean, hafter => by
    rw [itemTokens_cons] at htokens
    obtain ⟨front, back, rfl, hfront, hback⟩ := List.map_eq_append_iff.mp htokens
    obtain ⟨l, tail, rfl, hl, htail⟩ := List.map_eq_cons_iff.mp hback
    simp only [List.forall_mem_cons, List.forall_mem_append] at hclean
    obtain ⟨hclean_front, hcomma, hclean_tail⟩ := hclean
    have hfirst := element_of_tokens v front l.blank hfront hclean_front hcomma.blank
    have hothers := elements_of_tokens w others tail after htail hclean_tail hafter
    simpa [source, hl, JsonToken.source] using Elements.cons hfirst hothers
termination_by v more => sizeOf (v :: more)

/-- Lexemes with the tokens of some members are one of their texts. -/
theorem members_of_tokens : (key : Text) → (v : JsonValue) → (more : List (Text × JsonValue)) →
    (lexemes : List JsonLexeme) → (after : Text) →
    lexemes.map token = memberTokens ((key, v) :: more) → (∀ l ∈ lexemes, l.Clean) →
    IsBlankText after → Members ((key, v) :: more) (lexemes.flatMap source ++ after)
  | key, v, [], _, after, htokens, hclean, hafter => by
    rw [memberTokens_cons, laterMembers, List.append_nil] at htokens
    obtain ⟨l, tail, rfl, hl, htail⟩ := List.map_eq_cons_iff.mp htokens
    obtain ⟨l', front, rfl, hl', hfront⟩ := List.map_eq_cons_iff.mp htail
    simp only [List.forall_mem_cons] at hclean
    obtain ⟨hkey, hcolon, hclean_front⟩ := hclean
    have hbody := hkey.token
    rw [hl] at hbody
    have hvalue := element_of_tokens v front after hfront hclean_front hafter
    simpa [source, hl, hl', JsonToken.source] using
      Members.last (.mk hkey.blank hbody hcolon.blank hvalue)
  | key, v, (key', w) :: others, _, after, htokens, hclean, hafter => by
    rw [memberTokens_cons] at htokens
    -- the lexemes of the key, of the colon and of the value, and behind the comma the rest
    obtain ⟨l, tail, rfl, hl, htail⟩ := List.map_eq_cons_iff.mp htokens
    obtain ⟨l', back, rfl, hl', hback⟩ := List.map_eq_cons_iff.mp htail
    obtain ⟨front, back, rfl, hfront, hback⟩ := List.map_eq_append_iff.mp hback
    obtain ⟨l₂, rest, rfl, hl₂, hrest⟩ := List.map_eq_cons_iff.mp hback
    simp only [List.forall_mem_cons, List.forall_mem_append] at hclean
    obtain ⟨hkey, hcolon, hclean_front, hcomma, hclean_rest⟩ := hclean
    have hbody := hkey.token
    rw [hl] at hbody
    have hvalue := element_of_tokens v front l₂.blank hfront hclean_front hcomma.blank
    have hothers := members_of_tokens key' w others rest after hrest hclean_rest hafter
    simpa [source, hl, hl', hl₂, JsonToken.source] using
      Members.cons (.mk hkey.blank hbody hcolon.blank hvalue) hothers
termination_by key v more => sizeOf ((key, v) :: more)

end

/-- A text with the tokens of a well-formed value is one of its texts. -/
theorem element_of_lex {v : JsonValue} {text : Text} (h : (lex text).map token = v.tokens)
    (hv : v.WellFormed) : Element v text := by
  have hgood : ∀ l ∈ lex text, l.token ≠ .bad := by
    intro l hl hbad
    have hwell := hv l.token (h ▸ List.mem_map_of_mem hl)
    rw [hbad] at hwell
    exact hwell
  obtain ⟨after, hafter, htext, hclean⟩ := JsonLexeme.exists_text_of_lex hgood
  rw [htext]
  exact element_of_tokens v (lex text) after h hclean hafter

end JsonGrammar

end DependencyAudit
