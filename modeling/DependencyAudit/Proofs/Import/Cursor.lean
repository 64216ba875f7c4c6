import DependencyAudit.Proofs.Import.Layout

/-!
# What the cursor reads

Calls and assignments are read by a cursor that passes one part after the other. Each of its
steps has two lemmas: what must stand in the text when the step succeeds, and that it succeeds
where this stands. The first kind is stated in terms of the quotes. A match reaches a first
quote character, and a closing quote must follow on the same line.

## Main definitions

* `Closes`: a specifier and its closing quote stand in front of a text;
* `Reaches`: a text has no quote up to a quoted specifier;
* `EndsCall`: a text ends in an opening parenthesis and white space.

## Main results

* `call?_reaches` and `assignment?_sound`: what a match is made of;
* `call?_append` and `assignment?_append`: calls and assignments are matched.
-/

namespace DependencyAudit.Import

/-! ## Texts up to a quoted specifier -/

/-- A specifier and its closing quote stand in front of the text. -/
def Closes (text : Text) : Prop :=
  ∃ specifier close rest, text = specifier ++ close :: rest ∧
    (∀ b ∈ specifier, isSpecifierByte b = true) ∧ isQuote close = true

/-- The text has no quote character up to a quoted specifier, where `lead` ends. -/
def Reaches (lead text : Text) : Prop :=
  ∃ quote rest, text = lead ++ quote :: rest ∧ Unquoted lead ∧ isQuote quote = true ∧ Closes rest

/-- The text ends in an opening parenthesis and white space. -/
def EndsCall (text : Text) : Prop :=
  ∃ before blanks, text = before ++ Text.byte '(' :: blanks ∧ ∀ b ∈ blanks, isBlank b = true

/-- An unquoted text in front does not get in the way of the quote. -/
theorem Reaches.append {u lead text : Text} (hu : Unquoted u) (h : Reaches lead text) :
    Reaches (u ++ lead) (u ++ text) := by
  obtain ⟨quote, rest, rfl, hlead, hquote, hcloses⟩ := h
  exact ⟨quote, rest, by rw [List.append_assoc], unquoted_append.mpr ⟨hu, hlead⟩, hquote, hcloses⟩

/-- Where the first quote character stands decides what is reached. -/
theorem Reaches.eq {lead u rest : Text} {quote : UInt8} (h : Reaches lead (u ++ quote :: rest))
    (hu : Unquoted u) (hquote : isQuote quote = true) : lead = u ∧ Closes rest := by
  obtain ⟨quote', rest', heq, hlead, hquote', hcloses⟩ := h
  obtain ⟨rfl, -, rfl⟩ := split_inj hu hlead hquote hquote' heq
  exact ⟨rfl, hcloses⟩

/-- No specifier goes past the end of a line. -/
theorem not_closes_of_newline {u : Text} (h : Unquoted u) (rest : Text) :
    ¬ Closes (u ++ Ascii.newline :: rest) := by
  rintro ⟨specifier, close, rest', heq, hspecifier, hclose⟩
  have hline : Ascii.newline ∉ specifier := fun hmem => absurd (hspecifier _ hmem) (by decide)
  have hu : Unquoted (u ++ [Ascii.newline]) := unquoted_append.mpr ⟨h, by decide⟩
  rw [List.append_cons] at heq
  -- the closing quote would have to stand in front of the newline
  rcases List.append_eq_append_iff.mp heq with ⟨a, rfl, -⟩ | ⟨c, hc, hrest⟩
  · simp at hline
  · cases c with
    | nil => exact hline (by rw [List.append_nil] at hc; simp [← hc])
    | cons d c =>
      obtain ⟨rfl, -⟩ := List.cons.inj hrest
      rw [hu close (by rw [hc]; simp)] at hclose
      cases hclose

/-! ## What a match is made of -/

namespace Cursor

/-- A run eats bytes of its class and nothing else. -/
theorem run_sound (p : UInt8 → Bool) (c : Cursor) :
    c.ahead = (c.run p).1 ++ (c.run p).2.ahead ∧ ∀ b ∈ (c.run p).1, p b = true :=
  ⟨List.takeWhile_append_dropWhile.symm, List.all_eq_true.mp List.all_takeWhile⟩

/-- Only blanks are skipped. -/
theorem blanks_sound (c : Cursor) :
    ∃ blanks, c.ahead = blanks ++ c.blanks.ahead ∧ ∀ b ∈ blanks, isBlank b = true :=
  ⟨(c.run isBlank).1, c.run_sound isBlank⟩

/-- Blanks that are required are there. -/
theorem someBlanks?_sound {c c' : Cursor} (h : c.someBlanks? = some c') :
    ∃ blanks, c.ahead = blanks ++ c'.ahead ∧ blanks ≠ [] ∧ ∀ b ∈ blanks, isBlank b = true := by
  unfold someBlanks? at h
  split at h
  · rename_i b rest hahead
    split at h
    · rename_i hb
      obtain rfl := Option.some.inj h
      obtain ⟨hsplit, hblank⟩ := c.run_sound isBlank
      exact ⟨(c.run isBlank).1, hsplit, by simp [run, hahead, hb], hblank⟩
    · cases h
  · cases h

/-- An expected word is there. -/
theorem expect?_sound {c c' : Cursor} {word : Text} (h : c.expect? word = some c') :
    c.ahead = word ++ c'.ahead := by
  obtain ⟨rest, hrest, rfl⟩ := Option.map_eq_some_iff.mp h
  exact Text.dropPrefix?_eq_some_iff.mp hrest

/-- One of the expected words is there. -/
theorem expectAny?_sound {c c' : Cursor} {words : List Text} (h : c.expectAny? words = some c') :
    ∃ word ∈ words, c.ahead = word ++ c'.ahead := by
  obtain ⟨word, hword, hexpect⟩ := List.exists_of_findSome?_eq_some h
  exact ⟨word, hword, expect?_sound hexpect⟩

/-- An expected quote is there. -/
theorem quote?_sound {c c' : Cursor} (h : c.quote? = some c') :
    ∃ quote, c.ahead = quote :: c'.ahead ∧ isQuote quote = true := by
  unfold quote? at h
  split at h
  · rename_i b rest hahead
    split at h
    · rename_i hb
      obtain rfl := Option.some.inj h
      exact ⟨b, hahead, hb⟩
    · cases h
  · cases h

/-- A quoted specifier begins with its quote. -/
theorem quoted?_sound {c : Cursor} {result : Text × Cursor} (h : c.quoted? = some result) :
    Reaches [] c.ahead := by
  obtain ⟨c₁, hopen, h⟩ := Option.bind_eq_some_iff.mp h
  obtain ⟨quote, hahead, hquote⟩ := quote?_sound hopen
  dsimp only at h
  split at h
  · cases h
  · obtain ⟨c₂, hclose, -⟩ := Option.bind_eq_some_iff.mp h
    obtain ⟨close, hahead', hclose⟩ := quote?_sound hclose
    obtain ⟨hsplit, hspecifier⟩ := c₁.run_sound isSpecifierByte
    rw [hahead'] at hsplit
    exact ⟨quote, c₁.ahead, hahead, by simp [Unquoted], hquote, _, close, _, hsplit, hspecifier,
      hclose⟩

/-- An argument is reached through its parenthesis. -/
theorem argument?_reaches {c : Cursor} {result : Text × Cursor} (h : c.argument? = some result) :
    ∃ before inner, Reaches (before ++ Text.byte '(' :: inner) c.ahead ∧
      (∀ b ∈ before, isBlank b = true) ∧ ∀ b ∈ inner, isBlank b = true := by
  obtain ⟨c₁, hparen, h⟩ := Option.bind_eq_some_iff.mp h
  obtain ⟨quoted, hquoted, -⟩ := Option.bind_eq_some_iff.mp h
  obtain ⟨before, hbefore, hblank⟩ := c.blanks_sound
  obtain ⟨inner, hinner, hblank'⟩ := c₁.blanks_sound
  have hahead : c.ahead = (before ++ Text.byte '(' :: inner) ++ c₁.blanks.ahead := by
    rw [hbefore, expect?_sound hparen, hinner, List.append_assoc]
    rfl
  refine ⟨before, inner, ?_, hblank, hblank'⟩
  have hunquoted : Unquoted (before ++ Text.byte '(' :: inner) :=
    unquoted_append.mpr ⟨unquoted_of_isBlank hblank,
      unquoted_cons.mpr ⟨by decide, unquoted_of_isBlank hblank'⟩⟩
  have hreaches := (quoted?_sound hquoted).append hunquoted
  rwa [List.append_nil, ← hahead] at hreaches

/-- What `target?` passes: a name, or braces around a text without a closing brace. -/
theorem target?_sound {c : Cursor} {target : Text} {c' : Cursor}
    (h : c.target? = some (target, c')) :
    c.ahead = target ++ c'.ahead ∧
      ((∀ b ∈ target, isNameByte b = true) ∨
        ∃ body, target = Ascii.openBrace :: (body ++ [Ascii.closeBrace]) ∧
          Ascii.closeBrace ∉ body) := by
  -- a name is a run of its bytes, and braces run up to the first one that closes
  unfold target? at h
  split at h
  · cases h
  · rename_i b rest hahead
    split at h
    · obtain ⟨hsplit, hname⟩ := c.run_sound isNameByte
      rw [Option.some.inj h] at hsplit hname
      exact ⟨hsplit, Or.inl hname⟩
    · split at h
      · rename_i hb
        split at h
        · cases h
        · rename_i d after hdrop
          obtain ⟨rfl, rfl⟩ := Prod.mk.inj (Option.some.inj h)
          have hclosing : d = Ascii.closeBrace := by
            have := List.head?_dropWhile_not (· != Ascii.closeBrace) rest
            simpa [hdrop] using this
          subst hclosing
          refine ⟨?_, Or.inr ⟨_, rfl, fun hmem => ?_⟩⟩
          · have hsplit := @List.takeWhile_append_dropWhile _ (· != Ascii.closeBrace) rest
            rw [hdrop] at hsplit
            rw [hahead, hb, List.cons_append, List.append_assoc, List.singleton_append, hsplit]
          · simpa using List.all_eq_true.mp List.all_takeWhile _ hmem
      · cases h

/-- An `await` that is passed over holds no quote. -/
theorem await_sound (c : Cursor) :
    ∃ skipped, c.ahead =
      skipped ++ (((c.expect? "await").bind someBlanks?).getD c).ahead ∧ Unquoted skipped := by
  cases h : (c.expect? "await").bind someBlanks? with
  | none => exact ⟨[], rfl, by decide⟩
  | some c' =>
    obtain ⟨c₁, hword, hblanks⟩ := Option.bind_eq_some_iff.mp h
    obtain ⟨blanks, hahead, -, hblank⟩ := someBlanks?_sound hblanks
    refine ⟨Text.ofString "await" ++ blanks, ?_, unquoted_append.mpr ⟨by decide,
      unquoted_of_isBlank hblank⟩⟩
    rw [expect?_sound hword, hahead, List.append_assoc]
    rfl

end Cursor

/-- A call is reached through its keyword and its parenthesis. -/
theorem call?_reaches {keyword text : Text} {result : Text × Nat} (hkeyword : Unquoted keyword)
    (h : call? keyword text = some result) :
    ∃ before inner, Reaches (keyword ++ (before ++ Text.byte '(' :: inner)) text ∧
      (∀ b ∈ before, isBlank b = true) ∧ ∀ b ∈ inner, isBlank b = true := by
  obtain ⟨c, hword, h⟩ := Option.bind_eq_some_iff.mp h
  obtain ⟨argument, hargument, -⟩ := Option.bind_eq_some_iff.mp h
  obtain ⟨before, inner, hreaches, hbefore, hinner⟩ := Cursor.argument?_reaches hargument
  refine ⟨before, inner, ?_, hbefore, hinner⟩
  have htext : text = keyword ++ c.ahead := Cursor.expect?_sound hword
  rw [htext]
  exact hreaches.append hkeyword

/-- An assignment is a word, white space, a target and a text that goes on to a specifier. -/
theorem assignment?_sound {text : Text} {result : (Text × Text) × Nat}
    (h : assignment? text = some result) :
    ∃ word ∈ assignmentWords, ∃ space target rest lead,
      text = word ++ (space ++ (target ++ rest)) ∧ space ≠ [] ∧ (∀ b ∈ space, isBlank b = true) ∧
      ((∀ b ∈ target, isNameByte b = true) ∨
        ∃ body, target = Ascii.openBrace :: (body ++ [Ascii.closeBrace]) ∧
          Ascii.closeBrace ∉ body) ∧
      Reaches lead rest ∧ Ascii.equals ∈ lead ∧ EndsCall lead := by
  obtain ⟨c₁, hword, h⟩ := Option.bind_eq_some_iff.mp h
  obtain ⟨c₂, hspace, h⟩ := Option.bind_eq_some_iff.mp h
  obtain ⟨⟨target, c₃⟩, htarget, h⟩ := Option.bind_eq_some_iff.mp h
  obtain ⟨c₄, hequals, h⟩ := Option.bind_eq_some_iff.mp h
  obtain ⟨c₅, hcallee, h⟩ := Option.bind_eq_some_iff.mp h
  obtain ⟨argument, hargument, -⟩ := Option.bind_eq_some_iff.mp h
  -- step by step, what each part of the pattern has passed
  obtain ⟨word, hmem, htext⟩ := Cursor.expectAny?_sound hword
  obtain ⟨space, hahead₁, hne, hblank⟩ := Cursor.someBlanks?_sound hspace
  obtain ⟨hahead₂, hkind⟩ := Cursor.target?_sound htarget
  obtain ⟨blanks₃, hahead₃, hblank₃⟩ := c₃.blanks_sound
  obtain ⟨blanks₄, hahead₄, hblank₄⟩ := c₄.blanks_sound
  obtain ⟨skipped, hahead₅, hskipped⟩ := c₄.blanks.await_sound
  obtain ⟨callee, hmem', hahead₆⟩ := Cursor.expectAny?_sound hcallee
  obtain ⟨before, inner, hreaches, hbefore, hinner⟩ := Cursor.argument?_reaches hargument
  -- what lies between the target and the argument
  have hrest : c₃.ahead =
      (blanks₃ ++ (Ascii.equals :: (blanks₄ ++ (skipped ++ callee)))) ++ c₅.ahead := by
    rw [hahead₃, Cursor.expect?_sound hequals, hahead₄, hahead₅, hahead₆]
    simp [show Text.ofString "=" = [Ascii.equals] from rfl]
  have hunquoted : Unquoted (blanks₃ ++ (Ascii.equals :: (blanks₄ ++ (skipped ++ callee)))) := by
    rw [unquoted_append, unquoted_cons, unquoted_append, unquoted_append]
    exact ⟨unquoted_of_isBlank hblank₃, by decide, unquoted_of_isBlank hblank₄, hskipped,
      unquoted_of_mem_callees hmem'⟩
  refine ⟨word, hmem, space, target, c₃.ahead, _, ?_, hne, hblank, hkind,
    hrest ▸ hreaches.append hunquoted, by simp, ?_⟩
  · rw [← hahead₂, ← hahead₁]
    exact htext
  · exact ⟨_, inner, (List.append_assoc _ _ _).symm, hinner⟩

/-- An assignment to an unclosed brace opens a pattern. -/
private theorem opensPattern_of_not_mem {word space body : Text} (hword : word ∈ assignmentWords)
    (hne : space ≠ []) (hblank : ∀ b ∈ space, isBlank b = true) (hbody : Ascii.closeBrace ∉ body) :
    opensPattern (word ++ (space ++ Ascii.openBrace :: body)) = true := by
  obtain ⟨b, space, rfl⟩ := List.exists_cons_of_ne_nil hne
  obtain ⟨hb, hspace⟩ := List.forall_mem_cons.mp hblank
  have hdrop : (space ++ Ascii.openBrace :: body).dropWhile isBlank = Ascii.openBrace :: body := by
    rw [List.dropWhile_append_of_pos hspace, List.dropWhile_cons_of_neg (by decide)]
  have hclosing : Ascii.closeBrace ∉ space := fun hmem => absurd (hspace _ hmem) (by decide)
  refine List.any_eq_true.mpr ⟨word, hword, ?_⟩
  rw [Text.dropPrefix?_eq_some_iff.mpr rfl]
  have hbraces : Ascii.closeBrace ≠ Ascii.openBrace := by decide
  simp [hb, hdrop, hclosing, hbody, hbraces]

/-- Unless a pattern is left open in front of the first quote, the target of an assignment ends
in front of it. -/
private theorem target_before_quote {word space target after u rest : Text} {quote : UInt8}
    (hword : word ∈ assignmentWords) (hne : space ≠ []) (hblank : ∀ b ∈ space, isBlank b = true)
    (htarget : (∀ b ∈ target, isNameByte b = true) ∨
      ∃ body, target = Ascii.openBrace :: (body ++ [Ascii.closeBrace]) ∧ Ascii.closeBrace ∉ body)
    (htext : u ++ quote :: rest = word ++ (space ++ (target ++ after)))
    (hquote : isQuote quote = true) (hopen : opensPattern u = false) :
    ∃ more, u = word ++ (space ++ (target ++ more)) ∧ after = more ++ quote :: rest := by
  have hwords : ∀ w ∈ assignmentWords, Unquoted w := by decide
  rcases htarget with hname | ⟨body, rfl, hbody⟩
  · have hunquoted : Unquoted (word ++ (space ++ target)) := by
      rw [unquoted_append, unquoted_append]
      exact ⟨hwords word hword, unquoted_of_isBlank hblank, unquoted_of_isNameByte hname⟩
    obtain ⟨more, rfl, rfl⟩ := unquoted_lead hunquoted hquote (by simpa using htext.symm)
    exact ⟨more, by simp, rfl⟩
  · have hunquoted : Unquoted (word ++ (space ++ [Ascii.openBrace])) := by
      rw [unquoted_append, unquoted_append]
      exact ⟨hwords word hword, unquoted_of_isBlank hblank, by decide⟩
    have hsplit : word ++ (space ++ [Ascii.openBrace]) ++ (body ++ Ascii.closeBrace :: after) =
        u ++ quote :: rest := by
      simpa using htext.symm
    obtain ⟨inside, rfl, hinside⟩ := unquoted_lead hunquoted hquote hsplit
    -- the brace is closed in front of the quote, and the body ends with its first closing brace
    have hclosed : Ascii.closeBrace ∈ inside := by
      refine Decidable.byContradiction fun hnot => ?_
      have hopens := opensPattern_of_not_mem hword hne hblank hnot
      rw [List.append_cons space, ← List.append_assoc, hopen] at hopens
      cases hopens
    obtain ⟨body', more, rfl, hbody'⟩ := List.eq_append_cons_of_mem hclosed
    rw [List.append_assoc, List.cons_append] at hinside
    obtain ⟨rfl, -, rfl⟩ := split_inj (beq_of_not_mem hbody) (beq_of_not_mem hbody')
      (beq_self_eq_true _) (beq_self_eq_true _) hinside
    exact ⟨more, by simp, rfl⟩

/-- Unless a pattern is left open in front of the first quote, an assignment goes on to this
quote with an equals sign and a parenthesis. -/
theorem assignment?_reaches {u rest : Text} {quote : UInt8} {result : (Text × Text) × Nat}
    (h : assignment? (u ++ quote :: rest) = some result) (hu : Unquoted u)
    (hquote : isQuote quote = true) (hopen : opensPattern u = false) :
    Ascii.equals ∈ u ∧ EndsCall u ∧ Closes rest := by
  obtain ⟨word, hword, space, target, after, lead, htext, hne, hblank, htarget, hreaches, hequals,
    before, inner, hlead, hinner⟩ := assignment?_sound h
  obtain ⟨more, rfl, rfl⟩ := target_before_quote hword hne hblank htarget htext hquote hopen
  have hmore : Unquoted more :=
    (unquoted_append.mp (unquoted_append.mp (unquoted_append.mp hu).2).2).2
  obtain ⟨rfl, hcloses⟩ := hreaches.eq hmore hquote
  refine ⟨by simp [hequals], ⟨word ++ (space ++ (target ++ before)), inner, ?_, hinner⟩, hcloses⟩
  rw [hlead]
  simp

/-! ## What stands there is read -/

namespace Cursor

/-- The text does not go on with a byte of a class. -/
abbrev Stops (p : UInt8 → Bool) (text : Text) : Prop :=
  ∀ b ∈ text.head?, p b = false

/-- A run eats its class up to where this stops. -/
theorem run_append {p : UInt8 → Bool} {eaten rest : Text} (heaten : ∀ b ∈ eaten, p b = true)
    (hrest : Stops p rest) (n : Nat) :
    run p ⟨n, eaten ++ rest⟩ = (eaten, ⟨n + eaten.length, rest⟩) := by
  have htake : rest.takeWhile p = [] := by
    cases rest with
    | nil => rfl
    | cons b rest => exact List.takeWhile_cons_of_neg (by simpa using hrest b rfl)
  have hdrop : rest.dropWhile p = rest := by
    cases rest with
    | nil => rfl
    | cons b rest => exact List.dropWhile_cons_of_neg (by simpa using hrest b rfl)
  simp only [run, List.takeWhile_append_of_pos heaten, List.dropWhile_append_of_pos heaten, htake,
    hdrop, List.append_nil]

/-- Blanks are skipped as a whole. -/
theorem blanks_append {rest : Text} (b : Blanks) (hrest : Stops isBlank rest) (n : Nat) :
    blanks ⟨n, b.text ++ rest⟩ = ⟨n + b.text.length, rest⟩ := by
  rw [blanks, run_append b.blank hrest]

/-- White space is skipped as a whole. -/
theorem someBlanks?_append {rest : Text} (s : Space) (hrest : Stops isBlank rest) (n : Nat) :
    someBlanks? ⟨n, s.text ++ rest⟩ = some ⟨n + s.text.length, rest⟩ := by
  have hblanks := blanks_append s.toBlanks hrest n
  obtain ⟨b, more, htext⟩ := List.exists_cons_of_ne_nil s.ne_nil
  have hb : isBlank b = true := s.blank b (by simp [htext])
  rw [htext] at hblanks ⊢
  rw [someBlanks?, ← hblanks]
  simp [hb]

/-- An expected word is eaten. -/
theorem expect?_append (word rest : Text) (n : Nat) :
    expect? word ⟨n, word ++ rest⟩ = some ⟨n + word.length, rest⟩ := by
  rw [expect?, Text.dropPrefix?_eq_some_iff.mpr rfl]
  rfl

/-- A literal is read whole, and it gives its specifier. -/
theorem quoted?_append (l : Literal) (rest : Text) (n : Nat) :
    quoted? ⟨n, l.opening :: (l.specifier ++ l.closing :: rest)⟩ =
      some (l.specifier, ⟨n + 1 + l.specifier.length + 1, rest⟩) := by
  have hstops : Stops isSpecifierByte (l.closing :: rest) := by
    rintro b ⟨⟩
    simp [isSpecifierByte, l.closing_isQuote]
  simp [quoted?, quote?, l.opening_isQuote, run_append l.specifierByte hstops, l.ne_nil,
    l.closing_isQuote]

/-- Parentheses around a specifier are read as an argument. -/
theorem argument?_append (p : Parens) (l : Literal) (rest : Text) (n : Nat) :
    argument? ⟨n, p.opening ++ l.opening :: (l.specifier ++ l.closing :: (p.closing ++ rest))⟩ =
      some (l.specifier,
        ⟨n + (p.opening ++ l.opening :: (l.specifier ++ l.closing :: p.closing)).length,
          rest⟩) := by
  -- blanks stop at the parentheses and at the quote
  have hopen : ∀ t, Stops isBlank (Text.ofString "(" ++ t) := by
    rintro t b ⟨⟩
    decide
  have hclose : ∀ t, Stops isBlank (Text.ofString ")" ++ t) := by
    rintro t b ⟨⟩
    decide
  have hquote : ∀ t, Stops isBlank (l.opening :: t) := by
    rintro t b ⟨⟩
    exact isBlank_of_isQuote l.opening_isQuote
  -- the text with each part of the pattern on its own
  have htext : p.opening ++ l.opening :: (l.specifier ++ l.closing :: (p.closing ++ rest)) =
      p.before.text ++ (Text.ofString "(" ++ (p.inner.text ++ (l.opening :: (l.specifier ++
        l.closing :: (p.after.text ++ (Text.ofString ")" ++ rest)))))) := by
    simp [Parens.opening, Parens.closing, show Text.ofString "(" = [Text.byte '('] from rfl,
      show Text.ofString ")" = [Text.byte ')'] from rfl]
  rw [argument?, htext, blanks_append p.before (hopen _), expect?_append]
  simp only [Option.bind_eq_bind, Option.bind_some]
  rw [blanks_append p.inner (hquote _), quoted?_append]
  simp only [Option.bind_some]
  rw [blanks_append p.after (hclose _), expect?_append]
  simp only [Option.bind_some, Parens.opening, Parens.closing, List.length_append,
    List.length_cons, List.length_nil, show (Text.ofString "(").length = 1 from rfl,
    show (Text.ofString ")").length = 1 from rfl]
  congr 3
  omega

/-- A target that begins like a name is a name. -/
private theorem target?_name {b : UInt8} (hb : isNameByte b = true) (rest : Text) (n : Nat) :
    target? ⟨n, b :: rest⟩ = some (run isNameByte ⟨n, b :: rest⟩) := by
  simp [target?, hb]

/-- A target in braces ends at the first closing brace. -/
private theorem target?_braces {body : Text} (hbody : ∀ b ∈ body, (b != Ascii.closeBrace) = true)
    (rest : Text) (n : Nat) :
    target? ⟨n, Ascii.openBrace :: (body ++ Ascii.closeBrace :: rest)⟩ =
      some (Ascii.openBrace :: (body ++ [Ascii.closeBrace]), ⟨n + body.length + 2, rest⟩) := by
  have hname : isNameByte Ascii.openBrace = false := by decide
  simp only [target?, hname, List.dropWhile_append_of_pos hbody,
    List.takeWhile_append_of_pos hbody]
  simp

/-- A target is passed as a whole. -/
theorem target?_append (t : Target) {rest : Text} (hrest : Stops isNameByte rest) (n : Nat) :
    target? ⟨n, t.text ++ rest⟩ = some (t.text, ⟨n + t.text.length, rest⟩) := by
  cases t with
  | name name =>
    obtain ⟨b, more, htext⟩ := List.exists_cons_of_ne_nil name.ne_nil
    have hhead := target?_name (name.nameByte b (by simp [htext])) (more ++ rest) n
    rw [← List.cons_append, ← htext, run_append name.nameByte hrest] at hhead
    exact hhead
  | pattern elements inner =>
    have hbody : ∀ b ∈ elements.write Ascii.comma BinderSlot.text ++ inner.text,
        (b != Ascii.closeBrace) = true := fun b hb => by
      simpa using ne_of_class (p := fun b => isPatternByte b || b = Ascii.comma)
        (bytes_elements elements inner b hb) (by decide)
    have hbraces := target?_braces hbody rest n
    simpa [Target.text, Nat.add_assoc] using hbraces

end Cursor

/-- A call is matched up to its closing parenthesis, and it gives its specifier. -/
theorem call?_append (word : Text) (p : Parens) (l : Literal) (rest : Text) :
    call? word (word ++ (p.opening ++ l.opening :: (l.specifier ++ l.closing ::
        (p.closing ++ rest)))) =
      some (l.specifier, (word ++ (p.opening ++ l.opening :: (l.specifier ++ l.closing ::
        p.closing))).length) := by
  rw [call?, Cursor.start, Cursor.expect?_append]
  simp only [Option.bind_eq_bind, Option.bind_some]
  rw [Cursor.argument?_append]
  simp

/-- Every declarator is among the expected words. -/
private theorem expectAny?_declarator {word : Text} (h : word ∈ declarators) (rest : Text) :
    (Cursor.start (word ++ rest)).expectAny? ["const", "let", "var", "import"] =
      some ⟨word.length, rest⟩ := by
  have hwords : word = Text.ofString "const" ∨ word = Text.ofString "let" ∨
      word = Text.ofString "var" := by simpa [declarators] using h
  rcases hwords with rfl | rfl | rfl <;> rfl

/-- White space stops in front of a target. -/
private theorem stops_target (t : Target) (rest : Text) :
    Cursor.Stops isBlank (t.text ++ rest) := by
  cases t with
  | name name =>
    obtain ⟨b, more, htext⟩ := List.exists_cons_of_ne_nil name.ne_nil
    rw [Target.text, htext]
    rintro c ⟨⟩
    exact isBlank_of_isNameByte (name.nameByte b (by simp [htext]))
  | pattern elements inner =>
    rintro c ⟨⟩
    decide

/-- A name stops in front of white space and an equals sign. -/
private theorem stops_blanks (b : Blanks) (rest : Text) :
    Cursor.Stops isNameByte (b.text ++ (Text.ofString "=" ++ rest)) := by
  have hblank := b.blank
  cases h : b.text with
  | nil =>
    rintro c ⟨⟩
    decide
  | cons a more =>
    rintro c ⟨⟩
    exact isNameByte_of_isBlank (hblank a (by simp [h]))

/-- An assignment is matched as a whole, and it gives its target and its specifier. -/
theorem assignment?_append {word : Text} (hword : word ∈ declarators) (space : Space)
    (t : Target) (before after : Blanks) (p : Parens) (l : Literal) (rest : Text) :
    assignment? ((Form.assignment word hword space t before after p).opening ++
        l.opening :: (l.specifier ++ l.closing :: (p.closing ++ rest))) =
      some ((t.text, l.specifier), ((Form.assignment word hword space t before after p).opening ++
        l.opening :: (l.specifier ++ l.closing :: p.closing)).length) := by
  -- each run of blanks stops at the part behind it
  have hequals : ∀ u, Cursor.Stops isBlank (Text.ofString "=" ++ u) := by
    rintro u b ⟨⟩
    decide
  have hrequire : ∀ u, Cursor.Stops isBlank (Text.ofString "require" ++ u) := by
    rintro u b ⟨⟩
    decide
  have hawait : ∀ n u, Cursor.expect? "await" ⟨n, Text.ofString "require" ++ u⟩ = none :=
    fun _ _ => rfl
  have hcallee : ∀ n u, Cursor.expectAny? ["require", "import"] ⟨n, Text.ofString "require" ++ u⟩ =
      some ⟨n + 7, u⟩ := fun _ _ => rfl
  -- the text with each part of the pattern on its own
  have htext : ∀ u : Text, (Form.assignment word hword space t before after p).opening ++ u =
      word ++ (space.text ++ (t.text ++ (before.text ++ (Text.ofString "=" ++ (after.text ++
        (Text.ofString "require" ++ (p.opening ++ u))))))) := fun u => by
    simp [Form.opening, show Text.ofString "=" = [Ascii.equals] from rfl]
  rw [assignment?, htext, htext, expectAny?_declarator hword]
  simp only [Option.bind_eq_bind, Option.bind_some]
  rw [Cursor.someBlanks?_append space (stops_target t _)]
  simp only [Option.bind_some]
  rw [Cursor.target?_append t (stops_blanks before _)]
  simp only [Option.bind_some]
  rw [Cursor.blanks_append before (hequals _), Cursor.expect?_append]
  simp only [Option.bind_some]
  rw [Cursor.blanks_append after (hrequire _), hawait]
  simp only [Option.bind_none, Option.getD_none]
  rw [hcallee]
  simp only [Option.bind_some]
  rw [Cursor.argument?_append]
  simp only [Option.bind_some, List.length_append, show (Text.ofString "=").length = 1 from rfl,
    show (Text.ofString "require").length = 7 from rfl]
  congr 2
  omega

end DependencyAudit.Import
