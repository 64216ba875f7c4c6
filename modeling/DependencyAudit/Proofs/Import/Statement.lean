import DependencyAudit.Proofs.Import.Outlook

/-!
# What is found in a statement

Each of the four searches is followed through one statement: in front of the specifier, in the
specifier and behind it. A match cannot begin in the specifier, since it would have to go on past
the end of the line. In front of the specifier a match is decided by the last word and the
parenthesis before the quote. So every search either passes over the statement or finds it once.

## Main definitions

* `AtWord`: a search whose matches begin with a word.

## Main results

* `silent_call?`, `silent_assignment?` and `silent_importAt?`: what the end of a text in front of
  a quote excludes;
* `places_of_silent` and `places_of_match`: a search goes on behind the statement.
-/

namespace DependencyAudit.Import

/-- What holds nowhere in a text holds nowhere behind its beginning. -/
theorem somewhere_eq_false {p : Text → Bool} {text before after : Text}
    (h : somewhere p text = false) (htext : text = before ++ after) : p after = false := by
  subst htext
  induction before with
  | nil =>
    cases after with
    | nil => exact h
    | cons b rest => exact (Bool.or_eq_false_iff.mp h).1
  | cons b before ih => exact ih (Bool.or_eq_false_iff.mp h).2

/-- The end of an unquoted text is unquoted. -/
private theorem unquoted_of_suffix {text before after : Text} (h : Unquoted text)
    (htext : text = before ++ after) : Unquoted after := by
  subst htext
  exact (unquoted_append.mp h).2

/-! ## Matches begin with a word -/

/-- A search whose matches begin with a word character. -/
def AtWord {α : Type} (g : Text → Option (α × Nat)) : Prop :=
  ∀ b rest, isWordByte b = false → g (b :: rest) = none

/-- A search that begins with a word finds nothing where there are no words. -/
theorem AtWord.silent {α : Type} {g : Text → Option (α × Nat)} (hg : AtWord g) {piece : Text}
    (h : ∀ b ∈ piece, isWordByte b = false) (rest : Text) : Silent g piece rest :=
  Silent.of_bytes hg h rest

/-- A search begins with a word if everything that it finds does. -/
private theorem atWord_of_begins {α : Type} {g : Text → Option (α × Nat)} (words : List Text)
    (hwords : ∀ word ∈ words, ∃ b ∈ word.head?, isWordByte b = true)
    (h : ∀ text result, g text = some result → ∃ word ∈ words, ∃ rest, text = word ++ rest) :
    AtWord g := by
  intro b rest hb
  refine Option.eq_none_iff_forall_ne_some.mpr fun result hresult => ?_
  obtain ⟨word, hword, tail, htext⟩ := h _ _ hresult
  obtain ⟨a, ha, hword⟩ := hwords word hword
  cases word with
  | nil => cases ha
  | cons c word =>
    obtain rfl : c = a := Option.some.inj ha
    obtain ⟨rfl, -⟩ := List.cons.inj htext
    rw [hb] at hword
    cases hword

/-- Calls begin with a word. -/
theorem atWord_call? {word : Text} (hword : word ∈ callees) : AtWord (call? word) := by
  refine atWord_of_begins callees (by decide) fun text result h => ?_
  obtain ⟨before, inner, ⟨quote, rest, htext, -⟩, -⟩ :=
    call?_reaches (unquoted_of_mem_callees hword) h
  exact ⟨word, hword, _, by rw [htext, List.append_assoc]⟩

/-- Assignments begin with a word. -/
theorem atWord_assignment? : AtWord assignment? := by
  refine atWord_of_begins assignmentWords (by decide) fun text result h => ?_
  obtain ⟨word, hword, space, target, rest, -, htext, -⟩ := assignment?_sound h
  exact ⟨word, hword, _, htext⟩

/-- Import statements begin with a word. -/
theorem atWord_importAt? : AtWord importAt? := by
  refine atWord_of_begins [Text.ofString "import"] (by decide) fun text result h => ?_
  obtain ⟨rest, htext, -⟩ := importAt?_sound h
  exact ⟨_, List.mem_singleton_self _, rest, htext⟩

/-- White space is no part of a word. -/
theorem isWordByte_of_isBlank {b : UInt8} (h : isBlank b = true) : isWordByte b = false := by
  rcases isBlank_iff.mp h with rfl | rfl | rfl | rfl | rfl <;> decide

/-- Quotes are no part of a word. -/
theorem isWordByte_of_isQuote {b : UInt8} (h : isQuote b = true) : isWordByte b = false := by
  rcases isQuote_iff.mp h with rfl | rfl | rfl <;> decide

/-- What closes a statement is no part of a word. -/
theorem isWordByte_of_isClosingByte {b : UInt8} (h : isClosingByte b = true) :
    isWordByte b = false := by
  simp only [isClosingByte, Bool.or_eq_true, decide_eq_true_eq] at h
  rcases h with (h | rfl) | rfl
  · exact isWordByte_of_isBlank h
  · decide
  · decide

/-! ## Clauses that are blocked -/

/-- A text without quotes cannot be read as a clause unless it runs into a comment, or consists
of clause bytes and has a specifier behind it. -/
private theorem spaced_eq_none {u rest : Text} {quote : UInt8} (hu : Unquoted u)
    (hquote : isQuote quote = true)
    (hcomment : ∀ c more, u.dropWhile Outlook.isClauseByte = Ascii.slash :: c :: more →
      c ≠ Ascii.slash ∧ c ≠ Ascii.star)
    (hcloses : (∀ b ∈ u, Outlook.isClauseByte b = true) → ¬ Closes rest) :
    (Outlook.ofText (u ++ quote :: rest)).spaced = none := by
  have hsplit : u.takeWhile Outlook.isClauseByte ++ u.dropWhile Outlook.isClauseByte = u :=
    List.takeWhile_append_dropWhile
  have hclause : ∀ b ∈ u.takeWhile Outlook.isClauseByte, Outlook.isClauseByte b = true :=
    List.all_eq_true.mp List.all_takeWhile
  have hstops : ∀ {b : UInt8}, isQuote b = true → Outlook.isClauseByte b = false ∧
      b ≠ Ascii.slash ∧ b ≠ Ascii.star := fun hb => by
    rcases isQuote_iff.mp hb with rfl | rfl | rfl <;> decide
  -- the first byte that fits no clause blocks the way, and this is the quote or comes before it
  cases hdrop : u.dropWhile Outlook.isClauseByte with
  | nil =>
    rw [hdrop, List.append_nil] at hsplit
    rw [hsplit] at hclause
    exact (Outlook.blocked hclause ⟨(hstops hquote).1, fun h => absurd h (hstops hquote).2.1,
      fun _ => hcloses hclause⟩).spaced
  | cons d more =>
    rw [hdrop] at hsplit
    rw [← hsplit, List.append_assoc, List.cons_append]
    refine (Outlook.blocked hclause ⟨?_, ?_, ?_⟩).spaced
    · have hhead := List.head?_dropWhile_not Outlook.isClauseByte u
      simpa [hdrop] using hhead
    · rintro rfl c hc
      cases more with
      | nil =>
        obtain rfl := Option.some.inj hc
        exact (hstops hquote).2
      | cons e more =>
        obtain rfl := Option.some.inj hc
        exact hcomment _ _ hdrop
    · intro hd
      rw [hu d (by rw [← hsplit]; simp)] at hd
      cases hd

/-! ## In the specifier and behind it -/

namespace Statement

variable (s : Statement)

/-- Behind the closing quote the line ends before another quote comes. -/
theorem not_closes_closing (rest : Text) : ¬ Closes (s.closing ++ rest) := by
  obtain ⟨tail, htail, hunquoted⟩ := s.closing_eq
  rw [htail, List.append_assoc]
  exact not_closes_of_newline hunquoted rest

theorem unquoted_specifier : Unquoted s.literal.specifier :=
  s.literal.unquoted_specifier

/-- No call begins in a specifier. -/
theorem silent_specifier_call? {word : Text} (hword : word ∈ callees) (rest : Text) :
    Silent (call? word) s.literal.specifier (s.literal.closing :: (s.closing ++ rest)) := by
  intro before after hafter _
  refine Option.eq_none_iff_forall_ne_some.mpr fun result hresult => ?_
  obtain ⟨_, _, hreaches, -⟩ := call?_reaches (unquoted_of_mem_callees hword) hresult
  exact s.not_closes_closing rest (hreaches.eq (unquoted_of_suffix s.unquoted_specifier hafter)
    s.literal.closing_isQuote).2

/-- No assignment begins in a specifier that opens no pattern. -/
theorem silent_specifier_assignment? (h : somewhere opensPattern s.literal.specifier = false)
    (rest : Text) :
    Silent assignment? s.literal.specifier (s.literal.closing :: (s.closing ++ rest)) := by
  intro before after hafter _
  refine Option.eq_none_iff_forall_ne_some.mpr fun result hresult => ?_
  obtain ⟨-, -, hcloses⟩ := assignment?_reaches hresult
    (unquoted_of_suffix s.unquoted_specifier hafter) s.literal.closing_isQuote
    (somewhere_eq_false h hafter)
  exact s.not_closes_closing rest hcloses

/-- No import begins in a specifier that opens no comment. -/
theorem silent_specifier_importAt? (h : somewhere opensComment s.literal.specifier = false)
    (rest : Text) :
    Silent importAt? s.literal.specifier (s.literal.closing :: (s.closing ++ rest)) := by
  intro before after hafter _
  refine Option.eq_none_iff_forall_ne_some.mpr fun result hresult => ?_
  obtain ⟨tail, htext, hspaced⟩ := importAt?_sound hresult
  have hunquoted := unquoted_of_suffix s.unquoted_specifier hafter
  have hcomment := somewhere_eq_false h hafter
  -- the word of the match lies within the specifier, since no quote is in it
  obtain ⟨more, rfl, rfl⟩ := unquoted_lead (by decide) s.literal.closing_isQuote htext.symm
  have hmore : Unquoted more := (unquoted_append.mp hunquoted).2
  refine hspaced ?_
  -- behind the word a clause would have to reach through the closing quote
  cases more with
  | nil =>
    exact Outlook.spaced_of_not_isBlank (isBlank_of_isQuote s.literal.closing_isQuote)
  | cons b more =>
    cases hb : isBlank b with
    | false => exact Outlook.spaced_of_not_isBlank hb
    | true =>
      refine spaced_eq_none hmore s.literal.closing_isQuote (fun c z hdrop => ?_)
        fun _ => s.not_closes_closing rest
      rw [List.dropWhile_cons_of_pos (isClauseByte_of_isBlank hb)] at hdrop
      rw [opensComment, Text.dropPrefix?_eq_some_iff.mpr rfl] at hcomment
      simpa [hb, hdrop] using hcomment

end Statement

/-! ## In front of the specifier -/

section Opening

variable {u : Text} {quote : UInt8}

/-- Only the end of a text matters for the end of a call. -/
theorem EndsCall.append {before after : Text} (h : EndsCall after) :
    EndsCall (before ++ after) := by
  obtain ⟨front, blanks, rfl, hblanks⟩ := h
  exact ⟨before ++ front, blanks, by simp, hblanks⟩

/-- No call goes on to a quote that no parenthesis stands before. -/
theorem silent_call? {word : Text} (hword : word ∈ callees) (hu : Unquoted u)
    (hquote : isQuote quote = true) (hends : ¬ EndsCall u) (rest : Text) :
    Silent (call? word) u (quote :: rest) := by
  intro before after hafter _
  refine Option.eq_none_iff_forall_ne_some.mpr fun result hresult => ?_
  obtain ⟨blanks, inner, hreaches, -, hinner⟩ :=
    call?_reaches (unquoted_of_mem_callees hword) hresult
  obtain ⟨rfl, -⟩ := hreaches.eq (unquoted_of_suffix hu hafter) hquote
  refine hends (hafter ▸ EndsCall.append ⟨word ++ blanks, inner, ?_, hinner⟩)
  rw [List.append_assoc]

/-- No assignment goes on to a quote without a parenthesis and an equals sign before it. -/
theorem silent_assignment? (hu : Unquoted u) (hquote : isQuote quote = true)
    (hopen : somewhere opensPattern u = false) (hends : EndsCall u → Ascii.equals ∉ u)
    (rest : Text) : Silent assignment? u (quote :: rest) := by
  intro before after hafter _
  refine Option.eq_none_iff_forall_ne_some.mpr fun result hresult => ?_
  obtain ⟨hequals, hcall, -⟩ := assignment?_reaches hresult (unquoted_of_suffix hu hafter) hquote
    (somewhere_eq_false hopen hafter)
  subst hafter
  exact hends hcall.append (List.mem_append_right _ hequals)

/-- A text that ends in a parenthesis holds it behind every character. -/
private theorem paren_mem {before after : Text} (h : EndsCall (before ++ after)) {b : UInt8}
    (hb : b ∈ after) (hink : isBlank b = false) : Text.byte '(' ∈ after := by
  obtain ⟨front, blanks, heq, hblanks⟩ := h
  rcases List.append_eq_append_iff.mp heq with ⟨c, -, rfl⟩ | ⟨c, -, hc⟩
  · simp
  · cases c with
    | nil => rw [← List.nil_append after, ← hc]; simp
    | cons d c =>
      obtain ⟨-, rfl⟩ := List.cons.inj hc
      have := hblanks b (List.mem_append_right _ hb)
      rw [hink] at this
      cases this

/-- No clause goes on to a quote that a parenthesis stands before. -/
theorem silent_importAt? (hu : Unquoted u) (hquote : isQuote quote = true) (hends : EndsCall u)
    (hslash : Ascii.slash ∉ u) (rest : Text) : Silent importAt? u (quote :: rest) := by
  intro before after hafter _
  refine Option.eq_none_iff_forall_ne_some.mpr fun result hresult => ?_
  obtain ⟨tail, htext, hspaced⟩ := importAt?_sound hresult
  obtain ⟨more, rfl, rfl⟩ := unquoted_lead (by decide) hquote htext.symm
  subst hafter
  have hmore : Unquoted more := (unquoted_append.mp (unquoted_append.mp hu).2).2
  have hparen : Text.byte '(' ∈ more := by
    have hword : Text.byte 'i' ∈ Text.ofString "import" ++ more := by
      exact List.mem_append_left _ (by decide)
    have hparen := paren_mem hends hword (by decide)
    exact (List.mem_append.mp hparen).resolve_left (by decide)
  refine hspaced (spaced_eq_none hmore hquote (fun c z hdrop => ?_) fun hclause => ?_)
  · have hmem : Ascii.slash ∈ more :=
      (List.dropWhile_sublist _).subset (hdrop ▸ List.mem_cons_self)
    exact absurd (List.mem_append_right _ (List.mem_append_right _ hmem)) hslash
  · exact absurd (hclause _ hparen) (by decide)

/-- A text ends in one word with white space in one way only. -/
private theorem callee_inj {lead lead' word word' blanks blanks' : Text} (hword : word ∈ callees)
    (hword' : word' ∈ callees) (hblanks : ∀ b ∈ blanks, isBlank b = true)
    (hblanks' : ∀ b ∈ blanks', isBlank b = true)
    (h : lead ++ (word ++ blanks) = lead' ++ (word' ++ blanks')) : word' = word ∧ lead' = lead := by
  -- the two words end in different letters
  have hwords : ∀ w ∈ callees, w = Text.ofString "requir" ++ [Text.byte 'e'] ∨
      w = Text.ofString "impor" ++ [Text.byte 't'] := by decide
  have hlast : ∀ {front front' : Text} {last last' : UInt8}, isBlank last = false →
      isBlank last' = false →
      lead ++ ((front ++ [last]) ++ blanks) = lead' ++ ((front' ++ [last']) ++ blanks') →
      lead ++ front = lead' ++ front' ∧ last = last' := by
    intro front front' last last' hlast hlast' heq
    have hsplit : (lead ++ front) ++ last :: blanks = (lead' ++ front') ++ last' :: blanks' := by
      simpa using heq
    obtain ⟨hfronts, hlasts, -⟩ := ink_inj hblanks hblanks' hlast hlast' hsplit
    exact ⟨hfronts, hlasts⟩
  rcases hwords word hword with rfl | rfl <;> rcases hwords word' hword' with rfl | rfl
  · exact ⟨rfl, (List.append_cancel_right (hlast (by decide) (by decide) h).1).symm⟩
  · exact absurd (hlast (by decide) (by decide) h).2 (by decide)
  · exact absurd (hlast (by decide) (by decide) h).2 (by decide)
  · exact ⟨rfl, (List.append_cancel_right (hlast (by decide) (by decide) h).1).symm⟩

/-- A call in front of the quote is found at its word and nowhere else. -/
private theorem call?_at {before after lead word keyword rest : Text} {p : Parens}
    {result : Text × Nat} (hword : word ∈ callees) (hkeyword : keyword ∈ callees)
    (htext : lead ++ (word ++ p.opening) = before ++ after) (hafter : Unquoted after)
    (hquote : isQuote quote = true) (h : call? keyword (after ++ quote :: rest) = some result) :
    keyword = word ∧ before = lead := by
  obtain ⟨blanks, inner, hreaches, hblanks, hinner⟩ :=
    call?_reaches (unquoted_of_mem_callees hkeyword) h
  obtain ⟨rfl, -⟩ := hreaches.eq hafter hquote
  have hparen : (lead ++ (word ++ p.before.text)) ++ Text.byte '(' :: p.inner.text =
      (before ++ (keyword ++ blanks)) ++ Text.byte '(' :: inner := by
    simpa [Parens.opening] using htext
  obtain ⟨hfront, -⟩ := ink_inj p.inner.blank hinner (by decide) (by decide) hparen
  exact callee_inj hword hkeyword p.before.blank hblanks hfront

/-- No call begins in front of a call, since the next quote belongs to that one. -/
theorem silent_before_call? {lead word keyword : Text} (hword : word ∈ callees)
    (hkeyword : keyword ∈ callees) (p : Parens) (hlead : Unquoted lead)
    (hquote : isQuote quote = true) (rest : Text) :
    Silent (call? keyword) lead (word ++ (p.opening ++ quote :: rest)) := by
  intro before after hafter hne
  refine Option.eq_none_iff_forall_ne_some.mpr fun result hresult => ?_
  have hunquoted : Unquoted (after ++ (word ++ p.opening)) :=
    unquoted_append.mpr ⟨unquoted_of_suffix hlead hafter,
      unquoted_append.mpr ⟨unquoted_of_mem_callees hword, p.unquoted_opening⟩⟩
  have htext : lead ++ (word ++ p.opening) = before ++ (after ++ (word ++ p.opening)) := by
    rw [hafter, List.append_assoc]
  obtain ⟨-, rfl⟩ := call?_at hword hkeyword htext hunquoted hquote (by simpa using hresult)
  exact hne (List.append_right_eq_self.mp hafter.symm)

/-- No call begins in a call with another word. -/
theorem silent_other_call? {lead word keyword : Text} (hword : word ∈ callees)
    (hkeyword : keyword ∈ callees) (hne : keyword ≠ word) (p : Parens) (hlead : Unquoted lead)
    (hquote : isQuote quote = true) (rest : Text) :
    Silent (call? keyword) (lead ++ (word ++ p.opening)) (quote :: rest) := by
  intro before after hafter _
  refine Option.eq_none_iff_forall_ne_some.mpr fun result hresult => ?_
  have hunquoted : Unquoted (lead ++ (word ++ p.opening)) :=
    unquoted_append.mpr ⟨hlead,
      unquoted_append.mpr ⟨unquoted_of_mem_callees hword, p.unquoted_opening⟩⟩
  exact hne (call?_at hword hkeyword hafter (unquoted_of_suffix hunquoted hafter) hquote
    hresult).1

end Opening

/-! ## Passing over a statement -/

variable {α : Type} {g : Text → Option (α × Nat)}

/-- A statement does not end in a word. -/
private theorem endsInWord_text (s : Statement) : endsInWord false s.text = false := by
  obtain ⟨tail, htail, -⟩ := s.closing_eq
  have htext : s.text = (s.opening ++ (s.literal.opening :: (s.literal.specifier ++
      (s.literal.closing :: tail)))) ++ [Ascii.newline] := by
    simp [Statement.text, htail]
  rw [htext, endsInWord, List.getLast?_concat]
  rfl

/-- White space does not end in a word. -/
theorem endsInWord_of_isBlank {blanks : Text} (h : ∀ b ∈ blanks, isBlank b = true) :
    endsInWord false blanks = false := by
  induction blanks with
  | nil => rfl
  | cons b blanks ih =>
    obtain ⟨hb, hblanks⟩ := List.forall_mem_cons.mp h
    rw [endsInWord_cons, isWordByte_of_isBlank hb, ih hblanks]

/-- A search that finds nothing up to the end of the specifier passes over the statement. -/
theorem places_of_silent (hg : AtWord g) (s : Statement) (rest : Text)
    (hopening : Silent g s.opening (s.literal.opening ::
      (s.literal.specifier ++ s.literal.closing :: (s.closing ++ rest))))
    (hspecifier : Silent g s.literal.specifier (s.literal.closing :: (s.closing ++ rest)))
    (offset : Nat) :
    places g (s.text ++ rest) offset false 0 = places g rest (offset + s.text.length) false 0 := by
  have hclosing : Silent g s.closing rest :=
    hg.silent (fun b hb => isWordByte_of_isClosingByte (s.isClosingByte_closing b hb)) rest
  have hclose : Silent g (s.literal.closing :: s.closing) rest :=
    Silent.cons (hg _ _ (isWordByte_of_isQuote s.literal.closing_isQuote)) hclosing
  have hopen : Silent g (s.literal.opening ::
      (s.literal.specifier ++ (s.literal.closing :: s.closing))) rest :=
    Silent.cons (hg _ _ (isWordByte_of_isQuote s.literal.opening_isQuote))
      (Silent.append hspecifier hclose)
  have htext : Silent g s.text rest := Silent.append (by simpa using hopening) hopen
  rw [places_silent htext, endsInWord_text]

/-- A search that finds nothing before a match goes on behind the statement. -/
theorem places_of_match (hg : AtWord g) (s : Statement) {rest lead piece post : Text} {a : α}
    (htext : s.text = lead ++ (piece ++ post)) (hne : piece ≠ [])
    (hpost : ∀ b ∈ post, isClosingByte b = true) (hlead : Silent g lead (piece ++ (post ++ rest)))
    (hword : endsInWord false lead = false)
    (hmatch : g (piece ++ (post ++ rest)) = some (a, piece.length)) (offset : Nat) :
    places g (s.text ++ rest) offset false 0 =
      (offset + lead.length, a) :: places g rest (offset + s.text.length) false 0 := by
  have hsilent : Silent g post rest :=
    hg.silent (fun b hb => isWordByte_of_isClosingByte (hpost b hb)) rest
  have hends := endsInWord_text s
  rw [htext, endsInWord_append, endsInWord_append, hword] at hends
  rw [htext, List.append_assoc, List.append_assoc, places_silent hlead, hword,
    places_match hmatch hne, places_silent hsilent, hends]
  simp [Nat.add_assoc]

end DependencyAudit.Import
