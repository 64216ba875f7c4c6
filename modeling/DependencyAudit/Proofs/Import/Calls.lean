import DependencyAudit.Proofs.Import.Extent
import DependencyAudit.Proofs.Import.Packages

/-!
# Calls in any text

A call of `require` or `import` with a literal specifier is found wherever it stands, also in a
comment, in a string or in a text that does not parse. The search takes the leftmost matches that
do not overlap, so what has to be excluded is an earlier match that reaches into the call. Such a
match would have to end its own specifier at the opening quote of the call, and then close its
parenthesis inside the specifier of the call.

## Main results

* `confined_call?`: a match in front of a call ends in front of it;
* `call_found_in_any_text`: the package of the call is bound to its name.
-/

namespace DependencyAudit.Import

/-! ## Bytes outside words -/

theorem Parens.nonword_opening (p : Parens) : ∀ b ∈ p.opening, isWordByte b = false := by
  rw [opening, List.forall_mem_append, List.forall_mem_cons]
  exact ⟨fun b hb => isWordByte_of_isBlank (p.before.blank b hb), by decide,
    fun b hb => isWordByte_of_isBlank (p.inner.blank b hb)⟩

theorem Parens.nonword_closing (p : Parens) : ∀ b ∈ p.closing, isWordByte b = false := by
  rw [closing, List.forall_mem_append]
  exact ⟨fun b hb => isWordByte_of_isBlank (p.after.blank b hb), by decide⟩

private theorem wordByte_of_mem_callees {word : Text} (h : word ∈ callees) :
    word ≠ [] ∧ ∀ b ∈ word, isWordByte b = true :=
  (by decide : ∀ w ∈ callees, w ≠ [] ∧ ∀ b ∈ w, isWordByte b = true) word h

/-- What is no word byte and stands in front of a word that is called, ends in front of it. -/
private theorem lead_of_callee {word u v rest tail : Text} (hword : word ∈ callees)
    (hu : ∀ b ∈ u, isWordByte b = false) (h : u ++ tail = v ++ (word ++ rest)) :
    ∃ more, v = u ++ more ∧ tail = more ++ (word ++ rest) := by
  obtain ⟨hne, hbytes⟩ := wordByte_of_mem_callees hword
  obtain ⟨first, others, rfl⟩ := List.exists_cons_of_ne_nil hne
  exact lead_of_class hu (hbytes first List.mem_cons_self) h

/-! ## No match reaches into a call -/

/-- A specifier without a closing parenthesis that names a package does not begin with white space
and a closing parenthesis. -/
private theorem not_closing_append {l : Literal} (hparen : Text.byte ')' ∉ l.specifier)
    {package : Text} (hpackage : Specifier.packageName? l.specifier = some package)
    (p : Parens) {rest tail : Text} : p.closing ++ rest ≠ l.specifier ++ tail := by
  intro h
  have hsplit : l.specifier ++ tail = p.after.text ++ Text.byte ')' :: rest := by
    rw [← h, Parens.closing, List.append_assoc, List.singleton_append]
  obtain ⟨more, hafter, -⟩ := lead_of_class (beq_of_not_mem hparen) (beq_self_eq_true _) hsplit
  -- so the specifier would be white space, which names no package
  have hblank : ∀ b ∈ l.specifier, isBlank b = true := fun b hb =>
    p.after.blank b (by rw [hafter]; exact List.mem_append_left _ hb)
  simp [Specifier.packageName?, Text.trim_blanks hblank] at hpackage

section Overlap

variable {word : Text} {p p' : Parens} {l l' : Literal} {rest rest' package : Text}

/-- Behind the opening quote of a match, the specifier and the closing parenthesis of the match
come before the next call. -/
private theorem ends_before_call (hword : word ∈ callees) (hparen : Text.byte ')' ∉ l.specifier)
    (hpackage : Specifier.packageName? l.specifier = some package) {between : Text}
    (h : l'.specifier ++ l'.closing :: (p'.closing ++ rest') =
      between ++ (word ++ (p.opening ++ l.opening :: (l.specifier ++ rest)))) :
    ∃ more, between = l'.specifier ++ l'.closing :: (p'.closing ++ more) := by
  rcases split_lead l'.unquoted_specifier h with hbetween | ⟨more, rfl, hclosing⟩
  · -- the specifier of the match would end with the opening quote of the call
    have hlead : Unquoted (between ++ (word ++ p.opening)) := by
      rw [unquoted_append, unquoted_append]
      exact ⟨hbetween, unquoted_of_mem_callees hword, p.unquoted_opening⟩
    have hquotes : l'.specifier ++ l'.closing :: (p'.closing ++ rest') =
        (between ++ (word ++ p.opening)) ++ l.opening :: (l.specifier ++ rest) := by
      simpa using h
    obtain ⟨-, -, hrest⟩ := split_inj l'.unquoted_specifier hlead l'.closing_isQuote
      l.opening_isQuote hquotes
    exact absurd hrest (not_closing_append hparen hpackage p')
  · obtain ⟨more', rfl, -⟩ := lead_of_callee hword p'.nonword_closing hclosing
    exact ⟨more', rfl⟩

end Overlap

/-- A match that begins in front of a call ends in front of it. -/
theorem confined_call? {word : Text} (hword : word ∈ callees) {before : Text}
    (hbefore : ∀ b ∈ before.getLast?, isWordByte b = false) (p : Parens) {l : Literal}
    (hparen : Text.byte ')' ∉ l.specifier) {package : Text}
    (hpackage : Specifier.packageName? l.specifier = some package) (rest : Text) :
    Confined (call? word) false before
      (word ++ (p.opening ++ l.opening :: (l.specifier ++ rest))) := by
  rintro front after specifier size hsplit hne - hmatch
  obtain ⟨p', l', rest', rfl, htext, rfl⟩ := call?_eq_some_iff.mp hmatch
  -- the keyword of the match ends in front of the last byte before the call
  obtain ⟨init, b, rfl⟩ : ∃ init b, after = init ++ [b] :=
    ⟨_, _, (List.dropLast_concat_getLast hne).symm⟩
  have hb : (!isWordByte b) = true := by
    rw [hbefore b (by simp [hsplit])]
    rfl
  have hkeyword := not_class (wordByte_of_mem_callees hword).2
  rw [List.append_assoc, List.singleton_append] at htext
  obtain ⟨more, rfl, hmore⟩ := lead_of_class hkeyword hb htext.symm
  -- then the parenthesis and the quote of the match, which are no word bytes
  have hopening : ∀ c ∈ p'.opening ++ [l'.opening], isWordByte c = false := by
    rw [List.forall_mem_append, List.forall_mem_singleton]
    exact ⟨p'.nonword_opening, isWordByte_of_isQuote l'.opening_isQuote⟩
  obtain ⟨between, hbetween, htail⟩ := lead_of_callee (v := more ++ [b]) hword hopening
    (by simpa using hmore)
  obtain ⟨more', rfl⟩ := ends_before_call hword hparen hpackage htail
  have hlength := congrArg List.length hbetween
  simp only [List.length_append, List.length_cons, List.length_nil] at hlength ⊢
  omega

/-! ## Calls are found -/

/-- A call with a literal specifier is found whatever stands around it. -/
theorem call_found_in_any_text (path before after word : Text) (hword : word ∈ callees)
    (p : Parens) (l : Literal) (hparen : Text.byte ')' ∉ l.specifier)
    (hbefore : ∀ b ∈ before.getLast?, isWordByte b = false) (package : Text)
    (hpackage : Specifier.packageName? l.specifier = some package) :
    ∃ b ∈ bindings path (before ++ (word ++ (p.opening ++ l.opening :: (l.specifier ++ l.closing ::
        (p.closing ++ after))))),
      b.dependency = package ∧ package ∈ b.symbols ∧ .dynamicRequire ∈ b.kinds := by
  have hends : endsInWord false before = false := by
    cases hlast : before.getLast? with
    | none => simp [endsInWord, hlast]
    | some b => simp [endsInWord, hlast, hbefore b hlast]
  -- what is in front neither covers the call nor ends in the middle of its word
  have hconfined : Confined (call? word) false before
      ((word ++ (p.opening ++ l.opening :: (l.specifier ++ l.closing :: p.closing))) ++ after) := by
    simpa using confined_call? hword hbefore p hparen hpackage (l.closing :: (p.closing ++ after))
  have hplaces := mem_places_of_confined hconfined hends
    (by simpa using call?_append word p l after) (by simp)
  obtain ⟨b, hb, hdependency, hsymbols, hkind⟩ := exists_binding_of_mem path
    (mem_declarations_of_call hword hplaces) hpackage
  -- the call binds the name of the package, whatever it is assigned to
  have himplicit : implicitSymbols l.specifier = [package] := by
    rw [implicitSymbols, hpackage]
    rfl
  refine ⟨b, by simpa using hb, hdependency, ?_, hkind⟩
  refine hsymbols package ?_ (packageName?_ne_nil hpackage)
  show package ∈ implicitSymbols l.specifier
  rw [himplicit]
  exact List.mem_singleton_self package

/-- Behind the beginning of another call, whose specifier would end with the opening quote. -/
theorem call_found_in_any_text_sample :
    ∃ b ∈ bindings "a.js" "// require('x, require( 'left/pad' ), '",
      b.dependency = "left" ∧ Text.ofString "left" ∈ b.symbols ∧ .dynamicRequire ∈ b.kinds :=
  call_found_in_any_text "a.js" "// require('x, " ", '" "require" (by decide)
    ⟨noBlanks, ⟨" ", by decide⟩, ⟨" ", by decide⟩⟩
    ⟨Ascii.apostrophe, "left/pad", Ascii.apostrophe, by decide, by decide, by decide, by decide⟩
    (by decide) (by rintro b ⟨⟩; decide) "left" (by decide)

end DependencyAudit.Import
