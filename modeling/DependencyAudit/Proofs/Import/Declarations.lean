import DependencyAudit.Proofs.Import.Statement
import DependencyAudit.Proofs.Import.Clause
import DependencyAudit.Proofs.Import.Target

/-!
# The declarations of a program

Each search finds in a program what it finds in the statements, one after the other. Together
they find one declaration for an import statement or a call, and two for an assignment: the
assignment itself and the call in it. Sorted by place, these are the declarations of the
statements in order.

## Main definitions

* `Statement.declarations`: the declarations of a statement that begins at an offset;
* `Program.collect`: what is collected from the statements of a program, each with its offset.

## Main results

* `declarations_text`: the declarations that are found in the text of a program.
-/

namespace DependencyAudit.Import

/-! ## The forms of a statement -/

namespace Form

/-- The word that is called with the specifier, with its parentheses. -/
def callee? : Form → Option (Text × Parens)
  | clause .. => none
  | assignment _ _ _ _ _ _ parens => some ("require", parens)
  | call word _ parens => some (word, parens)

/-- The text in front of the word that is called. -/
def lead : Form → Text
  | clause .. => []
  | assignment word _ space target before after _ =>
    word ++ (space.text ++ (target.text ++ (before.text ++ (Ascii.equals :: after.text))))
  | call .. => []

/-- A call has one of the words for calls. -/
theorem mem_callees {f : Form} {word : Text} {p : Parens} (h : f.callee? = some (word, p)) :
    word ∈ callees := by
  cases f with
  | clause => cases h
  | assignment =>
    obtain ⟨rfl, -⟩ := Prod.mk.inj (Option.some.inj h)
    decide
  | call w hw =>
    obtain ⟨rfl, -⟩ := Prod.mk.inj (Option.some.inj h)
    exact hw

/-- In front of the specifier stand the target, the word and the parenthesis. -/
theorem opening_eq {f : Form} {word : Text} {p : Parens} (h : f.callee? = some (word, p)) :
    f.opening = f.lead ++ (word ++ p.opening) := by
  cases f with
  | clause => cases h
  | assignment =>
    obtain ⟨rfl, rfl⟩ := Prod.mk.inj (Option.some.inj h)
    simp [opening, lead]
  | call =>
    obtain ⟨rfl, rfl⟩ := Prod.mk.inj (Option.some.inj h)
    rfl

/-- Behind the specifier of a call stands the closing parenthesis. -/
theorem closing_eq {f : Form} {word : Text} {p : Parens} (h : f.callee? = some (word, p)) :
    f.closing = p.closing := by
  cases f with
  | clause => cases h
  | assignment =>
    obtain ⟨-, rfl⟩ := Prod.mk.inj (Option.some.inj h)
    rfl
  | call =>
    obtain ⟨-, rfl⟩ := Prod.mk.inj (Option.some.inj h)
    rfl

/-- A clause has no parenthesis before the quote. -/
theorem not_endsCall {f : Form} (h : f.callee? = none) (before : Text) :
    ¬ EndsCall (before ++ f.opening) := by
  cases f with
  | clause space gap c after inner =>
    rintro ⟨front, blanks, heq, hblanks⟩
    have hfrom : Text.ofString "from" = Text.ofString "fro" ++ [Text.byte 'm'] := rfl
    have hends : (before ++ (Text.ofString "import" ++ (Piece.texts (bytes space.text ++
        (gap.pieces ++ (c.pieces ++ after.pieces))) ++ Text.ofString "fro"))) ++
          Text.byte 'm' :: inner.text = front ++ Text.byte '(' :: blanks := by
      simpa [opening, hfrom] using heq
    obtain ⟨-, hbytes, -⟩ := ink_inj inner.blank hblanks (by decide) (by decide) hends
    exact absurd hbytes (by decide)
  | assignment => cases h
  | call => cases h

/-- What stands in front of the specifier ends like a call. -/
theorem endsCall {f : Form} {word : Text} {p : Parens} (h : f.callee? = some (word, p))
    (before : Text) : EndsCall (before ++ f.opening) := by
  refine ⟨before ++ (f.lead ++ (word ++ p.before.text)), p.inner.text, ?_, p.inner.blank⟩
  simp [opening_eq h, Parens.opening]

/-- There is no slash among blanks. -/
private theorem slash_not_mem_blanks (b : Blanks) : Ascii.slash ∉ b.text :=
  b.not_mem (by decide)

/-- There is no comment in an assignment or a call. -/
theorem slash_not_mem_opening {f : Form} {word : Text} {p : Parens}
    (h : f.callee? = some (word, p)) : Ascii.slash ∉ f.opening := by
  have hwords : ∀ w ∈ callees, Ascii.slash ∉ w := by decide
  have hparen : Ascii.slash ≠ Text.byte '(' := by decide
  have hparens : Ascii.slash ∉ p.opening := by
    simp [Parens.opening, slash_not_mem_blanks, hparen]
  have hlead : Ascii.slash ∉ f.lead := by
    cases f with
    | clause => cases h
    | assignment w hw space target before after parens =>
      have hdeclarators : ∀ w ∈ declarators, Ascii.slash ∉ w := by decide
      have htarget : Ascii.slash ∉ target.text := fun hmem =>
        absurd (target.text_bytes _ hmem) (by decide)
      have hequals : Ascii.slash ≠ Ascii.equals := by decide
      simp [lead, hdeclarators w hw, htarget, hequals, slash_not_mem_blanks]
    | call => simp [lead]
  rw [opening_eq h, List.mem_append, List.mem_append, not_or, not_or]
  exact ⟨hlead, hwords word (mem_callees h), hparens⟩

end Form

/-! ## The declarations of a statement -/

namespace Statement

/-- The import statements found in a statement that begins at `offset`. -/
def imports (s : Statement) (offset : Nat) : List Declaration :=
  match s.form with
  | .clause _ _ c _ _ =>
    [⟨offset + s.before.text.length, s.literal.specifier, c.names, .staticImport⟩]
  | _ => []

/-- The calls of `keyword` found in a statement that begins at `offset`. -/
def calls (keyword : Text) (s : Statement) (offset : Nat) : List Declaration :=
  match s.form.callee? with
  | some (word, _) =>
    if word = keyword then
      [⟨offset + (s.before.text ++ s.form.lead).length, s.literal.specifier,
        implicitSymbols s.literal.specifier, .dynamicRequire⟩]
    else []
  | none => []

/-- The assignments found in a statement that begins at `offset`. -/
def assignments (s : Statement) (offset : Nat) : List Declaration :=
  match s.form with
  | .assignment _ _ _ target _ _ _ =>
    [⟨offset + s.before.text.length, s.literal.specifier, target.names, .dynamicRequire⟩]
  | _ => []

end Statement

/-- What a search finds from one place of a text on. -/
def found {α : Type} (g : Text → Option (α × Nat)) (toDeclaration : Nat × α → Declaration)
    (text : Text) (offset : Nat) : List Declaration :=
  (places g text offset false 0).map toDeclaration

def importDeclaration : Nat × Text × Text → Declaration
  | (offset, clause, specifier) => ⟨offset, specifier, clauseNames clause, .staticImport⟩

def callDeclaration : Nat × Text → Declaration
  | (offset, specifier) => ⟨offset, specifier, implicitSymbols specifier, .dynamicRequire⟩

def assignmentDeclaration : Nat × Text × Text → Declaration
  | (offset, target, specifier) => ⟨offset, specifier, patternNames target, .dynamicRequire⟩

section

variable {s : Statement} (rest : Text) (offset : Nat)

/-- Where a pattern is silent around the specifier, it finds nothing in the statement. -/
private theorem found_of_silent {α : Type} {g : Text → Option (α × Nat)}
    {toDeclaration : Nat × α → Declaration} (hg : AtWord g)
    (hopening : Silent g s.opening (s.literal.opening ::
      (s.literal.specifier ++ s.literal.closing :: (s.closing ++ rest))))
    (hspecifier : Silent g s.literal.specifier (s.literal.closing :: (s.closing ++ rest))) :
    found g toDeclaration (s.text ++ rest) offset =
      found g toDeclaration rest (offset + s.text.length) := by
  rw [found, places_of_silent hg s rest hopening hspecifier, found]

/-- Statements end with bytes at which no match goes on. -/
private theorem isClosingByte_end (after : Blanks) :
    ∀ b ∈ after.text ++ Text.ofString ";\n", isClosingByte b = true := by
  rw [List.forall_mem_append]
  exact ⟨fun b hb => isClosingByte_of_isBlank (after.blank b hb), by decide⟩

/-- Blanks are no part of words. -/
private theorem Blanks.nonword (b : Blanks) : ∀ c ∈ b.text, isWordByte c = false :=
  fun c hc => isWordByte_of_isBlank (b.blank c hc)

/-- The word that is called begins a word. -/
private theorem endsInWord_lead (s : Statement) :
    endsInWord false (s.before.text ++ s.form.lead) = false := by
  rw [endsInWord_append, endsInWord_of_isBlank s.before.blank]
  cases s.form with
  | clause => rfl
  | assignment word hword space target before after p =>
    have hlead : (Form.assignment word hword space target before after p).lead =
        (word ++ (space.text ++ (target.text ++ before.text))) ++ Ascii.equals :: after.text := by
      simp [Form.lead]
    rw [hlead, endsInWord_append, endsInWord_cons]
    exact endsInWord_of_isBlank after.blank
  | call => rfl

/-- An import statement is found, and nothing else is taken for one. -/
theorem found_importAt? (hreadable : s.form.isReadable = true)
    (hcomment : somewhere opensComment s.literal.specifier = false) :
    found importAt? importDeclaration (s.text ++ rest) offset =
      s.imports offset ++ found importAt? importDeclaration rest (offset + s.text.length) := by
  cases hcallee : s.form.callee? with
  | none =>
    -- only a clause calls no word
    cases hform : s.form with
    | assignment => simp [hform, Form.callee?] at hcallee
    | call => simp [hform, Form.callee?] at hcallee
    | clause space before c after inner =>
      obtain ⟨lead, kept, trailing, hpieces, hlead, htrailing, hmatch⟩ :=
        importAt?_clause space before c after inner s.literal
          (s.after.text ++ (Text.ofString ";\n" ++ rest))
      have htext : s.text = s.before.text ++ (((Form.clause space before c after inner).opening ++
          s.literal.opening :: (s.literal.specifier ++ [s.literal.closing])) ++
            (s.after.text ++ Text.ofString ";\n")) := by
        simp [Statement.text, Statement.opening, Statement.closing, hform, Form.closing]
      have hclause : c.isReadable = true := by
        rw [hform] at hreadable
        exact hreadable
      have hnames := clauseNames_texts space before hclause after hpieces hlead htrailing
      rw [found, places_of_match atWord_importAt? s htext (by simp [Form.opening])
        (isClosingByte_end s.after) (atWord_importAt?.silent s.before.nonword _)
        (endsInWord_of_isBlank s.before.blank) (by simpa using hmatch)]
      simp [Statement.imports, hform, found, importDeclaration, hnames]
  | some callee =>
    obtain ⟨word, p⟩ := callee
    have himports : s.imports offset = [] := by
      cases hform : s.form with
      | clause => simp [hform, Form.callee?] at hcallee
      | assignment => simp [Statement.imports, hform]
      | call => simp [Statement.imports, hform]
    have hslash : Ascii.slash ∉ s.opening := by
      rw [Statement.opening, List.mem_append, not_or]
      exact ⟨s.before.not_mem (by decide), Form.slash_not_mem_opening hcallee⟩
    rw [himports, List.nil_append]
    exact found_of_silent rest offset atWord_importAt?
      (silent_importAt? s.unquoted_opening s.literal.opening_isQuote
        (Form.endsCall hcallee s.before.text) hslash _)
      (s.silent_specifier_importAt? hcomment rest)

/-- A call is found at its word. -/
theorem found_call? {keyword : Text} (hkeyword : keyword ∈ callees) :
    found (call? keyword) callDeclaration (s.text ++ rest) offset =
      s.calls keyword offset ++
        found (call? keyword) callDeclaration rest (offset + s.text.length) := by
  -- by what the statement calls: nothing, this word, or another one
  cases hcallee : s.form.callee? with
  | none =>
    rw [show s.calls keyword offset = [] by simp [Statement.calls, hcallee], List.nil_append]
    exact found_of_silent rest offset (atWord_call? hkeyword)
      (silent_call? hkeyword s.unquoted_opening s.literal.opening_isQuote
        (Form.not_endsCall hcallee s.before.text) _)
      (s.silent_specifier_call? hkeyword rest)
  | some callee =>
    obtain ⟨word, p⟩ := callee
    have hword := Form.mem_callees hcallee
    have hopening : s.opening = (s.before.text ++ s.form.lead) ++ (word ++ p.opening) := by
      rw [Statement.opening, Form.opening_eq hcallee, List.append_assoc]
    -- no quote stands in front of the word, so that no earlier match reaches its specifier
    have hlead : Unquoted (s.before.text ++ s.form.lead) := by
      have hunquoted := s.unquoted_opening
      rw [hopening] at hunquoted
      exact (unquoted_append.mp hunquoted).1
    by_cases hsame : word = keyword
    · subst hsame
      have htext : s.text = (s.before.text ++ s.form.lead) ++ ((word ++ (p.opening ++
          s.literal.opening :: (s.literal.specifier ++ s.literal.closing :: p.closing))) ++
            (s.after.text ++ Text.ofString ";\n")) := by
        simp [Statement.text, hopening, Statement.closing, Form.closing_eq hcallee]
      have hmatch := call?_append word p s.literal (s.after.text ++ (Text.ofString ";\n" ++ rest))
      have hsilent := silent_before_call? hword hword p hlead s.literal.opening_isQuote
        (s.literal.specifier ++ s.literal.closing :: (p.closing ++ (s.after.text ++
          (Text.ofString ";\n" ++ rest))))
      rw [found, places_of_match (atWord_call? hkeyword) s htext (by simp [Parens.opening])
        (isClosingByte_end s.after) (by simpa using hsilent) (endsInWord_lead s)
        (by simpa using hmatch)]
      simp [Statement.calls, hcallee, found, callDeclaration]
    · rw [show s.calls keyword offset = [] by simp [Statement.calls, hcallee, hsame],
        List.nil_append]
      refine found_of_silent rest offset (atWord_call? hkeyword) ?_
        (s.silent_specifier_call? hkeyword rest)
      rw [hopening]
      exact silent_other_call? hword hkeyword (Ne.symm hsame) p hlead s.literal.opening_isQuote _

/-- An assignment is found, and nothing else is taken for one. -/
theorem found_assignment? (hopening : somewhere opensPattern s.opening = false)
    (hspecifier : somewhere opensPattern s.literal.specifier = false) :
    found assignment? assignmentDeclaration (s.text ++ rest) offset =
      s.assignments offset ++
        found assignment? assignmentDeclaration rest (offset + s.text.length) := by
  -- only an assignment has an equals sign between a target and a call
  cases hform : s.form with
  | clause space before c after inner =>
    have hcallee : s.form.callee? = none := by rw [hform]; rfl
    rw [show s.assignments offset = [] by simp [Statement.assignments, hform], List.nil_append]
    exact found_of_silent rest offset atWord_assignment?
      (silent_assignment? s.unquoted_opening s.literal.opening_isQuote hopening
        (fun hends => absurd hends (Form.not_endsCall hcallee s.before.text)) _)
      (s.silent_specifier_assignment? hspecifier rest)
  | assignment word hword space target before after p =>
    have htext : s.text = s.before.text ++ (((Form.assignment word hword space target before after
        p).opening ++ s.literal.opening :: (s.literal.specifier ++ s.literal.closing ::
          p.closing)) ++ (s.after.text ++ Text.ofString ";\n")) := by
      simp [Statement.text, Statement.opening, Statement.closing, hform, Form.closing]
    have hmatch := assignment?_append hword space target before after p s.literal
      (s.after.text ++ (Text.ofString ";\n" ++ rest))
    rw [found, places_of_match atWord_assignment? s htext (by simp [Form.opening])
      (isClosingByte_end s.after) (atWord_assignment?.silent s.before.nonword _)
      (endsInWord_of_isBlank s.before.blank) (by simpa using hmatch)]
    simp [Statement.assignments, hform, found, assignmentDeclaration, patternNames_text]
  | call word hword p =>
    have hequals : Ascii.equals ∉ s.opening := by
      have hblanks : ∀ b : Blanks, Ascii.equals ∉ b.text := fun b => b.not_mem (by decide)
      have hwords : ∀ w ∈ callees, Ascii.equals ∉ w := by decide
      have hparen : Ascii.equals ≠ Text.byte '(' := by decide
      simp [Statement.opening, hform, Form.opening, Parens.opening, hblanks, hwords word hword,
        hparen]
    rw [show s.assignments offset = [] by simp [Statement.assignments, hform], List.nil_append]
    exact found_of_silent rest offset atWord_assignment?
      (silent_assignment? s.unquoted_opening s.literal.opening_isQuote hopening
        (fun _ => hequals) _)
      (s.silent_specifier_assignment? hspecifier rest)

end

/-! ## The declarations of a program -/

/-- The declarations of a statement that begins at `offset`, in the order of their places. -/
def Statement.declarations (s : Statement) (offset : Nat) : List Declaration :=
  match s.form with
  | .clause _ _ c _ _ =>
    [⟨offset + s.before.text.length, s.literal.specifier, c.names, .staticImport⟩]
  | .assignment _ _ _ target _ _ _ =>
    [⟨offset + s.before.text.length, s.literal.specifier, target.names, .dynamicRequire⟩,
      ⟨offset + (s.before.text ++ s.form.lead).length, s.literal.specifier,
        implicitSymbols s.literal.specifier, .dynamicRequire⟩]
  | .call .. =>
    [⟨offset + s.before.text.length, s.literal.specifier,
      implicitSymbols s.literal.specifier, .dynamicRequire⟩]

/-- The four searches find the declarations of a statement, in their own order. -/
private theorem Statement.perm_declarations (s : Statement) (offset : Nat) :
    (s.imports offset ++ s.calls "require" offset ++ s.calls "import" offset ++
      s.assignments offset).Perm (s.declarations offset) := by
  obtain ⟨before, form, literal, after⟩ := s
  cases form with
  | clause => exact List.Perm.refl _
  | assignment => exact List.Perm.swap _ _ _
  | call word hword =>
    have hwords : word = Text.ofString "require" ∨ word = Text.ofString "import" := by
      simpa [callees] using hword
    have hne : Text.ofString "require" ≠ Text.ofString "import" := by decide
    rcases hwords with rfl | rfl
    · simp [imports, calls, assignments, declarations, Form.callee?, Form.lead, hne]
    · simp [imports, calls, assignments, declarations, Form.callee?, Form.lead, hne.symm]

/-- What is collected from all statements, when the first of them begins at `offset`. -/
def Program.collect (each : Statement → Nat → List Declaration) :
    Program → (offset : Nat) → List Declaration
  | [], _ => []
  | s :: p, offset => each s offset ++ collect each p (offset + s.text.length)

/-- A search that finds what it should in each statement does so in a program. -/
theorem found_text {α : Type} {g : Text → Option (α × Nat)}
    {toDeclaration : Nat × α → Declaration} {each : Statement → Nat → List Declaration}
    {p : Program} (h : ∀ s ∈ p, ∀ rest offset, found g toDeclaration (s.text ++ rest) offset =
      each s offset ++ found g toDeclaration rest (offset + s.text.length)) (offset : Nat) :
    found g toDeclaration p.text offset = p.collect each offset := by
  induction p generalizing offset with
  | nil => rfl
  | cons s p ih =>
    have htext : Program.text (s :: p) = s.text ++ Program.text p := List.flatMap_cons
    rw [htext, h s List.mem_cons_self, ih fun t ht => h t (List.mem_cons_of_mem _ ht),
      Program.collect]

/-- What two patterns find in each statement can be sorted by statements. -/
private theorem collect_append (f g : Statement → Nat → List Declaration) (p : Program)
    (offset : Nat) :
    (p.collect f offset ++ p.collect g offset).Perm
      (p.collect (fun s n => f s n ++ g s n) offset) := by
  induction p generalizing offset with
  | nil => exact List.Perm.nil
  | cons s p ih =>
    -- what `g` finds in `s` moves in front of what `f` finds behind `s`
    rw [Program.collect, Program.collect, Program.collect, List.append_assoc, List.append_assoc]
    refine List.Perm.append_left _ ?_
    rw [← List.append_assoc]
    refine (List.perm_append_comm.append_right _).trans ?_
    rw [List.append_assoc]
    exact (ih _).append_left _

/-- The order within each statement is free. -/
private theorem collect_perm {f g : Statement → Nat → List Declaration}
    (h : ∀ s n, (f s n).Perm (g s n)) (p : Program) (offset : Nat) :
    (p.collect f offset).Perm (p.collect g offset) := by
  induction p generalizing offset with
  | nil => exact List.Perm.nil
  | cons s p ih => exact (h s offset).append (ih _)

/-- The four searches together find the declarations of the statements. -/
private theorem perm_declarations (p : Program) (offset : Nat) :
    (p.collect Statement.imports offset ++ p.collect (Statement.calls "require") offset ++
      p.collect (Statement.calls "import") offset ++ p.collect Statement.assignments offset).Perm
        (p.collect Statement.declarations offset) := by
  have hfirst := collect_append Statement.imports (Statement.calls "require") p offset
  have hsecond := (hfirst.append_right _).trans
    (collect_append _ (Statement.calls "import") p offset)
  have hthird := (hsecond.append_right _).trans (collect_append _ Statement.assignments p offset)
  exact hthird.trans (collect_perm Statement.perm_declarations p offset)

/-! ## The order of places -/

/-- The declarations of a statement lie within it, one behind the other. -/
private theorem Statement.declarations_places (s : Statement) (offset : Nat) :
    (s.declarations offset).Pairwise (·.offset < ·.offset) ∧
      ∀ d ∈ s.declarations offset, offset ≤ d.offset ∧ d.offset < offset + s.text.length := by
  have htext : s.before.text.length + s.form.opening.length < s.text.length := by
    simp only [text, opening, List.length_append, List.length_cons]
    omega
  -- an assignment stands at its first word, and its call behind the target
  cases hform : s.form with
  | clause =>
    simp only [declarations, hform, List.pairwise_singleton, List.mem_singleton, forall_eq,
      true_and]
    omega
  | assignment word hword space target before after p =>
    have hcallee : s.form.callee? = some (Text.ofString "require", p) := by
      rw [hform]
      rfl
    have hopening := congrArg List.length (Form.opening_eq hcallee)
    have hlead : 0 < s.form.lead.length := by
      rw [hform]
      simp only [Form.lead, List.length_append, List.length_cons]
      omega
    rw [List.length_append] at hopening
    rw [hform] at htext hopening hlead
    simp only [declarations, hform, List.pairwise_cons, List.mem_cons, List.not_mem_nil, or_false,
      forall_eq_or_imp, forall_eq, List.length_append, List.Pairwise.nil, and_true]
    refine ⟨⟨?_, ?_⟩, ?_, ?_⟩
    · omega
    · simp
    · omega
    · omega
  | call =>
    simp only [declarations, hform, List.pairwise_singleton, List.mem_singleton, forall_eq,
      true_and]
    omega

/-- The declarations of a program stand at rising places. -/
private theorem collect_places (p : Program) (offset : Nat) :
    (p.collect Statement.declarations offset).Pairwise (·.offset < ·.offset) ∧
      ∀ d ∈ p.collect Statement.declarations offset, offset ≤ d.offset := by
  induction p generalizing offset with
  | nil => exact ⟨List.Pairwise.nil, by simp [Program.collect]⟩
  | cons s p ih =>
    obtain ⟨hpairwise, hbounds⟩ := s.declarations_places offset
    obtain ⟨hrest, hbehind⟩ := ih (offset + s.text.length)
    constructor
    · refine List.pairwise_append.mpr ⟨hpairwise, hrest, fun a ha b hb => ?_⟩
      exact Nat.lt_of_lt_of_le (hbounds a ha).2 (hbehind b hb)
    · intro d hd
      rcases List.mem_append.mp hd with hd | hd
      · exact (hbounds d hd).1
      · exact Nat.le_trans (Nat.le_add_right _ _) (hbehind d hd)

/-- Declarations at different places are told apart by their places. -/
private theorem eq_of_offset_eq {ds : List Declaration} (h : ds.Pairwise (·.offset < ·.offset))
    {a b : Declaration} (ha : a ∈ ds) (hb : b ∈ ds) (hab : a.offset = b.offset) : a = b := by
  induction ds with
  | nil => cases ha
  | cons d ds ih =>
    obtain ⟨hd, hds⟩ := List.pairwise_cons.mp h
    rcases List.mem_cons.mp ha with rfl | ha' <;> rcases List.mem_cons.mp hb with rfl | hb'
    · rfl
    · exact absurd hab (Nat.ne_of_lt (hd b hb'))
    · exact absurd hab (Nat.ne_of_gt (hd a ha'))
    · exact ih hds ha' hb'

/-- Declarations that are found in any order are sorted by their places. -/
private theorem mergeSort_eq {found sorted : List Declaration} (hperm : found.Perm sorted)
    (hsorted : sorted.Pairwise (·.offset < ·.offset)) :
    found.mergeSort (fun a b => a.offset ≤ b.offset) = sorted := by
  have hmerge : (found.mergeSort fun a b => a.offset ≤ b.offset).Perm sorted :=
    (List.mergeSort_perm _ _).trans hperm
  -- no two declarations share a place, so there is only one order
  refine @List.Perm.eq_of_pairwise _ (fun a b => a.offset ≤ b.offset) _ _ ?_ ?_ ?_ hmerge
  · intro a b ha hb hab hba
    exact eq_of_offset_eq hsorted (hmerge.mem_iff.mp ha) hb (Nat.le_antisymm hab hba)
  · have hpairwise := @List.pairwise_mergeSort Declaration (fun a b => a.offset ≤ b.offset)
      (fun a b c hab hbc => by simp only [decide_eq_true_eq] at *; omega)
      (fun a b => by simp only [Bool.or_eq_true, decide_eq_true_eq]; omega) found
    exact hpairwise.imp of_decide_eq_true
  · exact hsorted.imp Nat.le_of_lt

/-- The declarations of a program are those of its statements, in order. -/
theorem declarations_text {p : Program} (h : ∀ s ∈ p, s.isReadable = true) :
    declarations p.text = p.collect Statement.declarations 0 := by
  have hall : ∀ s ∈ p, ((s.form.isReadable = true ∧ somewhere opensPattern s.opening = false) ∧
      somewhere opensPattern s.literal.specifier = false) ∧
        somewhere opensComment s.literal.specifier = false := fun s hs => by
    simpa only [Statement.isReadable, Bool.and_eq_true, Bool.not_eq_true'] using h s hs
  -- each pattern finds its own kind of declaration in each statement
  have himports : staticImports p.text = p.collect Statement.imports 0 := by
    rw [staticImports, findAll_importStatement?]
    exact found_text (fun s hs rest offset =>
      found_importAt? rest offset (hall s hs).1.1.1 (hall s hs).2) 0
  have hcalls : ∀ keyword ∈ callees,
      calls keyword p.text = p.collect (Statement.calls keyword) 0 := fun keyword hkeyword => by
    rw [calls, findAll_eq_places _ (fun _ => []) fun _ _ => rfl]
    exact found_text (fun s _ rest offset => found_call? rest offset hkeyword) 0
  have hassignments : assignments p.text = p.collect Statement.assignments 0 := by
    rw [assignments, findAll_eq_places _ (fun _ => []) fun _ _ => rfl]
    exact found_text (fun s hs rest offset =>
      found_assignment? rest offset (hall s hs).1.1.2 (hall s hs).1.2) 0
  rw [declarations, himports, hcalls _ (by decide), hcalls _ (by decide), hassignments]
  -- sorted by their places they are back in the order of the statements
  exact mergeSort_eq (perm_declarations p 0) (collect_places p 0).1

end DependencyAudit.Import
