import DependencyAudit.Proofs.Import.Packages
import DependencyAudit.Proofs.Import.RunOn

/-!
# Import statements below a line comment

A search by text matching does not know that a comment is one. When the line above an import
statement holds the word `import` and goes on like a clause to its end, the match that begins
there runs on into the statement and takes it for the rest of its own clause.

This is the only way in which a comment disturbs the statement below it. If no `import` in the
comment runs on, the names of the statement are found. And in a comment without quote characters
an `import` that runs on always swallows the statement.

## Main definitions

* `commented`: a line comment with an import statement below it.

## Main results

* `takes_literal` and `places_of_literal`: a text with a single literal at its end has one match
  at most, which goes to its end;
* `import_below_line_comment`: what is found of a statement below a comment.
-/

namespace DependencyAudit.Import

/-! ## Texts with a single literal -/

namespace Outlook

/-- What is read from the inside of a block comment is a clause behind its end. -/
theorem exists_blockEnd {text : Text} {r : Reading} (h : (ofText text).inBlock = some r) :
    ∃ body after s, text = body ++ (Text.ofString "*/" ++ after) ∧
      (ofText after).clause = some s := by
  induction text generalizing r with
  | nil => cases h
  | cons b text ih =>
    rcases inBlock_cases h with ⟨after, s, htext, hs, -⟩ | ⟨s, hs, -⟩
    · exact ⟨[], after, s, htext, hs⟩
    · obtain ⟨body, after, s', rfl, hs'⟩ := ih hs
      exact ⟨b :: body, after, s', rfl, hs'⟩

end Outlook

theorem containsText_append (part a b : Text) :
    Text.containsText part (a ++ (part ++ b)) = true := by
  induction a with
  | nil =>
    rw [List.nil_append]
    cases h : part ++ b with
    | nil => simp [Text.containsText, (List.append_eq_nil_iff.mp h).1]
    | cons c rest =>
      have hpart : part.isPrefixOf (c :: rest) = true :=
        List.isPrefixOf_iff_prefix.mpr ⟨b, h⟩
      rw [Text.containsText, hpart, Bool.true_or]
  | cons c a ih => rw [List.cons_append, Text.containsText, ih, Bool.or_true]

section Quotes

variable {lead : Text} {l : Literal}

/-- In a text with a single literal at its end, what is read goes to the end of the text. -/
theorem takes_literal (hlead : Unquoted lead) {front back : Text} {r : Reading}
    (hsplit : lead ++ l.opening :: (l.specifier ++ [l.closing]) = front ++ back)
    (h : Outlook.Takes back r) :
    (∃ more, lead = front ++ more) ∧ r.size = back.length ∧ r.specifier = l.specifier := by
  obtain ⟨before, inner, l', rest, rfl, hspecifier, hsize⟩ := h
  have hquotes : lead ++ l.opening :: (l.specifier ++ [l.closing]) =
      (front ++ (before ++ (Text.ofString "from" ++ inner.text))) ++
        l'.opening :: (l'.specifier ++ l'.closing :: rest) := by
    simpa using hsplit
  have hunquoted : Unquoted (front ++ (before ++ (Text.ofString "from" ++ inner.text))) := by
    rcases split_lead hlead hquotes with hunquoted | ⟨more, -, hmore⟩
    · exact hunquoted
    · -- behind the opening quote there is only one quote left
      rcases split_lead l.unquoted_specifier hmore with hmore' | ⟨more', -, hnil⟩
      · obtain ⟨-, -, hnil⟩ := split_inj l.unquoted_specifier hmore' l.closing_isQuote
          l'.opening_isQuote hmore
        simp at hnil
      · simp at hnil
  obtain ⟨rfl, -, hspecifiers⟩ := split_inj hlead hunquoted l.opening_isQuote l'.opening_isQuote
    hquotes
  obtain ⟨heq, -, rfl⟩ := split_inj l.unquoted_specifier l'.unquoted_specifier l.closing_isQuote
    l'.closing_isQuote hspecifiers
  exact ⟨⟨_, rfl⟩, hsize, by rw [hspecifier, heq]⟩

/-- A block comment that is open in front of the statement is closed in it. -/
private theorem closes_of_inBlock (hlead : Unquoted lead) {r : Reading}
    (h : (Outlook.ofText (Ascii.newline :: (lead ++ l.opening :: (l.specifier ++
      [l.closing])))).inBlock = some r) : Text.containsText "*/" lead = true := by
  obtain ⟨body, after, s, hsplit, hs⟩ := Outlook.exists_blockEnd h
  rw [← List.append_assoc] at hsplit
  have hline : Unquoted (Ascii.newline :: lead) := unquoted_cons.mpr ⟨by decide, hlead⟩
  obtain ⟨⟨more, hmore⟩, -⟩ := takes_literal hline hsplit ((Outlook.sound after).clause s hs)
  have hcontains : Text.containsText "*/" (Ascii.newline :: lead) = true := by
    rw [hmore, List.append_assoc]
    exact containsText_append _ body more
  rwa [Text.containsText, show List.isPrefixOf (Text.ofString "*/") (Ascii.newline :: lead) = false
    from rfl, Bool.false_or] at hcontains

/-- In a text with a single literal at its end, the first match is the only one. -/
theorem places_of_literal (hlead : Unquoted lead) {before after : Text}
    (hsplit : lead ++ l.opening :: (l.specifier ++ [l.closing]) = before ++ after)
    (hends : endsInWord false before = false) (hmatch : importAt? after ≠ none) :
    ∃ offset clause, offset ≤ before.length ∧
      places importAt? (lead ++ l.opening :: (l.specifier ++ [l.closing])) 0 false 0 =
        [(offset, clause, l.specifier)] := by
  rw [hsplit]
  have hne : after ≠ [] := by
    rintro rfl
    exact hmatch rfl
  have htotal : ∀ front back a size, before ++ after = front ++ back →
      importAt? back = some (a, size) → size = back.length := by
    rintro front back ⟨clause, specifier⟩ size hfront hback
    exact (takes_literal hlead (hsplit.trans hfront) (importAt?_takes hback)).2.1
  obtain ⟨front, back, ⟨clause, specifier⟩, hfront, hlength, hback, hplaces⟩ :=
    places_of_total htotal hne hends hmatch 0
  obtain ⟨-, -, hspecifier⟩ := takes_literal hlead (hsplit.trans hfront) (importAt?_takes hback)
  obtain rfl : specifier = l.specifier := hspecifier
  exact ⟨0 + front.length, clause, by omega, hplaces⟩

end Quotes

/-! ## The statement below a comment -/

section Statement

variable (space : Space) (before : Gap) (c : Clause) (after : Gap) (inner : Blanks) (l : Literal)

/-- A line comment and, below it, an import statement. -/
def commented (body : Text) : Text :=
  Text.ofString "//" ++ (body ++ Ascii.newline ::
    ((Form.clause space before c after inner).opening ++
      l.opening :: (l.specifier ++ [l.closing])))

theorem fresh_clause (rest : Text) :
    Outlook.Fresh ((Form.clause space before c after inner).opening ++ rest) :=
  ⟨Text.byte 'i', _, rfl, by decide, by decide, by decide⟩

/-- The statement is matched if no `import` of the comment runs on into it. -/
private theorem exists_place_commented (hc : c.isReadable = true) {body : Text}
    (h : opensImport (Text.containsText "*/" (Form.clause space before c after inner).opening) false
      body = false) :
    ∃ offset clause, (offset, clause, l.specifier) ∈
        places importAt? (commented space before c after inner l body) 0 false 0 ∧
      clauseNames clause = c.names := by
  obtain ⟨lead, kept, trailing, hpieces, hlead, htrailing, hmatch⟩ :=
    importAt?_clause space before c after inner l []
  have hbody := confined_of_not_opensImport
    (fresh_clause space before c after inner (l.opening :: (l.specifier ++ [l.closing])))
    (fun r hr => closes_of_inBlock (Form.unquoted_opening _) hr) h
  -- no match begins with the signs around the body
  have hconfined : Confined importAt? false (Text.ofString "//" ++ (body ++ [Ascii.newline]))
      ((Form.clause space before c after inner).opening ++ l.opening :: (l.specifier ++
        [l.closing]) ++ []) := by
    rw [List.append_nil]
    exact ((atWord_importAt?.silent (by decide) _).confined false).append (hbody.append
      ((atWord_importAt?.silent (by decide) _).confined _))
  have hends : endsInWord false (Text.ofString "//" ++ (body ++ [Ascii.newline])) = false := by
    rw [endsInWord_append, endsInWord_append]
    rfl
  have htext : commented space before c after inner l body =
      Text.ofString "//" ++ (body ++ [Ascii.newline]) ++ ((Form.clause space before c after
        inner).opening ++ l.opening :: (l.specifier ++ [l.closing]) ++ []) := by
    simp [commented]
  have hplace := mem_places_of_confined hconfined hends (by simpa using hmatch) (by simp)
  rw [← htext] at hplace
  exact ⟨_, _, hplace, clauseNames_texts space before hc after hpieces hlead htrailing⟩

/-- The whole statement can be read as a clause, with `import` for a name. -/
private theorem clause_of_statement :
    (Outlook.ofText ((Form.clause space before c after inner).opening ++
      l.opening :: (l.specifier ++ [l.closing]))).clause ≠ none := by
  have hfits : Fits (bytes (Text.ofString "import") ++ (bytes space.text ++ (before.pieces ++
      (c.pieces ++ after.pieces)))) :=
    fits_append.mpr ⟨fits_bytes (by decide), fits_clause space before c after⟩
  obtain ⟨kept, trailing, -, -, hclause⟩ := Outlook.clause_texts inner l [] hfits
  have htexts : ∀ pieces, Piece.texts (bytes (Text.ofString "import") ++ pieces) =
      Text.ofString "import" ++ Piece.texts pieces := fun pieces =>
    List.flatMap_append.trans (congrArg (· ++ Piece.texts pieces) (texts_bytes _))
  rw [htexts, Outlook.ending] at hclause
  rw [Form.opening]
  simp only [List.append_assoc] at hclause ⊢
  exact Option.ne_none_iff_exists'.mpr ⟨_, hclause⟩

/-- An `import` that runs on in a comment without quotes is the only match. -/
private theorem places_commented {body : Text} (hbody : Ascii.newline ∉ body)
    (hunquoted : Unquoted body) (h : opensImport false false body = true) :
    ∃ offset clause, offset < (Text.ofString "//" ++ body).length ∧
      places importAt? (commented space before c after inner l body) 0 false 0 =
        [(offset, clause, l.specifier)] := by
  obtain ⟨front, line, rfl, hword, hbegins⟩ := opensImport_iff.mp h
  -- the match begins at the `import` of the comment and ends with the statement
  have hmatch := importAt?_of_beginsImport (fresh_clause space before c after inner _)
    (clause_of_statement space before c after inner l)
    (fun hmem => hbody (List.mem_append_right _ hmem)) (unquoted_append.mp hunquoted).2 hbegins
  -- nothing in front of the specifier is quoted, so that no other match ends before it
  have hlead : Unquoted (Text.ofString "//" ++ (front ++ line ++ Ascii.newline ::
      (Form.clause space before c after inner).opening)) := by
    rw [unquoted_append, unquoted_append, unquoted_cons]
    exact ⟨by decide, hunquoted, by decide, Form.unquoted_opening _⟩
  have hends : endsInWord false (Text.ofString "//" ++ front) = false := by
    rw [endsInWord_append]
    exact hword
  obtain ⟨offset, clause, hoffset, hplaces⟩ := places_of_literal (l := l) hlead
    (by simp [List.append_assoc]) hends hmatch
  refine ⟨offset, clause, ?_, by simpa [commented] using hplaces⟩
  have hline : 0 < line.length := List.length_pos_iff.mpr fun hnil => by
    rw [hnil] at hbegins
    cases hbegins
  rw [List.length_append, List.length_append]
  rw [List.length_append] at hoffset
  omega

end Statement

/-- An import statement below a line comment. Its names are found unless an `import` of the comment
runs on to the end of the line. In a comment without quotes, an `import` that runs on is matched
together with the statement, and nothing else is. -/
theorem import_below_line_comment (path body : Text) (hbody : Ascii.newline ∉ body) (space : Space)
    (before : Gap) (c : Clause) (hc : c.isReadable = true) (after : Gap) (inner : Blanks)
    (l : Literal) (package : Text) (hpackage : Specifier.packageName? l.specifier = some package) :
    (opensImport (Text.containsText "*/" (Form.clause space before c after inner).opening) false
        body = false →
      ∃ b ∈ bindings path (commented space before c after inner l body),
        b.dependency = package ∧ (∀ name ∈ c.names, name ∈ b.symbols) ∧
          .staticImport ∈ b.kinds) ∧
    (Unquoted body → opensImport false false body = true →
      ∃ d, staticImports (commented space before c after inner l body) = [d] ∧
        d.specifier = l.specifier ∧ d.offset < (Text.ofString "//" ++ body).length) := by
  -- in the first case the statement is matched on its own, in the second with the comment
  constructor
  · intro hopens
    obtain ⟨offset, clause, hplace, hnames⟩ :=
      exists_place_commented space before c after inner l hc hopens
    obtain ⟨b, hb, hdependency, hsymbols, hkind⟩ :=
      exists_binding_of_mem path (mem_declarations_of_import hplace) hpackage
    refine ⟨b, hb, hdependency, fun name hname => ?_, hkind⟩
    refine hsymbols name ?_ (Clause.ne_nil_of_mem_names hname)
    show name ∈ clauseNames clause
    rwa [hnames]
  · intro hunquoted hopens
    obtain ⟨offset, clause, hoffset, hplaces⟩ :=
      places_commented space before c after inner l hbody hunquoted hopens
    refine ⟨importDeclaration (offset, clause, l.specifier), ?_, rfl, hoffset⟩
    rw [staticImports_eq, hplaces]
    rfl

/-- Of two comments that speak of an import, the second one runs on into the statement. -/
theorem import_below_line_comment_sample :
    (∃ b ∈ bindings "a.js" "// import x; it's old\nimport a from 'p'",
      b.dependency = "p" ∧ Text.ofString "a" ∈ b.symbols ∧ .staticImport ∈ b.kinds) ∧
    ∃ d, staticImports "// default import\nimport a from 'p'" = [d] ∧ d.specifier = "p" ∧
      d.offset < 17 := by
  -- `import a from 'p'` below any comment
  have hbelow (body : Text) (hbody : Ascii.newline ∉ body) :=
    import_below_line_comment "a.js" body hbody ⟨⟨" ", by decide⟩, by decide⟩ ⟨[], by decide⟩
      (.default ⟨"a", by decide, by decide⟩) rfl ⟨[.byte Ascii.space], by decide⟩ ⟨" ", by decide⟩
      ⟨Ascii.apostrophe, "p", Ascii.apostrophe, by decide, by decide, by decide, by decide⟩
      "p" (by decide)
  constructor
  · obtain ⟨b, hb, hdependency, hsymbols, hkind⟩ :=
      (hbelow " import x; it's old" (by decide)).1 (by decide)
    exact ⟨b, hb, hdependency, hsymbols _ (by decide), hkind⟩
  · exact (hbelow " default import" (by decide)).2 (by decide) (by decide)

-- the word `import` of the statement is then taken for the name that it binds
example : bindings "a.js" "// default import\nimport a from 'p'" =
    [⟨"p", ["import"], "a.js", [.staticImport]⟩] := by
  decide +kernel

end DependencyAudit.Import
