import DependencyAudit.Proofs.Import.Extent
import DependencyAudit.Proofs.Import.Statement

/-!
# Clauses that run on

A match that begins in a line may leave it: the clause of an import statement goes on over the end
of the line as over any white space. Whether it does can be seen in the line alone. From the word
`import` on, the line has to be written in clause bytes and comments up to its end, where a line
comment takes the rest of the line and a block comment may be left open if it is closed further on.

This condition is exact for lines without quote characters: what is read beyond the line runs on
in it, and what runs on is read beyond the line if a clause follows.

## Main definitions

* `runsOn`: a clause that has begun goes on to the end of the line;
* `opensImport`: some `import` of the line goes on to its end.

## Main results

* `Outlook.runsOn_of_spaced`: a clause that is read beyond the line runs on in it;
* `Outlook.spaced_of_runsOn`: a clause that runs on is read beyond the line;
* `confined_of_not_opensImport`: no match leaves a line in which no `import` runs on.
-/

namespace DependencyAudit.Import

/-! ## Comments that run on -/

/-- Does a clause that has begun go on to the end of the line? It does so with clause bytes and
comments. The line may end inside a block comment (`inBlock`) if the comment is closed further on
(`closes`). -/
def runsOn (closes : Bool) : (inBlock : Bool) → Text → Bool
  | false, [] => true
  | true, [] => closes
  -- the last byte of the line has the newline behind it, so it is half of no sign
  | false, [b] => Outlook.isClauseByte b
  | true, [_] => closes
  | false, b :: c :: rest =>
    if Outlook.isClauseByte b then runsOn closes false (c :: rest)
    else b = Ascii.slash && (c = Ascii.slash || c = Ascii.star && runsOn closes true rest)
  -- a block comment may also be stretched past its end
  | true, b :: c :: rest =>
    b = Ascii.star && c = Ascii.slash && runsOn closes false rest || runsOn closes true (c :: rest)

/-- An `import` at the front of the line, with a clause that goes on to the end of the line. -/
def beginsImport (closes : Bool) (line : Text) : Bool :=
  match Text.dropPrefix? "import" line with
  | some rest => rest.head?.all isBlank && runsOn closes false rest
  | none => false

/-- Does an `import` of the line, at the beginning of a word, go on to the end of the line? -/
def opensImport (closes : Bool) : (inWord : Bool) → Text → Bool
  | _, [] => false
  | inWord, b :: rest =>
    !inWord && beginsImport closes (b :: rest) || opensImport closes (isWordByte b) rest

section

variable {closes : Bool} {b : UInt8} {rest : Text}

/-- A byte of a clause decides nothing. -/
theorem runsOn_cons (hb : Outlook.isClauseByte b = true) :
    runsOn closes false (b :: rest) = runsOn closes false rest := by
  cases rest with
  | nil => simp [runsOn, hb]
  | cons c rest => simp [runsOn, hb]

/-- A line comment runs on. -/
theorem runsOn_line (rest : Text) : runsOn closes false (Text.ofString "//" ++ rest) = true := by
  have hslash : Outlook.isClauseByte Ascii.slash = false := by decide
  simp [runsOn, show Text.ofString "//" = [Ascii.slash, Ascii.slash] from rfl, hslash]

/-- A block comment runs on if it is closed in the line, or below. -/
theorem runsOn_block (rest : Text) :
    runsOn closes false (Text.ofString "/*" ++ rest) = runsOn closes true rest := by
  have hslash : Outlook.isClauseByte Ascii.slash = false := by decide
  have hstar : Ascii.star ≠ Ascii.slash := by decide
  simp [runsOn, show Text.ofString "/*" = [Ascii.slash, Ascii.star] from rfl, hslash, hstar]

/-- Inside of a block comment any byte may be added in front. -/
theorem runsOn_inBlock_cons (h : runsOn closes true rest = true) :
    runsOn closes true (b :: rest) = true := by
  cases rest with
  | nil => exact h
  | cons c rest => simp [runsOn, h]

/-- At the end of a block comment the clause goes on. -/
theorem runsOn_blockEnd (h : runsOn closes false rest = true) :
    runsOn closes true (Text.ofString "*/" ++ rest) = true := by
  simp [runsOn, show Text.ofString "*/" = [Ascii.star, Ascii.slash] from rfl, h]

/-- The places at which an `import` may begin. -/
theorem opensImport_iff {inWord : Bool} {line : Text} :
    opensImport closes inWord line = true ↔
      ∃ before after, line = before ++ after ∧ endsInWord inWord before = false ∧
        beginsImport closes after = true := by
  -- by induction on the line: an `import` begins here, or behind the first byte
  induction line generalizing inWord with
  | nil =>
    constructor
    · rintro ⟨⟩
    · rintro ⟨before, after, hsplit, -, hbegins⟩
      obtain ⟨-, rfl⟩ := List.append_eq_nil_iff.mp hsplit.symm
      cases hbegins
  | cons b line ih =>
    rw [opensImport, Bool.or_eq_true, Bool.and_eq_true, Bool.not_eq_true', ih]
    constructor
    · rintro (⟨hword, hbegins⟩ | ⟨before, after, rfl, hword, hbegins⟩)
      · exact ⟨[], b :: line, rfl, hword, hbegins⟩
      · exact ⟨b :: before, after, rfl, by rwa [endsInWord_cons], hbegins⟩
    · rintro ⟨before, after, hsplit, hword, hbegins⟩
      cases before with
      | nil =>
        obtain rfl : b :: line = after := hsplit
        exact Or.inl ⟨hword, hbegins⟩
      | cons c before =>
        obtain ⟨rfl, rfl⟩ := List.cons.inj hsplit
        exact Or.inr ⟨before, after, rfl, by rwa [endsInWord_cons] at hword, hbegins⟩

end

/-! ## A reading that leaves the line -/

namespace Outlook

section Line

variable {below : Text}

/-- The text begins with a byte that no source begins or goes on with: neither white space nor a
quote nor the `f` of `from`. -/
def Fresh (below : Text) : Prop :=
  ∃ first rest, below = first :: rest ∧ isBlank first = false ∧ isQuote first = false ∧
    first ≠ Text.byte 'f'

/-- A literal does not go beyond its line. -/
private theorem newline_not_mem_literal (l : Literal) :
    Ascii.newline ∉ l.specifier ++ [l.closing] := by
  intro hmem
  rcases List.mem_append.mp hmem with hmem | hmem
  · exact absurd (l.specifierByte _ hmem) (by decide)
  · have hquote := l.closing_isQuote
    rw [← List.mem_singleton.mp hmem] at hquote
    exact absurd hquote (by decide)

/-- The end of a statement lies in its line if nothing below goes on with it. -/
private theorem size_of_fromSource? (hfresh : Fresh below) {line : Text} {r : Reading}
    (h : fromSource? (line ++ Ascii.newline :: below) = some r) :
    r.size ≤ line.length := by
  obtain ⟨first, below, rfl, hink, hunquoted, -⟩ := hfresh
  obtain ⟨inner, l, rest, htext, rfl⟩ := fromSource?_extent h
  -- the word `from` stands in the line
  obtain ⟨more, rfl, hmore⟩ := lead_of_class
    (beq_of_not_mem (a := Ascii.newline) (by decide)) (beq_self_eq_true _) htext.symm
  have hinner := not_class inner.blank
  rcases split_lead hinner hmore with hblank | ⟨quoted, rfl, hquoted⟩
  · -- only white space up to the end of the line: the next line would begin with a quote
    have hline : ∀ b ∈ more ++ [Ascii.newline], (!isBlank b) = false := by
      rw [List.forall_mem_append, List.forall_mem_singleton]
      exact ⟨hblank, by decide⟩
    have hquote : (!isBlank l.opening) = true := by
      rw [isBlank_of_isQuote l.opening_isQuote]
      rfl
    have hfirst : (!isBlank first) = true := by
      rw [hink]
      rfl
    obtain ⟨-, rfl, -⟩ := split_inj hinner hline hquote hfirst (by simpa using hmore)
    rw [l.opening_isQuote] at hunquoted
    cases hunquoted
  · -- a specifier does not go beyond the end of the line
    obtain ⟨after, rfl, -⟩ := lead_of_class (beq_of_not_mem (newline_not_mem_literal l))
      (beq_self_eq_true _) (by simpa using hquoted)
    simp only [List.length_append, List.length_cons, List.length_nil]
    omega

/-- Nothing that stands below is the end of a statement. -/
private theorem source_of_fresh (hfresh : Fresh below) : (ofText below).source = none := by
  obtain ⟨first, below, rfl, hink, -, hfrom⟩ := hfresh
  refine Option.eq_none_iff_forall_ne_some.mpr fun r hr => ?_
  rcases source_cases hr with ⟨hblank, -⟩ | ⟨-, hr⟩
  · rw [hink] at hblank
    cases hblank
  · obtain ⟨inner, l, rest, htext, -⟩ := fromSource?_extent hr
    exact hfrom (List.cons.inj htext).1

/-- A source that begins in a line ends in it. -/
theorem size_of_source (hfresh : Fresh below) {line : Text} {r : Reading}
    (h : (ofText (line ++ Ascii.newline :: below)).source = some r) :
    r.size ≤ line.length := by
  induction line generalizing r with
  | nil =>
    rw [List.nil_append, source_of_isBlank (by decide), source_of_fresh hfresh] at h
    cases h
  | cons b line ih =>
    rcases source_cases h with ⟨-, s, hs, rfl⟩ | ⟨-, hr⟩
    · have hsize := ih hs
      simp only [Reading.shift, List.length_cons]
      omega
    · exact size_of_fromSource? hfresh hr

/-! ### The clause goes on in the line -/

/-- What is read beyond the end of the line runs on in the line. -/
private structure RunsBeyond (closes : Bool) (below line : Text) : Prop where
  /-- A reading that begins with an item. -/
  items : ∀ r, (ofText (line ++ Ascii.newline :: below)).items = some r →
    line.length < r.size → runsOn closes false line = true
  /-- A reading that begins with a clause. -/
  clause : ∀ r, (ofText (line ++ Ascii.newline :: below)).clause = some r →
    line.length < r.size → runsOn closes false line = true
  /-- A reading that begins in a block comment. -/
  inBlock : ∀ r, (ofText (line ++ Ascii.newline :: below)).inBlock = some r →
    line.length < r.size → runsOn closes true line = true

variable {closes : Bool}

/-- A reading that leaves the line does so without its first bytes. -/
private theorem lt_size_of_grow (head : Text) {line : Text} {s : Reading}
    (h : (head ++ line).length < (s.grow head).size) : line.length < s.size := by
  rw [Reading.size_grow, List.length_append] at h
  omega

/-- A sign of two bytes that is no newline stands in the line if it begins there. -/
private theorem sign_in_line {b : UInt8} (c d : UInt8) (hd : d ≠ Ascii.newline) {line after : Text}
    (h : b :: (line ++ Ascii.newline :: below) = [c, d] ++ after) :
    b = c ∧ ∃ more, line = d :: more ∧ after = more ++ Ascii.newline :: below := by
  obtain ⟨rfl, hline⟩ := List.cons.inj h
  cases line with
  | nil => exact absurd (List.cons.inj hline).1.symm hd
  | cons e more =>
    obtain ⟨rfl, hafter⟩ := List.cons.inj hline
    exact ⟨rfl, more, rfl, hafter.symm⟩

private theorem runsBeyond_nil
    (hcloses : ∀ r, (ofText (Ascii.newline :: below)).inBlock = some r →
      closes = true) : RunsBeyond closes below [] where
  items := fun _ _ _ => rfl
  clause := fun _ _ _ => rfl
  inBlock := fun r hr _ => hcloses r hr

/-- What holds behind a byte, and behind the next one, holds in front of it. -/
private theorem runsBeyond_cons (hfresh : Fresh below) {b : UInt8} {line : Text}
    (h : RunsBeyond closes below line) (h' : RunsBeyond closes below line.tail) :
    RunsBeyond closes below (b :: line) := by
  -- an item is a byte of a clause, or opens a comment that may end in the line
  have hitems : ∀ r, (ofText (b :: line ++ Ascii.newline :: below)).items = some r →
      (b :: line).length < r.size → runsOn closes false (b :: line) = true := by
    intro r hr hsize
    rcases items_cases hr with ⟨hb, s, hs, rfl⟩ | ⟨after, s, hsign, hs, rfl⟩ |
      ⟨after, s, hsign, hs, rfl⟩
    · rw [runsOn_cons hb]
      exact h.clause s hs (lt_size_of_grow [b] hsize)
    · obtain ⟨rfl, more, rfl, rfl⟩ := sign_in_line Ascii.slash Ascii.slash (by decide) hsign
      exact runsOn_line more
    · obtain ⟨rfl, more, rfl, rfl⟩ := sign_in_line Ascii.slash Ascii.star (by decide) hsign
      exact (runsOn_block more).trans (h'.inBlock s hs (lt_size_of_grow "/*" hsize))
  -- a clause that leaves the line does not end with a specifier in it; a block comment goes on, or
  -- ends with its two bytes
  refine ⟨hitems, fun r hr hsize => ?_, fun r hr hsize => ?_⟩
  · rcases clause_cases hr with hr | hr
    · exact absurd (size_of_source hfresh hr) (Nat.not_le.mpr hsize)
    · exact hitems r hr hsize
  · rcases inBlock_cases hr with ⟨after, s, hsign, hs, rfl⟩ | ⟨s, hs, rfl⟩
    · obtain ⟨rfl, more, rfl, rfl⟩ := sign_in_line Ascii.star Ascii.slash (by decide) hsign
      exact runsOn_blockEnd (h'.clause s hs (lt_size_of_grow "*/" hsize))
    · exact runsOn_inBlock_cons (h.inBlock s hs (lt_size_of_grow [b] hsize))

/-- Whether a line runs on into the text below can be read off the line. -/
private theorem runsBeyond (hfresh : Fresh below)
    (hcloses : ∀ r, (ofText (Ascii.newline :: below)).inBlock = some r → closes = true)
    (line : Text) : RunsBeyond closes below line := by
  -- for two places at once, since a comment sign takes two bytes
  have hboth : RunsBeyond closes below line ∧ RunsBeyond closes below line.tail := by
    induction line with
    | nil => exact ⟨runsBeyond_nil hcloses, runsBeyond_nil hcloses⟩
    | cons b line ih => exact ⟨runsBeyond_cons hfresh ih.1 ih.2, ih.1⟩
  exact hboth.1

/-- A clause that is read beyond the line, after white space, runs on in the line. -/
theorem runsOn_of_spaced (hfresh : Fresh below)
    (hcloses : ∀ r, (ofText (Ascii.newline :: below)).inBlock = some r → closes = true)
    {line : Text} {r : Reading}
    (h : (ofText (line ++ Ascii.newline :: below)).spaced = some r)
    (hsize : line.length < r.size) :
    line.head?.all isBlank = true ∧ runsOn closes false line = true := by
  induction line generalizing r with
  | nil => exact ⟨rfl, rfl⟩
  | cons b line ih =>
    obtain ⟨hb, s, -, hsize', hs⟩ := spaced_cases h
    have hmore : line.length < s.size := by
      rw [hsize', List.length_cons] at hsize
      omega
    refine ⟨by simpa using hb, ?_⟩
    rw [runsOn_cons (isClauseByte_of_isBlank hb)]
    rcases hs with hs | hs | hs
    · exact (ih hs hmore).2
    · exact absurd (size_of_source hfresh hs) (Nat.not_le.mpr hmore)
    · exact (runsBeyond hfresh hcloses line).items s hs hmore

end Line

end Outlook

/-! ## Matches that stay in the line -/

/-- An import runs on if it has white space behind its keyword and then runs on. -/
theorem beginsImport_append (closes : Bool) (line : Text) :
    beginsImport closes (Text.ofString "import" ++ line) =
      (line.head?.all isBlank && runsOn closes false line) := by
  rw [beginsImport, Text.dropPrefix?_eq_some_iff.mpr rfl]

/-- A match that begins in the line ends in it, unless an `import` of the line runs on. -/
theorem confined_of_not_opensImport {closes inWord : Bool} {below line : Text}
    (hfresh : Outlook.Fresh below)
    (hcloses : ∀ r, (Outlook.ofText (Ascii.newline :: below)).inBlock = some r → closes = true)
    (h : opensImport closes inWord line = false) :
    Confined importAt? inWord line (Ascii.newline :: below) := by
  rintro before after ⟨clause, specifier⟩ size hsplit - hword hmatch
  -- the word `import` and, up to the end of the line, its clause
  obtain ⟨rest, htext, -⟩ := importAt?_sound hmatch
  obtain ⟨more, rfl, rfl⟩ := lead_of_class
    (beq_of_not_mem (a := Ascii.newline) (by decide)) (beq_self_eq_true _) htext.symm
  rw [htext, importAt?_append] at hmatch
  obtain ⟨r, hr, heq⟩ := Option.map_eq_some_iff.mp hmatch
  obtain rfl : r.size + 6 = size := (Prod.mk.inj heq).2
  refine Nat.not_lt.mp fun hsize => ?_
  have hmore : more.length < r.size := by
    rw [List.length_append, show (Text.ofString "import").length = 6 from rfl] at hsize
    omega
  obtain ⟨hblank, hruns⟩ := Outlook.runsOn_of_spaced hfresh hcloses hr hmore
  have hbegins : beginsImport closes (Text.ofString "import" ++ more) = true := by
    rw [beginsImport_append, hblank, hruns]
    rfl
  have hopens : opensImport closes inWord line = true :=
    opensImport_iff.mpr ⟨before, _, hsplit, hword, hbegins⟩
  rw [h] at hopens
  cases hopens

/-! ## Matches that leave the line -/

namespace Outlook

section Forward

variable {b : UInt8} {rest : Text}

/-- A clause with items can be read. -/
theorem clause_ne_none_of_items {text : Text} (h : (ofText text).items ≠ none) :
    (ofText text).clause ≠ none := by
  cases text with
  | nil => exact h
  | cons b rest =>
    intro hnone
    rw [clause_eq] at hnone
    cases hsource : (ofText (b :: rest)).source with
    | none =>
      rw [hsource] at hnone
      exact h hnone
    | some r =>
      rw [hsource] at hnone
      cases hnone

/-- A clause that does not end here has items. -/
theorem items_ne_none_of_clause {text : Text} (hsource : (ofText text).source = none)
    (h : (ofText text).clause ≠ none) : (ofText text).items ≠ none := by
  obtain ⟨r, hr⟩ := Option.ne_none_iff_exists'.mp h
  cases text with
  | nil => exact h
  | cons b rest =>
    rcases clause_cases hr with hr | hr
    · rw [hsource] at hr
      cases hr
    · rw [hr]
      exact Option.some_ne_none r

/-- A byte of a clause may be put in front of a clause. -/
theorem items_ne_none_of_isClauseByte (hb : isClauseByte b = true)
    (h : (ofText rest).clause ≠ none) : (ofText (b :: rest)).items ≠ none := by
  rw [items_of_isClauseByte hb]
  simpa using h

private theorem isClauseByte_slash : isClauseByte Ascii.slash = false := by decide

/-- A line comment may be put in front of a clause. -/
theorem items_ne_none_of_line (h : (ofText rest).inLine ≠ none) :
    (ofText (Ascii.slash :: Ascii.slash :: rest)).items ≠ none := by
  simpa [ofText_cons Ascii.slash (Ascii.slash :: rest), extend, isClauseByte_slash] using h

/-- A block comment may be put in front of a clause. -/
theorem items_ne_none_of_block (h : (ofText rest).inBlock ≠ none) :
    (ofText (Ascii.slash :: Ascii.star :: rest)).items ≠ none := by
  have hstar : Ascii.star ≠ Ascii.slash := by decide
  simpa [ofText_cons Ascii.slash (Ascii.star :: rest), extend, isClauseByte_slash, hstar] using h

/-- A block comment may end in front of a clause. -/
theorem inBlock_ne_none_of_end (h : (ofText rest).clause ≠ none) :
    (ofText (Ascii.star :: Ascii.slash :: rest)).inBlock ≠ none := by
  obtain ⟨r, hr⟩ := Option.ne_none_iff_exists'.mp h
  simp [ofText_cons Ascii.star (Ascii.slash :: rest), extend, hr]

/-- A block comment may begin earlier. -/
theorem inBlock_ne_none_cons (h : (ofText rest).inBlock ≠ none) :
    (ofText (b :: rest)).inBlock ≠ none := by
  obtain ⟨r, hr⟩ := Option.ne_none_iff_exists'.mp h
  simp [ofText_cons, extend, hr]

/-- White space may be put in front of white space and of the items of a clause. -/
theorem spaced_ne_none (hb : isBlank b = true)
    (h : if rest.head?.any isBlank then (ofText rest).spaced ≠ none
      else (ofText rest).items ≠ none) : (ofText (b :: rest)).spaced ≠ none := by
  rw [ofText_cons]
  simp only [extend, hb, ahead_ofText, if_true]
  split at h
  · rename_i hblank
    obtain ⟨r, hr⟩ := Option.ne_none_iff_exists'.mp h
    simp [hblank, hr]
  · rename_i hink
    simpa [hink] using h

end Forward

section Swallow

variable {below : Text}

/-- A clause that runs on in the line is read, if there is one in the lines below. -/
theorem reading_of_runsOn (hbelow : (ofText below).clause ≠ none) {line : Text}
    (hline : Ascii.newline ∉ line) {inBlock : Bool} (h : runsOn false inBlock line = true) :
    if inBlock then (ofText (line ++ Ascii.newline :: below)).inBlock ≠ none
    else (ofText (line ++ Ascii.newline :: below)).clause ≠ none := by
  have hend : (ofText (Ascii.newline :: below)).clause ≠ none :=
    clause_ne_none_of_items (items_ne_none_of_isClauseByte (by decide) hbelow)
  fun_induction runsOn false inBlock line with
  | case1 => exact hend
  | case2 => cases h
  | case3 b => exact clause_ne_none_of_items (items_ne_none_of_isClauseByte h hend)
  | case4 => cases h
  | case5 b c rest hb ih =>
    refine clause_ne_none_of_items (items_ne_none_of_isClauseByte hb (ih ?_ h))
    exact fun hmem => hline (List.mem_cons_of_mem _ hmem)
  | case6 b c rest hb ih =>
    have hrest : Ascii.newline ∉ rest := fun hmem =>
      hline (List.mem_cons_of_mem _ (List.mem_cons_of_mem _ hmem))
    simp only [Bool.and_eq_true, Bool.or_eq_true, decide_eq_true_eq] at h
    obtain ⟨rfl, rfl | ⟨rfl, hruns⟩⟩ := h
    · -- a line comment goes on to the end of the line
      obtain ⟨r, hr⟩ := Option.ne_none_iff_exists'.mp hbelow
      refine clause_ne_none_of_items (items_ne_none_of_line ?_)
      exact Option.ne_none_iff_exists'.mpr ⟨_, inLine_append hrest hr⟩
    · exact clause_ne_none_of_items (items_ne_none_of_block (ih hrest hruns))
  | case7 b c rest ih ih' =>
    have htail : Ascii.newline ∉ c :: rest := fun hmem => hline (List.mem_cons_of_mem _ hmem)
    rw [Bool.or_eq_true] at h
    rcases h with h | h
    · simp only [Bool.and_eq_true, decide_eq_true_eq] at h
      obtain ⟨⟨rfl, rfl⟩, hruns⟩ := h
      exact inBlock_ne_none_of_end (ih (fun hmem => htail (List.mem_cons_of_mem _ hmem)) hruns)
    · exact inBlock_ne_none_cons (ih' htail h)

/-- There is no source in a line without quotes. -/
private theorem source_of_unquoted (hfresh : Fresh below) {line : Text} (hline : Unquoted line) :
    (ofText (line ++ Ascii.newline :: below)).source = none := by
  refine Option.eq_none_iff_forall_ne_some.mpr fun r hr => ?_
  have hsize := size_of_source hfresh hr
  obtain ⟨front, inner, l, rest, htext, -, hlength⟩ := (sound _).source r hr
  -- the source lies in the line, with its closing quote
  have hfront : front ++ (Text.ofString "from" ++ (inner.text ++ l.opening :: (l.specifier ++
      [l.closing]))) <+: line := by
    refine List.prefix_of_prefix_length_le ⟨rest, ?_⟩ ⟨Ascii.newline :: below, rfl⟩
      (hlength ▸ hsize)
    rw [htext]
    simp
  have hquote := hline l.closing (hfront.subset (by simp))
  rw [l.closing_isQuote] at hquote
  cases hquote

/-- In a line without quotes, a clause that runs on begins with an item. -/
private theorem items_of_unquoted (hfresh : Fresh below)
    (hbelow : (ofText below).clause ≠ none) {line : Text} (hline : Ascii.newline ∉ line)
    (hunquoted : Unquoted line) (h : runsOn false false line = true) :
    (ofText (line ++ Ascii.newline :: below)).items ≠ none :=
  items_ne_none_of_clause (source_of_unquoted hfresh hunquoted) (reading_of_runsOn hbelow hline h)

/-- A clause that runs on in a line without quotes is read beyond the line. -/
theorem spaced_of_runsOn (hfresh : Fresh below)
    (hbelow : (ofText below).clause ≠ none) {line : Text} (hline : Ascii.newline ∉ line)
    (hunquoted : Unquoted line) (hblank : line.head?.all isBlank = true)
    (h : runsOn false false line = true) :
    (ofText (line ++ Ascii.newline :: below)).spaced ≠ none := by
  -- by induction on the blanks at the front of the line
  induction line with
  | nil =>
    refine spaced_ne_none (by decide) ?_
    have hitems := items_ne_none_of_clause (source_of_fresh hfresh) hbelow
    obtain ⟨first, below, rfl, hink, -⟩ := hfresh
    rwa [if_neg (by simp [hink])]
  | cons b line ih =>
    have hb : isBlank b = true := by simpa using hblank
    have hline' : Ascii.newline ∉ line := fun hmem => hline (List.mem_cons_of_mem _ hmem)
    have hunquoted' : Unquoted line := (unquoted_cons.mp hunquoted).2
    rw [runsOn_cons (isClauseByte_of_isBlank hb)] at h
    refine spaced_ne_none hb ?_
    split
    · rename_i hhead
      refine ih hline' hunquoted' ?_ h
      cases line with
      | nil => rfl
      | cons c line => exact hhead
    · exact items_of_unquoted hfresh hbelow hline' hunquoted' h

end Swallow

end Outlook

/-- An `import` that runs on in a comment without quotes is matched, beyond the comment. -/
theorem importAt?_of_beginsImport {below line : Text} (hfresh : Outlook.Fresh below)
    (hbelow : (Outlook.ofText below).clause ≠ none) (hline : Ascii.newline ∉ line)
    (hunquoted : Unquoted line) (h : beginsImport false line = true) :
    importAt? (line ++ Ascii.newline :: below) ≠ none := by
  rw [beginsImport] at h
  split at h
  · rename_i rest hrest
    obtain rfl := Text.dropPrefix?_eq_some_iff.mp hrest
    obtain ⟨hblank, hruns⟩ := Bool.and_eq_true_iff.mp h
    have hspaced := Outlook.spaced_of_runsOn hfresh hbelow
      (fun hmem => hline (List.mem_append_right _ hmem)) (unquoted_append.mp hunquoted).2 hblank
      hruns
    rw [List.append_assoc, importAt?_append]
    simpa using hspaced
  · cases h

end DependencyAudit.Import
