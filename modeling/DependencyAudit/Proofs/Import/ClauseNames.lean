import DependencyAudit.Proofs.Import.ImportClause
import Mathlib.Data.List.Basic

/-!
# The names that an import clause binds

An element is read as one name, which depends on its words and on whether it comes behind the
`type` of the clause. So a clause is read as it is meant if this holds of each of its elements.

## Main definitions

* `Leads`: a text in front of an element.

## Main results

* `exists_elementName`: the name that an element is read as;
* `elementNames_body`: the names of what stands behind an optional `type`;
* `clauseNames_eq_names_iff`: the clauses that are read as they are meant.
-/

namespace DependencyAudit.Import

/-! ## Words -/

/-- The words in front of the first element of a clause. -/
def leadWords (behindType : Bool) : List Text :=
  if behindType then [typeName.text] else []

/-- A name is no star. -/
theorem Name.ne_star (n : Name) : n.text ≠ Text.ofString "*" := fun h =>
  absurd (n.nameByte Ascii.star (by simp [h, show Text.ofString "*" = [Ascii.star] from rfl]))
    (by decide)

/-- `type` is a modifier in front of another word. -/
theorem dropTypeModifier_cons (word : Text) (more : List Text) :
    dropTypeModifier (typeName.text :: word :: more) = word :: more := by
  simp [dropTypeModifier, typeName]

/-- A name that stands alone is found. -/
theorem elementName?_name (behindType : Bool) (n : Name) :
    elementName? (leadWords behindType ++ [n.text]) = some n.text := by
  cases behindType with
  | false => simp [leadWords, elementName?, dropTypeModifier, aliasName?, n.ne_star]
  | true =>
    rw [leadWords, if_pos rfl, List.singleton_append, elementName?, dropTypeModifier_cons]
    simp [aliasName?, n.ne_star]

/-- The name behind `as` is found when a word stands in front of the `as`. -/
theorem elementName?_alias (front : List Text) {ws : List Text} {word localName : Text}
    (h : dropTypeModifier ws = front ++ [word, asName.text, localName]) :
    elementName? ws = some localName := by
  rw [elementName?, h]
  simp [aliasName?, asName]

/-- A star with a name is read as this name. -/
theorem elementName?_star (behindType : Bool) (n : Name) :
    elementName? (leadWords behindType ++ [[Ascii.star], asName.text, n.text]) = some n.text := by
  apply elementName?_alias []
  cases behindType with
  | false => rfl
  | true => exact dropTypeModifier_cons _ _

/-- An element without a new name is read as its first word behind the modifier. -/
theorem exists_elementName_plain (behindType : Bool) (e : ImportElement) (h : e.newName = none) :
    ∃ name, elementName? (leadWords behindType ++ e.words) = some name ∧
      (name = e.name.text ↔ e.isReadable behindType = true) := by
  obtain ⟨before, modifier, n, newName, after⟩ := e
  obtain rfl : newName = none := h
  cases modifier with
  | none =>
    refine ⟨n.text, elementName?_name behindType n, ?_⟩
    cases behindType <;> simp [ImportElement.isReadable]
  | some d =>
    cases behindType with
    | false => exact ⟨n.text, elementName?_name true n, by simp [ImportElement.isReadable]⟩
    | true =>
      -- only the first `type` is dropped, and the second one is taken for the name
      refine ⟨typeName.text, rfl, ?_⟩
      show _ ↔ (n.text == typeName.text) = true
      rw [beq_iff_eq, eq_comm]

/-- A renamed element has a name that is read, and it is the local one exactly if the element is
readable. -/
theorem exists_elementName_renamed (behindType : Bool) (e : ImportElement) {a : Alias}
    (h : e.newName = some a) :
    ∃ name, elementName? (leadWords behindType ++ e.words) = some name ∧
      (name = a.localName.text ↔ e.isReadable behindType = true) := by
  obtain ⟨before, modifier, n, newName, after⟩ := e
  obtain rfl : newName = some a := h
  cases modifier with
  | some d =>
    refine ⟨a.localName.text, ?_, ?_⟩
    · cases behindType with
      | false => exact elementName?_alias [] (dropTypeModifier_cons _ _)
      | true => exact elementName?_alias [typeName.text] (dropTypeModifier_cons _ _)
    · cases behindType <;> simp [ImportElement.isReadable]
  | none =>
    cases behindType with
    | true => exact ⟨a.localName.text, elementName?_alias [] (dropTypeModifier_cons _ _),
        by simp [ImportElement.isReadable]⟩
    | false =>
      by_cases htype : n.text = typeName.text
      · -- the `as` is left as the first word
        refine ⟨asName.text, ?_, ?_⟩
        · simp only [leadWords, ImportElement.words, htype]
          rfl
        · simp only [ImportElement.isReadable, htype, bne_self_eq_false, Bool.false_or, beq_iff_eq]
          exact eq_comm
      · refine ⟨a.localName.text, elementName?_alias [] (if_neg htype), ?_⟩
        simp [ImportElement.isReadable, htype]

/-- An element is read as one name, and as the name that it binds if it is readable. -/
theorem exists_elementName (behindType : Bool) (e : ImportElement) :
    ∃ name, elementName? (leadWords behindType ++ e.words) = some name ∧
      (name = e.binds ↔ e.isReadable behindType = true) := by
  cases hname : e.newName with
  | none => simpa [ImportElement.binds, hname] using exists_elementName_plain behindType e hname
  | some a => simpa [ImportElement.binds, hname] using exists_elementName_renamed behindType e hname

/-- An element is read as what it binds exactly if it is readable. -/
theorem readElement?_element_iff (e : ImportElement) :
    readElement? (Token.bares e.tokens) = some e.binds ↔ e.isReadable false = true := by
  obtain ⟨name, hname, hreadable⟩ := exists_elementName false e
  have hread : elementName? e.words = some name := hname
  rw [readElement?, e.words_bares, hread, Option.some_inj]
  exact hreadable

/-! ## Elements and groups -/

/-- A text that puts its words in front of the words behind it. -/
structure Leads (lead : Text) (behindType : Bool) : Prop where
  /-- Its words are the leading ones, whatever follows. -/
  words_append : ∀ rest, words (lead ++ rest) = leadWords behindType ++ words rest
  /-- It does not end an element. -/
  comma_not_mem : Ascii.comma ∉ lead

/-- There is no comma in front of the elements. -/
theorem comma_not_mem_leadTokens (modifier : Option (List Filler)) :
    Token.comma ∉ leadTokens modifier := by
  simp [leadTokens, comma_not_mem_fill]

/-- The tokens of a modifier are words in front of a group. -/
theorem leads_leadTokens {modifier : Option (List Filler)} (h : modifier ≠ some []) :
    Leads (Token.bares (leadTokens modifier)) modifier.isSome where
  words_append := by
    intro rest
    cases modifier with
    | none => rfl
    | some fillers =>
      have hne : fillers ≠ [] := fun hnil => h (congrArg some hnil)
      have hwords := words_name_fill typeName hne rest
      simpa [leadTokens, leadWords, Token.bare, Token.text] using hwords
  comma_not_mem := comma_not_mem_bares (comma_not_mem_leadTokens modifier)

/-- With a brace behind it, a leading `type` needs no white space. -/
theorem leads_openBrace (modifier : Option (List Filler)) :
    Leads (Token.bares (leadTokens modifier) ++ [Ascii.openBrace]) modifier.isSome where
  words_append := by
    intro rest
    have hbrace : IsVoid [Ascii.openBrace] := isVoid_brace rfl
    cases modifier with
    | none => exact words_void_append hbrace rest
    | some fillers =>
      have hwords := words_append typeName.isWord ((isVoid_fill fillers).append hbrace)
        (List.append_ne_nil_of_right_ne_nil _ (List.cons_ne_nil _ _)) rest
      simpa [leadTokens, leadWords, Token.bare, Token.text] using hwords
  comma_not_mem := by
    have hlead := comma_not_mem_bares (comma_not_mem_leadTokens modifier)
    have hbrace : Ascii.comma ≠ Ascii.openBrace := by decide
    simp [hlead, hbrace]

/-- A listing of elements has a comma between each two of them. -/
theorem bares_write (l : Listing ImportElement) :
    Token.bares (l.write Token.comma ImportElement.tokens) =
      l.write Ascii.comma fun e => Token.bares e.tokens := by
  obtain ⟨items, last⟩ := l
  induction items with
  | nil => cases last <;> simp [Listing.write]
  | cons e items ih => simpa [Listing.write, Token.bare, Token.text] using ih

/-- From a list of names in braces all names are read exactly if the list is readable. -/
theorem elementNames_named (modifier : Option (List Filler)) (elements : Listing ImportElement)
    (inner : List Filler) :
    elementNames (Token.bares (leadTokens modifier) ++
        Token.bares (ImportGroup.named elements inner).tokens) =
          (ImportGroup.named elements inner).names ↔
      (ImportGroup.named elements inner).isReadable modifier.isSome = true := by
  have hlead := leads_openBrace modifier
  have htail : IsVoid (Token.bares (fill inner) ++ [Ascii.closeBrace]) :=
    (isVoid_fill inner).append (isVoid_brace rfl)
  have htext : Token.bares (leadTokens modifier) ++
      Token.bares (ImportGroup.named elements inner).tokens =
        (Token.bares (leadTokens modifier) ++ [Ascii.openBrace]) ++
          ((elements.write Ascii.comma fun e => Token.bares e.tokens) ++
            (Token.bares (fill inner) ++ [Ascii.closeBrace])) := by
    simp [ImportGroup.tokens, bares_write, Token.bare, Token.text]
  rw [htext, elementNames, Listing.filterMap_splitOnByte_lead elements
    (fun e => comma_not_mem_bares e.comma_not_mem) hlead.comma_not_mem htail.comma_not_mem
    (readElement?_append_void htail) rfl, ImportGroup.names, ImportGroup.isReadable]
  cases elements.toList with
  | nil =>
    -- the words of the lead are all there is, so a leading `type` stands for a name
    have hwords := hlead.words_append []
    rw [List.append_nil] at hwords
    cases modifier with
    | none => simp [readElement?, hwords, leadWords]; decide
    | some fillers => simp [readElement?, hwords, leadWords]; decide
  | cons first more =>
    obtain ⟨name, hname, hreadable⟩ := exists_elementName modifier.isSome first
    have hfirst : readElement? (Token.bares (leadTokens modifier) ++ [Ascii.openBrace] ++
        Token.bares first.tokens) = some name := by
      rw [readElement?, hlead.words_append, first.words_bares, hname]
    have hmore : more.filterMap (fun e => readElement? (Token.bares e.tokens)) =
        more.map ImportElement.binds ↔ more.all (ImportElement.isReadable false) = true := by
      rw [List.filterMap_eq_map_iff_forall_eq_some, List.all_eq_true]
      exact forall₂_congr fun e _ => readElement?_element_iff e
    simp only [hfirst, Option.toList_some, List.singleton_append, List.map_cons, List.cons.injEq,
      hreadable, hmore, Bool.and_eq_true]

/-- From a default import its name is read. -/
theorem elementNames_name {lead : Text} {behindType : Bool} (hlead : Leads lead behindType)
    (n : Name) {tail : Text} (htail : IsVoid tail) :
    elementNames (lead ++ (n.text ++ tail)) = [n.text] := by
  have hcomma : Ascii.comma ∉ lead ++ (n.text ++ tail) := by
    have hname : Ascii.comma ∉ n.text := n.not_mem (by decide)
    simp [hlead.comma_not_mem, hname, htail.comma_not_mem]
  rw [elementNames_of_not_mem hcomma, readElement?, hlead.words_append, words_append_void htail,
    words_word n.isWord, elementName?_name]
  rfl

/-- From a star import its name is read. -/
theorem elementNames_star {lead : Text} {behindType : Bool} (hlead : Leads lead behindType)
    (before after : Divider) (n : Name) :
    elementNames (lead ++ Token.bares (ImportGroup.star before after n).tokens) = [n.text] := by
  have hcomma : Token.comma ∉ (ImportGroup.star before after n).tokens := by
    simp [ImportGroup.tokens, comma_not_mem_fill]
  have htext : Token.bares (ImportGroup.star before after n).tokens =
      [Ascii.star] ++ (Token.bares (fill before.fillers) ++ (asName.text ++
        (Token.bares (fill after.fillers) ++ n.text))) := by
    simp [ImportGroup.tokens, Token.bare, Token.text]
  have hnone : Ascii.comma ∉ lead ++ Token.bares (ImportGroup.star before after n).tokens := by
    rw [List.mem_append, not_or]
    exact ⟨hlead.comma_not_mem, comma_not_mem_bares hcomma⟩
  rw [elementNames_of_not_mem hnone, readElement?, hlead.words_append, htext,
    words_append isWord_star (isVoid_fill _) (bares_fill_ne_nil before.ne_nil),
    words_name_fill _ after.ne_nil, words_word n.isWord, elementName?_star]
  rfl

/-- From a group all names are read exactly if it is readable. -/
theorem elementNames_group {modifier : Option (List Filler)} (g : ImportGroup)
    (h : modifier = some [] → (ImportBody.group g).opensBrace = true) :
    elementNames (Token.bares (leadTokens modifier) ++ Token.bares g.tokens) = g.names ↔
      g.isReadable modifier.isSome = true := by
  cases g with
  | named elements inner => exact elementNames_named modifier elements inner
  | star before after n =>
    have hlead : Leads (Token.bares (leadTokens modifier)) modifier.isSome :=
      leads_leadTokens fun hnil => absurd (h hnil) (by simp [ImportBody.opensBrace])
    rw [elementNames_star hlead]
    exact iff_of_true rfl rfl

/-- From the body of a clause all names are read exactly if it is readable. -/
theorem elementNames_body {modifier : Option (List Filler)} (body : ImportBody)
    (h : modifier = some [] → body.opensBrace = true) :
    elementNames (Token.bares (leadTokens modifier) ++ Token.bares body.tokens) = body.names ↔
      body.isReadable modifier.isSome = true := by
  cases body with
  | default n =>
    have hlead : Leads (Token.bares (leadTokens modifier)) modifier.isSome :=
      leads_leadTokens fun hnil => absurd (h hnil) (by simp [ImportBody.opensBrace])
    refine iff_of_true ?_ rfl
    simpa [ImportBody.tokens, ImportBody.names, Token.bare, Token.text] using
      elementNames_name hlead n isVoid_nil
  | group g => exact elementNames_group g h
  | both n before after g =>
    have hlead : Leads (Token.bares (leadTokens modifier)) modifier.isSome :=
      leads_leadTokens fun hnil => absurd (h hnil) (by simp [ImportBody.opensBrace])
    -- the comma ends the element of the default name, so the group is read by itself
    have hgroup : elementNames (Token.bares g.tokens) = g.names ↔ g.isReadable false = true :=
      @elementNames_group none g (by simp)
    have htext : Token.bares (leadTokens modifier) ++
        Token.bares (ImportBody.both n before after g).tokens =
          (Token.bares (leadTokens modifier) ++ (n.text ++ Token.bares (fill before))) ++
            Ascii.comma :: (Token.bares (fill after) ++ Token.bares g.tokens) := by
      simp [ImportBody.tokens, Token.bare, Token.text]
    rw [htext, elementNames_comma, elementNames_name hlead n (isVoid_fill before),
      elementNames_void_append (isVoid_fill after)]
    simpa [ImportBody.names, ImportBody.isReadable] using hgroup

/-- A clause is read as it is meant if it has none of the three forms that are misread. -/
theorem clauseNames_eq_names_iff (c : ImportClause) :
    clauseNames c.text = c.names ↔ c.isReadable = true := by
  have htext : Token.bares c.tokens = Token.bares (fill c.before) ++
      ((Token.bares (leadTokens c.modifier) ++ Token.bares c.body.tokens) ++
        Token.bares (fill c.after)) := by
    simp [ImportClause.tokens]
  rw [clauseNames_eq, ImportClause.text, (strips_tokens c.tokens).stripComments, htext,
    elementNames_void_append (isVoid_fill _), elementNames_append_void (isVoid_fill _)]
  exact elementNames_body c.body c.separated

end DependencyAudit.Import
