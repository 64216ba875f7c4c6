import DependencyAudit.Proofs.Json.Members

/-!
# What parsing a manifest takes note of

A manifest is parsed in one pass over the members of its object. The pass succeeds exactly when
every section is an object, and its result is a fold over the members: the name of the last
`name` member that is a string, and the entries of the last section with each key.

## Main definitions

* `Manifest.sectionMembers`: the members of the section that counts;
* `Manifest.note`: what one member adds to a manifest;
* `Manifest.IsIndent`: what a line may be indented with.

## Main results

* `parse_eq_ok_iff`: when parsing succeeds, and with what;
* `foldl_note`: the fields of the result;
* `isIndent_indentOf`: the indentation that is taken from a text.
-/

namespace DependencyAudit.Manifest

open JsonLexeme (IsBlankText)

/-- The name of the project after one more member. -/
def nameAfter (name : Text) (member : JsonMember) : Text :=
  if member.key = Text.ofString "name" then
    match member.value with
    | .string body => JsonString.decode body
    | _ => name
  else name

/-- The members of a section, none if it is no object. -/
def membersOf (member : JsonMember) : List JsonMember :=
  (JsonMember.ofLexemes member.lexemes).toOption.getD []

/-- The members of a section are those that are read of it. -/
theorem membersOf_of_ok {member : JsonMember} {entries : List JsonMember}
    (h : JsonMember.ofLexemes member.lexemes = .ok entries) : membersOf member = entries := by
  rw [membersOf, h]
  rfl

/-- The members of the section with the given key after one more member. -/
def sectionAfter (key : Text) (found : List JsonMember) (member : JsonMember) :
    List JsonMember :=
  if member.key = key then membersOf member else found

/-- The members of the section with the given key; of several such sections the last counts. -/
def sectionMembers (key : Text) (members : List JsonMember) : List JsonMember :=
  members.foldl (sectionAfter key) []

/-- The entries of the section with the given key after one more member. -/
def entriesAfter (key : Text) (entries : List ManifestEntry) (member : JsonMember) :
    List ManifestEntry :=
  if member.key = key then (membersOf member).map entryOf else entries

/-- What one more member adds to a manifest. -/
def note (m : Manifest) (member : JsonMember) : Manifest :=
  { m with
    name := nameAfter m.name member
    dependencies := entriesAfter dependenciesKey m.dependencies member
    devDependencies := entriesAfter devDependenciesKey m.devDependencies member }

/-- The member is an object if it is a section. -/
def SectionOk (member : JsonMember) : Prop :=
  isSection member.key = true → ∃ entries, JsonMember.ofLexemes member.lexemes = .ok entries

/-- There are two sections. -/
theorem isSection_iff {key : Text} :
    isSection key = true ↔ key = dependenciesKey ∨ key = devDependenciesKey := by
  simp [isSection]

/-! ## One member -/

/-- The entries of a section are those of its members. -/
private theorem entriesOf_of_ok {lexemes : List JsonLexeme} {entries : List JsonMember}
    (h : JsonMember.ofLexemes lexemes = .ok entries) :
    entriesOf lexemes = .ok (entries.map entryOf) := by
  rw [entriesOf, h]
  rfl

/-- What has entries has members. -/
private theorem entriesOf_sound {lexemes : List JsonLexeme} {entries : List ManifestEntry}
    (h : entriesOf lexemes = .ok entries) : ∃ es, JsonMember.ofLexemes lexemes = .ok es := by
  cases hread : JsonMember.ofLexemes lexemes with
  | error p =>
    -- the fault would have been passed on
    rw [entriesOf, hread] at h
    exact absurd h (by simp [bind, Except.bind])
  | ok es => exact ⟨es, rfl⟩

/-- A member that is taken in is no section, or an object. -/
private theorem addMember_sound {m m' : Manifest} {member : JsonMember}
    (h : addMember m member = .ok m') : SectionOk member := by
  intro hsection
  unfold addMember at h
  -- by the key: the name of the project is no section
  split at h
  · rename_i hkey
    rw [hkey] at hsection
    exact absurd hsection (by decide)
  split at h
  · split at h
    · rename_i hentries
      exact entriesOf_sound hentries
    · exact absurd h (by simp)
  split at h
  · split at h
    · rename_i hentries
      exact entriesOf_sound hentries
    · exact absurd h (by simp)
  · rename_i hdependencies hdevDependencies
    rcases isSection_iff.mp hsection with hkey | hkey
    · exact absurd hkey hdependencies
    · exact absurd hkey hdevDependencies

/-- A member that is no section, or an object, is taken in. -/
private theorem addMember_of_sectionOk (m : Manifest) {member : JsonMember}
    (h : SectionOk member) : addMember m member = .ok (m.note member) := by
  -- the three keys differ, so at most one of the fields changes
  have hname : Text.ofString "name" ≠ dependenciesKey ∧
      Text.ofString "name" ≠ devDependenciesKey := by decide
  have hkeys : dependenciesKey ≠ devDependenciesKey := by decide
  unfold addMember note nameAfter entriesAfter
  split
  · rename_i hkey
    rw [hkey, if_neg hname.1, if_neg hname.2]
    generalize member.value = value
    cases value <;> rfl
  split
  · rename_i hkey
    obtain ⟨entries, hread⟩ := h (isSection_iff.mpr (Or.inl hkey))
    rw [entriesOf_of_ok hread, hkey, if_neg hkeys, membersOf_of_ok hread]
  split
  · rename_i hkey
    obtain ⟨entries, hread⟩ := h (isSection_iff.mpr (Or.inr hkey))
    rw [entriesOf_of_ok hread, membersOf_of_ok hread]
  · rfl

/-- A member is taken note of exactly if it is no section or an object. -/
theorem addMember_eq_ok_iff {m m' : Manifest} {member : JsonMember} :
    addMember m member = .ok m' ↔ SectionOk member ∧ m' = m.note member := by
  constructor
  · intro h
    have hok := addMember_sound h
    rw [addMember_of_sectionOk m hok] at h
    exact ⟨hok, (Except.ok.inj h).symm⟩
  · rintro ⟨hok, rfl⟩
    exact addMember_of_sectionOk m hok

/-! ## All members -/

/-- All members are taken in if and only if the sections among them are objects. -/
private theorem foldlM_addMember_eq_ok_iff {m m' : Manifest} {members : List JsonMember} :
    members.foldlM addMember m = .ok m' ↔
      (∀ member ∈ members, SectionOk member) ∧ m' = members.foldl note m := by
  induction members generalizing m with
  | nil => simp [pure, Except.pure, eq_comm]
  | cons member more ih =>
    rw [List.foldlM_cons, List.forall_mem_cons, List.foldl_cons]
    cases hadd : addMember m member with
    | error f =>
      -- the first member that is not accepted ends the pass
      have hnot : ¬ SectionOk member := fun hok => by
        rw [addMember_of_sectionOk m hok] at hadd
        exact absurd hadd (by simp)
      simp [bind, Except.bind, hnot]
    | ok next =>
      obtain ⟨hok, rfl⟩ := addMember_eq_ok_iff.mp hadd
      change more.foldlM addMember (m.note member) = .ok m' ↔ _
      rw [ih]
      simp [hok]

/-- A manifest before any of its members was taken note of. -/
def blank (members : List JsonMember) (indent : Text) : Manifest :=
  ⟨[], [], [], members, indent⟩

/-- A text is a manifest exactly if it is an object whose sections are objects. -/
theorem parse_eq_ok_iff {text : Text} {m : Manifest} :
    parse text = .ok m ↔ ∃ members, JsonMember.ofText text = .ok members ∧
      (∀ member ∈ members, SectionOk member) ∧
      m = members.foldl note (blank members (indentOf text)) := by
  unfold parse
  cases hread : JsonMember.ofText text with
  | error p => simp
  | ok members => simp [foldlM_addMember_eq_ok_iff, blank]

/-! ## The fields of the result -/

/-- The entries of a section follow its members. -/
private theorem map_sectionAfter (key : Text) (found : List JsonMember) (member : JsonMember) :
    (sectionAfter key found member).map entryOf =
      entriesAfter key (found.map entryOf) member := by
  unfold sectionAfter entriesAfter
  split <;> rfl

/-- The entries of a section in the end are those of its last member. -/
private theorem foldl_entriesAfter (key : Text) (found members : List JsonMember) :
    members.foldl (entriesAfter key) (found.map entryOf) =
      (members.foldl (sectionAfter key) found).map entryOf := by
  induction members generalizing found with
  | nil => rfl
  | cons member more ih => rw [List.foldl_cons, List.foldl_cons, ← map_sectionAfter, ih]

/-- The fields of a manifest after all members. -/
theorem foldl_note (m : Manifest) (members : List JsonMember) :
    members.foldl note m =
      ⟨members.foldl nameAfter m.name, members.foldl (entriesAfter dependenciesKey) m.dependencies,
        members.foldl (entriesAfter devDependenciesKey) m.devDependencies, m.members,
        m.indent⟩ := by
  induction members generalizing m with
  | nil => rfl
  | cons member more ih => rw [List.foldl_cons, ih]; rfl

/-- The manifest that some members describe. -/
theorem foldl_note_blank (members : List JsonMember) (indent : Text) :
    members.foldl note (blank members indent) =
      ⟨members.foldl nameAfter [], (sectionMembers dependenciesKey members).map entryOf,
        (sectionMembers devDependenciesKey members).map entryOf, members, indent⟩ := by
  have hentries (key : Text) := foldl_entriesAfter key [] members
  rw [foldl_note]
  exact congrArg₂ (fun dependencies devDependencies =>
    (⟨members.foldl nameAfter [], dependencies, devDependencies, members, indent⟩ : Manifest))
    (hentries dependenciesKey) (hentries devDependenciesKey)

/-! ## Indentation -/

/-- White space that indents a line by one level. -/
structure IsIndent (indent : Text) : Prop where
  /-- There is some indent. -/
  ne_nil : indent ≠ []
  /-- An indent consists of spaces and tabs. -/
  blank : ∀ b ∈ indent, b = Ascii.space ∨ b = Ascii.tab

theorem isIndent_spaces : IsIndent (Text.ofString "  ") := by
  refine ⟨by decide, ?_⟩
  change ∀ b ∈ [Ascii.space, Ascii.space], _
  simp

/-- Whatever the text, lines are indented. -/
theorem isIndent_indentOf (text : Text) : IsIndent (indentOf text) := by
  unfold indentOf
  split
  · exact isIndent_spaces
  · dsimp only
    split
    · exact isIndent_spaces
    · rename_i hsome
      refine ⟨by simpa using hsome, fun b hb => ?_⟩
      have hblank := List.all_eq_true.mp List.all_takeWhile b hb
      simpa only [Bool.or_eq_true, decide_eq_true_eq] using hblank

/-- An indent is blank. -/
theorem IsIndent.isBlankText {indent : Text} (h : IsIndent indent) : IsBlankText indent := by
  intro b hb
  rcases h.blank b hb with rfl | rfl <;> decide

/-- The white space of one level is white space. -/
theorem isBlankText_indentOf (text : Text) : IsBlankText (indentOf text) :=
  (isIndent_indentOf text).isBlankText

end DependencyAudit.Manifest
