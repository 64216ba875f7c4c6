import DependencyAudit.Proofs.Manifest.Parse

/-!
# The format of manifests

A text is a manifest exactly if it is one JSON object, with white space around it, in which every
section is an object and no value is nested too deeply. Keys are compared as they are read, so a
section may be spelled with escapes, and of several members with one key each has to be in order
although only the last one counts. Every other text is refused with a fault of the manifest.

## Main definitions

* `Manifest.IsManifest`: the members of an object make it a manifest;
* `Manifest.IsManifestText`: the text is such an object;
* `Manifest.sectionNames`: the names that the last section of a kind declares.

## Main results

* `exists_element_of_ofText`, `exists_ofText_of_element`: the members of a text are those of the
  object that the grammar finds in it;
* `code_of_parse_eq_error`: every refusal is a fault of the manifest;
* `parse_accepts_exactly`: which texts are manifests, and what they declare.
-/

namespace DependencyAudit.Manifest

open JsonGrammar (Element)
open JsonMember (Reads ofLexemes ofLexemes_sound ofLexemes_complete)
open JsonValue.Reader (maxDepth)

/-- The object with these members, given by the source texts of their keys, is a manifest. -/
structure IsManifest (members : List (Text × JsonValue)) : Prop where
  /-- Each value is read on its own, so the depth is counted from there. -/
  depth : ∀ m ∈ members, m.2.depth ≤ maxDepth
  /-- Every section is an object, also one that a later section replaces. -/
  sections : ∀ m ∈ members, isSection (JsonString.decode m.1) = true →
    ∃ entries, m.2 = .object entries

/-- The text is one object of the JSON grammar, with white space around it, and a manifest. -/
def IsManifestText (text : Text) : Prop :=
  ∃ members, Element (.object members) text ∧ IsManifest members

/-- The keys of an object as they are read, in order. -/
def entryNames : JsonValue → List Text
  | .object entries => entries.map fun e => JsonString.decode e.1
  | _ => []

/-- The names that the last section with the given key declares; none if there is no such
section. -/
def sectionNames (key : Text) (members : List (Text × JsonValue)) : List Text :=
  match (members.filter fun m => JsonString.decode m.1 = key).getLast? with
  | some m => entryNames m.2
  | none => []

/-! ## The members of a text -/

/-- What is read from a text are the members of an object of the grammar. -/
theorem exists_element_of_ofText {text : Text} {members : List JsonMember}
    (h : JsonMember.ofText text = .ok members) :
    ∃ pairs, Element (.object pairs) text ∧ List.Forall₂ Reads members pairs := by
  obtain ⟨pairs, htokens, hreads, hgood⟩ := ofLexemes_sound h
  refine ⟨pairs, JsonGrammar.element_of_lex htokens ?_, hreads⟩
  -- the tokens of a text are well-formed unless they are bad, and none of them is
  intro t ht
  rw [← htokens] at ht
  obtain ⟨l, hl, rfl⟩ := List.mem_map.mp ht
  exact JsonLexeme.wellFormed_of_mem_lex hl (hgood l hl)

/-- The members of an object of the grammar are read from its text. -/
theorem exists_ofText_of_element {text : Text} {pairs : List (Text × JsonValue)}
    (h : Element (.object pairs) text) (hdepth : ∀ pair ∈ pairs, pair.2.depth ≤ maxDepth) :
    ∃ members, JsonMember.ofText text = .ok members ∧ List.Forall₂ Reads members pairs :=
  ofLexemes_complete h.map_token_lex hdepth

/-- A text is that of at most one object. -/
theorem pairs_eq_of_element {text : Text} {pairs pairs' : List (Text × JsonValue)}
    (h : Element (.object pairs) text) (h' : Element (.object pairs') text) : pairs = pairs' := by
  have htokens := h.map_token_lex.symm.trans h'.map_token_lex
  exact JsonValue.object.inj (JsonValue.tokens_injective htokens)

/-! ## Sections -/

theorem sectionOk_iff {m : JsonMember} {pair : Text × JsonValue} (h : m.Reads pair) :
    SectionOk m ↔ (isSection (JsonString.decode pair.1) = true →
      ∃ entries, pair.2 = .object entries) := by
  rw [SectionOk, h.key, h.ofLexemes_eq_ok_iff]

/-- What was read from an object is a manifest exactly if each of its sections is in order. -/
theorem isManifest_iff {members : List JsonMember} {pairs : List (Text × JsonValue)}
    (h : List.Forall₂ Reads members pairs) :
    IsManifest pairs ↔ ∀ m ∈ members, SectionOk m := by
  constructor
  · rintro ⟨-, hsections⟩
    induction h with
    | nil => simp
    | cons hread _ ih =>
      rw [List.forall_mem_cons] at hsections ⊢
      exact ⟨(sectionOk_iff hread).mpr hsections.1, ih hsections.2⟩
  · intro hsections
    induction h with
    | nil => exact ⟨by simp, by simp⟩
    | cons hread _ ih =>
      rw [List.forall_mem_cons] at hsections
      obtain ⟨hdepth, hmore⟩ := ih hsections.2
      exact ⟨List.forall_mem_cons.mpr ⟨hread.depth, hdepth⟩,
        List.forall_mem_cons.mpr ⟨(sectionOk_iff hread).mp hsections.1, hmore⟩⟩

private theorem map_key_of_reads {members : List JsonMember} {pairs : List (Text × JsonValue)}
    (h : List.Forall₂ Reads members pairs) :
    members.map (·.key) = pairs.map fun pair => JsonString.decode pair.1 := by
  induction h with
  | nil => rfl
  | cons hread _ ih => rw [List.map_cons, List.map_cons, hread.key, ih]

/-- The names in a section are the keys of its object. -/
theorem map_key_membersOf {m : JsonMember} {pair : Text × JsonValue} (h : m.Reads pair) :
    (membersOf m).map (·.key) = entryNames pair.2 := by
  obtain ⟨body, value⟩ := pair
  cases hread : ofLexemes m.lexemes with
  | ok members =>
    obtain ⟨pairs, rfl⟩ := h.ofLexemes_eq_ok_iff.mp ⟨members, hread⟩
    obtain ⟨members', hread', hreads⟩ := h.exists_members
    obtain rfl : members' = members := Except.ok.inj (hread'.symm.trans hread)
    rw [membersOf_of_ok hread, map_key_of_reads hreads]
    rfl
  | error p =>
    -- without an object there are no names on either side
    have hnone : ¬ ∃ members, ofLexemes m.lexemes = .ok members := by simp [hread]
    rw [h.ofLexemes_eq_ok_iff] at hnone
    have hempty : membersOf m = [] := by simp [membersOf, hread, Except.toOption]
    rw [hempty]
    cases value with
    | object pairs => exact absurd ⟨pairs, rfl⟩ hnone
    | _ => rfl

/-- The section that counts is the last one of its kind. -/
theorem map_key_sectionMembers (key : Text) {members : List JsonMember}
    {pairs : List (Text × JsonValue)} (h : List.Forall₂ Reads members pairs) :
    (sectionMembers key members).map (·.key) = sectionNames key pairs := by
  unfold sectionMembers sectionNames
  -- as long as no section has turned up, the names are those found before
  suffices hall : ∀ found : List JsonMember,
      (members.foldl (sectionAfter key) found).map (·.key) =
        match (pairs.filter fun m => JsonString.decode m.1 = key).getLast? with
        | some m => entryNames m.2
        | none => found.map (·.key) from hall []
  induction h with
  | nil => exact fun _ => rfl
  | @cons m pair _ pairs hread _ ih =>
    intro found
    rw [List.foldl_cons, ih]
    unfold sectionAfter
    rw [hread.key]
    by_cases hkey : JsonString.decode pair.1 = key
    · rw [if_pos hkey, List.filter_cons_of_pos (by simpa using hkey), List.getLast?_cons]
      -- this section counts unless there is a later one
      cases (pairs.filter fun m => JsonString.decode m.1 = key).getLast? with
      | none => exact map_key_membersOf hread
      | some _ => rfl
    · rw [if_neg hkey, List.filter_cons_of_neg (by simpa using hkey)]

/-! ## Refused texts -/

private theorem code_of_addMember_eq_error {m : Manifest} {member : JsonMember} {f : Fault}
    (h : addMember m member = .error f) : f.code? = some .manifest := by
  unfold addMember at h
  split at h
  · split at h <;> exact absurd h (by simp)
  split at h
  · split at h
    · exact absurd h (by simp)
    · obtain rfl := Except.error.inj h
      rfl
  split at h
  · split at h
    · exact absurd h (by simp)
    · obtain rfl := Except.error.inj h
      rfl
  · exact absurd h (by simp)

private theorem code_of_foldlM_eq_error {m : Manifest} {members : List JsonMember} {f : Fault}
    (h : members.foldlM addMember m = .error f) : f.code? = some .manifest := by
  induction members generalizing m with
  | nil => exact absurd h (by simp [pure, Except.pure])
  | cons member more ih =>
    rw [List.foldlM_cons] at h
    cases hadd : addMember m member with
    | error p =>
      rw [hadd] at h
      obtain rfl : p = f := Except.error.inj h
      exact code_of_addMember_eq_error hadd
    | ok next =>
      rw [hadd] at h
      exact ih h

/-- What is refused is refused with a fault of the manifest. -/
theorem code_of_parse_eq_error {text : Text} {f : Fault} (h : parse text = .error f) :
    f.code? = some .manifest := by
  unfold parse at h
  split at h
  · obtain rfl := Except.error.inj h
    rfl
  · exact code_of_foldlM_eq_error h

/-! ## Manifests -/

/-- The manifest that is read from a text declares the names of its last sections. -/
theorem map_name_of_parse {text : Text} {m : Manifest} {members : List (Text × JsonValue)}
    (h : parse text = .ok m) (helement : Element (.object members) text) :
    m.dependencies.map (·.name) = sectionNames dependenciesKey members ∧
      m.devDependencies.map (·.name) = sectionNames devDependenciesKey members := by
  obtain ⟨found, hread, -, rfl⟩ := parse_eq_ok_iff.mp h
  obtain ⟨pairs, hpairs, hreads⟩ := exists_element_of_ofText hread
  obtain rfl := pairs_eq_of_element helement hpairs
  rw [foldl_note_blank]
  -- an entry has the name of its member
  have hnames (key : Text) : ((sectionMembers key found).map entryOf).map (·.name) =
      sectionNames key members := by
    rw [List.map_map, ← map_key_sectionMembers key hreads]
    rfl
  exact ⟨hnames dependenciesKey, hnames devDependenciesKey⟩

/-- The texts that are parsed are those of the format. -/
theorem exists_parse_iff {text : Text} :
    (∃ m, parse text = .ok m) ↔ IsManifestText text := by
  constructor
  · rintro ⟨m, h⟩
    obtain ⟨members, hread, hsections, -⟩ := parse_eq_ok_iff.mp h
    obtain ⟨pairs, helement, hreads⟩ := exists_element_of_ofText hread
    exact ⟨pairs, helement, (isManifest_iff hreads).mpr hsections⟩
  · rintro ⟨pairs, helement, hmanifest⟩
    obtain ⟨members, hread, hreads⟩ := exists_ofText_of_element helement hmanifest.depth
    exact ⟨_, parse_eq_ok_iff.mpr ⟨members, hread, (isManifest_iff hreads).mp hmanifest, rfl⟩⟩

/-- A text is parsed as a manifest exactly if it is one object of the JSON grammar, with white
space around it, that makes a manifest. Any other text is refused with a fault of the manifest. A
manifest declares the keys of the last section of each kind, in their order. -/
theorem parse_accepts_exactly (text : Text) :
    ((∃ m, parse text = .ok m) ↔ IsManifestText text) ∧
    (¬ IsManifestText text → ∃ f, parse text = .error f ∧ f.code? = some .manifest) ∧
    (∀ m members, parse text = .ok m → Element (.object members) text →
      m.dependencies.map (·.name) = sectionNames dependenciesKey members ∧
        m.devDependencies.map (·.name) = sectionNames devDependenciesKey members) := by
  refine ⟨exists_parse_iff, ?_, fun m members => map_name_of_parse⟩
  intro hnot
  cases h : parse text with
  | ok m => exact absurd (exists_parse_iff.mp ⟨m, h⟩) hnot
  | error f => exact ⟨f, rfl, code_of_parse_eq_error h⟩

end DependencyAudit.Manifest
