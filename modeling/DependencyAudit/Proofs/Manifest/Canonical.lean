import DependencyAudit.Proofs.Json.Document
import DependencyAudit.Proofs.Manifest.Format
import DependencyAudit.Proofs.Manifest.Without
import DependencyAudit.Proofs.Text.Split

/-!
# Canonical manifests

A manifest in its canonical form is a document whose keys are written as `keyBody` writes them, at
the top and in the sections. Both halves of an edit meet at this form. What is written for a
manifest of any layout is canonical. A canonical manifest is read as the members that it was made
of, with the indentation that it was made with, so that writing it without some packages gives the
document of the remaining entries, byte for byte.

The depth of a value plays no part here, except that a value that is nested too deeply is not read
in the first place.

## Main definitions

* `Manifest.IsWrittenMember`: a member in canonical form;
* `Manifest.deleted`: a member without the entries of the given names;
* `Manifest.spelled`: what was read as a member, in canonical form.

## Main results

* `without_eq`: what is written for a manifest that was read from some text;
* `without_document`: what is written for a canonical manifest;
* `without_touches_only_removed`: edits change nothing but the removed entries.
-/

namespace DependencyAudit.Manifest

open JsonGrammar (Element)
open JsonMember (Reads)
open JsonString (decode)
open JsonValue (document)
open JsonValue.Reader (maxDepth)

/-! ## The canonical form -/

/-- The body of a string is what is written for some key. -/
def IsWrittenKey (body : Text) : Prop :=
  ∃ key, Utf8.IsUtf8 key ∧ body = keyBody key

/-- A member with a written key. The same holds for the entries of a section, which is an object;
no other value is restricted. -/
structure IsWrittenMember (m : Text × JsonValue) : Prop where
  /-- The key is written as keys are. -/
  key : IsWrittenKey m.1
  /-- The value is spelled as values are. -/
  wellFormed : m.2.WellFormed
  /-- If the member is a section, it is an object, and its keys are written as keys are. -/
  entries : isSection (decode m.1) = true →
    ∃ entries, m.2 = .object entries ∧ ∀ e ∈ entries, IsWrittenKey e.1

/-- The entries whose names are not given. -/
def keptEntries (names : List Text) (entries : List (Text × JsonValue)) :
    List (Text × JsonValue) :=
  entries.filter fun e => !names.contains (decode e.1)

/-- A member without the entries of the given names, which only a section has. -/
def deleted (names : List Text) (m : Text × JsonValue) : Text × JsonValue :=
  match m with
  | (body, .object entries) =>
    if isSection (decode body) then (body, .object (keptEntries names entries)) else m
  | _ => m

/-! ## Deleting entries -/

/-- A section keeps the entries that are not named. -/
theorem deleted_of_section (names : List Text) {body : Text} (entries : List (Text × JsonValue))
    (h : isSection (decode body) = true) :
    deleted names (body, .object entries) = (body, .object (keptEntries names entries)) :=
  if_pos h

/-- A member that is no section is kept as it is. -/
theorem deleted_of_other (names : List Text) {m : Text × JsonValue}
    (h : isSection (decode m.1) = false) : deleted names m = m := by
  unfold deleted
  split
  · rw [if_neg (by simp [h])]
  · rfl

@[simp]
theorem keptEntries_nil (entries : List (Text × JsonValue)) : keptEntries [] entries = entries :=
  List.filter_eq_self.mpr (by simp)

@[simp]
theorem deleted_nil (m : Text × JsonValue) : deleted [] m = m := by
  unfold deleted
  split
  · rw [keptEntries_nil, ite_self]
  · rfl

/-- What is left of a member is written as such members are. -/
theorem IsWrittenMember.deleted {m : Text × JsonValue} (h : IsWrittenMember m)
    (names : List Text) : IsWrittenMember (deleted names m) := by
  cases hsection : isSection (decode m.1) with
  | false =>
    rw [deleted_of_other names hsection]
    exact h
  | true =>
    obtain ⟨body, value⟩ := m
    obtain ⟨entries, rfl, hentries⟩ := h.entries hsection
    have hwell := JsonValue.wellFormed_object_iff.mp h.wellFormed
    rw [deleted_of_section names entries hsection]
    -- the entries that are left were there before
    refine ⟨h.key, ?_, fun _ => ⟨_, rfl, fun e he => hentries e (List.mem_filter.mp he).1⟩⟩
    rw [JsonValue.wellFormed_object_iff]
    exact fun e he => hwell e (List.mem_filter.mp he).1

/-! ## Keys -/

/-- A key that is written as keys are is written in the same way again. -/
theorem IsWrittenKey.keyBody_decode {body : Text} (h : IsWrittenKey body) :
    keyBody (decode body) = body := by
  obtain ⟨key, hkey, rfl⟩ := h
  have hread : decode (keyBody key) = key := by
    rw [keyBody, JsonString.decode_encode, Utf8.scrub_of_isUtf8 hkey]
  rw [hread]

/-- A key is the body of a string. -/
theorem IsWrittenKey.isBody {body : Text} (h : IsWrittenKey body) : JsonToken.IsBody body := by
  obtain ⟨key, -, rfl⟩ := h
  exact isBody_keyBody key

/-- A key that was read is written as a key. -/
theorem Sound.isWrittenKey {m : JsonMember} (h : Sound m) : IsWrittenKey (keyBody m.key) := by
  refine ⟨m.key, ?_, rfl⟩
  rw [← h.key]
  exact JsonString.isUtf8_decode (isBody_keyBody m.key)

/-! ## What is written -/

/-- A member of a section in canonical form. -/
def spelledEntry (e : JsonMember) : Text × JsonValue :=
  (keyBody e.key, e.value)

/-- What was read as a member, in canonical form. -/
def spelled (m : JsonMember) : Text × JsonValue :=
  (keyBody m.key,
    if isSection m.key then .object ((membersOf m).map spelledEntry) else m.value)

/-- Editing keeps the key of a member. -/
private theorem fst_of_editMember {names : List Text} {m : JsonMember} {pair : Text × JsonValue}
    (h : editMember names m = .ok pair) : pair.1 = keyBody m.key := by
  unfold editMember at h
  split at h
  · exact absurd h (by simp)
  split at h
  · obtain rfl := Except.ok.inj h
    rfl
  · exact absurd h (by simp)

/-- Deleting entries and spelling them can be done in either order. -/
theorem keptEntries_map_spelledEntry (names : List Text) {entries : List JsonMember}
    (h : ∀ e ∈ entries, Sound e) :
    keptEntries names (entries.map spelledEntry) =
      (keptMembers names entries).map spelledEntry := by
  unfold keptEntries keptMembers
  rw [List.filter_map]
  congr 1
  apply List.filter_congr
  intro e he
  -- the written key is read as the key, so the same names are found
  rw [Function.comp_apply, spelledEntry, (h e he).key]

/-- A member is written in canonical form, without the entries of the given names. -/
theorem editMember_eq (names : List Text) {m : JsonMember} (hm : Sound m) (hsection : SectionOk m) :
    editMember names m = .ok (deleted names (spelled m)) := by
  obtain ⟨⟨body, value⟩, hpair, hwritten⟩ := exists_editMember names hm hsection
  obtain rfl : body = keyBody m.key := fst_of_editMember hpair
  rw [hpair, spelled]
  cases hkey : isSection m.key with
  | false =>
    obtain rfl : value = m.value := hwritten.same hkey
    rw [deleted_of_other names (by rw [hm.key, hkey])]
    simp
  | true =>
    -- both sides are the section of the entries that are kept, each under its written key
    obtain ⟨entries, hread, rfl : value = _⟩ := hwritten.entries hkey
    rw [if_pos rfl, membersOf_of_ok hread, deleted_of_section _ _ (by rw [hm.key, hkey]),
      keptEntries_map_spelledEntry names (hm.entries hread)]
    rfl

/-- A member that was read is spelled as members are written. -/
theorem isWrittenMember_spelled {m : JsonMember} (hm : Sound m) (hsection : SectionOk m) :
    IsWrittenMember (spelled m) := by
  -- nothing is removed, so what is written is the canonical form itself
  obtain ⟨pair, hpair, hwritten⟩ := exists_editMember [] hm hsection
  rw [editMember_eq [] hm hsection, deleted_nil] at hpair
  obtain rfl := Except.ok.inj hpair
  refine ⟨hm.isWrittenKey, hwritten.wellFormed, ?_⟩
  intro hkey
  change isSection (decode (keyBody m.key)) = true at hkey
  rw [hm.key] at hkey
  obtain ⟨entries, hread⟩ := hsection hkey
  refine ⟨entries.map spelledEntry, by rw [spelled, if_pos hkey, membersOf_of_ok hread], ?_⟩
  rw [List.forall_mem_map]
  exact fun e he => (hm.entries hread e he).isWrittenKey

/-- What is true of the members of a manifest that was read from a text. -/
theorem sound_of_parse {text : Text} {m : Manifest} (h : parse text = .ok m) :
    ∀ a ∈ m.members, Sound a ∧ SectionOk a := by
  obtain ⟨members, hread, hsections, rfl⟩ := parse_eq_ok_iff.mp h
  rw [foldl_note_blank]
  exact fun a ha => ⟨sound_of_mem_ofText hread a ha, hsections a ha⟩

/-- If no step fails, the steps are a map. -/
private theorem mapM_eq_ok_map {α β ε : Type} {f : α → Except ε β} {g : α → β} {as : List α}
    (h : ∀ a ∈ as, f a = .ok (g a)) : as.mapM f = .ok (as.map g) := by
  induction as with
  | nil => rfl
  | cons a more ih =>
    obtain ⟨ha, hmore⟩ := List.forall_mem_cons.mp h
    rw [List.mapM_cons, ha, ih hmore]
    rfl

/-- What is written for a manifest is the document of its members in canonical form, without the
entries of the given names. -/
theorem without_eq {text : Text} {m : Manifest} (h : parse text = .ok m) (names : List Text) :
    m.without names =
      .ok (document m.indent (.object ((m.members.map spelled).map (deleted names)))) := by
  have hsound := sound_of_parse h
  have hmembers : m.members.mapM (editMember names) =
      .ok (m.members.map fun a => deleted names (spelled a)) :=
    mapM_eq_ok_map fun a ha => editMember_eq names (hsound a ha).1 (hsound a ha).2
  rw [without, hmembers, JsonValue.document_eq_layout, List.map_map]
  rfl

/-! ## Indentation -/

/-- The first line behind the opening bracket shows how the document is indented. -/
theorem indentOf_document {indent : Text} (h : IsIndent indent) {members : List (Text × JsonValue)}
    (hmembers : members ≠ []) : indentOf (document indent (.object members)) = indent := by
  obtain ⟨⟨body, value⟩, more, rfl⟩ := List.exists_cons_of_ne_nil hmembers
  -- the text up to the quote of the first key
  obtain ⟨rest, hrest⟩ : ∃ rest, document indent (.object ((body, value) :: more)) =
      [Ascii.openBrace] ++ Ascii.newline :: (indent ++ Ascii.quote :: rest) := by
    rw [JsonValue.document_eq_layout, JsonValue.layout]
    cases more <;> simp [JsonValue.layoutMembers, JsonValue.newLine]
  have hline : (indent ++ Ascii.quote :: rest).takeWhile
      (fun b => b = Ascii.space || b = Ascii.tab) = indent := by
    -- the indentation is taken, and the quote ends it
    rw [List.takeWhile_append_of_pos (by simpa using h.blank)]
    simp [show ¬ Ascii.quote = Ascii.space by decide,
      show ¬ Ascii.quote = Ascii.tab by decide]
  unfold indentOf
  rw [hrest, Text.cutAtByte_append (by decide)]
  simp only [hline]
  rw [if_neg (by simpa using h.ne_nil)]

/-- Without members there is nothing to indent. -/
theorem document_nil (indent indent' : Text) :
    document indent (.object []) = document indent' (.object []) := by
  rw [JsonValue.document_eq_layout, JsonValue.document_eq_layout, JsonValue.layout,
    JsonValue.layout]

/-! ## Reading a canonical manifest -/

section Canonical

variable {indent : Text} {members : List (Text × JsonValue)}

/-- The canonical document spells the object with its members. -/
theorem element_document (hindent : IsIndent indent) (hmembers : ∀ m ∈ members, IsWrittenMember m) :
    Element (.object members) (document indent (.object members)) := by
  have hwell : (JsonValue.object members).WellFormed := by
    rw [JsonValue.wellFormed_object_iff]
    exact fun m hm => ⟨(hmembers m hm).key.isBody, (hmembers m hm).wellFormed⟩
  exact JsonGrammar.element_of_lex
    (JsonValue.map_token_lex_lines indent hindent.isBlankText hwell) hwell

/-- A canonical manifest is read unless one of its values is nested too deeply. -/
theorem exists_parse_document_iff (hindent : IsIndent indent)
    (hmembers : ∀ m ∈ members, IsWrittenMember m) :
    (∃ m, parse (document indent (.object members)) = .ok m) ↔
      ∀ m ∈ members, m.2.depth ≤ maxDepth := by
  have helement := element_document hindent hmembers
  rw [exists_parse_iff]
  constructor
  · -- the text is that of one object only, so the limit is about these members
    rintro ⟨pairs, hpairs, hmanifest⟩
    obtain rfl := pairs_eq_of_element helement hpairs
    exact hmanifest.depth
  · intro hdepth
    refine ⟨members, helement, hdepth, ?_⟩
    intro m hm hsection
    obtain ⟨entries, hentries, -⟩ := (hmembers m hm).entries hsection
    exact ⟨entries, hentries⟩

/-- What is found member by member is found of the whole list. -/
private theorem map_eq_of_reads {f : JsonMember → Text × JsonValue} {found : List JsonMember}
    {pairs : List (Text × JsonValue)} (h : List.Forall₂ Reads found pairs)
    (hf : ∀ pair ∈ pairs, ∀ a, Reads a pair → f a = pair) : found.map f = pairs := by
  induction h with
  | nil => rfl
  | cons hread _ ih =>
    obtain ⟨hpair, hmore⟩ := List.forall_mem_cons.mp hf
    rw [List.map_cons, hpair _ hread, ih hmore]

/-- An entry that was read from a spelling is spelled like it again. -/
theorem spelledEntry_of_reads {a : JsonMember} {pair : Text × JsonValue} (h : Reads a pair)
    (hkey : IsWrittenKey pair.1) : spelledEntry a = pair := by
  rw [spelledEntry, h.key, h.value, hkey.keyBody_decode]

/-- What was read from a member in canonical form has this form. -/
theorem spelled_of_reads {a : JsonMember} {pair : Text × JsonValue} (h : Reads a pair)
    (hpair : IsWrittenMember pair) : spelled a = pair := by
  obtain ⟨body, value⟩ := pair
  rw [spelled, h.key, hpair.key.keyBody_decode]
  cases hsection : isSection (decode body) with
  | false => rw [if_neg (by simp), h.value]
  | true =>
    -- a section was read as a whole and is read once more for its entries
    obtain ⟨entries, rfl, hentries⟩ := hpair.entries hsection
    obtain ⟨es, hes, hreads⟩ := h.exists_members
    have hspelled : es.map spelledEntry = entries :=
      map_eq_of_reads hreads fun e he a ha => spelledEntry_of_reads ha (hentries e he)
    rw [if_pos rfl, membersOf_of_ok hes, hspelled]

/-- What is written for a canonical manifest is the document of the entries that are left. -/
theorem without_document (hindent : IsIndent indent) (hmembers : ∀ m ∈ members, IsWrittenMember m)
    {m : Manifest} (h : parse (document indent (.object members)) = .ok m) (names : List Text) :
    m.without names = .ok (document indent (.object (members.map (deleted names)))) := by
  rw [without_eq h]
  obtain ⟨found, hread, -, rfl⟩ := parse_eq_ok_iff.mp h
  rw [foldl_note_blank]
  obtain ⟨pairs, hpairs, hreads⟩ := exists_element_of_ofText hread
  obtain rfl := pairs_eq_of_element (element_document hindent hmembers) hpairs
  -- every member has the form that it was written in
  have hspelled : found.map spelled = members :=
    map_eq_of_reads hreads fun pair hpair a ha => spelled_of_reads ha (hmembers pair hpair)
  rw [hspelled]
  -- an empty object does not show how it is indented, but it does not matter then
  cases hempty : members with
  | nil => exact congrArg Except.ok (document_nil _ _)
  | cons first more => rw [indentOf_document hindent (by simp)]

/-- Editing a canonical manifest deletes the entries of the given names and touches nothing else:
the new text is the document of the members that are left, with the same indentation. If there is
nothing to delete, it is the old text. Every canonical manifest can be edited as long as none of
its values is nested too deeply to be read. -/
theorem without_touches_only_removed (hindent : IsIndent indent)
    (hmembers : ∀ m ∈ members, IsWrittenMember m) :
    ((∃ m, parse (document indent (.object members)) = .ok m) ↔
      ∀ m ∈ members, m.2.depth ≤ maxDepth) ∧
    ∀ m, parse (document indent (.object members)) = .ok m →
      (∀ names, m.without names =
        .ok (document indent (.object (members.map (deleted names))))) ∧
      m.without [] = .ok (document indent (.object members)) := by
  refine ⟨exists_parse_document_iff hindent hmembers, ?_⟩
  intro m h
  refine ⟨?_, ?_⟩
  · exact without_document hindent hmembers h
  · rw [without_document hindent hmembers h, List.map_congr_left fun a _ => deleted_nil a,
      List.map_id']

end Canonical

/-- An ASCII key is spelled as keys are written. -/
theorem isWrittenKey_keyBody {key : Text} (h : ∀ b ∈ key, b < 0x80) :
    IsWrittenKey (keyBody key) :=
  ⟨key, Utf8.isUtf8_of_ascii h, rfl⟩

/-- A manifest in canonical form, with a key that is written with an escape. -/
def canonicalSample : List (Text × JsonValue) :=
  [(keyBody "name", .string (keyBody "x")),
   (keyBody "dependencies",
    .object [(keyBody "a<b", .string (keyBody "1")), (keyBody "c", .array [.null, .object []])])]

/-- The members of the sample are written as members are. -/
theorem isWrittenMember_canonicalSample : ∀ m ∈ canonicalSample, IsWrittenMember m := by
  have hascii : ∀ key ∈ [("name" : Text), "dependencies", "a<b", "c"], ∀ b ∈ key, b < 0x80 := by
    decide +kernel
  have hkey (key : Text) (h : key ∈ [("name" : Text), "dependencies", "a<b", "c"]) :
      IsWrittenKey (keyBody key) :=
    isWrittenKey_keyBody (hascii key h)
  have hstring (text : Text) : (JsonValue.string (keyBody text)).WellFormed := by
    intro t ht
    obtain rfl := List.mem_singleton.mp ht
    exact isBody_keyBody text
  have harray : (JsonValue.array [.null, .object []]).WellFormed := by
    simp [JsonValue.WellFormed, JsonValue.tokens, JsonValue.itemTokens, JsonValue.memberTokens,
      JsonToken.WellFormed]
  unfold canonicalSample
  rw [List.forall_mem_cons, List.forall_mem_singleton]
  refine ⟨⟨hkey _ (by simp), hstring _, fun h => absurd h (by decide +kernel)⟩,
    hkey _ (by simp), ?_, fun _ => ⟨_, rfl, ?_⟩⟩
  · rw [JsonValue.wellFormed_object_iff, List.forall_mem_cons, List.forall_mem_singleton]
    exact ⟨⟨isBody_keyBody _, hstring _⟩, isBody_keyBody _, harray⟩
  · rw [List.forall_mem_cons, List.forall_mem_singleton]
    exact ⟨hkey _ (by simp), hkey _ (by simp)⟩

/-- An entry with a key that needs escapes is removed; the document is the same but for the lines
of this entry. -/
theorem without_touches_only_removed_sample :
    ∃ m, parse (document [Ascii.tab] (.object canonicalSample)) = .ok m ∧
      m.without ["a<b"] = .ok (Text.concat
        ["\x7b\n\t\"name\": \"x\",\n\t\"dependencies\": \x7b\n",
         "\t\t\"c\": [\n\t\t\tnull,\n\t\t\t\x7b\x7d\n\t\t]\n\t\x7d\n\x7d\n"]) ∧
      m.without [] = .ok (document [Ascii.tab] (.object canonicalSample)) := by
  have hindent : IsIndent [Ascii.tab] := ⟨by simp, by simp⟩
  obtain ⟨hread, hedit⟩ := without_touches_only_removed hindent isWrittenMember_canonicalSample
  obtain ⟨m, hm⟩ := hread.mpr (by decide +kernel)
  obtain ⟨hwithout, hsame⟩ := hedit m hm
  refine ⟨m, hm, ?_, hsame⟩
  rw [hwithout ["a<b"]]
  refine congrArg Except.ok ?_
  decide +kernel

end DependencyAudit.Manifest
