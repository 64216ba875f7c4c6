import DependencyAudit.Proofs.FirstOccurrences
import DependencyAudit.Proofs.Manifest.Parse

/-!
# Removing packages keeps everything else

Writing a manifest without some packages always succeeds, and the text that is written is a
manifest again. Its members are those of the original in the same order; all but the sections
have the same tokens, and the sections have lost exactly the entries of the given names.

The keys of the new text are written anew, so they need not be spelled as in the original. They
are read as the same keys, since a key that was read once is well-formed.

## Main definitions

* `Manifest.SameMember`: two members that differ in white space only;
* `Manifest.MemberEdit`: what becomes of one member;
* `Manifest.EditedFrom`: what becomes of a manifest.

## Main results

* `without_keeps_the_rest`: a manifest survives the removal of packages.
-/

namespace DependencyAudit.Manifest

open JsonLexeme (token)
open JsonMember (Reads ofLexemes ofLexemes_sound ofLexemes_complete)
open JsonValue.Reader (maxDepth)

/-! ## What an edit may change -/

/-- The members differ at most in the spelling of the key and in white space. -/
structure SameMember (a b : JsonMember) : Prop where
  /-- The keys stand for the same text. -/
  key : b.key = a.key
  /-- The values are equal, numbers as they are spelled. -/
  value : b.value = a.value
  /-- So are the tokens that are kept for writing. -/
  tokens : b.lexemes.map token = a.lexemes.map token

/-- The entries of a section whose names are not given. -/
def keptMembers (names : List Text) (entries : List JsonMember) : List JsonMember :=
  entries.filter fun e => !names.contains e.key

/-- What becomes of a member: a section keeps the entries whose names are not given, in order,
and any other member stays. -/
structure MemberEdit (names : List Text) (a b : JsonMember) : Prop where
  /-- The key stays. -/
  key : b.key = a.key
  /-- What is no section stays. -/
  same : isSection a.key = false → SameMember a b
  /-- A section keeps the entries whose names are not given. -/
  entries : isSection a.key = true → ∃ es es', ofLexemes a.lexemes = .ok es ∧
    ofLexemes b.lexemes = .ok es' ∧ List.Forall₂ SameMember (keptMembers names es) es'

/-- The value holds other values. -/
def IsContainer : JsonValue → Prop
  | .array _ | .object _ => True
  | _ => False

/-- The entry is that of the member. A version that is an array or an object is kept as it is
written, so its white space may differ. -/
structure EntryKept (member : JsonMember) (entry : ManifestEntry) : Prop where
  /-- The entry has the name of the member. -/
  name : entry.name = (entryOf member).name
  /-- The version is the same, unless it is no plain value. -/
  version : ¬ IsContainer member.value → entry.version = (entryOf member).version

/-- What becomes of the entries of the section with the given members. -/
structure SectionEdit (names : List Text) (members : List JsonMember)
    (entries entries' : List ManifestEntry) : Prop where
  /-- Before the edit there are the entries of all members. -/
  before : entries = members.map entryOf
  /-- After it there are those of the members that are kept, in their order. -/
  after : List.Forall₂ EntryKept (keptMembers names members) entries'

/-- What becomes of a manifest. -/
structure EditedFrom (names : List Text) (m m' : Manifest) : Prop where
  /-- Each member is edited on its own, so that members keep their order. -/
  members : List.Forall₂ (MemberEdit names) m.members m'.members
  /-- The name of the project stays. -/
  name : m'.name = m.name
  /-- The given names are no longer declared, and all others still are. -/
  declared : m'.declared = m.declared.filter fun name => !names.contains name
  /-- What becomes of the last section of this key. -/
  dependencies : SectionEdit names (sectionMembers dependenciesKey m.members)
    m.dependencies m'.dependencies
  /-- What becomes of the last section of this key. -/
  devDependencies : SectionEdit names (sectionMembers devDependenciesKey m.members)
    m.devDependencies m'.devDependencies

/-! ## Members that were read from a text -/

/-- What is true of every member that was read from a text. -/
structure Sound (m : JsonMember) : Prop where
  /-- The key is written so that it can be read again. -/
  key : JsonString.decode (keyBody m.key) = m.key
  /-- The lexemes that were kept are those of the value. -/
  tokens : m.value.tokens = m.lexemes.map token
  /-- The value is no deeper than a reader goes. -/
  depth : m.value.depth ≤ maxDepth
  /-- The value is spelled as values are. -/
  wellFormed : m.value.WellFormed

/-- A key that is written is the body of a string. -/
theorem isBody_keyBody (key : Text) : JsonToken.IsBody (keyBody key) :=
  JsonString.isBody_encode .document key

private theorem exists_related_of_mem {α β : Type} {R : α → β → Prop} {as : List α}
    {bs : List β} (h : List.Forall₂ R as bs) {a : α} (ha : a ∈ as) : ∃ b ∈ bs, R a b := by
  induction h with
  | nil => exact absurd ha (by simp)
  | cons hab _ ih =>
    rcases List.mem_cons.mp ha with rfl | ha
    · exact ⟨_, List.mem_cons_self, hab⟩
    · obtain ⟨b, hb, hab⟩ := ih ha
      exact ⟨b, List.mem_cons_of_mem _ hb, hab⟩

/-- The members of an object are sound if its tokens are well-formed. -/
theorem sound_of_mem {lexemes : List JsonLexeme} {members : List JsonMember}
    (h : ofLexemes lexemes = .ok members)
    (hlexemes : ∀ l ∈ lexemes, l.token ≠ .bad → l.token.WellFormed) :
    ∀ m ∈ members, Sound m := by
  obtain ⟨pairs, htokens, hreads, hgood⟩ := ofLexemes_sound h
  -- the tokens of the object are those of the lexemes, and none of them is bad
  have hobject : (JsonValue.object pairs).WellFormed := by
    intro t ht
    rw [← htokens] at ht
    obtain ⟨l, hl, rfl⟩ := List.mem_map.mp ht
    exact hlexemes l hl (hgood l hl)
  intro m hm
  obtain ⟨pair, hpair, hread⟩ := exists_related_of_mem hreads hm
  obtain ⟨hbody, hvalue⟩ := JsonValue.wellFormed_object_iff.mp hobject pair hpair
  refine ⟨?_, hread.value_tokens, ?_, ?_⟩
  · -- the key was read from a string, so it survives being written
    rw [hread.key, keyBody, JsonString.decode_encode_decode _ hbody]
  · rw [hread.value]
    exact hread.depth
  · rw [hread.value]
    exact hvalue

/-- The members of the object that a text consists of are sound. -/
theorem sound_of_mem_ofText {text : Text} {members : List JsonMember}
    (h : JsonMember.ofText text = .ok members) : ∀ m ∈ members, Sound m :=
  sound_of_mem h fun _ hl hbad => JsonLexeme.wellFormed_of_mem_lex hl hbad

/-- The entries of a sound section are sound. -/
theorem Sound.entries {m : JsonMember} (hm : Sound m) {entries : List JsonMember}
    (h : ofLexemes m.lexemes = .ok entries) : ∀ e ∈ entries, Sound e := by
  refine sound_of_mem h fun l hl _ => hm.wellFormed l.token ?_
  rw [hm.tokens]
  exact List.mem_map_of_mem hl

/-- The values of the entries are nested less deeply than the section. -/
theorem Sound.depth_lt {m : JsonMember} (hm : Sound m) {entries : List JsonMember}
    (h : ofLexemes m.lexemes = .ok entries) : ∀ e ∈ entries, e.value.depth < maxDepth := by
  obtain ⟨pairs, htokens, hreads, -⟩ := ofLexemes_sound h
  -- the section is nested less deeply than allowed, and its tokens determine its value
  have hvalue : m.value = .object pairs := JsonValue.tokens_injective (by rw [hm.tokens, htokens])
  have hdepth := hm.depth
  rw [hvalue, JsonValue.depth] at hdepth
  intro e he
  obtain ⟨pair, hpair, hread⟩ := exists_related_of_mem hreads he
  have hle := JsonValue.membersDepth_le_iff.mp (Nat.le_refl _) pair hpair
  rw [hread.value]
  omega

/-! ## Writing one member -/

/-- What is written for a member, as a key and a value. -/
structure Written (names : List Text) (m : JsonMember) (pair : Text × JsonValue) : Prop where
  /-- The key is the body of a string. -/
  body : JsonToken.IsBody pair.1
  /-- The key is read as that of the member. -/
  key : JsonString.decode pair.1 = m.key
  /-- The value is spelled as values are. -/
  wellFormed : pair.2.WellFormed
  /-- The value is no deeper than a reader goes. -/
  depth : pair.2.depth ≤ maxDepth
  /-- What is no section is written as it was read. -/
  same : isSection m.key = false → pair.2 = m.value
  /-- A section is written with the entries that are kept. -/
  entries : isSection m.key = true → ∃ es, ofLexemes m.lexemes = .ok es ∧
    pair.2 = .object ((keptMembers names es).map fun e => (keyBody e.key, e.value))

/-- A section is written with the entries that are kept. -/
private theorem prune_eq {names : List Text} {lexemes : List JsonLexeme}
    {entries : List JsonMember} (h : ofLexemes lexemes = .ok entries) :
    prune names lexemes =
      .ok (.object ((keptMembers names entries).map fun e => (keyBody e.key, e.value))) := by
  rw [prune, h]
  rfl

/-- Without some of its entries a section is still well-formed, and no deeper than a reader goes. -/
private theorem wellFormed_depth_of_kept {m : JsonMember} (hm : Sound m) (names : List Text)
    {entries : List JsonMember} (h : ofLexemes m.lexemes = .ok entries) :
    (JsonValue.object ((keptMembers names entries).map
      fun e => (keyBody e.key, e.value))).WellFormed ∧
    (JsonValue.object ((keptMembers names entries).map
      fun e => (keyBody e.key, e.value))).depth ≤ maxDepth := by
  constructor
  · rw [JsonValue.wellFormed_object_iff, List.forall_mem_map]
    intro e he
    exact ⟨isBody_keyBody e.key, (hm.entries h e (List.mem_filter.mp he).1).wellFormed⟩
  · -- the entries were in the section before, one level below it
    have hdepth : JsonValue.membersDepth ((keptMembers names entries).map
        fun e => (keyBody e.key, e.value)) ≤ maxDepth - 1 := by
      rw [JsonValue.membersDepth_le_iff, List.forall_mem_map]
      intro e he
      have hlt := hm.depth_lt h e (List.mem_filter.mp he).1
      exact Nat.le_sub_one_of_lt hlt
    rw [JsonValue.depth]
    have hpos : 0 < maxDepth := by decide
    omega

/-- Every sound member can be written. -/
theorem exists_editMember (names : List Text) {m : JsonMember} (hm : Sound m)
    (hsection : SectionOk m) : ∃ pair, editMember names m = .ok pair ∧ Written names m pair := by
  unfold editMember editedValue
  by_cases hkey : isSection m.key = true
  · obtain ⟨entries, hread⟩ := hsection hkey
    obtain ⟨hwell, hdepth⟩ := wellFormed_depth_of_kept hm names hread
    rw [if_pos hkey, prune_eq hread]
    refine ⟨_, if_pos hdepth, isBody_keyBody m.key, hm.key, hwell, hdepth, ?_, ?_⟩
    · intro hother
      exact absurd hkey (by simp [hother])
    · exact fun _ => ⟨entries, hread, rfl⟩
  · rw [if_neg hkey]
    refine ⟨_, if_pos hm.depth, isBody_keyBody m.key, hm.key, hm.wellFormed, hm.depth, ?_, ?_⟩
    · exact fun _ => rfl
    · exact fun hsection => absurd hsection hkey

/-- What was written for a member is read back as the edited member. -/
theorem Written.memberEdit {names : List Text} {a b : JsonMember} {pair : Text × JsonValue}
    (ha : Sound a) (hwritten : Written names a pair) (hread : Reads b pair) :
    MemberEdit names a b := by
  have hkey : b.key = a.key := hread.key.trans hwritten.key
  refine ⟨hkey, ?_, ?_⟩
  · intro hother
    have hvalue := hwritten.same hother
    exact ⟨hkey, hread.value.trans hvalue, by rw [hread.tokens, hvalue, ha.tokens]⟩
  · -- a section is read back as the object that was written, entry by entry
    intro hsection
    obtain ⟨es, hes, hobject⟩ := hwritten.entries hsection
    have hsound := ha.entries hes
    have htokens := hread.tokens
    rw [hobject] at htokens
    obtain ⟨es', hes', hreads⟩ := ofLexemes_complete htokens (by
      rw [List.forall_mem_map]
      exact fun e he => (hsound e (List.mem_filter.mp he).1).depth)
    refine ⟨es, es', hes, hes', ?_⟩
    rw [List.forall₂_map_right_iff] at hreads
    -- each entry that is kept was written under its key, and is read back under it
    have hkept : List.Forall₂ (fun e e' => e ∈ es ∧ Reads e' (keyBody e.key, e.value))
        (keptMembers names es) es' :=
      (List.forall₂_and_left _ _).mpr ⟨fun e he => (List.mem_filter.mp he).1, hreads.flip⟩
    refine hkept.imp fun e e' ⟨he, hread'⟩ => ?_
    have hsound_e := hsound e he
    exact ⟨hread'.key.trans hsound_e.key, hread'.value, by rw [hread'.tokens, hsound_e.tokens]⟩

/-- A section that was edited is still an object. -/
theorem MemberEdit.sectionOk {names : List Text} {a b : JsonMember} (h : MemberEdit names a b) :
    SectionOk b := by
  intro hsection
  rw [h.key] at hsection
  obtain ⟨-, es', -, hes', -⟩ := h.entries hsection
  exact ⟨es', hes'⟩

/-! ## Writing all members -/

/-- If every step succeeds with a result that is related, then the steps do. -/
private theorem exists_mapM {α β ε : Type} {f : α → Except ε β} {R : α → β → Prop} {as : List α}
    (h : ∀ a ∈ as, ∃ b, f a = .ok b ∧ R a b) :
    ∃ bs, as.mapM f = .ok bs ∧ List.Forall₂ R as bs := by
  induction as with
  | nil => exact ⟨[], rfl, .nil⟩
  | cons a more ih =>
    obtain ⟨⟨b, hb, hab⟩, hmore⟩ := List.forall_mem_cons.mp h
    obtain ⟨bs, hbs, hrest⟩ := ih hmore
    refine ⟨b :: bs, ?_, .cons hab hrest⟩
    rw [List.mapM_cons, hb, hbs]
    rfl

/-- Relations to common elements give a relation between lists. -/
private theorem forall₂_of_common {α β γ : Type} {R : α → β → Prop} {S : γ → β → Prop}
    {T : α → γ → Prop} (h : ∀ a b c, R a b → S c b → T a c) {as : List α} {bs : List β}
    {cs : List γ} (hab : List.Forall₂ R as bs) (hcb : List.Forall₂ S cs bs) :
    List.Forall₂ T as cs := by
  induction hab generalizing cs with
  | nil => cases hcb; exact .nil
  | cons hab _ ih =>
    cases hcb with
    | cons hcb hrest => exact .cons (h _ _ _ hab hcb) (ih hrest)

/-- Writing succeeds, and the members of the new text are the edited ones. -/
theorem exists_without {m : Manifest} {text : Text} (h : parse text = .ok m) (names : List Text) :
    ∃ out members', m.without names = .ok out ∧ JsonMember.ofText out = .ok members' ∧
      List.Forall₂ (MemberEdit names) m.members members' := by
  obtain ⟨members, hread, hsections, rfl⟩ := parse_eq_ok_iff.mp h
  rw [foldl_note_blank]
  have hsound := sound_of_mem_ofText hread
  obtain ⟨pairs, hpairs, hwritten⟩ := exists_mapM fun a ha =>
    exists_editMember names (hsound a ha) (hsections a ha)
  have hobject : (JsonValue.object pairs).WellFormed := by
    rw [JsonValue.wellFormed_object_iff]
    intro pair hpair
    obtain ⟨a, -, ha⟩ := exists_related_of_mem hwritten.flip hpair
    exact ⟨ha.body, ha.wellFormed⟩
  have hdepth : ∀ pair ∈ pairs, pair.2.depth ≤ maxDepth := by
    intro pair hpair
    obtain ⟨a, -, ha⟩ := exists_related_of_mem hwritten.flip hpair
    exact ha.depth
  -- the new text has the tokens of the pairs, so its members are read from them
  have htokens := JsonValue.map_token_lex_document (isBlankText_indentOf text) (.object pairs) 0
    hobject
  obtain ⟨members', hread', hreads⟩ := ofLexemes_complete htokens hdepth
  have hwritten_sound : List.Forall₂ (fun a pair => Sound a ∧ Written names a pair) members pairs :=
    (List.forall₂_and_left _ _).mpr ⟨hsound, hwritten⟩
  refine ⟨_, members', ?_, hread', ?_⟩
  · rw [without, hpairs]
    rfl
  · exact forall₂_of_common (fun a pair b ⟨ha, hpair⟩ hb => hpair.memberEdit ha hb)
      hwritten_sound hreads

/-! ## What the edited members say -/

/-- An edit leaves the name of the project alone. -/
private theorem nameAfter_eq {names : List Text} {a b : JsonMember} (h : MemberEdit names a b)
    (name : Text) : nameAfter name b = nameAfter name a := by
  unfold nameAfter
  rw [h.key]
  split
  · -- the name is no section, so its member has kept its value
    rename_i hkey
    have hother : isSection a.key = false := by
      rw [hkey]
      decide
    rw [(h.same hother).value]
  · rfl

/-- Edits of all members leave the name of the project alone. -/
private theorem foldl_nameAfter_eq {names : List Text} {members members' : List JsonMember}
    (h : List.Forall₂ (MemberEdit names) members members') (name : Text) :
    members'.foldl nameAfter name = members.foldl nameAfter name := by
  induction h generalizing name with
  | nil => rfl
  | cons hedit _ ih => rw [List.foldl_cons, List.foldl_cons, nameAfter_eq hedit, ih]

/-- The section that counts is edited like every other section. -/
private theorem sectionMembers_edit {names : List Text} {key : Text} (hkey : isSection key = true)
    {members members' : List JsonMember} (h : List.Forall₂ (MemberEdit names) members members') :
    List.Forall₂ SameMember (keptMembers names (sectionMembers key members))
      (sectionMembers key members') := by
  unfold sectionMembers
  -- the sections found so far are related, whatever they are
  suffices hall : ∀ found found', List.Forall₂ SameMember (keptMembers names found) found' →
      List.Forall₂ SameMember (keptMembers names (members.foldl (sectionAfter key) found))
        (members'.foldl (sectionAfter key) found') from hall [] [] .nil
  induction h with
  | nil => exact fun _ _ hfound => hfound
  | @cons a b _ _ hedit _ ih =>
    intro found found' hfound
    refine ih _ _ ?_
    unfold sectionAfter
    rw [hedit.key]
    split
    · rename_i hsection
      obtain ⟨es, es', hes, hes', hsame⟩ := hedit.entries (by rw [hsection]; exact hkey)
      rw [membersOf_of_ok hes, membersOf_of_ok hes']
      exact hsame
    · exact hfound

/-- The members of a section are sound if those of the manifest are. -/
private theorem sound_of_mem_sectionMembers {members : List JsonMember} (key : Text)
    (h : ∀ m ∈ members, Sound m) : ∀ e ∈ sectionMembers key members, Sound e := by
  unfold sectionMembers
  -- the entries found so far are sound, whatever they are
  suffices hall : ∀ found : List JsonMember, (∀ e ∈ found, Sound e) →
      ∀ e ∈ members.foldl (sectionAfter key) found, Sound e from hall [] (by simp)
  induction members with
  | nil => exact fun _ hfound => hfound
  | cons member more ih =>
    obtain ⟨hmember, hmore⟩ := List.forall_mem_cons.mp h
    intro found hfound
    refine ih hmore _ ?_
    unfold sectionAfter
    split
    · cases hes : ofLexemes member.lexemes with
      | error p => simp [membersOf, hes, Except.toOption]
      | ok es =>
        rw [membersOf_of_ok hes]
        exact hmember.entries hes
    · exact hfound

/-- Members that differ in white space only declare the same package, and the same version
unless it holds other values. -/
private theorem entryKept_entryOf {a b : JsonMember} (ha : Sound a) (h : SameMember a b) :
    EntryKept a (entryOf b) := by
  refine ⟨h.key, fun hscalar => ?_⟩
  have htokens := ha.tokens
  unfold entryOf JsonMember.string?
  rw [h.value]
  cases hvalue : a.value with
  | array | object =>
    rw [hvalue] at hscalar
    exact absurd trivial hscalar
  | string body => rfl
  | null => rfl
  | bool | number =>
    -- a single token is written without the white space in front of it
    rw [hvalue, JsonValue.tokens] at htokens
    obtain ⟨l, hl, hl_token⟩ := List.map_eq_singleton_iff.mp htokens.symm
    obtain ⟨l', hl', hl'_token⟩ := List.map_eq_singleton_iff.mp (h.tokens.trans htokens.symm)
    rw [hl, hl']
    simp [JsonLexeme.sourceOf, hl_token, hl'_token]

/-- A section whose kept members stay the same is edited as it should be. -/
private theorem sectionEdit_of_sameMember {names : List Text} {members members' : List JsonMember}
    (hsound : ∀ e ∈ members, Sound e)
    (h : List.Forall₂ SameMember (keptMembers names members) members') :
    SectionEdit names members (members.map entryOf) (members'.map entryOf) := by
  refine ⟨rfl, ?_⟩
  rw [List.forall₂_map_right_iff]
  have hkept : List.Forall₂ (fun a b => Sound a ∧ SameMember a b) (keptMembers names members)
      members' :=
    (List.forall₂_and_left _ _).mpr ⟨fun e he => hsound e (List.mem_filter.mp he).1, h⟩
  exact hkept.imp fun a b ⟨ha, hab⟩ => entryKept_entryOf ha hab

/-- The entries that are kept have the names of their members. -/
private theorem map_name_of_entryKept {members : List JsonMember} {entries : List ManifestEntry}
    (h : List.Forall₂ EntryKept members entries) :
    entries.map (·.name) = members.map (·.key) := by
  induction h with
  | nil => rfl
  | cons hkept _ ih => rw [List.map_cons, List.map_cons, hkept.name, ih]; rfl

/-- The names of an edited section are those that are kept. -/
theorem SectionEdit.map_name {names : List Text} {members : List JsonMember}
    {entries entries' : List ManifestEntry} (h : SectionEdit names members entries entries') :
    entries'.map (·.name) = (entries.map (·.name)).filter fun name => !names.contains name := by
  obtain ⟨rfl, hafter⟩ := h
  rw [map_name_of_entryKept hafter, keptMembers, List.map_map, List.filter_map]
  rfl

/-- The declared packages after both sections were edited. -/
theorem declared_of_sectionEdit {names : List Text} {m m' : Manifest}
    {dependencies devDependencies : List JsonMember}
    (h : SectionEdit names dependencies m.dependencies m'.dependencies)
    (hdev : SectionEdit names devDependencies m.devDependencies m'.devDependencies) :
    m'.declared = m.declared.filter fun name => !names.contains name := by
  rw [declared, declared, ← firstOccurrences_filter, List.map_append, List.map_append,
    h.map_name, hdev.map_name, List.filter_append]

/-- The manifest of the edited members. -/
theorem editedFrom_of_members {names : List Text} {members members' : List JsonMember}
    (hsound : ∀ m ∈ members, Sound m)
    (h : List.Forall₂ (MemberEdit names) members members') (indent indent' : Text) :
    EditedFrom names (members.foldl note (blank members indent))
      (members'.foldl note (blank members' indent')) := by
  have hsection (key : Text) (hkey : isSection key = true) :=
    sectionEdit_of_sameMember (sound_of_mem_sectionMembers key hsound)
      (sectionMembers_edit hkey h)
  have hdependencies := hsection dependenciesKey (by decide)
  have hdevDependencies := hsection devDependenciesKey (by decide)
  rw [foldl_note_blank, foldl_note_blank]
  exact ⟨h, foldl_nameAfter_eq h [], declared_of_sectionEdit hdependencies hdevDependencies,
    hdependencies, hdevDependencies⟩

/-- A text with edited members is a manifest again. -/
theorem exists_parse_of_memberEdit {text out : Text} {names : List Text} {m : Manifest}
    {members' : List JsonMember} (h : parse text = .ok m)
    (hread' : JsonMember.ofText out = .ok members')
    (hedit : List.Forall₂ (MemberEdit names) m.members members') :
    ∃ m', parse out = .ok m' ∧ EditedFrom names m m' := by
  obtain ⟨members, hread, -, rfl⟩ := parse_eq_ok_iff.mp h
  have hmembers : (members.foldl note (blank members (indentOf text))).members = members := by
    rw [foldl_note_blank]
  rw [hmembers] at hedit
  have hsections : ∀ b ∈ members', SectionOk b := by
    intro b hb
    obtain ⟨a, -, hab⟩ := exists_related_of_mem hedit.flip hb
    exact hab.sectionOk
  exact ⟨_, parse_eq_ok_iff.mpr ⟨members', hread', hsections, rfl⟩,
    editedFrom_of_members (sound_of_mem_ofText hread) hedit _ _⟩

/-- What is written without some packages is a manifest again. -/
theorem exists_parse_of_without {text out : Text} {names : List Text} {m : Manifest}
    (h : parse text = .ok m) (hout : m.without names = .ok out) :
    ∃ m', parse out = .ok m' ∧ EditedFrom names m m' := by
  obtain ⟨out', members', hout', hread', hedit⟩ := exists_without h names
  obtain rfl : out' = out := Except.ok.inj (hout'.symm.trans hout)
  exact exists_parse_of_memberEdit h hread' hedit

/-- A manifest from which nothing was removed is an edited one too. -/
theorem editedFrom_self {text : Text} {m : Manifest} (h : parse text = .ok m) :
    EditedFrom [] m m := by
  obtain ⟨members, hread, hsections, rfl⟩ := parse_eq_ok_iff.mp h
  have hsame (a : JsonMember) : SameMember a a := ⟨rfl, rfl, rfl⟩
  have hedit : ∀ a ∈ members, MemberEdit [] a a := by
    intro a ha
    refine ⟨rfl, fun _ => hsame a, fun hsection => ?_⟩
    obtain ⟨entries, hentries⟩ := hsections a ha hsection
    refine ⟨entries, entries, hentries, hentries, ?_⟩
    rw [keptMembers, List.filter_eq_self.mpr (by simp)]
    exact List.forall₂_same.mpr fun e _ => hsame e
  exact editedFrom_of_members (sound_of_mem_ofText hread) (List.forall₂_same.mpr hedit) _ _

/-- Writing a manifest without some packages succeeds and gives a manifest again, whose members
are the original ones except for the entries of the given names. -/
theorem without_keeps_the_rest {text : Text} {m : Manifest} (h : parse text = .ok m)
    (names : List Text) :
    ∃ out m', m.without names = .ok out ∧ parse out = .ok m' ∧ EditedFrom names m m' := by
  obtain ⟨out, members', hout, hread', hedit⟩ := exists_without h names
  obtain ⟨m', hparse, hedited⟩ := exists_parse_of_memberEdit h hread' hedit
  exact ⟨out, m', hout, hparse, hedited⟩

/-- A manifest with an escaped key and two sections of one kind. -/
def sample : Text :=
  Text.concat
    ["\x7b\"dependencies\":\x7b\"c\":\"2\"\x7d,\"n\":[1.50e1], ",
     "\"dependencies\":\x7b\"left\\u002dpad\":\"1\", \"b\":\x7b \x7d\x7d\x7d"]

/-- Of two sections with one key the last one counts. A package whose name is written with an escape
is removed. -/
theorem without_keeps_the_rest_sample :
    ∃ m out m', parse sample = .ok m ∧ m.declared = [("left-pad" : Text), "b"] ∧
      m.without ["left-pad"] = .ok out ∧ parse out = .ok m' ∧ EditedFrom ["left-pad"] m m' := by
  have hdeclared : (parse sample).toOption.map declared = some [("left-pad" : Text), "b"] := by
    decide +kernel
  cases h : parse sample with
  | error f =>
    rw [h] at hdeclared
    exact absurd hdeclared (by simp [Except.toOption])
  | ok m =>
    rw [h] at hdeclared
    obtain ⟨out, m', hout⟩ := without_keeps_the_rest h ["left-pad"]
    exact ⟨m, out, m', rfl, Option.some.inj hdeclared, hout⟩

end DependencyAudit.Manifest
