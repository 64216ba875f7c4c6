import DependencyAudit.Manifest.Basic
import DependencyAudit.Proofs.Json.Layout
import DependencyAudit.Proofs.Json.StringText
import Mathlib.Data.List.Forall2

/-!
# Members of objects

The members of an object are read one by one, each value on its own. `JsonMember.ofLexemes`
accepts exactly the lexemes with the tokens of an object whose values are not nested too deeply,
and returns its members in order.

## Main definitions

* `JsonMember.Reads`: a member was read from a key and a value.

## Main results

* `ofLexemes_sound`: what is read are the members of an object;
* `ofLexemes_complete`: the members of an object are read back from its tokens;
* `Reads.ofLexemes_eq_ok_iff`: the value of a member can be read as an object exactly if it is one.
-/

namespace DependencyAudit.JsonMember

open JsonLexeme (token)
open JsonValue (memberTokens memberTokens_cons laterMembers read? read?_sound read?_append)
open JsonValue.Reader (maxDepth)

/-- The member was read from the tokens of the given key and value. -/
structure Reads (m : JsonMember) (pair : Text × JsonValue) : Prop where
  /-- The key is decoded. -/
  key : m.key = JsonString.decode pair.1
  /-- The value is the one that was read. -/
  value : m.value = pair.2
  /-- The lexemes are kept for the tokens of the value. -/
  tokens : m.lexemes.map token = pair.2.tokens
  /-- The value is no deeper than a reader goes. -/
  depth : pair.2.depth ≤ maxDepth

/-- The tokens of a value that was read are those of its lexemes. -/
theorem Reads.value_tokens {m : JsonMember} {pair : Text × JsonValue} (h : m.Reads pair) :
    m.value.tokens = m.lexemes.map token := by
  rw [h.value, h.tokens]

/-! ## Soundness -/

private theorem readMembers_sound {required : Bool} {lexemes rest : List JsonLexeme} {fuel : Nat}
    {members : List JsonMember} (h : readMembers required lexemes fuel = some (members, rest)) :
    ∃ eaten pairs, lexemes = eaten ++ rest ∧
      eaten.map token = memberTokens pairs ++ [.closeObject] ∧
      List.Forall₂ Reads members pairs ∧ (required = true → pairs ≠ []) ∧
      ∀ l ∈ eaten, l.token ≠ .bad := by
  induction fuel generalizing required lexemes members with
  | zero => exact absurd h (by simp [readMembers])
  | succ fuel ih =>
    unfold readMembers at h
    split at h
    -- the end of the object, if no member is required here
    · split at h
      · exact absurd h (by simp)
      · rename_i blank after hrequired
        obtain ⟨rfl, rfl⟩ := Prod.mk.inj (Option.some.inj h)
        exact ⟨[⟨blank, .closeObject⟩], [], rfl, rfl, .nil, fun h => absurd h hrequired, by simp⟩
    -- a member, and then the end or a comma
    · rename_i blank₁ body blank₂ after
      split at h
      · exact absurd h (by simp)
      rename_i value eaten behind hread
      obtain ⟨rfl, htokens, hdepth, hgood⟩ := read?_sound hread
      have hmember : Reads ⟨JsonString.decode body, value, eaten⟩ (body, value) :=
        ⟨rfl, rfl, htokens.symm, hdepth⟩
      split at h
      · rename_i blank after
        obtain ⟨rfl, rfl⟩ := Prod.mk.inj (Option.some.inj h)
        refine ⟨⟨blank₁, .string body⟩ :: ⟨blank₂, .colon⟩ :: (eaten ++ [⟨blank, .closeObject⟩]),
          [(body, value)], by simp, ?_, .cons hmember .nil, by simp, ?_⟩
        · simp [memberTokens, htokens]
        · simp only [List.forall_mem_cons, List.forall_mem_append]
          exact ⟨by simp, by simp, hgood, by simp, by simp⟩
      · rename_i blank after
        simp only [Option.map_eq_some_iff, Prod.exists, Prod.mk.injEq] at h
        obtain ⟨more, rest', hmore, rfl, rfl⟩ := h
        obtain ⟨eaten', pairs, rfl, htokens', hpairs, hnonempty, hgood'⟩ := ih hmore
        -- behind a comma a member is required, so the comma is one between members
        obtain ⟨pair, others, rfl⟩ := List.exists_cons_of_ne_nil (hnonempty rfl)
        refine ⟨⟨blank₁, .string body⟩ :: ⟨blank₂, .colon⟩ :: (eaten ++ ⟨blank, .comma⟩ :: eaten'),
          (body, value) :: pair :: others, by simp, ?_, .cons hmember hpairs, by simp, ?_⟩
        · simp [memberTokens_cons body, laterMembers, htokens, htokens']
        · simp only [List.forall_mem_cons, List.forall_mem_append]
          exact ⟨by simp, by simp, hgood, by simp, hgood'⟩
      · exact absurd h (by simp)
    · exact absurd h (by simp)

/-- What is read are the members of an object. -/
theorem ofLexemes_sound {lexemes : List JsonLexeme} {members : List JsonMember}
    (h : ofLexemes lexemes = .ok members) :
    ∃ pairs, lexemes.map token = (JsonValue.object pairs).tokens ∧
      List.Forall₂ Reads members pairs ∧ ∀ l ∈ lexemes, l.token ≠ .bad := by
  -- there is an opening brace, and the members behind it use up all lexemes
  unfold ofLexemes at h
  split at h
  · exact absurd h (by simp)
  rename_i first rest
  split at h
  · rename_i hfirst
    split at h
    · exact absurd h (by simp)
    · rename_i hread
      obtain rfl := Except.ok.inj h
      obtain ⟨eaten, pairs, hrest, htokens, hpairs, -, hgood⟩ := readMembers_sound hread
      rw [List.append_nil] at hrest
      subst hrest
      refine ⟨pairs, ?_, hpairs, ?_⟩
      · rw [List.map_cons, hfirst, htokens, JsonValue.tokens]
      · rw [List.forall_mem_cons, hfirst]
        exact ⟨by simp, hgood⟩
    · exact absurd h (by simp)
  all_goals exact absurd h (by simp)

/-! ## Completeness -/

private theorem readMembers_complete {pairs : List (Text × JsonValue)} {lexemes : List JsonLexeme}
    {fuel : Nat} (required : Bool) (rest : List JsonLexeme)
    (htokens : lexemes.map token = memberTokens pairs ++ [.closeObject])
    (hdepth : ∀ pair ∈ pairs, pair.2.depth ≤ maxDepth) (hrequired : required = true → pairs ≠ [])
    (hfuel : lexemes.length ≤ fuel) :
    ∃ members, readMembers required (lexemes ++ rest) fuel = some (members, rest) ∧
      List.Forall₂ Reads members pairs := by
  induction pairs generalizing required lexemes fuel with
  | nil =>
    obtain ⟨⟨blank, t⟩, rfl, rfl : t = _⟩ := List.map_eq_singleton_iff.mp htokens
    obtain ⟨fuel, rfl⟩ : ∃ n, fuel = n + 1 := Nat.exists_eq_add_one.mpr hfuel
    have hfalse : required = false := by simpa using hrequired
    exact ⟨[], by simp [readMembers, hfalse], .nil⟩
  | cons pair more ih =>
    obtain ⟨body, value⟩ := pair
    obtain ⟨hvalue, hmore⟩ := List.forall_mem_cons.mp hdepth
    rw [memberTokens_cons, List.cons_append, List.cons_append, List.append_assoc] at htokens
    -- the lexemes of the key, of the colon and of the value, and the rest
    obtain ⟨⟨blank₁, t₁⟩, tail, rfl, rfl : t₁ = _, htail⟩ := List.map_eq_cons_iff.mp htokens
    obtain ⟨⟨blank₂, t₂⟩, text, rfl, rfl : t₂ = _, htext⟩ := List.map_eq_cons_iff.mp htail
    obtain ⟨front, back, rfl, hfront, hback⟩ := List.map_eq_append_iff.mp htext
    obtain ⟨fuel, rfl⟩ : ∃ n, fuel = n + 1 := by
      refine Nat.exists_eq_add_one.mpr ?_
      simp only [List.length_cons] at hfuel
      omega
    have hread := read?_append (back ++ rest) hfront hvalue
    have hmember : Reads ⟨JsonString.decode body, value, front⟩ (body, value) :=
      ⟨rfl, rfl, hfront, hvalue⟩
    simp only [List.cons_append, List.append_assoc]
    cases more with
    | nil =>
      obtain ⟨⟨blank, t⟩, rfl, rfl : t = _⟩ := List.map_eq_singleton_iff.mp hback
      refine ⟨[⟨JsonString.decode body, value, front⟩], ?_, .cons hmember .nil⟩
      rw [List.singleton_append] at hread ⊢
      simp only [readMembers, hread]
    | cons next others =>
      obtain ⟨⟨blank, t⟩, after, rfl, rfl : t = _, hafter⟩ := List.map_eq_cons_iff.mp hback
      have hlength : after.length ≤ fuel := by
        simp only [List.length_cons, List.length_append] at hfuel
        omega
      obtain ⟨members, hmembers, hreads⟩ := ih true hafter hmore (by simp) hlength
      refine ⟨⟨JsonString.decode body, value, front⟩ :: members, ?_, .cons hmember hreads⟩
      rw [List.cons_append] at hread ⊢
      simp only [readMembers, hread, hmembers, Option.map_some]

/-- The members of an object are read back from its tokens. -/
theorem ofLexemes_complete {pairs : List (Text × JsonValue)} {lexemes : List JsonLexeme}
    (htokens : lexemes.map token = (JsonValue.object pairs).tokens)
    (hdepth : ∀ pair ∈ pairs, pair.2.depth ≤ maxDepth) :
    ∃ members, ofLexemes lexemes = .ok members ∧ List.Forall₂ Reads members pairs := by
  rw [JsonValue.tokens] at htokens
  obtain ⟨first, rest, rfl, hfirst, hrest⟩ := List.map_eq_cons_iff.mp htokens
  obtain ⟨members, hmembers, hreads⟩ :=
    readMembers_complete false [] hrest hdepth (by simp) (Nat.le_succ rest.length)
  rw [List.append_nil] at hmembers
  refine ⟨members, ?_, hreads⟩
  simp only [ofLexemes, hfirst, hmembers]

/-! ## Objects inside a member -/

/-- An object that was read as the value of a member can be read once more, member by member. -/
theorem Reads.exists_members {m : JsonMember} {body : Text} {pairs : List (Text × JsonValue)}
    (h : m.Reads (body, .object pairs)) :
    ∃ members, ofLexemes m.lexemes = .ok members ∧ List.Forall₂ Reads members pairs := by
  refine ofLexemes_complete h.tokens ?_
  -- the values of the object are nested less deeply than the object
  have hdepth := h.depth
  rw [JsonValue.depth] at hdepth
  exact JsonValue.membersDepth_le_iff.mp (by omega)

/-- The value of a member can be read as an object exactly if it is one. -/
theorem Reads.ofLexemes_eq_ok_iff {m : JsonMember} {pair : Text × JsonValue} (h : m.Reads pair) :
    (∃ members, ofLexemes m.lexemes = .ok members) ↔ ∃ pairs, pair.2 = .object pairs := by
  constructor
  · rintro ⟨members, hmembers⟩
    obtain ⟨pairs, htokens, -, -⟩ := ofLexemes_sound hmembers
    exact ⟨pairs, JsonValue.tokens_injective (h.tokens.symm.trans htokens)⟩
  · obtain ⟨body, value⟩ := pair
    rintro ⟨pairs, rfl⟩
    obtain ⟨members, hmembers, -⟩ := h.exists_members
    exact ⟨members, hmembers⟩

end DependencyAudit.JsonMember
