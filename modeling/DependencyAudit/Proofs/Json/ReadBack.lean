import DependencyAudit.Proofs.Json.Reader

/-!
# Reading values back from their tokens

The converse of `read?_sound`: lexemes with the tokens of a value that is not nested too deeply
are read as that value.

## Main results

* `Reader.run_tokens`: from any stack, the machine reads a value from its tokens;
* `read?_append`: a value is read back from the front of some lexemes;
* `tokens_injective`: the tokens of a value determine it, however deep it is.
-/

namespace DependencyAudit.JsonValue

open JsonLexeme (token)

/-- The tokens of the items behind the first one. -/
def laterItems : List JsonValue → List JsonToken
  | [] => []
  | v :: more => .comma :: itemTokens (v :: more)

/-- The tokens of items are those of the first and of the later ones. -/
theorem itemTokens_cons (v : JsonValue) (more : List JsonValue) :
    itemTokens (v :: more) = v.tokens ++ laterItems more := by
  cases more <;> simp [itemTokens, laterItems]

/-- The tokens of the members behind the first one. -/
def laterMembers : List (Text × JsonValue) → List JsonToken
  | [] => []
  | m :: more => .comma :: memberTokens (m :: more)

/-- The tokens of members are those of the first and of the later ones. -/
theorem memberTokens_cons (key : Text) (v : JsonValue) (more : List (Text × JsonValue)) :
    memberTokens ((key, v) :: more) =
      .string key :: .colon :: (v.tokens ++ laterMembers more) := by
  cases more <;> simp [memberTokens, laterMembers]

namespace Reader

/-- Goes on behind a step, unless the value is complete by then. -/
def resume (r : Option Reader) (eaten rest : List JsonLexeme) :
    Option (JsonValue × List JsonLexeme × List JsonLexeme) :=
  match r with
  | none => none
  | some r =>
    match r.expects with
    | .nothing v => some (v, eaten.reverse, rest)
    | _ => r.run eaten rest

theorem run_cons (r : Reader) (eaten rest : List JsonLexeme) (l : JsonLexeme) :
    r.run eaten (l :: rest) = resume (r.feed l.token) (l :: eaten) rest := rfl

/-- A bracket opens an empty list, if there is depth left. -/
theorem run_openArray {stack : List Frame} {eaten rest : List JsonLexeme} {l : JsonLexeme}
    (hl : l.token = .openArray) (h : stack.length < maxDepth) :
    run ⟨stack, .value⟩ eaten (l :: rest) =
      run ⟨.array [] :: stack, .firstItem⟩ (l :: eaten) rest := by
  have hfeed : feed ⟨stack, .value⟩ .openArray = some ⟨.array [] :: stack, .firstItem⟩ := if_pos h
  rw [run_cons, hl, hfeed]
  rfl

/-- A brace opens an empty object, if there is depth left. -/
theorem run_openObject {stack : List Frame} {eaten rest : List JsonLexeme} {l : JsonLexeme}
    (hl : l.token = .openObject) (h : stack.length < maxDepth) :
    run ⟨stack, .value⟩ eaten (l :: rest) =
      run ⟨.object [] :: stack, .firstKey⟩ (l :: eaten) rest := by
  have hfeed : feed ⟨stack, .value⟩ .openObject = some ⟨.object [] :: stack, .firstKey⟩ := if_pos h
  rw [run_cons, hl, hfeed]
  rfl

/-- At the first item of an array, the machine reads a value as anywhere else. -/
theorem run_firstItem {stack : List Frame} {eaten lexemes rest : List JsonLexeme}
    {t : JsonToken} {ts : List JsonToken} (h : lexemes.map token = t :: ts)
    (ht : t ≠ .closeArray) :
    run ⟨stack, .firstItem⟩ eaten (lexemes ++ rest) =
      run ⟨stack, .value⟩ eaten (lexemes ++ rest) := by
  obtain ⟨l, tail, rfl, rfl, -⟩ := List.map_eq_cons_iff.mp h
  rw [List.cons_append, run_cons, run_cons, feed_firstItem ht]
  rfl

/-- At the first key of an object, the machine reads a key as anywhere else. -/
theorem run_firstKey {stack : List Frame} {eaten lexemes rest : List JsonLexeme}
    {t : JsonToken} {ts : List JsonToken} (h : lexemes.map token = t :: ts)
    (ht : t ≠ .closeObject) :
    run ⟨stack, .firstKey⟩ eaten (lexemes ++ rest) =
      run ⟨stack, .key⟩ eaten (lexemes ++ rest) := by
  obtain ⟨l, tail, rfl, rfl, -⟩ := List.map_eq_cons_iff.mp h
  rw [List.cons_append, run_cons, run_cons, feed_firstKey ht]
  rfl

/-- The tokens of a value do not begin with the end of an array. -/
theorem exists_tokens_cons (v : JsonValue) : ∃ t ts, v.tokens = t :: ts ∧ t ≠ .closeArray := by
  cases v with
  | null | bool | number | string | array | object =>
    rw [tokens]
    exact ⟨_, _, rfl, by simp⟩

-- the lists of items and members are in the middle of their container when the induction
-- reaches them, so both statements carry the parts that are done

mutual

/-- The machine reads a value from its tokens and puts it where it belongs. -/
theorem run_tokens (v : JsonValue) (stack : List Frame) (eaten lexemes rest : List JsonLexeme)
    (htokens : lexemes.map token = v.tokens) (hdepth : v.depth + stack.length ≤ maxDepth) :
    run ⟨stack, .value⟩ eaten (lexemes ++ rest) =
      resume (finish v stack) (lexemes.reverse ++ eaten) rest := by
  match v with
  | .null | .bool _ | .number _ | .string _ =>
    rw [tokens] at htokens
    obtain ⟨l, rfl, hl⟩ := List.map_eq_singleton_iff.mp htokens
    rw [List.singleton_append, run_cons, hl]
    rfl
  | .array [] =>
    simp only [tokens, itemTokens, List.nil_append] at htokens
    simp only [depth, itemsDepth] at hdepth
    obtain ⟨l, tail, rfl, hl, htail⟩ := List.map_eq_cons_iff.mp htokens
    obtain ⟨l', rfl, hl'⟩ := List.map_eq_singleton_iff.mp htail
    rw [List.cons_append, run_openArray hl (by omega), List.singleton_append, run_cons, hl']
    rfl
  | .array (w :: more) =>
    rw [tokens] at htokens
    rw [depth] at hdepth
    obtain ⟨l, tail, rfl, hl, htail⟩ := List.map_eq_cons_iff.mp htokens
    obtain ⟨t, ts, hfirst, ht⟩ := exists_tokens_cons w
    -- the first token is not the end of the array, so an item is read
    have hhead : tail.map token = t :: (ts ++ (laterItems more ++ [.closeArray])) := by
      rw [htail, itemTokens_cons, hfirst, List.append_assoc, List.cons_append]
    have hitems := run_items w more [] stack (l :: eaten) tail rest htail (by omega)
    rw [List.cons_append, run_openArray hl (by omega), run_firstItem hhead ht, hitems]
    simp
  | .object [] =>
    simp only [tokens, memberTokens, List.nil_append] at htokens
    simp only [depth, membersDepth] at hdepth
    obtain ⟨l, tail, rfl, hl, htail⟩ := List.map_eq_cons_iff.mp htokens
    obtain ⟨l', rfl, hl'⟩ := List.map_eq_singleton_iff.mp htail
    rw [List.cons_append, run_openObject hl (by omega), List.singleton_append, run_cons, hl']
    rfl
  | .object ((key, w) :: more) =>
    rw [tokens] at htokens
    rw [depth] at hdepth
    obtain ⟨l, tail, rfl, hl, htail⟩ := List.map_eq_cons_iff.mp htokens
    have hhead := htail
    rw [memberTokens_cons, List.cons_append] at hhead
    have hmembers := run_members key w more [] stack (l :: eaten) tail rest htail (by omega)
    rw [List.cons_append, run_openObject hl (by omega), run_firstKey hhead (by simp), hmembers]
    simp
termination_by sizeOf v

/-- The machine reads the rest of an array, up to its end. -/
theorem run_items (v : JsonValue) (more done : List JsonValue) (outer : List Frame)
    (eaten lexemes rest : List JsonLexeme)
    (htokens : lexemes.map token = itemTokens (v :: more) ++ [.closeArray])
    (hdepth : itemsDepth (v :: more) + outer.length < maxDepth) :
    run ⟨.array done :: outer, .value⟩ eaten (lexemes ++ rest) =
      resume (finish (.array (done.reverse ++ v :: more)) outer) (lexemes.reverse ++ eaten)
        rest := by
  rw [itemTokens_cons, List.append_assoc] at htokens
  rw [itemsDepth] at hdepth
  obtain ⟨front, back, rfl, hfront, hback⟩ := List.map_eq_append_iff.mp htokens
  -- the first item, and then the end or a comma
  have hv := run_tokens v (.array done :: outer) eaten front (back ++ rest) hfront
    (by simp only [List.length_cons]; omega)
  rw [List.append_assoc, hv]
  change run ⟨.array (v :: done) :: outer, .more⟩ _ _ = _
  rcases hmore : more with _ | ⟨w, others⟩
  · rw [hmore] at hback
    obtain ⟨l, rfl, hl⟩ := List.map_eq_singleton_iff.mp hback
    rw [List.singleton_append, run_cons, hl]
    change resume (finish (.array (v :: done).reverse) outer) _ _ = _
    simp
  · rw [hmore] at hback hdepth
    obtain ⟨l, tail, rfl, hl, htail⟩ := List.map_eq_cons_iff.mp hback
    have hitems := run_items w others (v :: done) outer (l :: (front.reverse ++ eaten)) tail rest
      htail (by omega)
    rw [List.cons_append, run_cons, hl]
    change run ⟨.array (v :: done) :: outer, .value⟩ _ _ = _
    rw [hitems]
    simp
termination_by sizeOf (v :: more)
decreasing_by
  · simp only [List.cons.sizeOf_spec]
    omega
  · rw [hmore]
    simp only [List.cons.sizeOf_spec]
    omega

/-- The machine reads the rest of an object, up to its end. -/
theorem run_members (key : Text) (v : JsonValue) (more done : List (Text × JsonValue))
    (outer : List Frame) (eaten lexemes rest : List JsonLexeme)
    (htokens : lexemes.map token = memberTokens ((key, v) :: more) ++ [.closeObject])
    (hdepth : membersDepth ((key, v) :: more) + outer.length < maxDepth) :
    run ⟨.object done :: outer, .key⟩ eaten (lexemes ++ rest) =
      resume (finish (.object (done.reverse ++ (key, v) :: more)) outer)
        (lexemes.reverse ++ eaten) rest := by
  rw [memberTokens_cons, List.cons_append, List.cons_append, List.append_assoc] at htokens
  rw [membersDepth] at hdepth
  -- the lexemes of the key, of the colon and of the value, and the rest
  obtain ⟨l₁, tail, rfl, hl₁, htail⟩ := List.map_eq_cons_iff.mp htokens
  obtain ⟨l₂, body, rfl, hl₂, hbody⟩ := List.map_eq_cons_iff.mp htail
  obtain ⟨front, back, rfl, hfront, hback⟩ := List.map_eq_append_iff.mp hbody
  have hv := run_tokens v (.member done key :: outer) (l₂ :: l₁ :: eaten) front (back ++ rest)
    hfront (by simp only [List.length_cons]; omega)
  rw [List.cons_append, run_cons, hl₁]
  change run ⟨.member done key :: outer, .colon⟩ _ _ = _
  rw [List.cons_append, run_cons, hl₂]
  change run ⟨.member done key :: outer, .value⟩ _ _ = _
  rw [List.append_assoc, hv]
  change run ⟨.object ((key, v) :: done) :: outer, .more⟩ _ _ = _
  rcases hmore : more with _ | ⟨⟨key', w⟩, others⟩
  · rw [hmore] at hback
    obtain ⟨l, rfl, hl⟩ := List.map_eq_singleton_iff.mp hback
    rw [List.singleton_append, run_cons, hl]
    change resume (finish (.object ((key, v) :: done).reverse) outer) _ _ = _
    simp
  · rw [hmore] at hback hdepth
    obtain ⟨l, tail, rfl, hl, htail⟩ := List.map_eq_cons_iff.mp hback
    have hmembers := run_members key' w others ((key, v) :: done) outer
      (l :: (front.reverse ++ l₂ :: l₁ :: eaten)) tail rest htail (by omega)
    rw [List.cons_append, run_cons, hl]
    change run ⟨.object ((key, v) :: done) :: outer, .key⟩ _ _ = _
    rw [hmembers]
    simp
termination_by sizeOf ((key, v) :: more)
decreasing_by
  · simp only [List.cons.sizeOf_spec, Prod.mk.sizeOf_spec]
    omega
  · rw [hmore]
    simp only [List.cons.sizeOf_spec, Prod.mk.sizeOf_spec]
    omega

end

end Reader

/-- A value is read back from lexemes with its tokens, whatever follows them. -/
theorem read?_append {v : JsonValue} {lexemes : List JsonLexeme} (rest : List JsonLexeme)
    (htokens : lexemes.map token = v.tokens) (hdepth : v.depth ≤ Reader.maxDepth) :
    read? (lexemes ++ rest) = some (v, lexemes, rest) := by
  have hrun := Reader.run_tokens v [] [] lexemes rest htokens (by simpa using hdepth)
  rw [read?, Reader.start, hrun]
  simp [Reader.finish, Reader.resume]

/-! ## Tokens determine the value -/

-- the values are compared from the front, so whatever follows them is part of the statement

mutual

/-- No value is a proper beginning of another. -/
theorem tokens_append_inj (v w : JsonValue) (s t : List JsonToken)
    (h : v.tokens ++ s = w.tokens ++ t) : v = w ∧ s = t := by
  -- the first token tells the kind of the value
  match v, w with
  | .array vs, .array ws =>
    simp only [tokens, List.cons_append, List.append_assoc, List.nil_append, List.cons.injEq,
      true_and] at h
    obtain ⟨rfl, rfl⟩ := itemTokens_append_inj vs ws s t h
    exact ⟨rfl, rfl⟩
  | .object vs, .object ws =>
    simp only [tokens, List.cons_append, List.append_assoc, List.nil_append, List.cons.injEq,
      true_and] at h
    obtain ⟨rfl, rfl⟩ := memberTokens_append_inj vs ws s t h
    exact ⟨rfl, rfl⟩
  | .null, w => cases w <;> simp_all [tokens]
  | .bool b, w => cases w <;> simp_all [tokens]
  | .number source, w => cases w <;> simp_all [tokens]
  | .string body, w => cases w <;> simp_all [tokens]
  | .array vs, .null | .array vs, .bool _ | .array vs, .number _ | .array vs, .string _
  | .array vs, .object _ => simp [tokens] at h
  | .object vs, .null | .object vs, .bool _ | .object vs, .number _ | .object vs, .string _
  | .object vs, .array _ => simp [tokens] at h
termination_by sizeOf v

/-- Items can be read off their tokens, whatever follows the bracket. -/
theorem itemTokens_append_inj (vs ws : List JsonValue) (s t : List JsonToken)
    (h : itemTokens vs ++ .closeArray :: s = itemTokens ws ++ .closeArray :: t) :
    vs = ws ∧ s = t := by
  match vs, ws with
  | [], [] => simpa [itemTokens] using h
  | [], w :: ws =>
    obtain ⟨first, more, hfirst, hne⟩ := Reader.exists_tokens_cons w
    rw [itemTokens_cons, hfirst] at h
    exact absurd (List.cons.inj h).1.symm hne
  | v :: vs, [] =>
    obtain ⟨first, more, hfirst, hne⟩ := Reader.exists_tokens_cons v
    rw [itemTokens_cons, hfirst] at h
    exact absurd (List.cons.inj h).1 hne
  | v :: vs, w :: ws =>
    rw [itemTokens_cons, itemTokens_cons, List.append_assoc, List.append_assoc] at h
    obtain ⟨rfl, hlater⟩ := tokens_append_inj v w _ _ h
    -- a comma on one side and the end on the other cannot be
    rcases hvs : vs with _ | ⟨v', vs'⟩ <;> rcases ws with _ | ⟨w', ws'⟩
    all_goals simp only [hvs, laterItems, List.nil_append, List.cons_append, List.cons.injEq,
      reduceCtorEq, true_and, false_and] at hlater
    · exact ⟨rfl, hlater⟩
    · obtain ⟨hrest, rfl⟩ := itemTokens_append_inj (v' :: vs') (w' :: ws') s t hlater
      exact ⟨by rw [hrest], rfl⟩
termination_by sizeOf vs
decreasing_by
  · simp only [List.cons.sizeOf_spec]
    omega
  · subst hvs
    simp only [List.cons.sizeOf_spec]
    omega

/-- Members can be read off their tokens, whatever follows the brace. -/
theorem memberTokens_append_inj (vs ws : List (Text × JsonValue)) (s t : List JsonToken)
    (h : memberTokens vs ++ .closeObject :: s = memberTokens ws ++ .closeObject :: t) :
    vs = ws ∧ s = t := by
  match vs, ws with
  | [], [] => simpa [memberTokens] using h
  | [], (key, w) :: ws => simp [memberTokens] at h
  | (key, v) :: vs, [] => simp [memberTokens] at h
  | (key, v) :: vs, (key', w) :: ws =>
    simp only [memberTokens_cons, List.cons_append, List.append_assoc, List.cons.injEq,
      JsonToken.string.injEq, true_and] at h
    obtain ⟨rfl, h⟩ := h
    obtain ⟨rfl, hlater⟩ := tokens_append_inj v w _ _ h
    rcases hvs : vs with _ | ⟨v', vs'⟩ <;> rcases ws with _ | ⟨w', ws'⟩
    all_goals simp only [hvs, laterMembers, List.nil_append, List.cons_append, List.cons.injEq,
      reduceCtorEq, true_and, false_and] at hlater
    · exact ⟨rfl, hlater⟩
    · obtain ⟨hrest, rfl⟩ := memberTokens_append_inj (v' :: vs') (w' :: ws') s t hlater
      exact ⟨by rw [hrest], rfl⟩
termination_by sizeOf vs
decreasing_by
  · simp only [List.cons.sizeOf_spec, Prod.mk.sizeOf_spec]
    omega
  · subst hvs
    simp only [List.cons.sizeOf_spec, Prod.mk.sizeOf_spec]
    omega

end

/-- Values with the same tokens are the same. -/
theorem tokens_injective {v w : JsonValue} (h : v.tokens = w.tokens) : v = w :=
  (tokens_append_inj v w [] [] (by rw [h])).1

end DependencyAudit.JsonValue
