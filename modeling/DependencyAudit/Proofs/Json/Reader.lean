import DependencyAudit.Json.Value

/-!
# What the reader of values has read

The machine that reads a value keeps the unfinished containers on a stack. The tokens read so
far can be told from the stack alone (`Reader.HasRead`), each container with the comma or the
colon that its next part waits for. Every step keeps this, so a value that is read has exactly
the tokens that were taken.

## Main definitions

* `Reader.openTokens`: the tokens of the unfinished containers;
* `Reader.HasRead`: the tokens from which the machine got into its state;
* `Reader.Bounded`: no container is nested too deeply.

## Main results

* `Reader.hasRead_feed` and `Reader.bounded_feed`: one step keeps both;
* `read?_sound`: a value that is read has the tokens of its lexemes and is not too deep.
-/

namespace DependencyAudit.JsonValue

open JsonLexeme (token)

/-! ## Tokens of lists of values -/

/-- The tokens of some items, each with the comma behind it. -/
def leadingItems (items : List JsonValue) : List JsonToken :=
  items.flatMap fun v => v.tokens ++ [.comma]

/-- The tokens of some members, each with the comma behind it. -/
def leadingMembers (members : List (Text × JsonValue)) : List JsonToken :=
  members.flatMap fun m => .string m.1 :: .colon :: (m.2.tokens ++ [.comma])

/-- The tokens of the items that were read end with a comma. -/
theorem leadingItems_eq {items : List JsonValue} (h : items ≠ []) :
    leadingItems items = itemTokens items ++ [.comma] := by
  induction items with
  | nil => exact absurd rfl h
  | cons v more ih =>
    -- only the last item has no comma of its own
    cases more with
    | nil => simp [leadingItems, itemTokens]
    | cons w more =>
      have ih := ih (by simp)
      simp only [leadingItems, List.flatMap_cons] at ih ⊢
      rw [ih]
      simp [itemTokens]

/-- The tokens of the members that were read end with a comma. -/
theorem leadingMembers_eq {members : List (Text × JsonValue)} (h : members ≠ []) :
    leadingMembers members = memberTokens members ++ [.comma] := by
  induction members with
  | nil => exact absurd rfl h
  | cons m more ih =>
    cases more with
    | nil => simp [leadingMembers, memberTokens]
    | cons w more =>
      have ih := ih (by simp)
      simp only [leadingMembers, List.flatMap_cons] at ih ⊢
      rw [ih]
      simp [memberTokens]

/-! ## Depths -/

/-- The depth of items is the bound of their depths. -/
theorem itemsDepth_le_iff {items : List JsonValue} {n : Nat} :
    itemsDepth items ≤ n ↔ ∀ v ∈ items, v.depth ≤ n := by
  induction items with
  | nil => simp [itemsDepth]
  | cons v more ih => simp only [itemsDepth, Nat.max_le, ih, List.forall_mem_cons]

/-- The depth of members is the bound of the depths of their values. -/
theorem membersDepth_le_iff {members : List (Text × JsonValue)} {n : Nat} :
    membersDepth members ≤ n ↔ ∀ m ∈ members, m.2.depth ≤ n := by
  induction members with
  | nil => simp [membersDepth]
  | cons m more ih => simp only [membersDepth, Nat.max_le, ih, List.forall_mem_cons]

namespace Reader

/-! ## The tokens read so far -/

/-- The tokens of an unfinished container, up to the place of its next part. -/
def frameTokens : Frame → List JsonToken
  | .array items => .openArray :: leadingItems items.reverse
  | .object members => .openObject :: leadingMembers members.reverse
  | .member members key =>
    .openObject :: (leadingMembers members.reverse ++ [.string key, .colon])

/-- The tokens of the unfinished containers, up to the place of the next value. -/
def openTokens : List Frame → List JsonToken
  | [] => []
  | frame :: outer => openTokens outer ++ frameTokens frame

/-- The machine has got into its state by reading `ts`. -/
def HasRead (r : Reader) (ts : List JsonToken) : Prop :=
  match r.expects with
  | .value | .key => ts = openTokens r.stack
  | .firstItem => ts = openTokens r.stack ∧ r.stack.head? = some (.array [])
  | .firstKey => ts = openTokens r.stack ∧ r.stack.head? = some (.object [])
  | .colon => ts ++ [.colon] = openTokens r.stack
  | .more => ts ++ [.comma] = openTokens r.stack
  | .nothing v => ts = v.tokens

theorem hasRead_start : start.HasRead [] := rfl

/-- A finished value adds its tokens to those of the containers around it. -/
theorem hasRead_finish {v : JsonValue} {stack : List Frame} {r : Reader}
    (h : finish v stack = some r) : r.HasRead (openTokens stack ++ v.tokens) := by
  unfold finish at h
  split at h
  · obtain rfl := by simpa using h
    simp [HasRead, openTokens]
  · obtain rfl := by simpa using h
    simp [HasRead, openTokens, frameTokens, leadingItems]
  · obtain rfl := by simpa using h
    simp [HasRead, openTokens, frameTokens, leadingMembers]
  · exact absurd h (by simp)

/-- Whoever enters a frame has read what the frame stands for. -/
theorem hasRead_enter {frame : Frame} {expects : Expects} {stack : List Frame} {r : Reader}
    {ts : List JsonToken} (h : enter frame expects stack = some r)
    (hts : HasRead ⟨frame :: stack, expects⟩ ts) : r.HasRead ts := by
  simp only [enter, Option.ite_none_right_eq_some, Option.some.injEq] at h
  rw [← h.2]
  exact hts

/-- After the first token of a value, what has been read grows by this token. -/
theorem hasRead_startValue {stack : List Frame} {t : JsonToken} {r : Reader}
    (h : startValue stack t = some r) : r.HasRead (openTokens stack ++ [t]) := by
  unfold startValue at h
  split at h
  · exact hasRead_enter h ⟨rfl, rfl⟩
  · exact hasRead_enter h ⟨rfl, rfl⟩
  · exact hasRead_finish h
  · exact hasRead_finish h
  · exact hasRead_finish h
  · exact hasRead_finish h
  · exact absurd h (by simp)

/-- After a key or a closing brace, what has been read grows by this token. -/
theorem hasRead_readKey {stack : List Frame} {t : JsonToken} {r : Reader}
    (h : readKey stack t = some r) : r.HasRead (openTokens stack ++ [t]) := by
  unfold readKey at h
  split at h
  · obtain rfl := by simpa using h
    simp [HasRead, openTokens, frameTokens]
  · exact absurd h (by simp)

/-- The tokens of the finished parts of a container, without what its next part waits for. -/
def partTokens : Frame → List JsonToken
  | .array items => .openArray :: itemTokens items.reverse
  | .object members | .member members _ => .openObject :: memberTokens members.reverse

/-- A frame that is closed leaves the tokens of its value behind. -/
theorem hasRead_close {frame : Frame} {outer : List Frame} {t : JsonToken} {r : Reader}
    (h : close (frame :: outer) t = some r) :
    r.HasRead (openTokens outer ++ partTokens frame ++ [t]) := by
  unfold close at h
  split at h
  · rename_i heq
    obtain ⟨rfl, rfl⟩ := List.cons.inj heq
    simpa [partTokens, tokens] using hasRead_finish h
  · rename_i heq
    obtain ⟨rfl, rfl⟩ := List.cons.inj heq
    simpa [partTokens, tokens] using hasRead_finish h
  · exact absurd h (by simp)

/-- A container that can be closed behind a comma has a part in front of it. -/
theorem partTokens_of_comma {frame : Frame} {outer : List Frame} {ts : List JsonToken}
    {t : JsonToken} {r : Reader} (hclose : close (frame :: outer) t = some r)
    (h : ts ++ [.comma] = openTokens (frame :: outer)) :
    ts = openTokens outer ++ partTokens frame := by
  cases frame with
  | array items =>
    by_cases hitems : items.reverse = []
    · -- an empty array ends in its bracket, not in a comma
      have hlast := congrArg List.getLast? h
      simp [openTokens, frameTokens, leadingItems, hitems] at hlast
    · rw [openTokens, frameTokens, leadingItems_eq hitems, ← List.cons_append,
        ← List.append_assoc] at h
      exact List.append_cancel_right h
  | object members =>
    by_cases hmembers : members.reverse = []
    · have hlast := congrArg List.getLast? h
      simp [openTokens, frameTokens, leadingMembers, hmembers] at hlast
    · rw [openTokens, frameTokens, leadingMembers_eq hmembers, ← List.cons_append,
        ← List.append_assoc] at h
      exact List.append_cancel_right h
  | member members key => simp [close] at hclose

/-! ## Single steps -/

/-- An array that does not end at once goes on with a value. -/
theorem feed_firstItem {stack : List Frame} {t : JsonToken} (ht : t ≠ .closeArray) :
    feed ⟨stack, .firstItem⟩ t = startValue stack t := by
  cases t with
  | closeArray => exact absurd rfl ht
  | _ => rfl

/-- An object that does not end at once goes on with a key. -/
theorem feed_firstKey {stack : List Frame} {t : JsonToken} (ht : t ≠ .closeObject) :
    feed ⟨stack, .firstKey⟩ t = readKey stack t := by
  cases t with
  | closeObject => exact absurd rfl ht
  | _ => rfl

/-- Behind a key there is a colon. -/
theorem feed_colon {stack : List Frame} {t : JsonToken} {r : Reader}
    (h : feed ⟨stack, .colon⟩ t = some r) : t = .colon ∧ r = ⟨stack, .value⟩ := by
  cases t with
  | colon => exact ⟨rfl, (Option.some.inj h).symm⟩
  | _ => exact absurd h (by simp [feed])

/-- Behind a part, a container goes on with a comma or ends. -/
theorem feed_more {stack : List Frame} {t : JsonToken} {r : Reader}
    (h : feed ⟨stack, .more⟩ t = some r) :
    (t = .comma ∧ (r = ⟨stack, .value⟩ ∨ r = ⟨stack, .key⟩)) ∨ close stack t = some r := by
  cases t with
  | comma =>
    refine Or.inl ⟨rfl, ?_⟩
    simp only [feed] at h
    split at h
    · exact Or.inl (Option.some.inj h).symm
    · exact Or.inr (Option.some.inj h).symm
    · exact absurd h (by simp)
  | _ => exact Or.inr h

/-- One token is added to those read so far. -/
theorem hasRead_feed {r r' : Reader} {t : JsonToken} {ts : List JsonToken} (hr : r.HasRead ts)
    (h : r.feed t = some r') : r'.HasRead (ts ++ [t]) := by
  -- by what the machine expects next
  obtain ⟨stack, expects⟩ := r
  cases expects with
  | value =>
    obtain rfl : ts = openTokens stack := hr
    exact hasRead_startValue h
  | firstItem =>
    obtain ⟨rfl, hhead⟩ := hr
    obtain ⟨outer, rfl⟩ := List.head?_eq_some_iff.mp hhead
    by_cases ht : t = .closeArray
    · subst ht
      have hclose : close (.array [] :: outer) .closeArray = some r' := h
      simpa [openTokens, frameTokens, partTokens, leadingItems, itemTokens] using
        hasRead_close hclose
    · rw [feed_firstItem ht] at h
      exact hasRead_startValue h
  | firstKey =>
    obtain ⟨rfl, hhead⟩ := hr
    obtain ⟨outer, rfl⟩ := List.head?_eq_some_iff.mp hhead
    by_cases ht : t = .closeObject
    · subst ht
      have hclose : close (.object [] :: outer) .closeObject = some r' := h
      simpa [openTokens, frameTokens, partTokens, leadingMembers, memberTokens] using
        hasRead_close hclose
    · rw [feed_firstKey ht] at h
      exact hasRead_readKey h
  | key =>
    obtain rfl : ts = openTokens stack := hr
    exact hasRead_readKey h
  | colon =>
    obtain ⟨rfl, rfl⟩ := feed_colon h
    exact hr
  | more =>
    rcases feed_more h with ⟨rfl, hcomma⟩ | hclose
    · rcases hcomma with rfl | rfl <;> exact hr
    · -- the comma that the next part waits for is not read
      cases stack with
      | nil => exact absurd hclose (by simp [close])
      | cons frame outer =>
        rw [partTokens_of_comma hclose hr]
        exact hasRead_close hclose
  | nothing v => exact absurd h (by simp [feed])

/-- No state goes on with a bad token. -/
theorem feed_bad (r : Reader) : r.feed .bad = none := by
  obtain ⟨stack, expects⟩ := r
  cases expects with
  | value | firstItem | nothing | colon => rfl
  | firstKey | key | more =>
    cases stack with
    | nil => rfl
    | cons frame outer => cases frame <;> rfl

/-! ## Nesting -/

/-- The finished parts of an unfinished container. -/
def frameParts : Frame → List JsonValue
  | .array items => items
  | .object members | .member members _ => members.map (·.2)

/-- No container of the stack, finished or not, is nested too deeply. -/
def StackBounded : List Frame → Prop
  | [] => True
  | frame :: outer =>
    outer.length < maxDepth ∧ (∀ v ∈ frameParts frame, v.depth + outer.length < maxDepth) ∧
      StackBounded outer

/-- No container that the machine has seen is nested too deeply. -/
def Bounded (r : Reader) : Prop :=
  StackBounded r.stack ∧ ∀ v, r.expects = .nothing v → v.depth ≤ maxDepth

/-- The reader starts at depth zero. -/
theorem bounded_start : start.Bounded :=
  ⟨trivial, fun _ h => absurd h (by simp [start])⟩

/-- A stack that is bounded is no higher than the limit. -/
theorem StackBounded.length_le {stack : List Frame} (h : StackBounded stack) :
    stack.length ≤ maxDepth := by
  cases stack with
  | nil => exact Nat.zero_le _
  | cons frame outer => exact h.1

/-- A value that fits on top of the stack can be handed to the frame below it. -/
theorem bounded_finish {v : JsonValue} {stack : List Frame} {r : Reader}
    (hstack : StackBounded stack) (hv : v.depth + stack.length ≤ maxDepth)
    (h : finish v stack = some r) : r.Bounded := by
  unfold finish at h
  split at h
  · obtain rfl := by simpa using h
    refine ⟨trivial, fun w hw => ?_⟩
    obtain rfl := by simpa using hw
    exact hv
  -- the value becomes one more part of the container around it
  · obtain rfl := by simpa using h
    obtain ⟨hlength, hparts, houter⟩ := hstack
    refine ⟨⟨hlength, ?_, houter⟩, fun w hw => absurd hw (by simp)⟩
    exact List.forall_mem_cons.mpr ⟨hv, hparts⟩
  · obtain rfl := by simpa using h
    obtain ⟨hlength, hparts, houter⟩ := hstack
    refine ⟨⟨hlength, ?_, houter⟩, fun w hw => absurd hw (by simp)⟩
    exact List.forall_mem_cons.mpr ⟨hv, hparts⟩
  · exact absurd h (by simp)

/-- The first token of a value keeps the reader within the limit. -/
theorem bounded_startValue {stack : List Frame} {t : JsonToken} {r : Reader}
    (hstack : StackBounded stack) (h : startValue stack t = some r) : r.Bounded := by
  have hscalar : ∀ v : JsonValue, v.depth = 0 → v.depth + stack.length ≤ maxDepth := by
    intro v hv
    rw [hv, Nat.zero_add]
    exact hstack.length_le
  unfold startValue at h
  split at h
  · simp only [enter, Option.ite_none_right_eq_some, Option.some.injEq] at h
    obtain ⟨hlength, rfl⟩ := h
    exact ⟨⟨hlength, by simp [frameParts], hstack⟩, fun w hw => absurd hw (by simp)⟩
  · simp only [enter, Option.ite_none_right_eq_some, Option.some.injEq] at h
    obtain ⟨hlength, rfl⟩ := h
    exact ⟨⟨hlength, by simp [frameParts], hstack⟩, fun w hw => absurd hw (by simp)⟩
  · exact bounded_finish hstack (hscalar _ rfl) h
  · exact bounded_finish hstack (hscalar _ rfl) h
  · exact bounded_finish hstack (hscalar _ rfl) h
  · exact bounded_finish hstack (hscalar _ rfl) h
  · exact absurd h (by simp)

/-- A key or a closing brace keeps the reader within the limit. -/
theorem bounded_readKey {stack : List Frame} {t : JsonToken} {r : Reader}
    (hstack : StackBounded stack) (h : readKey stack t = some r) : r.Bounded := by
  unfold readKey at h
  split at h
  · obtain rfl := by simpa using h
    exact ⟨hstack, fun w hw => absurd hw (by simp)⟩
  · exact absurd h (by simp)

/-- Closing a frame keeps the reader within the limit. -/
theorem bounded_close {stack : List Frame} {t : JsonToken} {r : Reader}
    (hstack : StackBounded stack) (h : close stack t = some r) : r.Bounded := by
  unfold close at h
  split at h
  -- the finished container is one level deeper than its deepest part
  · rename_i items outer
    obtain ⟨hlength, hparts, houter⟩ := hstack
    have hdepth : itemsDepth items.reverse ≤ maxDepth - outer.length - 1 :=
      itemsDepth_le_iff.mpr fun v hv => by
        have := hparts v (List.mem_reverse.mp hv)
        omega
    refine bounded_finish houter ?_ h
    simp only [depth]
    omega
  · rename_i members outer
    obtain ⟨hlength, hparts, houter⟩ := hstack
    have hdepth : membersDepth members.reverse ≤ maxDepth - outer.length - 1 :=
      membersDepth_le_iff.mpr fun m hm => by
        have := hparts m.2 (List.mem_map_of_mem (List.mem_reverse.mp hm))
        omega
    refine bounded_finish houter ?_ h
    simp only [depth]
    omega
  · exact absurd h (by simp)

/-- Nesting stays bounded from step to step. -/
theorem bounded_feed {r r' : Reader} {t : JsonToken} (hr : r.Bounded)
    (h : r.feed t = some r') : r'.Bounded := by
  obtain ⟨stack, expects⟩ := r
  obtain ⟨hstack, -⟩ := hr
  -- by what the reader expects; only a token that opens a value adds to the nesting
  cases expects with
  | value => exact bounded_startValue hstack h
  | firstItem =>
    by_cases ht : t = .closeArray
    · subst ht
      exact bounded_close hstack h
    · rw [feed_firstItem ht] at h
      exact bounded_startValue hstack h
  | firstKey =>
    by_cases ht : t = .closeObject
    · subst ht
      exact bounded_close hstack h
    · rw [feed_firstKey ht] at h
      exact bounded_readKey hstack h
  | key => exact bounded_readKey hstack h
  | colon =>
    obtain ⟨rfl, rfl⟩ := feed_colon h
    exact ⟨hstack, fun w hw => absurd hw (by simp)⟩
  | more =>
    rcases feed_more h with ⟨rfl, rfl | rfl⟩ | hclose
    · exact ⟨hstack, fun w hw => absurd hw (by simp)⟩
    · exact ⟨hstack, fun w hw => absurd hw (by simp)⟩
    · exact bounded_close hstack hclose
  | nothing v => exact absurd h (by simp [feed])

/-! ## Whole runs -/

/-- A run takes the lexemes of its value from the front, and the value has their tokens behind
those read before. -/
theorem run_sound {r : Reader} {ts : List JsonToken} {eaten lexemes used rest : List JsonLexeme}
    {v : JsonValue} (hr : r.HasRead ts) (hb : r.Bounded)
    (h : r.run eaten lexemes = some (v, used, rest)) :
    ∃ taken, lexemes = taken ++ rest ∧ used = eaten.reverse ++ taken ∧
      v.tokens = ts ++ taken.map token ∧ v.depth ≤ maxDepth ∧ ∀ l ∈ taken, l.token ≠ .bad := by
  -- both invariants hold of the state behind each lexeme
  induction lexemes generalizing r ts eaten with
  | nil => exact absurd h (by simp [run])
  | cons l more ih =>
    unfold run at h
    split at h
    · exact absurd h (by simp)
    rename_i r' hfeed
    have hr' := hasRead_feed hr hfeed
    have hb' := bounded_feed hb hfeed
    have hbad : l.token ≠ .bad := by
      intro hl
      rw [hl, feed_bad] at hfeed
      exact absurd hfeed (by simp)
    split at h
    · -- the value is complete
      rename_i w hexpects
      obtain ⟨rfl, rfl, rfl⟩ := by simpa using h
      refine ⟨[l], rfl, by simp, ?_, hb'.2 w hexpects, by simpa using hbad⟩
      simp only [HasRead, hexpects] at hr'
      simpa using hr'.symm
    · obtain ⟨taken, rfl, rfl, htokens, hdepth, hgood⟩ := ih hr' hb' h
      refine ⟨l :: taken, rfl, by simp, by simpa using htokens, hdepth, ?_⟩
      exact List.forall_mem_cons.mpr ⟨hbad, hgood⟩

end Reader

/-- A value that is read has the tokens of the lexemes that it was read from, and it is not
nested too deeply. -/
theorem read?_sound {lexemes eaten rest : List JsonLexeme} {v : JsonValue}
    (h : read? lexemes = some (v, eaten, rest)) :
    lexemes = eaten ++ rest ∧ v.tokens = eaten.map token ∧ v.depth ≤ Reader.maxDepth ∧
      ∀ l ∈ eaten, l.token ≠ .bad := by
  obtain ⟨taken, hsplit, rfl, htokens, hdepth, hgood⟩ :=
    Reader.run_sound Reader.hasRead_start Reader.bounded_start h
  simp only [List.nil_append] at htokens ⊢
  exact ⟨hsplit, htokens, hdepth, hgood⟩

end DependencyAudit.JsonValue
