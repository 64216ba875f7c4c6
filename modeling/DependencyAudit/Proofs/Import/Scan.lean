import DependencyAudit.Import.Declaration

/-!
# Searching a text for matches

`findAll` walks over a text once. What it finds in a text that is put together from pieces is
put together from what it finds in them: nothing where the pattern fits at no place of the
piece, and one match where a piece is the match, after which the walk goes on behind the piece.
Whatever is found in a piece, the walk begins anew behind it unless a match goes beyond its end.

## Main definitions

* `places`: the matches as a list that grows from the front;
* `Silent`: a pattern fits at no place of a piece;
* `Confined`: no match that begins in a piece goes beyond its end.

## Main results

* `findAll_eq_places`: the walk with its annotations in step with the text;
* `exists_match_of_mem_places`: what is found is a match somewhere in the text;
* `places_silent` and `places_match`: passing over a piece;
* `places_confined`: what is found behind a piece does not depend on the matches in it;
* `mem_places_of_confined`: a match is found unless an earlier one reaches into it;
* `places_of_total`: a match that takes the rest of the text is the last one.
-/

namespace DependencyAudit.Import

variable {α : Type} {g : Text → Option (α × Nat)}

/-- The matches of a pattern from one place of a text on, each with its offset. -/
def places (g : Text → Option (α × Nat)) :
    Text → (offset : Nat) → (inWord : Bool) → (skip : Nat) → List (Nat × α)
  | [], _, _, _ => []
  | b :: rest, offset, _, skip + 1 => places g rest (offset + 1) (isWordByte b) skip
  | b :: rest, offset, inWord, 0 =>
    match if inWord then none else g (b :: rest) with
    | some (a, size) => (offset, a) :: places g rest (offset + 1) (isWordByte b) (size - 1)
    | none => places g rest (offset + 1) (isWordByte b) 0

/-- The loop finds what stands at the places. -/
private theorem go_eq_places {ν : Type} (f : Text → List ν → Option (α × Nat))
    (notes : Text → List ν) (hnotes : ∀ b rest, (notes (b :: rest)).tail = notes rest)
    (text : Text) (offset : Nat) (inWord : Bool) (skip : Nat) (found : List (Nat × α)) :
    findAll.go f text (notes text) offset inWord skip found =
      found.reverse ++ places (fun t => f t (notes t)) text offset inWord skip := by
  -- the walk keeps what it has found in reverse
  induction text generalizing offset inWord skip found with
  | nil => simp [findAll.go, places]
  | cons b rest ih =>
    cases skip with
    | succ skip => rw [findAll.go, hnotes, ih, places]
    | zero =>
      rw [findAll.go, places, hnotes]
      cases hmatch : if inWord then none else f (b :: rest) (notes (b :: rest)) with
      | none => simp [ih]
      | some result => simp [ih]

/-- When the annotations are read off the text behind each place, they can be left out. -/
theorem findAll_eq_places {ν : Type} (f : Text → List ν → Option (α × Nat))
    (notes : Text → List ν) (hnotes : ∀ b rest, (notes (b :: rest)).tail = notes rest)
    (text : Text) :
    findAll f text (notes text) = places (fun t => f t (notes t)) text 0 false 0 :=
  go_eq_places f notes hnotes text 0 false 0 []

/-- What is found is a match at some place of the text. -/
theorem exists_match_of_mem_places {text : Text} {offset : Nat} {inWord : Bool} {skip : Nat}
    {place : Nat × α} (h : place ∈ places g text offset inWord skip) :
    ∃ front back size, text = front ++ back ∧ g back = some (place.2, size) := by
  induction text generalizing offset inWord skip with
  | nil => exact absurd h (by simp [places])
  | cons b rest ih =>
    -- a place in the rest of the text is one of the text
    have hlater : ∀ {offset' : Nat} {inWord' : Bool} {skip' : Nat},
        place ∈ places g rest offset' inWord' skip' →
        ∃ front back size, b :: rest = front ++ back ∧ g back = some (place.2, size) := by
      intro offset' inWord' skip' hrest
      obtain ⟨front, back, size, rfl, hmatch⟩ := ih hrest
      exact ⟨b :: front, back, size, rfl, hmatch⟩
    -- a byte that a match has covered is no place
    cases skip with
    | succ skip => exact hlater h
    | zero =>
      rw [places] at h
      split at h
      · rename_i a size hmatch
        rcases List.mem_cons.mp h with rfl | h
        · refine ⟨[], b :: rest, size, rfl, ?_⟩
          cases inWord with
          | true => cases hmatch
          | false => exact hmatch
        · exact hlater h
      · exact hlater h

/-! ## Pieces in which nothing is found -/

/-- The pattern fits at no place of `piece` when `rest` comes behind it. -/
def Silent (g : Text → Option (α × Nat)) (piece rest : Text) : Prop :=
  ∀ before after, piece = before ++ after → after ≠ [] → g (after ++ rest) = none

theorem Silent.nil (rest : Text) : Silent g [] rest := by
  intro before after h hne
  exact absurd (List.append_eq_nil_iff.mp h.symm).2 hne

/-- A pattern is silent over a byte more, if it does not match there. -/
theorem Silent.cons {b : UInt8} {piece rest : Text} (hhere : g (b :: (piece ++ rest)) = none)
    (hmore : Silent g piece rest) : Silent g (b :: piece) rest := by
  intro before after h hne
  cases before with
  | nil =>
    obtain rfl : b :: piece = after := h
    exact hhere
  | cons c before => exact hmore before after (List.cons.inj h).2 hne

/-- A pattern that is silent over two pieces is silent over both together. -/
theorem Silent.append {p q rest : Text} (hp : Silent g p (q ++ rest)) (hq : Silent g q rest) :
    Silent g (p ++ q) rest := by
  induction p with
  | nil => exact hq
  | cons b p ih =>
    -- in `p` the pattern is tried with all of `q` behind it
    refine Silent.cons ?_ (ih fun before after h hne => hp (b :: before) after (by rw [h]; rfl) hne)
    simpa using hp [] (b :: p) rfl (by simp)

/-- A pattern that fits only in front of certain bytes is silent where these are missing. -/
theorem Silent.of_bytes {p : UInt8 → Bool} (hg : ∀ b rest, p b = false → g (b :: rest) = none)
    {piece : Text} (hpiece : ∀ b ∈ piece, p b = false) (rest : Text) : Silent g piece rest := by
  induction piece with
  | nil => exact Silent.nil rest
  | cons b piece ih =>
    exact Silent.cons (hg b _ (hpiece b List.mem_cons_self))
      (ih fun c hc => hpiece c (List.mem_cons_of_mem _ hc))

/-! ## Passing over a piece -/

/-- Is the place behind a piece inside a word, given whether the place in front of it is? -/
def endsInWord (inWord : Bool) (piece : Text) : Bool :=
  (piece.getLast?.map isWordByte).getD inWord

/-- Whether a piece ends in a word depends on its last byte. -/
theorem endsInWord_cons (inWord : Bool) (b : UInt8) (piece : Text) :
    endsInWord inWord (b :: piece) = endsInWord (isWordByte b) piece := by
  cases piece with
  | nil => rfl
  | cons c piece => simp [endsInWord, List.getLast?_cons]

/-- Whether two pieces end in a word depends on the second, unless it is empty. -/
theorem endsInWord_append (inWord : Bool) (p q : Text) :
    endsInWord inWord (p ++ q) = endsInWord (endsInWord inWord p) q := by
  induction p generalizing inWord with
  | nil => rfl
  | cons b p ih => rw [List.cons_append, endsInWord_cons, ih, endsInWord_cons]

/-- A piece over which the pattern is silent has no places. -/
theorem places_silent {piece rest : Text} (h : Silent g piece rest) (offset : Nat)
    (inWord : Bool) :
    places g (piece ++ rest) offset inWord 0 =
      places g rest (offset + piece.length) (endsInWord inWord piece) 0 := by
  induction piece generalizing offset inWord with
  | nil => rfl
  | cons b piece ih =>
    have hhere : g (b :: (piece ++ rest)) = none := h [] (b :: piece) rfl (by simp)
    have hmore : Silent g piece rest := fun before after hp hne =>
      h (b :: before) after (by rw [hp]; rfl) hne
    rw [List.cons_append, places, hhere, ite_self]
    dsimp only
    rw [ih hmore, endsInWord_cons, List.length_cons]
    congr 1
    omega

/-- What a match has covered is passed over. -/
private theorem places_skip (piece rest : Text) (offset : Nat) (inWord : Bool) :
    places g (piece ++ rest) offset inWord piece.length =
      places g rest (offset + piece.length) (endsInWord inWord piece) 0 := by
  induction piece generalizing offset inWord with
  | nil => rfl
  | cons b piece ih =>
    rw [List.cons_append, List.length_cons, places, ih, endsInWord_cons]
    congr 1
    omega

/-- A piece that is a match as a whole is found, and the walk goes on behind it. -/
theorem places_match {piece rest : Text} {a : α} (h : g (piece ++ rest) = some (a, piece.length))
    (hne : piece ≠ []) (offset : Nat) :
    places g (piece ++ rest) offset false 0 =
      (offset, a) :: places g rest (offset + piece.length) (endsInWord false piece) 0 := by
  obtain ⟨b, piece, rfl⟩ := List.exists_cons_of_ne_nil hne
  rw [List.cons_append] at h ⊢
  rw [places, if_neg Bool.false_ne_true, h]
  dsimp only
  rw [List.length_cons, Nat.add_sub_cancel, places_skip, endsInWord_cons]
  congr 2
  omega

/-! ## Matches that stay in a piece -/

/-- Every match that begins in `piece`, outside a word and with `rest` behind the piece, ends in
it. -/
def Confined (g : Text → Option (α × Nat)) (inWord : Bool) (piece rest : Text) : Prop :=
  ∀ before after a size, piece = before ++ after → after ≠ [] → endsInWord inWord before = false →
    g (after ++ rest) = some (a, size) → size ≤ after.length

/-- Behind its first byte a confined piece is confined. -/
theorem Confined.tail {b : UInt8} {inWord : Bool} {piece rest : Text}
    (h : Confined g inWord (b :: piece) rest) : Confined g (isWordByte b) piece rest := by
  intro before after a size hsplit hne hword hmatch
  refine h (b :: before) after a size (by rw [hsplit, List.cons_append]) hne ?_ hmatch
  rwa [endsInWord_cons]

/-- Where there is no match, none leads out. -/
theorem Silent.confined {piece rest : Text} (h : Silent g piece rest) (inWord : Bool) :
    Confined g inWord piece rest := by
  rintro before after a size hsplit hne - hmatch
  rw [h before after hsplit hne] at hmatch
  cases hmatch

/-- Two pieces that are confined are confined together. -/
theorem Confined.append {inWord : Bool} {p q rest : Text} (hp : Confined g inWord p (q ++ rest))
    (hq : Confined g (endsInWord inWord p) q rest) : Confined g inWord (p ++ q) rest := by
  induction p generalizing inWord with
  | nil => exact hq
  | cons b p ih =>
    rw [endsInWord_cons] at hq
    intro before after a size hsplit hne hword hmatch
    cases before with
    | nil =>
      obtain rfl : b :: (p ++ q) = after := hsplit
      have hsize := hp [] (b :: p) a size rfl (by simp) hword (by simpa using hmatch)
      simp only [List.length_cons, List.length_append] at hsize ⊢
      omega
    | cons c before =>
      obtain ⟨rfl, hmore⟩ := List.cons.inj hsplit
      rw [endsInWord_cons] at hword
      exact ih hp.tail hq before after a size hmore hne hword hmatch

/-- The walk begins anew behind a piece in which its matches end. -/
theorem places_confined {inWord : Bool} {piece rest : Text} (h : Confined g inWord piece rest)
    {skip : Nat} (hskip : skip ≤ piece.length) (offset : Nat) :
    ∃ found, places g (piece ++ rest) offset inWord skip =
      found ++ places g rest (offset + piece.length) (endsInWord inWord piece) 0 := by
  -- what is left of the last match ends in the piece at every place of the walk
  induction piece generalizing inWord skip offset with
  | nil =>
    obtain rfl : skip = 0 := Nat.le_zero.mp hskip
    exact ⟨[], rfl⟩
  | cons b piece ih =>
    have hoffset : offset + (b :: piece).length = offset + 1 + piece.length := by
      rw [List.length_cons]
      omega
    rw [List.cons_append, hoffset, endsInWord_cons]
    cases skip with
    | succ skip =>
      rw [places]
      exact ih h.tail (Nat.le_of_succ_le_succ hskip) (offset + 1)
    | zero =>
      rw [places]
      cases hmatch : if inWord then none else g (b :: (piece ++ rest)) with
      | none => exact ih h.tail (Nat.zero_le _) (offset + 1)
      | some result =>
        obtain ⟨a, size⟩ := result
        have hsize : size ≤ (b :: piece).length := by
          cases inWord with
          | true => cases hmatch
          | false => exact h [] (b :: piece) a size rfl (by simp) rfl hmatch
        obtain ⟨found, hfound⟩ := ih h.tail (Nat.sub_le_of_le_add hsize) (offset + 1)
        exact ⟨(offset, a) :: found, congrArg ((offset, a) :: ·) hfound⟩

/-- A match is found unless an earlier one reaches into it. -/
theorem mem_places_of_confined {before piece rest : Text} {a : α}
    (h : Confined g false before (piece ++ rest)) (hword : endsInWord false before = false)
    (hmatch : g (piece ++ rest) = some (a, piece.length)) (hne : piece ≠ []) :
    (before.length, a) ∈ places g (before ++ (piece ++ rest)) 0 false 0 := by
  obtain ⟨found, hfound⟩ := places_confined h (Nat.zero_le _) 0
  rw [hfound, hword, Nat.zero_add, places_match hmatch hne]
  exact List.mem_append_right _ List.mem_cons_self

/-- A match of the whole text is its only place. -/
private theorem places_whole {text : Text} {a : α} (h : g text = some (a, text.length))
    (hne : text ≠ []) (offset : Nat) : places g text offset false 0 = [(offset, a)] := by
  have hwhole : g (text ++ []) = some (a, text.length) := by rwa [List.append_nil]
  have hfound := places_match hwhole hne offset
  rwa [List.append_nil, places] at hfound

/-- Where every match takes the rest of the text, only the first one is found. -/
theorem places_of_total {inWord : Bool} {before after : Text}
    (htotal : ∀ front back a size, before ++ after = front ++ back → g back = some (a, size) →
      size = back.length)
    (hne : after ≠ []) (hword : endsInWord inWord before = false) (hmatch : g after ≠ none)
    (offset : Nat) :
    ∃ front back a, before ++ after = front ++ back ∧ front.length ≤ before.length ∧
      g back = some (a, back.length) ∧
      places g (before ++ after) offset inWord 0 = [(offset + front.length, a)] := by
  -- by induction on the text in front: the first match may begin in it, and takes all the rest then
  induction before generalizing inWord offset with
  | nil =>
    obtain ⟨⟨a, size⟩, hresult⟩ := Option.ne_none_iff_exists'.mp hmatch
    obtain rfl := htotal [] after a size rfl hresult
    obtain rfl : inWord = false := hword
    exact ⟨[], after, a, rfl, Nat.le_refl _, hresult, places_whole hresult hne offset⟩
  | cons b before ih =>
    rw [endsInWord_cons] at hword
    cases hhere : if inWord then none else g (b :: (before ++ after)) with
    | none =>
      obtain ⟨front, back, a, hsplit, hlength, hback, hplaces⟩ := ih
        (fun front back a size hsplit => htotal (b :: front) back a size (congrArg (b :: ·) hsplit))
        hword (offset + 1)
      refine ⟨b :: front, back, a, congrArg (b :: ·) hsplit, Nat.succ_le_succ hlength, hback, ?_⟩
      rw [List.cons_append, places, hhere]
      dsimp only
      rw [hplaces, List.length_cons, Nat.add_assoc, Nat.add_comm 1]
    | some result =>
      obtain ⟨a, size⟩ := result
      cases inWord with
      | true => cases hhere
      | false =>
        rw [if_neg Bool.false_ne_true] at hhere
        obtain rfl := htotal [] (b :: (before ++ after)) a size rfl hhere
        exact ⟨[], b :: (before ++ after), a, rfl, Nat.zero_le _, hhere,
          places_whole hhere (by simp) offset⟩

end DependencyAudit.Import
