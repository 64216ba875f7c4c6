import DependencyAudit.Json.Token

/-!
# The grammar of JSON numbers

`JsonToken.number?` reads as much of a text as belongs to a number. Here the number texts are
described by their parts, and the reader is shown to find exactly them.

## Main definitions

* `IsNumber`: an optional minus sign, a whole part, an optional fraction and an optional
  exponent;
* `EndsNumber`: the text behind a number does not continue it.

## Main results

* `number?_sound`: what is read is a number, and nothing is lost;
* `number?_append`: a number in front of a text that does not continue it is read back.
-/

namespace DependencyAudit.JsonToken

/-- A non-empty run of decimal digits. -/
def IsDigits (ds : Text) : Prop :=
  ds ≠ [] ∧ ∀ b ∈ ds, Text.isDigit b = true

/-- The whole part of a number: a zero, or digits that do not start with one. -/
def IsWhole (w : Text) : Prop :=
  w = [Ascii.zero] ∨ (IsDigits w ∧ w.head? ≠ some Ascii.zero)

/-- The fraction of a number: nothing, or a point and digits. -/
def IsFraction (f : Text) : Prop :=
  f = [] ∨ ∃ ds, f = Ascii.dot :: ds ∧ IsDigits ds

/-- Does the byte mark an exponent? -/
def IsExponentMark (b : UInt8) : Prop :=
  b = Text.byte 'e' ∨ b = Text.byte 'E'

instance (b : UInt8) : Decidable (IsExponentMark b) :=
  inferInstanceAs (Decidable (_ ∨ _))

/-- The exponent of a number: nothing, or a mark, an optional sign and digits. -/
def IsExponent (e : Text) : Prop :=
  e = [] ∨ ∃ mark sign ds, IsExponentMark mark ∧
    (sign = [] ∨ sign = [Ascii.plus] ∨ sign = [Ascii.dash]) ∧ IsDigits ds ∧
    e = mark :: (sign ++ ds)

/-- The text of a number. -/
def IsNumber (source : Text) : Prop :=
  ∃ sign w f e, (sign = [] ∨ sign = [Ascii.dash]) ∧ IsWhole w ∧ IsFraction f ∧ IsExponent e ∧
    source = sign ++ w ++ f ++ e

/-- The text does not begin with a digit. -/
def NoDigit (rest : Text) : Prop :=
  ∀ b ∈ rest.head?, Text.isDigit b = false

/-- The text does not continue a number that stands in front of it. -/
def EndsNumber (rest : Text) : Prop :=
  ∀ b ∈ rest.head?, Text.isDigit b = false ∧ b ≠ Ascii.dot ∧ ¬ IsExponentMark b

theorem EndsNumber.noDigit {rest : Text} (h : EndsNumber rest) : NoDigit rest :=
  fun b hb => (h b hb).1

/-! ## Digits -/

/-- What is read as digits are digits, and they are the front of the text. -/
theorem digits?_sound {text ds after : Text} (h : digits? text = some (ds, after)) :
    IsDigits ds ∧ text = ds ++ after := by
  unfold digits? at h
  simp only [Option.ite_none_left_eq_some, Option.some.injEq, Prod.mk.injEq] at h
  obtain ⟨hne, rfl, rfl⟩ := h
  refine ⟨⟨by simpa using hne, fun b hb => ?_⟩, List.takeWhile_append_dropWhile.symm⟩
  exact List.all_eq_true.mp (List.all_takeWhile) b hb

/-- All the digits are read when no digit follows them. -/
theorem digits?_append {ds rest : Text} (hds : IsDigits ds) (hrest : NoDigit rest) :
    digits? (ds ++ rest) = some (ds, rest) := by
  have htake : rest.takeWhile Text.isDigit = [] := by
    cases rest with
    | nil => rfl
    | cons b tail => simp [hrest b rfl]
  have hdrop : rest.dropWhile Text.isDigit = rest := by
    cases rest with
    | nil => rfl
    | cons b tail => simp [hrest b rfl]
  unfold digits?
  rw [List.takeWhile_append_of_pos hds.2, List.dropWhile_append_of_pos hds.2, htake, hdrop,
    List.append_nil]
  simp [hds.1]

/-- A run of digits begins with a digit. -/
theorem IsDigits.exists_cons {ds : Text} (h : IsDigits ds) :
    ∃ b tail, ds = b :: tail ∧ Text.isDigit b = true := by
  obtain ⟨hne, hall⟩ := h
  cases ds with
  | nil => exact absurd rfl hne
  | cons b tail => exact ⟨b, tail, rfl, hall b (by simp)⟩

/-! ## The parts of a number -/

/-- What is read as whole part is one: a zero, or digits that do not begin with a zero. -/
theorem wholePart?_sound {text w after : Text} (h : wholePart? text = some (w, after)) :
    IsWhole w ∧ text = w ++ after := by
  unfold wholePart? at h
  split at h
  · obtain ⟨rfl, rfl⟩ := by simpa using h
    exact ⟨Or.inl rfl, rfl⟩
  · -- other digits, and a zero in front would have been read as the whole part
    rename_i hzero
    obtain ⟨hds, rfl⟩ := digits?_sound h
    refine ⟨Or.inr ⟨hds, fun hhead => ?_⟩, rfl⟩
    obtain ⟨b, tail, rfl, -⟩ := hds.exists_cons
    obtain rfl := by simpa using hhead
    exact hzero _ rfl

/-- A whole part is read to its end. -/
theorem wholePart?_append {w rest : Text} (hw : IsWhole w) (hrest : NoDigit rest) :
    wholePart? (w ++ rest) = some (w, rest) := by
  rcases hw with rfl | ⟨hds, hhead⟩
  · rfl
  · -- without a zero in front, only the branch for digits is left
    obtain ⟨b, tail, rfl, -⟩ := hds.exists_cons
    have hb : b ≠ Ascii.zero := by simpa using hhead
    rw [← digits?_append hds hrest]
    unfold wholePart?
    split
    · rename_i heq
      exact absurd (List.cons.inj heq).1 hb
    · rfl

/-- What is read as fraction is one, and it is the front of the text. -/
theorem fraction?_sound {text f after : Text} (h : fraction? text = some (f, after)) :
    IsFraction f ∧ text = f ++ after := by
  unfold fraction? at h
  split at h
  · simp only [Option.map_eq_some_iff, Prod.exists, Prod.mk.injEq] at h
    obtain ⟨ds, rest, hread, rfl, rfl⟩ := h
    obtain ⟨hds, rfl⟩ := digits?_sound hread
    exact ⟨Or.inr ⟨ds, rfl, hds⟩, rfl⟩
  · obtain ⟨rfl, rfl⟩ := by simpa using h
    exact ⟨Or.inl rfl, rfl⟩

/-- A fraction is read to its end; an empty one needs that no dot follows. -/
theorem fraction?_append {f rest : Text} (hf : IsFraction f) (hrest : NoDigit rest)
    (hdot : rest.head? ≠ some Ascii.dot) : fraction? (f ++ rest) = some (f, rest) := by
  rcases hf with rfl | ⟨ds, rfl, hds⟩
  · unfold fraction?
    split
    · rename_i heq
      rw [List.nil_append] at heq
      simp [heq] at hdot
    · simp
  · change (digits? (ds ++ rest)).map _ = _
    rw [digits?_append hds hrest]
    rfl

/-- What is read as exponent is one, and it is the front of the text. -/
theorem exponent?_sound {text e after : Text} (h : exponent? text = some (e, after)) :
    IsExponent e ∧ text = e ++ after := by
  unfold exponent? at h
  split at h
  · rename_i mark rest
    split at h
    · rename_i hmark
      have hmark : IsExponentMark mark := by simpa [IsExponentMark] using hmark
      split at h
      · rename_i sign more
        split at h
        · rename_i hsign
          have hsign : [sign] = [Ascii.plus] ∨ [sign] = [Ascii.dash] := by simpa using hsign
          simp only [Option.map_eq_some_iff, Prod.exists, Prod.mk.injEq] at h
          obtain ⟨ds, rest, hread, rfl, rfl⟩ := h
          obtain ⟨hds, rfl⟩ := digits?_sound hread
          exact ⟨Or.inr ⟨mark, [sign], ds, hmark, Or.inr hsign, hds, rfl⟩, rfl⟩
        · -- what follows the mark is no sign, so it belongs to the digits
          simp only [Option.map_eq_some_iff, Prod.exists, Prod.mk.injEq] at h
          obtain ⟨ds, rest, hread, rfl, rfl⟩ := h
          obtain ⟨hds, htext⟩ := digits?_sound hread
          exact ⟨Or.inr ⟨mark, [], ds, hmark, Or.inl rfl, hds, rfl⟩, by rw [htext]; rfl⟩
      · exact absurd h (by simp)
    · obtain ⟨rfl, rfl⟩ := by simpa using h
      exact ⟨Or.inl rfl, rfl⟩
  · obtain ⟨rfl, rfl⟩ := by simpa using h
    exact ⟨Or.inl rfl, rfl⟩

/-- A digit is no sign. -/
private theorem not_sign_of_isDigit {b : UInt8} (h : Text.isDigit b = true) :
    ¬ (b = Ascii.plus ∨ b = Ascii.dash) := by
  rintro (rfl | rfl) <;> exact absurd h (by decide)

/-- An exponent is read to its end. -/
theorem exponent?_append {e rest : Text} (he : IsExponent e) (hrest : EndsNumber rest) :
    exponent? (e ++ rest) = some (e, rest) := by
  rcases he with rfl | ⟨mark, sign, ds, hmark, hsign, hds, rfl⟩
  · cases rest with
    | nil => rfl
    | cons b tail =>
      have hb : ¬ (b = Text.byte 'e' ∨ b = Text.byte 'E') := (hrest b rfl).2.2
      simp [exponent?, hb]
  · have hmark : mark = Text.byte 'e' ∨ mark = Text.byte 'E' := hmark
    have hread := digits?_append hds hrest.noDigit
    rcases hsign with rfl | rfl | rfl
    · -- no sign: the first digit is not taken for one
      obtain ⟨b, tail, rfl, hb⟩ := hds.exists_cons
      simp only [List.nil_append, List.cons_append] at hread ⊢
      simp [exponent?, hmark, not_sign_of_isDigit hb, hread]
    · simp [exponent?, hmark, hread]
    · simp [exponent?, hmark, hread]

/-! ## Numbers -/

/-- Reads a number behind its sign. -/
private def unsigned? (sign text : Text) : Option (Text × Text) := do
  let (whole, text) ← wholePart? text
  let (fraction, text) ← fraction? text
  let (exponent, text) ← exponent? text
  some (sign ++ whole ++ fraction ++ exponent, text)

private theorem number?_dash (rest : Text) :
    number? (Ascii.dash :: rest) = unsigned? [Ascii.dash] rest := rfl

/-- Without a dash in front the number has no sign. -/
private theorem number?_of_ne_dash {text : Text} (h : text.head? ≠ some Ascii.dash) :
    number? text = unsigned? [] text := by
  unfold number?
  split
  rename_i sign behind heq
  split at heq
  · exact absurd rfl h
  · obtain ⟨rfl, rfl⟩ := Prod.mk.inj heq
    rfl

/-- What is read behind the sign are the three parts of a number. -/
private theorem unsigned?_sound {sign text source after : Text}
    (h : unsigned? sign text = some (source, after)) :
    ∃ w f e, IsWhole w ∧ IsFraction f ∧ IsExponent e ∧ source = sign ++ w ++ f ++ e ∧
      text = w ++ f ++ e ++ after := by
  simp only [unsigned?, Option.bind_eq_bind, Option.bind_eq_some_iff, Prod.exists,
    Option.some.injEq, Prod.mk.injEq] at h
  obtain ⟨w, t₁, hreadW, f, t₂, hreadF, e, t₃, hreadE, rfl, rfl⟩ := h
  obtain ⟨hw, rfl⟩ := wholePart?_sound hreadW
  obtain ⟨hf, rfl⟩ := fraction?_sound hreadF
  obtain ⟨he, rfl⟩ := exponent?_sound hreadE
  exact ⟨w, f, e, hw, hf, he, rfl, by simp only [List.append_assoc]⟩

/-- What is read as a number is spelled like one, and it is the front of the text. -/
theorem number?_sound {text source after : Text} (h : number? text = some (source, after)) :
    IsNumber source ∧ text = source ++ after := by
  by_cases hdash : text.head? = some Ascii.dash
  · obtain ⟨rest, rfl⟩ := List.head?_eq_some_iff.mp hdash
    rw [number?_dash] at h
    obtain ⟨w, f, e, hw, hf, he, rfl, rfl⟩ := unsigned?_sound h
    exact ⟨⟨_, w, f, e, Or.inr rfl, hw, hf, he, rfl⟩, by simp only [List.append_assoc]; rfl⟩
  · rw [number?_of_ne_dash hdash] at h
    obtain ⟨w, f, e, hw, hf, he, rfl, rfl⟩ := unsigned?_sound h
    exact ⟨⟨_, w, f, e, Or.inl rfl, hw, hf, he, rfl⟩, by simp only [List.nil_append]⟩

/-- An exponent in front of a text that does not continue a number does not continue one
either, unless by its mark. -/
private theorem head_exponent {e rest : Text} (he : IsExponent e) (hrest : EndsNumber rest) :
    NoDigit (e ++ rest) ∧ (e ++ rest).head? ≠ some Ascii.dot := by
  rcases he with rfl | ⟨mark, sign, ds, rfl | rfl, -, -, rfl⟩
  · exact ⟨hrest.noDigit, fun h => (hrest _ h).2.1 rfl⟩
  · refine ⟨fun b hb => ?_, fun h => absurd (Option.some.inj h) (by decide)⟩
    obtain rfl := by simpa using hb
    rfl
  · refine ⟨fun b hb => ?_, fun h => absurd (Option.some.inj h) (by decide)⟩
    obtain rfl := by simpa using hb
    rfl

/-- Behind the whole part no digit follows. -/
private theorem noDigit_fraction {f rest : Text} (hf : IsFraction f) (hrest : NoDigit rest) :
    NoDigit (f ++ rest) := by
  rcases hf with rfl | ⟨ds, rfl, -⟩
  · exact hrest
  · intro b hb
    obtain rfl := by simpa using hb
    rfl

/-- The three parts of a number are read to their ends. -/
private theorem unsigned?_append {sign w f e rest : Text} (hw : IsWhole w) (hf : IsFraction f)
    (he : IsExponent e) (hrest : EndsNumber rest) :
    unsigned? sign (w ++ f ++ e ++ rest) = some (sign ++ w ++ f ++ e, rest) := by
  -- each part is followed by something that does not continue it
  obtain ⟨hdigit, hdot⟩ := head_exponent he hrest
  simp only [unsigned?, List.append_assoc, wholePart?_append hw (noDigit_fraction hf hdigit),
    fraction?_append hf hdigit hdot, exponent?_append he hrest, Option.bind_eq_bind,
    Option.bind_some]

/-- A whole part begins with a digit. -/
private theorem IsWhole.exists_cons {w : Text} (h : IsWhole w) :
    ∃ b tail, w = b :: tail ∧ Text.isDigit b = true := by
  rcases h with rfl | ⟨hds, -⟩
  · exact ⟨Ascii.zero, [], rfl, rfl⟩
  · exact hds.exists_cons

/-- A number is read to its end. -/
theorem number?_append {source rest : Text} (h : IsNumber source) (hrest : EndsNumber rest) :
    number? (source ++ rest) = some (source, rest) := by
  obtain ⟨sign, w, f, e, hsign, hw, hf, he, rfl⟩ := h
  rcases hsign with rfl | rfl
  · rw [number?_of_ne_dash, List.nil_append, unsigned?_append hw hf he hrest, List.nil_append]
    -- the whole part begins with a digit, not with a minus sign
    obtain ⟨b, tail, rfl, hb⟩ := hw.exists_cons
    intro hdash
    obtain rfl := by simpa using hdash
    exact absurd hb (by decide)
  · change number? (Ascii.dash :: (w ++ f ++ e ++ rest)) = _
    rw [number?_dash, unsigned?_append hw hf he hrest]

/-- A number begins with a minus sign or a digit. -/
theorem IsNumber.exists_cons {source : Text} (h : IsNumber source) :
    ∃ b tail, source = b :: tail ∧ (b = Ascii.dash ∨ Text.isDigit b = true) := by
  obtain ⟨sign, w, f, e, rfl | rfl, hw, -, -, rfl⟩ := h
  · obtain ⟨b, tail, rfl, hb⟩ := hw.exists_cons
    exact ⟨b, tail ++ f ++ e, rfl, Or.inr hb⟩
  · exact ⟨Ascii.dash, w ++ f ++ e, rfl, Or.inl rfl⟩

end DependencyAudit.JsonToken
