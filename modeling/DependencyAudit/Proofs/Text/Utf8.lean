import DependencyAudit.Text.Utf8

/-!
# Well-formed UTF-8

The texts that are made of encoded code points, and how glyphs read them. A glyph is either
such a code point or a single byte without one, so replacing the latter gives a text that is
well-formed, and changes no text that already is.

## Main definitions

* `IsScalar`: the code points that have an encoding;
* `IsUtf8`: the texts made of their encodings.

## Main results

* `glyphs_encode`: an encoded code point is read back as one glyph;
* `glyphs_append_encode`: in front of an encoded code point, a text is read as if it ended there;
* `isUtf8_scrub` and `scrub_of_isUtf8`: scrubbing gives a well-formed text and keeps one.
-/

namespace DependencyAudit.Utf8

/-- The code points that have an encoding: all but the surrogates. -/
def IsScalar (code : Nat) : Prop :=
  code < 0xD800 ∨ (0xE000 ≤ code ∧ code < 0x110000)

instance (code : Nat) : Decidable (IsScalar code) :=
  inferInstanceAs (Decidable (_ ∨ _))

/-- A text made of encoded code points. -/
def IsUtf8 (text : Text) : Prop :=
  ∃ codes : List Nat, (∀ c ∈ codes, IsScalar c) ∧ text = codes.flatMap encode

/-! ## Bytes and their numbers -/

/-- A number below 256 is the value of its byte. -/
theorem toNat_toUInt8 {n : Nat} (h : n < 256) : n.toUInt8.toNat = n := by
  rw [Nat.toUInt8, UInt8.toNat_ofNat']
  exact Nat.mod_eq_of_lt h

private theorem eq_toUInt8 {b : UInt8} {n : Nat} (h : b.toNat = n) : b = n.toUInt8 := by
  rw [← h]
  exact UInt8.ofNat_toNat.symm

/-- A range of bytes is a range of their values. -/
private theorem within_iff {low high b : UInt8} :
    (decide (low ≤ b) && decide (b ≤ high)) = true ↔
      low.toNat ≤ b.toNat ∧ b.toNat ≤ high.toNat := by
  rw [Bool.and_eq_true, decide_eq_true_eq, decide_eq_true_eq, UInt8.le_iff_toNat_le,
    UInt8.le_iff_toNat_le]

/-- Continuation bytes are those from `0x80` to `0xBF`. -/
theorem isContinuation_iff {b : UInt8} :
    isContinuation b = true ↔ 0x80 ≤ b.toNat ∧ b.toNat ≤ 0xBF :=
  within_iff

/-- The second of three bytes is a continuation, less the overlong forms and the surrogates. -/
private theorem secondOfThree_iff {a b : UInt8} :
    secondOfThree a b = true ↔ (0x80 ≤ b.toNat ∧ b.toNat ≤ 0xBF) ∧
      (a.toNat = 0xE0 → 0xA0 ≤ b.toNat) ∧ (a.toNat = 0xED → b.toNat ≤ 0x9F) := by
  unfold secondOfThree
  -- the bounds depend on the first byte in two cases, against overlong forms and surrogates
  split
  · rename_i ha
    subst ha
    rw [within_iff]
    change 160 ≤ _ ∧ _ ≤ 191 ↔ _ ∧ (224 = 224 → _) ∧ (224 = 237 → _)
    omega
  · rename_i hE0
    split
    · rename_i ha
      subst ha
      rw [within_iff]
      change 128 ≤ _ ∧ _ ≤ 159 ↔ _ ∧ (237 = 224 → _) ∧ (237 = 237 → _)
      omega
    · rename_i hED
      rw [isContinuation_iff]
      have h₁ : a.toNat ≠ 0xE0 := fun h => hE0 (UInt8.toNat_inj.mp h)
      have h₂ : a.toNat ≠ 0xED := fun h => hED (UInt8.toNat_inj.mp h)
      simp [h₁, h₂]

/-- The second of four bytes is a continuation, less the overlong forms and what is too large. -/
private theorem secondOfFour_iff {a b : UInt8} :
    secondOfFour a b = true ↔ (0x80 ≤ b.toNat ∧ b.toNat ≤ 0xBF) ∧
      (a.toNat = 0xF0 → 0x90 ≤ b.toNat) ∧ (a.toNat = 0xF4 → b.toNat ≤ 0x8F) := by
  unfold secondOfFour
  -- likewise, against overlong forms and numbers that are no code points
  split
  · rename_i ha
    subst ha
    rw [within_iff]
    change 144 ≤ _ ∧ _ ≤ 191 ↔ _ ∧ (240 = 240 → _) ∧ (240 = 244 → _)
    omega
  · rename_i hF0
    split
    · rename_i ha
      subst ha
      rw [within_iff]
      change 128 ≤ _ ∧ _ ≤ 143 ↔ _ ∧ (244 = 240 → _) ∧ (244 = 244 → _)
      omega
    · rename_i hF4
      rw [isContinuation_iff]
      have h₁ : a.toNat ≠ 0xF0 := fun h => hF0 (UInt8.toNat_inj.mp h)
      have h₂ : a.toNat ≠ 0xF4 := fun h => hF4 (UInt8.toNat_inj.mp h)
      simp [h₁, h₂]

/-- The bytes beyond ASCII are those from `0x80` on. -/
theorem not_ascii_iff {a : UInt8} : ¬ a < 0x80 ↔ 0x80 ≤ a.toNat := by
  rw [UInt8.lt_iff_toNat_lt]
  change ¬ _ < 128 ↔ _
  omega

/-- Two conditions that exclude each other. -/
private theorem not_within {low high b : UInt8} (h : high.toNat < b.toNat) :
    ¬ (decide (low ≤ b) && decide (b ≤ high)) = true := by
  rw [within_iff]
  omega

/-! ## Single code points -/

/-- An ASCII byte stands for itself. -/
theorem first_ascii {a : UInt8} (h : a < 0x80) (rest : Text) :
    first a rest = ⟨[a], some a.toNat⟩ := by
  unfold first
  rw [if_pos h]

/-- Two bytes with the digits of a code point are this code point. -/
private theorem first_two {a b : UInt8} {code : Nat} (hlow : 0x80 ≤ code) (hhigh : code < 0x800)
    (ha : a.toNat = 0xC0 + code / 0x40) (hb : b.toNat = 0x80 + code % 0x40) (rest : Text) :
    first a (b :: rest) = ⟨[a, b], some code⟩ := by
  have h₁ : ¬ a < 0x80 := not_ascii_iff.mpr (by omega)
  have h₂ : (decide (0xC2 ≤ a) && decide (a ≤ 0xDF)) = true := within_iff.mpr (by
    change 194 ≤ _ ∧ _ ≤ 223
    omega)
  have h₃ : isContinuation b = true := isContinuation_iff.mpr (by omega)
  have hcode : (a.toNat - 0xC0) * 0x40 + low b = code := by
    unfold low
    omega
  rw [first, if_neg h₁, if_pos h₂]
  simp only [if_pos h₃, hcode]

/-- Three bytes with the digits of a code point are this code point, unless it is a surrogate. -/
private theorem first_three {a b c : UInt8} {code : Nat} (hlow : 0x800 ≤ code)
    (hhigh : code < 0x10000) (hscalar : code < 0xD800 ∨ 0xE000 ≤ code)
    (ha : a.toNat = 0xE0 + code / 0x1000) (hb : b.toNat = 0x80 + code / 0x40 % 0x40)
    (hc : c.toNat = 0x80 + code % 0x40) (rest : Text) :
    first a (b :: c :: rest) = ⟨[a, b, c], some code⟩ := by
  -- the first byte rules out the one and two byte forms
  have h₁ : ¬ a < 0x80 := not_ascii_iff.mpr (by omega)
  have h₂ : ¬ (decide (0xC2 ≤ a) && decide (a ≤ 0xDF)) = true := not_within (by
    change 223 < _
    omega)
  have h₃ : (decide (0xE0 ≤ a) && decide (a ≤ 0xEF)) = true := within_iff.mpr (by
    change 224 ≤ _ ∧ _ ≤ 239
    omega)
  have h₄ : (secondOfThree a b && isContinuation c) = true := by
    rw [Bool.and_eq_true, secondOfThree_iff, isContinuation_iff]
    omega
  have hcode : (a.toNat - 0xE0) * 0x1000 + low b * 0x40 + low c = code := by
    unfold low
    omega
  rw [first, if_neg h₁, if_neg h₂, if_pos h₃]
  simp only [if_pos h₄, hcode]

/-- Four bytes with the digits of a code point are this code point. -/
private theorem first_four {a b c d : UInt8} {code : Nat} (hlow : 0x10000 ≤ code)
    (hhigh : code < 0x110000) (ha : a.toNat = 0xF0 + code / 0x40000)
    (hb : b.toNat = 0x80 + code / 0x1000 % 0x40) (hc : c.toNat = 0x80 + code / 0x40 % 0x40)
    (hd : d.toNat = 0x80 + code % 0x40) (rest : Text) :
    first a (b :: c :: d :: rest) = ⟨[a, b, c, d], some code⟩ := by
  -- the first byte rules out the three shorter forms
  have h₁ : ¬ a < 0x80 := not_ascii_iff.mpr (by omega)
  have h₂ : ¬ (decide (0xC2 ≤ a) && decide (a ≤ 0xDF)) = true := not_within (by
    change 223 < _
    omega)
  have h₃ : ¬ (decide (0xE0 ≤ a) && decide (a ≤ 0xEF)) = true := not_within (by
    change 239 < _
    omega)
  have h₄ : (decide (0xF0 ≤ a) && decide (a ≤ 0xF4)) = true := within_iff.mpr (by
    change 240 ≤ _ ∧ _ ≤ 244
    omega)
  have h₅ : (secondOfFour a b && isContinuation c && isContinuation d) = true := by
    rw [Bool.and_eq_true, Bool.and_eq_true, secondOfFour_iff, isContinuation_iff,
      isContinuation_iff]
    omega
  have hcode : (a.toNat - 0xF0) * 0x40000 + low b * 0x1000 + low c * 0x40 + low d = code := by
    unfold low
    omega
  rw [first, if_neg h₁, if_neg h₂, if_neg h₃, if_pos h₄]
  simp only [if_pos h₅, hcode]

/-- The bytes of an encoded code point are read as one glyph, whatever follows them. -/
theorem first_encode {code : Nat} (h : IsScalar code) (rest : Text) :
    ∃ a tail, encode code = a :: tail ∧ first a (tail ++ rest) = ⟨encode code, some code⟩ := by
  unfold IsScalar at h
  unfold encode
  -- by the number of bytes
  split
  · rename_i hsize
    have ha : code.toUInt8.toNat = code := toNat_toUInt8 (by omega)
    have hascii : code.toUInt8 < 0x80 := by
      rw [UInt8.lt_iff_toNat_lt, ha]
      exact hsize
    exact ⟨_, [], rfl, by rw [first_ascii hascii, ha]⟩
  split
  · exact ⟨_, [_], rfl, first_two (by omega) (by omega) (toNat_toUInt8 (by omega))
      (toNat_toUInt8 (by omega)) rest⟩
  split
  · exact ⟨_, [_, _], rfl, first_three (by omega) (by omega) (by omega)
      (toNat_toUInt8 (by omega)) (toNat_toUInt8 (by omega)) (toNat_toUInt8 (by omega)) rest⟩
  · exact ⟨_, [_, _, _], rfl, first_four (by omega) (by omega) (toNat_toUInt8 (by omega))
      (toNat_toUInt8 (by omega)) (toNat_toUInt8 (by omega)) (toNat_toUInt8 (by omega)) rest⟩

/-- An ASCII code point is written as one byte. -/
theorem encode_ascii {code : Nat} (h : code < 0x80) : encode code = [code.toUInt8] :=
  if_pos h

/-- The bytes of a code point above ASCII are all above ASCII. -/
theorem le_of_mem_encode {code : Nat} (hlow : 0x80 ≤ code) (hhigh : code < 0x110000) :
    ∀ b ∈ encode code, 0x80 ≤ b.toNat := by
  have hbyte : ∀ n, 0x80 ≤ n → n < 256 → 0x80 ≤ n.toUInt8.toNat := by
    intro n hn hlt
    rwa [toNat_toUInt8 hlt]
  unfold encode
  rw [if_neg (by omega)]
  split
  · simp only [List.forall_mem_cons]
    exact ⟨hbyte _ (by omega) (by omega), hbyte _ (by omega) (by omega), by simp⟩
  split
  · simp only [List.forall_mem_cons]
    exact ⟨hbyte _ (by omega) (by omega), hbyte _ (by omega) (by omega),
      hbyte _ (by omega) (by omega), by simp⟩
  · simp only [List.forall_mem_cons]
    exact ⟨hbyte _ (by omega) (by omega), hbyte _ (by omega) (by omega),
      hbyte _ (by omega) (by omega), hbyte _ (by omega) (by omega), by simp⟩

/-- An ASCII byte is what its value is written as. -/
theorem encode_one {a : UInt8} (h : a.toNat < 0x80) : encode a.toNat = [a] := by
  rw [encode, if_pos h, ← eq_toUInt8 rfl]

/-- The digits of a code point in two bytes are what it is written as. -/
private theorem encode_two {a b : UInt8} {code : Nat} (hlow : 0x80 ≤ code) (hhigh : code < 0x800)
    (ha : a.toNat = 0xC0 + code / 0x40) (hb : b.toNat = 0x80 + code % 0x40) :
    encode code = [a, b] := by
  rw [encode, if_neg (by omega), if_pos hhigh, ← eq_toUInt8 ha, ← eq_toUInt8 hb]

/-- The digits of a code point in three bytes are what it is written as. -/
private theorem encode_three {a b c : UInt8} {code : Nat} (hlow : 0x800 ≤ code)
    (hhigh : code < 0x10000) (ha : a.toNat = 0xE0 + code / 0x1000)
    (hb : b.toNat = 0x80 + code / 0x40 % 0x40) (hc : c.toNat = 0x80 + code % 0x40) :
    encode code = [a, b, c] := by
  rw [encode, if_neg (by omega), if_neg (by omega), if_pos hhigh, ← eq_toUInt8 ha,
    ← eq_toUInt8 hb, ← eq_toUInt8 hc]

/-- The digits of a code point in four bytes are what it is written as. -/
private theorem encode_four {a b c d : UInt8} {code : Nat} (hlow : 0x10000 ≤ code)
    (ha : a.toNat = 0xF0 + code / 0x40000) (hb : b.toNat = 0x80 + code / 0x1000 % 0x40)
    (hc : c.toNat = 0x80 + code / 0x40 % 0x40) (hd : d.toNat = 0x80 + code % 0x40) :
    encode code = [a, b, c, d] := by
  rw [encode, if_neg (by omega), if_neg (by omega), if_neg (by omega), ← eq_toUInt8 ha,
    ← eq_toUInt8 hb, ← eq_toUInt8 hc, ← eq_toUInt8 hd]

/-- A glyph with a code point holds its encoding. -/
theorem first_sound {a : UInt8} {rest : Text} {code : Nat} (h : (first a rest).code? = some code) :
    IsScalar code ∧ (first a rest).bytes = encode code := by
  unfold first at h ⊢
  split at h
  · rename_i hascii
    rw [if_pos hascii]
    have ha : a.toNat < 0x80 := UInt8.lt_iff_toNat_lt.mp hascii
    obtain rfl := Option.some.inj h
    exact ⟨Or.inl (by omega), (encode_one ha).symm⟩
  rename_i hascii
  rw [if_neg hascii]
  -- two bytes
  split at h
  · rename_i hlead
    rw [if_pos hlead]
    have hlead : 194 ≤ a.toNat ∧ a.toNat ≤ 223 := within_iff.mp hlead
    split at h
    · split at h
      · rename_i b rest' hb
        simp only [if_pos hb]
        obtain rfl := Option.some.inj h
        rw [isContinuation_iff] at hb
        unfold low IsScalar
        exact ⟨by omega, (encode_two (by omega) (by omega) (by omega) (by omega)).symm⟩
      · exact absurd h (by simp)
    · exact absurd h (by simp)
  rename_i hlead₂
  rw [if_neg hlead₂]
  -- three bytes
  split at h
  · rename_i hlead
    rw [if_pos hlead]
    have hlead : 224 ≤ a.toNat ∧ a.toNat ≤ 239 := within_iff.mp hlead
    split at h
    · split at h
      · rename_i b c rest' hbc
        simp only [if_pos hbc]
        obtain rfl := Option.some.inj h
        rw [Bool.and_eq_true, secondOfThree_iff, isContinuation_iff] at hbc
        unfold low IsScalar
        exact ⟨by omega, (encode_three (by omega) (by omega) (by omega) (by omega)
          (by omega)).symm⟩
      · exact absurd h (by simp)
    · exact absurd h (by simp)
  rename_i hlead₃
  rw [if_neg hlead₃]
  -- four bytes
  split at h
  · rename_i hlead
    rw [if_pos hlead]
    have hlead : 240 ≤ a.toNat ∧ a.toNat ≤ 244 := within_iff.mp hlead
    split at h
    · split at h
      · rename_i b c d rest' hbcd
        simp only [if_pos hbcd]
        obtain rfl := Option.some.inj h
        rw [Bool.and_eq_true, Bool.and_eq_true, secondOfFour_iff, isContinuation_iff,
          isContinuation_iff] at hbcd
        unfold low IsScalar
        exact ⟨by omega, (encode_four (by omega) (by omega) (by omega) (by omega)
          (by omega)).symm⟩
      · exact absurd h (by simp)
    · exact absurd h (by simp)
  · exact absurd h (by simp)

/-- A glyph without a code point is a single byte. -/
theorem bytes_first_of_code?_eq_none {a : UInt8} {rest : Text} (h : (first a rest).code? = none) :
    (first a rest).bytes = [a] := by
  unfold first at h ⊢
  -- wherever more than one byte is taken, there is a code point
  split
  · rfl
  rename_i hascii
  rw [if_neg hascii] at h
  split
  · rename_i hlead
    rw [if_pos hlead] at h
    split
    · split
      · rename_i hmore
        simp only [if_pos hmore] at h
        exact absurd h (by simp)
      · rfl
    · rfl
  rename_i hlead₂
  rw [if_neg hlead₂] at h
  split
  · rename_i hlead
    rw [if_pos hlead] at h
    split
    · split
      · rename_i hmore
        simp only [if_pos hmore] at h
        exact absurd h (by simp)
      · rfl
    · rfl
  rename_i hlead₃
  rw [if_neg hlead₃] at h
  split
  · rename_i hlead
    rw [if_pos hlead] at h
    split
    · split
      · rename_i hmore
        simp only [if_pos hmore] at h
        exact absurd h (by simp)
      · rfl
    · rfl
  · rfl

/-! ## Texts -/

/-- What is found so far comes first, and the bytes to be skipped are dropped. -/
theorem glyphs.go_eq (text : Text) (skip : Nat) (found : List Glyph) :
    glyphs.go text skip found = found.reverse ++ glyphs (text.drop skip) := by
  induction text generalizing skip found with
  | nil => simp [glyphs, go]
  | cons a rest ih =>
    cases skip with
    | succ skip => rw [go, ih, List.drop_succ_cons]
    | zero => rw [List.drop_zero, glyphs, go, go, ih, ih]; simp

@[simp]
theorem glyphs_nil : glyphs [] = [] := rfl

/-- The glyphs of a text, one at a time. -/
theorem glyphs_cons (a : UInt8) (rest : Text) :
    glyphs (a :: rest) = first a rest :: glyphs (rest.drop ((first a rest).bytes.length - 1)) := by
  rw [glyphs, glyphs.go, glyphs.go_eq]
  rfl

/-- An encoded code point is read back as one glyph. -/
theorem glyphs_encode {code : Nat} (h : IsScalar code) (rest : Text) :
    glyphs (encode code ++ rest) = ⟨encode code, some code⟩ :: glyphs rest := by
  obtain ⟨a, tail, hcode, hfirst⟩ := first_encode h rest
  rw [hcode, List.cons_append, glyphs_cons, hfirst, hcode]
  simp

/-- Code points that are written one after the other are read back one by one. -/
theorem glyphs_flatMap_encode {codes : List Nat} (h : ∀ c ∈ codes, IsScalar c) (rest : Text) :
    glyphs (codes.flatMap encode ++ rest) =
      codes.map (fun c => ⟨encode c, some c⟩) ++ glyphs rest := by
  induction codes with
  | nil => rfl
  | cons c more ih =>
    obtain ⟨hc, hmore⟩ := List.forall_mem_cons.mp h
    rw [List.flatMap_cons, List.append_assoc, glyphs_encode hc, ih hmore]
    rfl

/-- The first byte of an encoding is no continuation byte, and all the others are. -/
theorem encode_eq_cons {code : Nat} (h : IsScalar code) :
    ∃ a tail, encode code = a :: tail ∧ isContinuation a = false ∧
      ∀ b ∈ tail, isContinuation b = true := by
  have hlead : ∀ n, n < 256 → ¬ (0x80 ≤ n ∧ n ≤ 0xBF) → isContinuation n.toUInt8 = false := by
    intro n hn hlead
    rw [Bool.eq_false_iff, Ne, isContinuation_iff, toNat_toUInt8 hn]
    exact hlead
  have htail : ∀ n, 0x80 ≤ n → n ≤ 0xBF → isContinuation n.toUInt8 = true := by
    intro n hlow hhigh
    rw [isContinuation_iff, toNat_toUInt8 (by omega)]
    exact ⟨hlow, hhigh⟩
  unfold IsScalar at h
  unfold encode
  -- by the number of bytes
  split
  · exact ⟨_, [], rfl, hlead _ (by omega) (by omega), by simp⟩
  split
  · refine ⟨_, [_], rfl, hlead _ (by omega) (by omega), ?_⟩
    simp only [List.forall_mem_cons]
    exact ⟨htail _ (by omega) (by omega), by simp⟩
  split
  · refine ⟨_, [_, _], rfl, hlead _ (by omega) (by omega), ?_⟩
    simp only [List.forall_mem_cons]
    exact ⟨htail _ (by omega) (by omega), htail _ (by omega) (by omega), by simp⟩
  · refine ⟨_, [_, _, _], rfl, hlead _ (by omega) (by omega), ?_⟩
    simp only [List.forall_mem_cons]
    exact ⟨htail _ (by omega) (by omega), htail _ (by omega) (by omega),
      htail _ (by omega) (by omega), by simp⟩

/-- What stands behind a glyph with a code point may change. -/
private theorem first_of_code? {a : UInt8} {tail : Text} {code : Nat}
    (hscalar : IsScalar code) (hbytes : encode code = a :: tail) (more : Text) :
    first a (tail ++ more) = ⟨encode code, some code⟩ := by
  obtain ⟨a', tail', hcode, hfirst⟩ := first_encode hscalar more
  obtain ⟨rfl, rfl⟩ := List.cons.inj (hbytes.symm.trans hcode)
  exact hfirst

/-- A byte that is no continuation byte does not belong to the glyph in front of it. -/
theorem first_append {b : UInt8} (hb : isContinuation b = false) (a : UInt8) (text rest : Text) :
    first a (text ++ b :: rest) = first a text := by
  cases hcode : (first a text).code? with
  | some code =>
    obtain ⟨hscalar, hbytes⟩ := first_sound hcode
    obtain ⟨tail, htail, htext⟩ := first_bytes_append a text
    have hencode : encode code = a :: tail := hbytes.symm.trans htail
    rw [htext, List.append_assoc, first_of_code? hscalar hencode, first_of_code? hscalar hencode]
  | none =>
    cases hcode' : (first a (text ++ b :: rest)).code? with
    | none =>
      have hbytes := bytes_first_of_code?_eq_none hcode
      have hbytes' := bytes_first_of_code?_eq_none hcode'
      -- two glyphs with the same byte and no code point
      calc first a (text ++ b :: rest) = ⟨[a], none⟩ := by rw [← hbytes', ← hcode']
        _ = first a text := by rw [← hbytes, ← hcode]
    | some code =>
      -- the continuation bytes of the glyph all stand in front of that byte, so it would be
      -- there without it
      obtain ⟨hscalar, hbytes⟩ := first_sound hcode'
      obtain ⟨tail, htail, htext⟩ := first_bytes_append a (text ++ b :: rest)
      obtain ⟨a', tail', hencode, -, hcontinuation⟩ := encode_eq_cons hscalar
      obtain ⟨rfl, rfl⟩ := List.cons.inj (htail.symm.trans (hbytes.trans hencode))
      rcases List.append_eq_append_iff.mp htext with ⟨more, rfl, hmore⟩ | ⟨more, rfl, -⟩
      · cases more with
        | nil =>
          rw [List.append_nil] at hencode
          have hfirst := first_of_code? hscalar hencode []
          rw [List.append_nil] at hfirst
          rw [hfirst] at hcode
          cases hcode
        | cons c more =>
          obtain ⟨rfl, -⟩ := List.cons.inj hmore
          rw [hcontinuation b (by simp)] at hb
          cases hb
      · rw [first_of_code? hscalar hencode] at hcode
        cases hcode

/-- In front of an encoded code point, a text is read as if it ended there. -/
theorem glyphs_append_encode {code : Nat} (h : IsScalar code) (text rest : Text) :
    glyphs (text ++ (encode code ++ rest)) = glyphs text ++ glyphs (encode code ++ rest) := by
  obtain ⟨b, tail, hencode, hb, -⟩ := encode_eq_cons h
  rw [hencode, List.cons_append]
  -- a glyph can take several bytes, so the induction is on the length
  induction hn : text.length using Nat.strongRecOn generalizing text with
  | ind n ih =>
    cases text with
    | nil => rfl
    | cons a text =>
      obtain ⟨taken, htaken, htext⟩ := first_bytes_append a text
      have hlength : taken.length ≤ text.length := by
        have hlengths := congrArg List.length htext
        rw [List.length_append] at hlengths
        omega
      have hdrop : (first a text).bytes.length - 1 = taken.length := by
        rw [htaken, List.length_cons, Nat.add_sub_cancel]
      rw [List.cons_append, glyphs_cons, glyphs_cons, first_append hb, hdrop,
        List.drop_append_of_le_length hlength, List.cons_append]
      refine congrArg _ (ih _ ?_ _ rfl)
      rw [← hn, List.length_drop, List.length_cons]
      omega

/-- Every glyph of a text is the first one of what is left of it. -/
theorem exists_first_of_mem_glyphs {text : Text} {g : Glyph} (h : g ∈ glyphs text) :
    ∃ a rest, g = first a rest := by
  -- a glyph can take several bytes, so the induction is on the length
  induction hn : text.length using Nat.strongRecOn generalizing text with
  | ind n ih =>
    cases text with
    | nil => exact absurd h (by simp)
    | cons a rest =>
      rw [glyphs_cons] at h
      rcases List.mem_cons.mp h with rfl | h
      · exact ⟨a, rest, rfl⟩
      · refine ih _ ?_ h rfl
        rw [← hn, List.length_drop, List.length_cons]
        omega

/-- A glyph is an encoded code point or has none. -/
theorem glyph_cases {text : Text} {g : Glyph} (h : g ∈ glyphs text) :
    (∃ code, IsScalar code ∧ g = ⟨encode code, some code⟩) ∨ g.code? = none := by
  obtain ⟨a, rest, rfl⟩ := exists_first_of_mem_glyphs h
  cases hcode : (first a rest).code? with
  | none => exact Or.inr rfl
  | some code =>
    obtain ⟨hscalar, hbytes⟩ := first_sound hcode
    refine Or.inl ⟨code, hscalar, ?_⟩
    rw [← hbytes, ← hcode]

/-- A glyph without a code point is a byte that stands alone. -/
theorem eq_byte_of_mem_glyphs {text : Text} {g : Glyph} (h : g ∈ glyphs text)
    (hcode : g.code? = none) : ∃ b, g = ⟨[b], none⟩ := by
  obtain ⟨a, rest, rfl⟩ := exists_first_of_mem_glyphs h
  refine ⟨a, ?_⟩
  rw [← bytes_first_of_code?_eq_none hcode, ← hcode]

/-- The replacement character is a scalar value. -/
theorem isScalar_replacement : IsScalar replacement := by
  unfold IsScalar replacement
  omega

/-- The code points of a text, with the replacement for what is none. -/
def codes (text : Text) : List Nat :=
  (glyphs text).map fun g => g.code?.getD replacement

/-- What is read from a text are scalar values. -/
theorem isScalar_of_mem_codes {text : Text} {c : Nat} (h : c ∈ codes text) : IsScalar c := by
  obtain ⟨g, hg, rfl⟩ := List.mem_map.mp h
  rcases glyph_cases hg with ⟨code, hcode, rfl⟩ | hnone
  · exact hcode
  · rw [hnone]
    exact isScalar_replacement

/-- Scrubbing writes what was read. -/
theorem scrub_eq (text : Text) : scrub text = (codes text).flatMap encode := by
  unfold scrub codes
  rw [List.flatMap_map, List.flatMap_def, List.flatMap_def]
  refine congrArg List.flatten (List.map_congr_left fun g hg => ?_)
  rcases glyph_cases hg with ⟨code, -, rfl⟩ | hnone
  · rfl
  · rw [hnone]
    rfl

/-- Scrubbing gives a well-formed text. -/
theorem isUtf8_scrub (text : Text) : IsUtf8 (scrub text) :=
  ⟨codes text, fun _ hc => isScalar_of_mem_codes hc, scrub_eq text⟩

/-- Scrubbing keeps a well-formed text. -/
theorem scrub_of_isUtf8 {text : Text} (h : IsUtf8 text) : scrub text = text := by
  obtain ⟨codes', hcodes, rfl⟩ := h
  have hglyphs := glyphs_flatMap_encode hcodes []
  rw [List.append_nil, glyphs_nil, List.append_nil] at hglyphs
  rw [scrub_eq, codes, hglyphs, List.map_map]
  simp [Function.comp_def]

/-- A text is well-formed if and only if scrubbing keeps it. -/
theorem isUtf8_iff {text : Text} : IsUtf8 text ↔ scrub text = text :=
  ⟨scrub_of_isUtf8, fun h => h ▸ isUtf8_scrub text⟩

instance (text : Text) : Decidable (IsUtf8 text) :=
  decidable_of_iff _ isUtf8_iff.symm

/-- ASCII characters stay as they are. -/
theorem scrub_ascii {a : UInt8} (h : a < 0x80) (rest : Text) :
    scrub (a :: rest) = a :: scrub rest := by
  rw [scrub, glyphs_cons, first_ascii h]
  rfl

/-- Above ASCII, one character is written for each one that is read. -/
theorem scrub_cons {a : UInt8} (h : 0x80 ≤ a.toNat) (rest : Text) :
    ∃ code tail more, 0x80 ≤ code ∧ IsScalar code ∧ (∀ b ∈ tail, 0x80 ≤ b.toNat) ∧
      rest = tail ++ more ∧ scrub (a :: rest) = encode code ++ scrub more := by
  cases hcode : (first a rest).code? with
  | none =>
    -- the byte is replaced, and reading goes on behind it
    refine ⟨replacement, [], rest, by decide, isScalar_replacement, by simp, rfl, ?_⟩
    rw [scrub, glyphs_cons, bytes_first_of_code?_eq_none hcode, List.flatMap_cons, hcode]
    rfl
  | some code =>
    obtain ⟨hscalar, hbytes⟩ := first_sound hcode
    obtain ⟨tail, hfirst, hrest⟩ := first_bytes_append a rest
    have hencode : encode code = a :: tail := hbytes.symm.trans hfirst
    -- a code point in ASCII would be a single byte in ASCII
    have hcode_ge : 0x80 ≤ code := by
      refine Nat.le_of_not_lt fun hlt => ?_
      rw [encode_ascii hlt] at hencode
      have ha : code.toUInt8.toNat = code := toNat_toUInt8 (by omega)
      rw [(List.cons.inj hencode).1] at ha
      omega
    have htail : ∀ b ∈ tail, 0x80 ≤ b.toNat := by
      intro b hb
      refine le_of_mem_encode hcode_ge ?_ b (by rw [hencode]; exact List.mem_cons_of_mem a hb)
      unfold IsScalar at hscalar
      omega
    refine ⟨code, tail, rest.drop tail.length, hcode_ge, hscalar, htail, hrest, ?_⟩
    rw [scrub, glyphs_cons, List.flatMap_cons, hcode, hfirst, hencode, List.length_cons,
      Nat.add_sub_cancel]
    rfl

/-- Valid texts may be joined. -/
theorem IsUtf8.append {s t : Text} (hs : IsUtf8 s) (ht : IsUtf8 t) : IsUtf8 (s ++ t) := by
  obtain ⟨cs, hcs, rfl⟩ := hs
  obtain ⟨ct, hct, rfl⟩ := ht
  exact ⟨cs ++ ct, List.forall_mem_append.mpr ⟨hcs, hct⟩, List.flatMap_append.symm⟩

/-- What a scalar value is written as is valid. -/
theorem isUtf8_encode {code : Nat} (h : IsScalar code) : IsUtf8 (encode code) :=
  ⟨[code], by simpa using h, by simp⟩

theorem isUtf8_nil : IsUtf8 [] :=
  ⟨[], by simp, rfl⟩

/-- A text of ASCII characters is well-formed. -/
theorem isUtf8_of_ascii {text : Text} (h : ∀ b ∈ text, b < 0x80) : IsUtf8 text := by
  induction text with
  | nil => exact isUtf8_nil
  | cons b rest ih =>
    obtain ⟨hb, hrest⟩ := List.forall_mem_cons.mp h
    have hb : b.toNat < 0x80 := UInt8.lt_iff_toNat_lt.mp hb
    have hscalar : IsScalar b.toNat := Or.inl (by omega)
    have hone := isUtf8_encode hscalar
    rw [encode_one hb] at hone
    exact hone.append (ih hrest)

end DependencyAudit.Utf8
