import DependencyAudit.Json.Number
import DependencyAudit.Proofs.Json.Number
import DependencyAudit.Proofs.Text.Split

/-!
# Decimal digits

The digits that a natural number is written with stand for the number, and they are the whole part
of a JSON number: at least one digit, and no leading zero.

## Main results

* `Text.digitsValue_ofNat`: the digits of a number have its value;
* `Text.isNumber_ofInt`: an integer is written as a JSON number;
* `JsonNumber.ofSource_ofInt`: an integer is read back from its decimal text.
-/

namespace DependencyAudit

open JsonToken (IsDigits IsWhole IsNumber)

namespace Text

/-! ## Digits of natural numbers -/

theorem toNat_byte {c : Char} (h : c.isDigit = true) :
    (byte c).toNat = c.toNat ∧ 48 ≤ c.toNat ∧ c.toNat ≤ 57 := by
  have hrange : 48 ≤ c.toNat ∧ c.toNat ≤ 57 := by
    simpa [Char.isDigit, UInt32.le_iff_toNat_le] using h
  refine ⟨?_, hrange⟩
  rw [byte, Char.toUInt8, UInt32.toNat_toUInt8]
  exact Nat.mod_eq_of_lt (by change c.toNat < 256; omega)

theorem isDigit_iff {b : UInt8} : isDigit b = true ↔ 48 ≤ b.toNat ∧ b.toNat ≤ 57 := by
  rw [isDigit, Bool.and_eq_true, decide_eq_true_eq, decide_eq_true_eq, UInt8.le_iff_toNat_le,
    UInt8.le_iff_toNat_le]
  exact Iff.rfl

theorem digitsValue_map_byte {cs : List Char} (h : ∀ c ∈ cs, c.isDigit = true) (n : Nat) :
    (cs.map byte).foldl (fun n b => 10 * n + (b.toNat - 48)) n = Nat.ofDigitChars 10 cs n := by
  induction cs generalizing n with
  | nil => rfl
  | cons c more ih =>
    obtain ⟨hc, hmore⟩ := List.forall_mem_cons.mp h
    rw [List.map_cons, List.foldl_cons, ih hmore, (toNat_byte hc).1, Nat.ofDigitChars_cons]
    rfl

/-- The digits of a number have its value. -/
theorem digitsValue_ofNat (n : Nat) : digitsValue (ofNat n) = n := by
  have hdigits : ∀ c ∈ Nat.toDigits 10 n, c.isDigit = true := fun c hc =>
    Nat.isDigit_of_mem_toDigits (by decide) (by decide) hc
  rw [digitsValue, ofNat, digitsValue_map_byte hdigits]
  exact Nat.ofDigitChars_toDigits (by decide) (by decide)

theorem isDigits_ofNat (n : Nat) : IsDigits (ofNat n) := by
  refine ⟨by simp [ofNat, Nat.toDigits_ne_nil], fun b hb => ?_⟩
  obtain ⟨c, hc, rfl⟩ := List.mem_map.mp hb
  obtain ⟨hbyte, hrange⟩ := toNat_byte (Nat.isDigit_of_mem_toDigits (by decide) (by decide) hc)
  rwa [isDigit_iff, hbyte]

/-- The first digit of a positive number is not zero. -/
theorem head?_ofNat_ne_zero {n : Nat} (h : 0 < n) : (ofNat n).head? ≠ some Ascii.zero := by
  induction n using Nat.strongRecOn with
  | ind n ih =>
    by_cases hsmall : n < 10
    · have hfirst : ∀ m < 10, 0 < m → byte (Nat.digitChar m) ≠ Ascii.zero := by decide
      rw [ofNat, Nat.toDigits_of_lt_base hsmall]
      simpa using hfirst n hsmall h
    · -- the first digit is that of the number without its last digit
      have hhead := ih (n / 10) (by omega) (by omega)
      obtain ⟨b, more, hdigits⟩ := List.exists_cons_of_ne_nil (isDigits_ofNat (n / 10)).1
      rw [hdigits] at hhead
      have hsplit : ofNat n = ofNat (n / 10) ++ [byte (Nat.digitChar (n % 10))] := by
        rw [ofNat, Nat.toDigits_of_base_le (by decide) (by omega), List.map_append]
        rfl
      rwa [hsplit, hdigits]

theorem isWhole_ofNat (n : Nat) : IsWhole (ofNat n) := by
  rcases Nat.eq_zero_or_pos n with rfl | hpos
  · exact .inl (by decide)
  · exact .inr ⟨isDigits_ofNat n, head?_ofNat_ne_zero hpos⟩

/-- An integer is written as a JSON number. -/
theorem isNumber_ofInt (n : Int) : IsNumber (ofInt n) := by
  cases n with
  | ofNat n =>
    refine ⟨[], ofNat n, [], [], .inl rfl, isWhole_ofNat n, .inl rfl, .inl rfl, ?_⟩
    simp [ofInt]
  | negSucc n =>
    refine ⟨[Ascii.dash], ofNat (n + 1), [], [], .inr rfl, isWhole_ofNat _, .inl rfl, .inl rfl, ?_⟩
    rw [List.append_nil, List.append_nil]
    rfl

end Text

namespace JsonNumber

/-! ## Reading integers -/

/-- Digits without a fraction and an exponent, from the text behind the sign. -/
private theorem ofSource_eq {ds : Text} (h : IsDigits ds) {source : Text}
    (hbody : (if source.head? = some Ascii.dash then source.tail else source) = ds) :
    ofSource source = ⟨source.head? = some Ascii.dash, Text.digitsValue ds, 0, 0⟩ := by
  have hplain : ∀ b ∈ ds, (!isMark b) = true := by
    intro b hb
    have hdigit := Text.isDigit_iff.mp (h.2 b hb)
    have hcode : ∀ c : UInt8, 57 < c.toNat → b ≠ c := fun c hc heq => by
      subst heq
      omega
    simp [isMark, hcode (Text.byte 'e') (by decide), hcode (Text.byte 'E') (by decide)]
  have hdot : Ascii.dot ∉ ds := fun hmem => absurd (h.2 _ hmem) (by decide)
  have hmantissa : ds.takeWhile (!isMark ·) = ds := by
    have htake : (ds ++ []).takeWhile (!isMark ·) = ds ++ [] := List.takeWhile_append_of_pos hplain
    rwa [List.append_nil] at htake
  have hmark : ds.dropWhile (!isMark ·) = [] := by
    have hdrop : (ds ++ []).dropWhile (!isMark ·) = [] := List.dropWhile_append_of_pos hplain
    rwa [List.append_nil] at hdrop
  simp only [ofSource, hbody, hmantissa, hmark, Text.cutAtByte_of_not_mem hdot]
  simp [Text.digitsValue]

/-- An integer is read back from its decimal text. -/
theorem ofSource_ofInt (n : Int) : ofSource (Text.ofInt n) = ⟨n < 0, n.natAbs, 0, 0⟩ := by
  cases n with
  | ofNat n =>
    have hdigits := Text.isDigits_ofNat n
    have hhead : ¬(Text.ofNat n).head? = some Ascii.dash := fun hhead =>
      absurd (hdigits.2 _ (List.mem_of_head? hhead)) (by decide)
    rw [Text.ofInt, ofSource_eq hdigits (if_neg hhead), Text.digitsValue_ofNat]
    simp [hhead]
  | negSucc n =>
    rw [Text.ofInt, ofSource_eq (Text.isDigits_ofNat (n + 1)) (if_pos rfl), Text.digitsValue_ofNat]
    have hdash : Text.byte '-' = Ascii.dash := rfl
    simp [hdash]

end JsonNumber

end DependencyAudit
