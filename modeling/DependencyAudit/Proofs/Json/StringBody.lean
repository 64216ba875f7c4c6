import DependencyAudit.Json.Token

/-!
# The grammar of JSON strings

The text between the quotes of a string is a sequence of escapes and plain bytes.
`JsonToken.stringBody?` is shown to read exactly such a body up to its closing quote.

## Main results

* `stringBody?_sound`: what is read is a body, and a quote follows it;
* `stringBody?_append`: a body in front of a quote is read back.
-/

namespace DependencyAudit.JsonToken

/-- The bytes that stand for themselves in a string. -/
def IsPlain (b : UInt8) : Prop :=
  Ascii.space ≤ b ∧ b ≠ Ascii.quote ∧ b ≠ Ascii.backslash

/-- The text between the quotes of a string. -/
inductive IsBody : Text → Prop
  | nil : IsBody []
  | code {a b c d : UInt8} {body : Text} (ha : isHex a = true) (hb : isHex b = true)
      (hc : isHex c = true) (hd : isHex d = true) (h : IsBody body) :
      IsBody (Ascii.backslash :: Ascii.lowerU :: a :: b :: c :: d :: body)
  | short {e : UInt8} {body : Text} (he : isShortEscape e = true) (h : IsBody body) :
      IsBody (Ascii.backslash :: e :: body)
  | plain {b : UInt8} {body : Text} (hb : IsPlain b) (h : IsBody body) : IsBody (b :: body)

theorem IsBody.append {s t : Text} (hs : IsBody s) (ht : IsBody t) : IsBody (s ++ t) := by
  induction hs with
  | nil => exact ht
  | code ha hb hc hd _ ih => exact .code ha hb hc hd ih
  | short he _ ih => exact .short he ih
  | plain hb _ ih => exact .plain hb ih

theorem stringBody?_sound {text body after : Text}
    (h : stringBody? text = some (body, after)) :
    IsBody body ∧ text = body ++ Ascii.quote :: after := by
  -- one case for each way in which the reader goes on, and the faulty ones return nothing
  fun_induction stringBody? text generalizing body with
  | case1 => exact absurd h (by simp)
  | case2 rest =>
    obtain ⟨rfl, rfl⟩ := by simpa using h
    exact ⟨.nil, rfl⟩
  | case3 a b c d rest hhex ih =>
    simp only [Option.map_eq_some_iff, Prod.exists, Prod.mk.injEq] at h
    obtain ⟨more, rest', hread, rfl, rfl⟩ := h
    obtain ⟨hmore, rfl⟩ := ih hread
    simp only [Bool.and_eq_true] at hhex
    obtain ⟨⟨⟨ha, hb⟩, hc⟩, hd⟩ := hhex
    exact ⟨.code ha hb hc hd hmore, rfl⟩
  | case4 => exact absurd h (by simp)
  | case5 e rest _ he ih =>
    simp only [Option.map_eq_some_iff, Prod.exists, Prod.mk.injEq] at h
    obtain ⟨more, rest', hread, rfl, rfl⟩ := h
    obtain ⟨hmore, rfl⟩ := ih hread
    exact ⟨.short he hmore, rfl⟩
  | case6 => exact absurd h (by simp)
  | case7 => exact absurd h (by simp)
  | case8 b rest hquote _ _ hb ih =>
    simp only [Option.map_eq_some_iff, Prod.exists, Prod.mk.injEq] at h
    obtain ⟨more, rest', hread, rfl, rfl⟩ := h
    obtain ⟨hmore, rfl⟩ := ih hread
    simp only [Bool.or_eq_true, decide_eq_true_eq, not_or, UInt8.not_lt] at hb
    exact ⟨.plain ⟨hb.1, fun h => hquote h, hb.2⟩ hmore, rfl⟩

private theorem stringBody?_short {e : UInt8} (h : isShortEscape e = true) (rest : Text) :
    stringBody? (Ascii.backslash :: e :: rest) =
      (stringBody? rest).map fun (body, after) => (Ascii.backslash :: e :: body, after) := by
  -- the equation for other escapes than `u` applies
  have hu : e ≠ Ascii.lowerU := by
    rintro rfl
    exact absurd h (by decide)
  have hread := stringBody?.eq_4 e rest fun _ _ _ _ _ heq _ => hu heq
  rwa [if_pos h] at hread

private theorem stringBody?_plain {b : UInt8} (h : IsPlain b) (rest : Text) :
    stringBody? (b :: rest) = (stringBody? rest).map fun (body, after) => (b :: body, after) := by
  obtain ⟨hspace, hquote, hslash⟩ := h
  have hread := stringBody?.eq_5 b rest hquote (fun _ _ _ _ _ heq _ => hslash heq)
    fun _ _ heq _ => hslash heq
  have hplain : ¬ (decide (b < Ascii.space) || decide (b = Ascii.backslash)) = true := by
    simp [hslash, hspace]
  rwa [if_neg hplain] at hread

theorem stringBody?_append {body : Text} (h : IsBody body) (rest : Text) :
    stringBody? (body ++ Ascii.quote :: rest) = some (body, rest) := by
  induction h with
  | nil => rfl
  | @code a b c d body ha hb hc hd _ ih =>
    have hhex : (isHex a && isHex b && isHex c && isHex d) = true := by simp [ha, hb, hc, hd]
    have hread := stringBody?.eq_3 a b c d (body ++ Ascii.quote :: rest)
    rw [if_pos hhex, ih] at hread
    exact hread
  | @short e body he _ ih =>
    have hread := stringBody?_short he (body ++ Ascii.quote :: rest)
    rw [ih] at hread
    exact hread
  | @plain b body hb _ ih =>
    have hread := stringBody?_plain hb (body ++ Ascii.quote :: rest)
    rw [ih] at hread
    exact hread

end DependencyAudit.JsonToken
