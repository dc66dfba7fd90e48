import SqlAssist.Proofs.Text.Cut
import SqlAssist.Token.Number

/-!
The grammar of numbers.

The matcher counts characters.  Here it is compared with the pattern it is written for: digits or
none, a point, digits, and an exponent or none.  What it takes is such a float, and no float that
the text starts with is longer.  A point needs digits behind it and a sign needs them as well,
so that an operator never loses a character to a number.
-/

namespace SqlAssist
namespace Number

def IsDigits (t : Text) : Prop := t ≠ [] ∧ ∀ c ∈ t, c.isDigit = true

inductive IsExponent : Text → Prop
  | mk {letter : Char} {sign digits : Text} (hletter : letter = 'e' ∨ letter = 'E')
      (hsign : sign = [] ∨ sign = ['+'] ∨ sign = ['-']) (hdigits : IsDigits digits) :
      IsExponent (letter :: (sign ++ digits))

/-- Digits or none, a point, digits, and an exponent or none. -/
inductive IsFloat : Text → Prop
  | mk {whole fraction exponent : Text} (hwhole : ∀ c ∈ whole, c.isDigit = true)
      (hfraction : IsDigits fraction) (hexponent : exponent = [] ∨ IsExponent exponent) :
      IsFloat (whole ++ '.' :: (fraction ++ exponent))

/-! ## Runs of digits -/

/-- The digits at the start of a text, and what is left of it. -/
theorem exists_digitRun (t : Text) :
    ∃ a b, t = a ++ b ∧ a.length = digitRun t ∧ (∀ c ∈ a, c.isDigit = true) ∧
      ∀ c ∈ b.head?, c.isDigit = false := by
  obtain ⟨a, b, ht, hrun, hall, hnext⟩ := Text.exists_run Char.isDigit t
  exact ⟨a, b, ht, by rw [digitRun, hrun], hall, hnext⟩

theorem digitRun_digits_append {a : Text} (ha : ∀ c ∈ a, c.isDigit = true) (b : Text) :
    digitRun (a ++ b) = a.length + digitRun b := by
  rw [digitRun, List.takeWhile_append_of_pos ha, List.length_append, digitRun]

theorem digitRun_eq_zero_iff {t : Text} :
    digitRun t = 0 ↔ ∀ c ∈ t.head?, c.isDigit = false := by
  cases t with
  | nil => simp [digitRun]
  | cons c rest =>
    by_cases hc : c.isDigit = true
    · simp [digitRun, hc]
    · simp [digitRun, hc]

theorem signLength_eq_zero {t : Text} (h : ∀ c ∈ t.head?, c.isDigit = true) :
    signLength t = 0 := by
  unfold signLength
  split
  · exact absurd (h '+' rfl) (by decide)
  · exact absurd (h '-' rfl) (by decide)
  · rfl

theorem IsDigits.head?_isDigit {t : Text} (h : IsDigits t) (b : Text) :
    ∀ c ∈ (t ++ b).head?, c.isDigit = true := by
  obtain ⟨hne, hall⟩ := h
  cases t with
  | nil => exact absurd rfl hne
  | cons d rest =>
    intro c hc
    obtain rfl : d = c := by simpa using hc
    exact hall d List.mem_cons_self

theorem IsFloat.ne_nil {t : Text} (h : IsFloat t) : t ≠ [] := by
  obtain @⟨whole, fraction, exponent, -, -, -⟩ := h
  simp

theorem IsFloat.head? {t : Text} (h : IsFloat t) :
    ∀ c ∈ t.head?, c.isDigit = true ∨ c = '.' := by
  obtain @⟨whole, fraction, exponent, hwhole, -, -⟩ := h
  intro c hc
  cases whole with
  | nil => exact Or.inr (by simpa using hc.symm)
  | cons d rest =>
    obtain rfl : d = c := by simpa using hc
    exact Or.inl (hwhole d List.mem_cons_self)

theorem isFloat_point {whole : Text} (hwhole : ∀ c ∈ whole, c.isDigit = true) {d : Char}
    (hd : d.isDigit = true) : IsFloat (whole ++ ['.', d]) :=
  @IsFloat.mk whole [d] [] hwhole ⟨List.cons_ne_nil d [], by simpa using hd⟩ (Or.inl rfl)

/-! ## What is matched is a float -/

theorem exists_sign (t : Text) :
    ∃ sign rest, t = sign ++ rest ∧ sign.length = signLength t ∧
      (sign = [] ∨ sign = ['+'] ∨ sign = ['-']) := by
  unfold signLength
  split
  · next rest => exact ⟨['+'], rest, rfl, rfl, Or.inr (Or.inl rfl)⟩
  · next rest => exact ⟨['-'], rest, rfl, rfl, Or.inr (Or.inr rfl)⟩
  · exact ⟨[], t, rfl, rfl, Or.inl rfl⟩

theorem exists_exponent (t : Text) :
    ∃ a b, t = a ++ b ∧ a.length = exponentLength t ∧ (a = [] ∨ IsExponent a) := by
  cases t with
  | nil => exact ⟨[], [], rfl, rfl, Or.inl rfl⟩
  | cons letter rest =>
    obtain ⟨sign, behind, rfl, hsign, hform⟩ := exists_sign rest
    obtain ⟨digits, b, rfl, hdigits, hall, -⟩ := exists_digitRun behind
    simp only [exponentLength, ← hsign, List.drop_left, ← hdigits]
    split
    · next hletter =>
      by_cases hnil : digits = []
      · exact ⟨[], _, rfl, by rw [if_pos (by rw [hnil]; rfl)]; rfl, Or.inl rfl⟩
      · refine ⟨letter :: (sign ++ digits), b, by simp, ?_, Or.inr (.mk hletter hform ⟨hnil, hall⟩)⟩
        rw [if_neg (by rwa [List.length_eq_zero_iff])]
        simp only [List.length_cons, List.length_append]
        omega
    · exact ⟨[], _, rfl, rfl, Or.inl rfl⟩

/-- The float that is matched, and what is left of the text. -/
theorem exists_float {t : Text} {n : Nat} (h : floatLength? t = some n) :
    ∃ a b, t = a ++ b ∧ a.length = n ∧ IsFloat a := by
  obtain ⟨whole, behind, rfl, hwhole, hdigits, -⟩ := exists_digitRun t
  simp only [floatLength?] at h
  rw [← hwhole, List.drop_left] at h
  split at h
  · next rest =>
    obtain ⟨fraction, behind, rfl, hfraction, hall, -⟩ := exists_digitRun rest
    obtain ⟨exponent, b, rfl, hexponent, hform⟩ := exists_exponent behind
    rw [← hfraction, List.drop_left, ← hexponent] at h
    split at h
    · simp at h
    · next hpos =>
      have hne : fraction ≠ [] := fun hnil => hpos (by rw [hnil]; rfl)
      refine ⟨whole ++ '.' :: (fraction ++ exponent), b, by simp, ?_, .mk hdigits ⟨hne, hall⟩ hform⟩
      rw [← Option.some.inj h]
      simp only [List.length_append, List.length_cons]
      omega
  · simp at h

/-! ## No longer float stands there -/

theorem IsExponent.length_le {a : Text} (h : IsExponent a) (b : Text) :
    a.length ≤ exponentLength (a ++ b) := by
  obtain @⟨letter, sign, digits, hletter, hsign, hdigits⟩ := h
  have hlength : signLength (sign ++ digits ++ b) = sign.length := by
    rcases hsign with rfl | rfl | rfl
    · exact signLength_eq_zero (hdigits.head?_isDigit b)
    · rfl
    · rfl
  have hpos := List.length_pos_iff.2 hdigits.1
  rw [List.cons_append, exponentLength, if_pos hletter, hlength]
  simp only [List.append_assoc, List.drop_left, digitRun_digits_append hdigits.2]
  rw [if_neg (by omega)]
  simp only [List.length_cons, List.length_append]
  omega

theorem IsExponent.digitRun_eq_zero {a : Text} (h : IsExponent a) (b : Text) :
    digitRun (a ++ b) = 0 := by
  obtain @⟨letter, sign, digits, hletter, hsign, hdigits⟩ := h
  rw [digitRun_eq_zero_iff]
  intro c hc
  obtain rfl : letter = c := by simpa using hc
  rcases hletter with rfl | rfl <;> rfl

theorem IsFloat.length_le {a : Text} (h : IsFloat a) (b : Text) :
    ∃ n, floatLength? (a ++ b) = some n ∧ a.length ≤ n := by
  obtain @⟨whole, fraction, exponent, hwhole, hfraction, hexponent⟩ := h
  have hpos := List.length_pos_iff.2 hfraction.1
  have hrun : digitRun (whole ++ '.' :: (fraction ++ exponent) ++ b) = whole.length := by
    rw [List.append_assoc, digitRun_digits_append hwhole]
    rfl
  have hfractionRun := digitRun_digits_append hfraction.2 (exponent ++ b)
  rw [floatLength?, hrun, List.append_assoc, List.drop_left]
  simp only [List.cons_append, List.append_assoc]
  rw [if_neg (by omega)]
  refine ⟨_, rfl, ?_⟩
  rcases hexponent with rfl | hexponent
  -- the text may go on with digits, and then with an exponent
  · simp only [List.length_append, List.length_cons, List.length_nil]
    omega
  -- an exponent starts with a letter, so that the digits of the fraction end in front of it
  · have hend := hexponent.length_le b
    simp only [hfractionRun, hexponent.digitRun_eq_zero b, Nat.add_zero, List.drop_left,
      List.length_append, List.length_cons]
    omega

theorem floatLength?_eq_none {t : Text} (h : floatLength? t = none) {a : Text} (ha : a <+: t) :
    ¬ IsFloat a := by
  obtain ⟨b, rfl⟩ := ha
  intro hfloat
  obtain ⟨n, hn, -⟩ := hfloat.length_le b
  rw [h] at hn
  simp at hn

theorem length_le_of_floatLength? {t : Text} {n : Nat} (h : floatLength? t = some n) {a : Text}
    (ha : a <+: t) (hfloat : IsFloat a) : a.length ≤ n := by
  obtain ⟨b, rfl⟩ := ha
  obtain ⟨m, hm, hle⟩ := hfloat.length_le b
  rwa [Option.some.inj (h.symm.trans hm)]

/-! ## The two kinds of numbers -/

theorem match?_cases {t : Text} {n : Nat} {cls : TokenClass} (h : match? t = some (n, cls)) :
    floatLength? t = some n ∧ cls = .numberFloat ∨
      floatLength? t = none ∧ n = digitRun t ∧ 0 < n ∧ cls = .numberInt := by
  simp only [match?] at h
  split at h
  · next k hk =>
    obtain ⟨rfl, rfl⟩ : k = n ∧ _ = cls := by simpa using h
    exact Or.inl ⟨hk, rfl⟩
  · next hnone =>
    split at h
    · simp at h
    · next hpos =>
      obtain ⟨rfl, rfl⟩ : digitRun t = n ∧ _ = cls := by simpa using h
      exact Or.inr ⟨hnone, rfl, Nat.pos_of_ne_zero hpos, rfl⟩

theorem match?_eq_none_iff {t : Text} :
    match? t = none ↔ floatLength? t = none ∧ digitRun t = 0 := by
  simp only [match?]
  cases floatLength? t with
  | some n => simp
  | none => simp

end Number
end SqlAssist
