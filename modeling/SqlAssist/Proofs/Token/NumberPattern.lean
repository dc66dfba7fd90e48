import Mathlib.Computability.RegularExpressions
import SqlAssist.Proofs.Token.Number
import SqlAssist.Proofs.Token.Words

/-!
Numbers as patterns.

The float that is matched is the longest one of the pattern `\d*\.\d+([eE][-+]?\d+)?`, and the
integer is the longest one of `\d+`.  Here these patterns are regular expressions, so that what
they match is fixed by the library and not by the matcher.  Their words are the texts of the
grammar of numbers, part by part, and all characters in these are ASCII: what the matcher counts
is the length of the longest word in characters and in bytes.
-/

namespace SqlAssist
namespace Number

open RegularExpression (char matches'_add matches'_char matches'_epsilon matches'_mul matches'_star)
open scoped Computability

/-! ## The patterns -/

def oneOf (cs : List Char) : RegularExpression Char := (cs.map char).sum

def digitPattern : RegularExpression Char :=
  oneOf ['0', '1', '2', '3', '4', '5', '6', '7', '8', '9']

/-- The pattern `\d+`. -/
def integerPattern : RegularExpression Char := digitPattern * digitPattern.star

/-- The pattern `[eE][-+]?\d+`. -/
def exponentPattern : RegularExpression Char :=
  oneOf ['e', 'E'] * ((1 + oneOf ['-', '+']) * integerPattern)

/-- The pattern `\d*\.\d+([eE][-+]?\d+)?`. -/
def floatPattern : RegularExpression Char :=
  digitPattern.star * (char '.' * (integerPattern * (1 + exponentPattern)))

structure LongestMatch (p : RegularExpression Char) (t a : Text) : Prop where
  isPrefix : a <+: t
  matched : a ∈ p.matches'
  longest : ∀ b, b <+: t → b ∈ p.matches' → b.length ≤ a.length

/-- Whether `width?` is the width of the longest front part of a text that a pattern matches;
there is none where the pattern matches no front part. -/
structure MeasuresLongest (p : RegularExpression Char) (t : Text) (width? : Option Nat) : Prop where
  some_iff : ∀ n, width? = some n ↔ ∃ a, LongestMatch p t a ∧ a.width = n
  none_iff : width? = none ↔ ∀ a, a <+: t → a ∉ p.matches'

/-! ## What the patterns match -/

theorem mem_oneOf_iff {cs : List Char} {a : Text} :
    a ∈ (oneOf cs).matches' ↔ ∃ c ∈ cs, a = [c] := by
  induction cs with
  | nil => simp [oneOf, Language.notMem_zero]
  | cons c rest ih =>
    have hcons : oneOf (c :: rest) = char c + oneOf rest := rfl
    rw [hcons, matches'_add, Language.mem_add, ih, matches'_char, List.exists_mem_cons_iff]
    exact Iff.rfl

theorem isDigit_iff_mem {c : Char} :
    c.isDigit = true ↔ c ∈ ['0', '1', '2', '3', '4', '5', '6', '7', '8', '9'] := by
  constructor
  · intro h
    rw [Word.isDigit_iff] at h
    have hcode : ∀ n : Nat, 48 ≤ n → n ≤ 57 →
        Char.ofNat n ∈ ['0', '1', '2', '3', '4', '5', '6', '7', '8', '9'] := by decide
    have hc := hcode c.toNat h.1 h.2
    rwa [Char.ofNat_toNat] at hc
  · intro h
    have hall : ['0', '1', '2', '3', '4', '5', '6', '7', '8', '9'].all Char.isDigit = true := by
      decide
    exact List.all_eq_true.1 hall c h

theorem mem_digitPattern_iff {a : Text} :
    a ∈ digitPattern.matches' ↔ ∃ c, c.isDigit = true ∧ a = [c] := by
  rw [digitPattern, mem_oneOf_iff]
  simp only [isDigit_iff_mem]

theorem mem_digits_iff {a : Text} :
    a ∈ digitPattern.star.matches' ↔ ∀ c ∈ a, c.isDigit = true := by
  rw [matches'_star, Language.mem_kstar]
  constructor
  · rintro ⟨pieces, rfl, h⟩ c hc
    obtain ⟨piece, hpiece, hc⟩ := List.mem_flatten.1 hc
    obtain ⟨d, hd, rfl⟩ := mem_digitPattern_iff.1 (h piece hpiece)
    rwa [List.mem_singleton.1 hc]
  · intro h
    refine ⟨a.map fun c => [c], ?_, fun piece hpiece => ?_⟩
    · rw [← List.flatMap_def, List.flatMap_singleton']
    · obtain ⟨c, hc, rfl⟩ := List.mem_map.1 hpiece
      exact mem_digitPattern_iff.2 ⟨c, h c hc, rfl⟩

theorem mem_integerPattern_iff {a : Text} : a ∈ integerPattern.matches' ↔ IsDigits a := by
  rw [integerPattern, matches'_mul, Language.mem_mul]
  constructor
  · rintro ⟨first, hfirst, rest, hrest, rfl⟩
    obtain ⟨c, hc, rfl⟩ := mem_digitPattern_iff.1 hfirst
    exact ⟨by simp, List.forall_mem_cons.2 ⟨hc, mem_digits_iff.1 hrest⟩⟩
  · rintro ⟨hne, hall⟩
    obtain ⟨c, rest, rfl⟩ := List.exists_cons_of_ne_nil hne
    rw [List.forall_mem_cons] at hall
    exact ⟨[c], mem_digitPattern_iff.2 ⟨c, hall.1, rfl⟩, rest, mem_digits_iff.2 hall.2, rfl⟩

theorem mem_optional_iff {p : RegularExpression Char} {a : Text} :
    a ∈ (1 + p).matches' ↔ a = [] ∨ a ∈ p.matches' := by
  rw [matches'_add, Language.mem_add, matches'_epsilon, Language.mem_one]

theorem mem_exponentPattern_iff {a : Text} : a ∈ exponentPattern.matches' ↔ IsExponent a := by
  have hletter : ∀ b : Text, b ∈ (oneOf ['e', 'E']).matches' ↔ b = ['e'] ∨ b = ['E'] := by
    simp [mem_oneOf_iff]
  have hsign : ∀ b : Text, b ∈ (1 + oneOf ['-', '+']).matches' ↔
      b = [] ∨ b = ['+'] ∨ b = ['-'] := by
    intro b
    rw [mem_optional_iff, mem_oneOf_iff]
    simp [or_comm]
  simp only [exponentPattern, matches'_mul, Language.mem_mul, hletter, hsign,
    mem_integerPattern_iff]
  constructor
  · rintro ⟨letter, hletter, -, ⟨sign, hsign, digits, hdigits, rfl⟩, rfl⟩
    rcases hletter with rfl | rfl
    · exact @IsExponent.mk 'e' sign digits (Or.inl rfl) hsign hdigits
    · exact @IsExponent.mk 'E' sign digits (Or.inr rfl) hsign hdigits
  · rintro @⟨letter, sign, digits, hletter, hsign, hdigits⟩
    exact ⟨[letter], by simpa using hletter, _, ⟨sign, hsign, digits, hdigits, rfl⟩, rfl⟩

theorem mem_floatPattern_iff {a : Text} : a ∈ floatPattern.matches' ↔ IsFloat a := by
  simp only [floatPattern, matches'_mul, Language.mem_mul, mem_digits_iff, mem_integerPattern_iff,
    mem_optional_iff, mem_exponentPattern_iff]
  constructor
  · rintro ⟨whole, hwhole, -, ⟨-, rfl, rest, hrest, rfl⟩, rfl⟩
    obtain ⟨fraction, hfraction, exponent, hexponent, rfl⟩ := hrest
    exact @IsFloat.mk whole fraction exponent hwhole hfraction hexponent
  · rintro @⟨whole, fraction, exponent, hwhole, hfraction, hexponent⟩
    exact ⟨whole, hwhole, _,
      ⟨['.'], rfl, _, ⟨fraction, hfraction, exponent, hexponent, rfl⟩, rfl⟩, rfl⟩

/-! ## The longest match -/

theorem width_of_isAscii {t : Text} (h : ∀ c ∈ t, c.toNat < 128) : t.width = t.length := by
  induction t with
  | nil => rfl
  | cons c rest ih =>
    have hc : c.utf8Size = 1 := Char.utf8Size_eq_one_iff.2
      (UInt32.le_iff_toNat_le.2 (Nat.le_of_lt_succ (h c List.mem_cons_self)))
    rw [Text.width_cons, hc, ih fun d hd => h d (List.mem_cons_of_mem c hd), List.length_cons,
      Nat.add_comm]

theorem toNat_lt_of_isDigit {c : Char} (h : c.isDigit = true) : c.toNat < 128 := by
  rw [Word.isDigit_iff] at h
  omega

theorem IsDigits.width_eq {a : Text} (h : IsDigits a) : a.width = a.length :=
  width_of_isAscii fun c hc => toNat_lt_of_isDigit (h.2 c hc)

theorem IsExponent.width_eq {a : Text} (h : IsExponent a) : a.width = a.length := by
  obtain @⟨letter, sign, digits, hletter, hsign, hdigits⟩ := h
  have hwidth : letter.utf8Size = 1 ∧ sign.width = sign.length := by
    constructor
    · rcases hletter with rfl | rfl <;> rfl
    · rcases hsign with rfl | rfl | rfl <;> rfl
  rw [Text.width_cons, Text.width_append, hwidth.1, hwidth.2, hdigits.width_eq, List.length_cons,
    List.length_append, Nat.add_comm]

theorem IsFloat.width_eq {a : Text} (h : IsFloat a) : a.width = a.length := by
  obtain @⟨whole, fraction, exponent, hwhole, hfraction, hexponent⟩ := h
  have hpoint : Char.utf8Size '.' = 1 := rfl
  have hexponent : exponent.width = exponent.length := by
    rcases hexponent with rfl | hexponent
    · rfl
    · exact hexponent.width_eq
  rw [Text.width_append, Text.width_cons, Text.width_append, hpoint, hexponent,
    hfraction.width_eq, width_of_isAscii fun c hc => toNat_lt_of_isDigit (hwhole c hc)]
  simp only [List.length_append, List.length_cons]
  omega

/-- A length that some match has and that no match exceeds measures the longest one, if all
characters that the pattern matches are of one byte. -/
theorem MeasuresLongest.of_length {p : RegularExpression Char} {t : Text} {width? : Option Nat}
    (hascii : ∀ a : Text, a ∈ p.matches' → a.width = a.length)
    (hattained : ∀ n, width? = some n → ∃ a, a <+: t ∧ a ∈ p.matches' ∧ a.length = n)
    (hbound : ∀ a, a <+: t → a ∈ p.matches' → ∃ n, width? = some n ∧ a.length ≤ n) :
    MeasuresLongest p t width? := by
  constructor
  case some_iff =>
    intro n
    constructor
    · intro h
      obtain ⟨a, ha, hmatched, hlength⟩ := hattained n h
      refine ⟨a, ⟨ha, hmatched, fun b hb hb' => ?_⟩, by rw [hascii a hmatched, hlength]⟩
      obtain ⟨m, hm, hle⟩ := hbound b hb hb'
      rwa [hlength, Option.some.inj (h.symm.trans hm)]
    · rintro ⟨a, ⟨ha, hmatched, hlongest⟩, rfl⟩
      obtain ⟨m, hm, hle⟩ := hbound a ha hmatched
      obtain ⟨b, hb, hb', hlength⟩ := hattained m hm
      have hge := hlongest b hb hb'
      rw [hm, hascii a hmatched, Option.some.injEq]
      omega
  case none_iff =>
    constructor
    · intro h a ha hmatched
      obtain ⟨m, hm, -⟩ := hbound a ha hmatched
      rw [h] at hm
      simp at hm
    · intro h
      refine Option.eq_none_iff_forall_ne_some.2 fun n hn => ?_
      obtain ⟨a, ha, hmatched, -⟩ := hattained n hn
      exact h a ha hmatched

theorem measuresLongest_float (t : Text) : MeasuresLongest floatPattern t (floatLength? t) := by
  refine .of_length (fun a ha => (mem_floatPattern_iff.1 ha).width_eq) (fun n hn => ?_) ?_
  · obtain ⟨a, b, rfl, hlength, ha⟩ := exists_float hn
    exact ⟨a, List.prefix_append a b, mem_floatPattern_iff.2 ha, hlength⟩
  · rintro a ⟨b, rfl⟩ ha
    exact (mem_floatPattern_iff.1 ha).length_le b

theorem measuresLongest_integer (t : Text) :
    MeasuresLongest integerPattern t (if digitRun t = 0 then none else some (digitRun t)) := by
  refine .of_length (fun a ha => (mem_integerPattern_iff.1 ha).width_eq) (fun n hn => ?_) ?_
  · obtain ⟨a, b, rfl, hlength, hall, -⟩ := exists_digitRun t
    rw [← hlength] at hn
    split at hn
    · simp at hn
    · next hpos =>
      have hne : a ≠ [] := fun hnil => hpos (by rw [hnil]; rfl)
      exact ⟨a, List.prefix_append a b, mem_integerPattern_iff.2 ⟨hne, hall⟩, Option.some.inj hn⟩
  · rintro a ⟨b, rfl⟩ ha
    obtain ⟨hne, hall⟩ := mem_integerPattern_iff.1 ha
    have hpos := List.length_pos_iff.2 hne
    rw [digitRun_digits_append hall, if_neg (by omega)]
    exact ⟨_, rfl, Nat.le_add_right _ _⟩

/-- The matcher takes the longest float in front of a text, measured in bytes; where there is
none it takes the longest integer, and where there is no integer either it takes nothing. -/
theorem match?_longest (t : Text) :
    MeasuresLongest floatPattern t (floatLength? t) ∧
    (∀ n, floatLength? t = some n → match? t = some (n, .numberFloat)) ∧
    (floatLength? t = none → ∃ width?, MeasuresLongest integerPattern t width? ∧
      match? t = width?.map fun n => (n, .numberInt)) := by
  refine ⟨measuresLongest_float t, fun n hn => ?_, fun hnone => ?_⟩
  · rw [match?, hn]
  · refine ⟨_, measuresLongest_integer t, ?_⟩
    by_cases hzero : digitRun t = 0
    · simp only [match?, hnone, if_pos hzero, Option.map_none]
    · simp only [match?, hnone, if_neg hzero, Option.map_some]

example : match? "1.5e+x".toList = some (3, .numberFloat) ∧
    match? "12.e5".toList = some (2, .numberInt) := by decide

end Number
end SqlAssist
