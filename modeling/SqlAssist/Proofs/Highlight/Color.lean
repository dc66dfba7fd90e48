import Mathlib.Algebra.GroupWithZero.Nat
import SqlAssist.Highlight.Color
import SqlAssist.Proofs.Text.Fold

/-!
The written form of colors.

A color is read by a test of its first character, a count of its bytes and the reader of
hexadecimal numbers, and it is written by padding the digits of its number with zeros.  Between
them stands one fact about digits: as long as there is a digit at all, each digit read adds itself,
in lower case, to the end of what the padded number looks like (`exists_hexNumberFrom?`).

The reader of numbers takes one text more than digits, a plus sign before them, and the count of
bytes does not rule it out.  Such a color is read as if a zero stood in the place of the sign.
-/

namespace SqlAssist

/-! ## Digits -/

/-- What a hexadecimal digit looks like in lower case, said of the 128 characters of ASCII. -/
theorem toLower_of_hexValue? {c : Char} {v : Nat} (h : hexValue? c = some v) :
    c.toLower = Nat.digitChar v ∧ c.utf8Size = 1 := by
  have hascii : ∀ n < 128, ∀ v ∈ hexValue? (Char.ofNat n),
      (Char.ofNat n).toLower = Nat.digitChar v ∧ (Char.ofNat n).utf8Size = 1 := by decide
  have hc : c.toNat < 128 := by
    unfold hexValue? at h
    split at h
    · next hdigit =>
      simp only [Char.isDigit, Bool.and_eq_true, decide_eq_true_eq] at hdigit
      exact Nat.lt_of_le_of_lt (UInt32.le_iff_toNat_le.1 hdigit.2) (by decide)
    · split at h
      · next hlower => exact Nat.lt_of_le_of_lt (UInt32.le_iff_toNat_le.1 hlower.2) (by decide)
      · split at h
        · next hupper => exact Nat.lt_of_le_of_lt (UInt32.le_iff_toNat_le.1 hupper.2) (by decide)
        · simp at h
  have hat := hascii c.toNat hc
  rw [Char.ofNat_toNat] at hat
  exact hat v h

theorem exists_hexValue? {c : Char} (h : isHexDigit c = true) : ∃ v, hexValue? c = some v :=
  Option.isSome_iff_exists.1 h

structure Text.IsHex (length : Nat) (t : Text) : Prop where
  length_eq : t.length = length
  digits : ∀ c ∈ t, isHexDigit c = true

theorem Text.width_of_isHexDigit {t : Text} (h : ∀ c ∈ t, isHexDigit c = true) :
    width t = t.length := by
  induction t with
  | nil => rfl
  | cons c rest ih =>
    obtain ⟨v, hv⟩ := exists_hexValue? (h c List.mem_cons_self)
    rw [width_cons, (toLower_of_hexValue? hv).2, ih fun d hd => h d (List.mem_cons_of_mem c hd),
      List.length_cons, Nat.add_comm]

namespace Color

def padded (length n : Nat) : Text := (Nat.toDigits 16 n).leftpad length '0'

/-- One more digit goes to the end. -/
theorem padded_succ {k : Nat} (hk : 0 < k) (n : Nat) {v : Nat} (hv : v < 16) :
    padded (k + 1) (n * 16 + v) = padded k n ++ [Nat.digitChar v] := by
  rw [padded, padded, List.leftpad, List.leftpad]
  rcases Nat.eq_zero_or_pos n with rfl | hn
  -- a zero is written as a digit, though it would be no digit of a longer number
  · obtain ⟨k, rfl⟩ := Nat.exists_eq_add_one_of_ne_zero (Nat.ne_of_gt hk)
    rw [Nat.zero_mul, Nat.zero_add, Nat.toDigits_of_lt_base hv, Nat.toDigits_zero,
      List.length_singleton, List.length_singleton, Nat.add_sub_cancel, Nat.add_sub_cancel,
      List.replicate_succ']
  · rw [Nat.mul_comm, ← Nat.toDigits_append_toDigits (by decide) hn hv,
      Nat.toDigits_of_lt_base hv, List.length_append, List.length_singleton,
      Nat.add_sub_add_right, List.append_assoc]

/-! ## Reading digits -/

/-- Digits are read to the end, and the number has them behind the digits read before. -/
theorem exists_hexNumberFrom? {k n : Nat} (hk : 0 < k) (hn : n < 16 ^ k) {t : Text}
    (ht : ∀ c ∈ t, isHexDigit c = true) :
    ∃ m, hexNumberFrom? n t = some m ∧ m < 16 ^ (k + t.length) ∧
      padded (k + t.length) m = padded k n ++ Text.fold t := by
  induction t generalizing k n with
  | nil => exact ⟨n, rfl, hn, (List.append_nil _).symm⟩
  | cons c rest ih =>
    obtain ⟨v, hv⟩ := exists_hexValue? (ht c List.mem_cons_self)
    have hlt := hexValue?_lt hv
    have hnext : n * 16 + v < 16 ^ (k + 1) := by
      rw [Nat.pow_succ]
      omega
    obtain ⟨m, hm, hbound, hdigits⟩ := ih (Nat.succ_pos k) hnext
      fun d hd => ht d (List.mem_cons_of_mem c hd)
    have hlength : k + (c :: rest).length = k + 1 + rest.length := by
      rw [List.length_cons]
      omega
    refine ⟨m, ?_, by rwa [hlength], ?_⟩
    · rw [hexNumberFrom?, hv]
      exact hm
    · rw [hlength, hdigits, padded_succ hk n hlt, Text.fold_cons, (toLower_of_hexValue? hv).1,
        List.append_assoc]
      rfl

theorem isHexDigit_of_hexNumberFrom? {n m : Nat} {t : Text} (h : hexNumberFrom? n t = some m) :
    ∀ c ∈ t, isHexDigit c = true := by
  induction t generalizing n with
  | nil => simp
  | cons c rest ih =>
    rw [hexNumberFrom?] at h
    obtain ⟨v, hv, hrest⟩ := Option.bind_eq_some_iff.1 h
    intro d hd
    rcases List.mem_cons.1 hd with rfl | hd
    · rw [isHexDigit, hv]
      rfl
    · exact ih hrest d hd

/-- So many digits make a number below that power of sixteen, and it is written with them. -/
theorem exists_hexNumber {k : Nat} {t : Text} (h : t.IsHex (k + 1)) :
    ∃ m, hexNumberFrom? 0 t = some m ∧ m < 16 ^ (k + 1) ∧ padded (k + 1) m = Text.fold t := by
  obtain ⟨hlength, hdigits⟩ := h
  obtain ⟨c, rest, rfl⟩ := List.exists_cons_of_length_eq_add_one hlength
  obtain ⟨v, hv⟩ := exists_hexValue? (hdigits c List.mem_cons_self)
  have hlt := hexValue?_lt hv
  obtain ⟨m, hm, hbound, hpadded⟩ := exists_hexNumberFrom? Nat.one_pos (n := v) hlt
    fun d hd => hdigits d (List.mem_cons_of_mem c hd)
  obtain rfl : rest.length = k := Nat.succ.inj hlength
  rw [Nat.add_comm 1] at hbound hpadded
  refine ⟨m, ?_, hbound, ?_⟩
  · rw [hexNumberFrom?, hv]
    show hexNumberFrom? (0 * 16 + v) rest = some m
    rw [Nat.zero_mul, Nat.zero_add, hm]
  · rw [hpadded, Text.fold_cons, (toLower_of_hexValue? hv).1, padded, Nat.toDigits_of_lt_base hlt]
    rfl

theorem hexNumber?_plus {t : Text} (h : t ≠ []) : hexNumber? ('+' :: t) = hexNumberFrom? 0 t := by
  obtain ⟨c, rest, rfl⟩ := List.exists_cons_of_ne_nil h
  rfl

theorem hexNumber?_of_ne {c : Char} (h : c ≠ '+') (rest : Text) :
    hexNumber? (c :: rest) = hexNumberFrom? 0 (c :: rest) := by
  rw [hexNumber?]
  · exact List.cons_ne_nil c rest
  · exact fun hplus => h (List.cons.inj hplus).1
  · exact fun t hplus => h (List.cons.inj hplus).1

/-! ## The texts that are read -/

/-- The written form of a color: a hash sign and six hexadecimal digits. -/
def IsWritten (s : Text) : Prop := ∃ t : Text, t.IsHex 6 ∧ s = '#' :: t

/-- The same with a plus sign in the place of the first digit. -/
def IsSigned (s : Text) : Prop := ∃ t : Text, t.IsHex 5 ∧ s = '#' :: '+' :: t

inductive ReadsAs : Text → Text → Prop
  | written {t : Text} (h : t.IsHex 6) : ReadsAs ('#' :: t) t
  | signed {t : Text} (h : t.IsHex 5) : ReadsAs ('#' :: '+' :: t) ('0' :: t)

theorem ReadsAs.isHex {s t : Text} (h : ReadsAs s t) : t.IsHex 6 := by
  cases h with
  | written h => exact h
  | signed h =>
    exact ⟨congrArg Nat.succ h.length_eq, List.forall_mem_cons.2 ⟨rfl, h.digits⟩⟩

theorem exists_readsAs_iff {s : Text} : (∃ t, ReadsAs s t) ↔ IsWritten s ∨ IsSigned s := by
  constructor
  · rintro ⟨t, @⟨_, h⟩ | @⟨t, h⟩⟩
    · exact Or.inl ⟨t, h, rfl⟩
    · exact Or.inr ⟨t, h, rfl⟩
  · rintro (⟨t, h, rfl⟩ | ⟨t, h, rfl⟩)
    · exact ⟨t, .written h⟩
    · exact ⟨'0' :: t, .signed h⟩

theorem not_isWritten_of_isSigned {s : Text} (h : IsSigned s) : ¬ IsWritten s := by
  obtain ⟨t, -, rfl⟩ := h
  rintro ⟨u, hu, hs⟩
  have hplus := hu.digits '+' ((List.cons.inj hs).2 ▸ List.mem_cons_self)
  exact absurd hplus (by decide)

/-- The reader of numbers takes six bytes if they are digits, one of which may give way to a plus
sign. -/
theorem readsAs_of_hexNumber? {written : Text} {n : Nat} (hwidth : written.width = 6)
    (h : hexNumber? written = some n) :
    ∃ t, ReadsAs ('#' :: written) t ∧ hexNumberFrom? 0 t = some n := by
  obtain ⟨c, rest, rfl⟩ : ∃ (c : Char) (rest : Text), written = c :: rest := by
    cases written with
    | nil => simp at hwidth
    | cons c rest => exact ⟨c, rest, rfl⟩
  by_cases hplus : c = '+'
  · subst hplus
    have hrest : rest.width = 5 := by
      rw [Text.width_cons] at hwidth
      have : Char.utf8Size '+' = 1 := by decide
      omega
    have hne : rest ≠ [] := by
      rintro rfl
      simp at hrest
    rw [hexNumber?_plus hne] at h
    have hdigits := isHexDigit_of_hexNumberFrom? h
    exact ⟨'0' :: rest, .signed ⟨by rw [← Text.width_of_isHexDigit hdigits, hrest], hdigits⟩, h⟩
  · rw [hexNumber?_of_ne hplus] at h
    have hdigits := isHexDigit_of_hexNumberFrom? h
    exact ⟨c :: rest, .written ⟨by rw [← Text.width_of_isHexDigit hdigits, hwidth], hdigits⟩, h⟩

theorem ReadsAs.hexNumber? {s t : Text} (h : ReadsAs s t) :
    ∃ written : Text, s = '#' :: written ∧ written.width = 6 ∧
      Color.hexNumber? written = hexNumberFrom? 0 t := by
  cases h with
  | written h =>
    obtain ⟨c, rest, rfl⟩ := List.exists_cons_of_length_eq_add_one h.length_eq
    have hplus : c ≠ '+' := by
      rintro rfl
      exact absurd (h.digits '+' List.mem_cons_self) (by decide)
    exact ⟨_, rfl, by rw [Text.width_of_isHexDigit h.digits, h.length_eq],
      hexNumber?_of_ne hplus rest⟩
  | @signed t h =>
    have hne : t ≠ [] := by
      rintro rfl
      exact absurd h.length_eq (by decide)
    refine ⟨_, rfl, ?_, hexNumber?_plus hne⟩
    rw [Text.width_cons, Text.width_of_isHexDigit h.digits, h.length_eq]
    rfl

theorem parse_eq_ok {s : Text} {c : Color} (h : parse s = .ok c) :
    ∃ (written : Text) (n : Nat), s = '#' :: written ∧ written.width = 6 ∧
      hexNumber? written = some n ∧ c = ofNat n := by
  unfold parse at h
  split at h
  · next written =>
    split at h
    · simp at h
    · next hwidth =>
      split at h
      · next n hn => exact ⟨written, n, rfl, Decidable.not_not.1 hwidth, hn, (Except.ok.inj h).symm⟩
      · simp at h
  · simp at h

theorem parse_of_hexNumber? {written : Text} {n : Nat} (hwidth : written.width = 6)
    (h : hexNumber? written = some n) : parse ('#' :: written) = .ok (ofNat n) := by
  rw [parse, if_neg (not_not_intro hwidth), h]

theorem ofNat_value (c : Color) : ofNat c.value = c := by
  obtain ⟨n, hn⟩ := c
  simp only [ofNat, Nat.mod_eq_of_lt hn]

/-- A text is read by its six digits.  Their number is below the limit for colors, so that reading
it takes nothing off, and it is written with the same digits in lower case. -/
theorem parse_eq_ok_iff {s : Text} {c : Color} :
    parse s = .ok c ↔ ∃ t, ReadsAs s t ∧ hexNumberFrom? 0 t = some c.value ∧
      c.text = '#' :: Text.fold t := by
  constructor
  · intro h
    obtain ⟨written, n, rfl, hwidth, hn, rfl⟩ := parse_eq_ok h
    obtain ⟨t, ht, hread⟩ := readsAs_of_hexNumber? hwidth hn
    obtain ⟨m, hm, hlt, hpadded⟩ := exists_hexNumber ht.isHex
    obtain rfl : m = n := Option.some.inj (hm.symm.trans hread)
    have hvalue : (ofNat m).value = m := Nat.mod_eq_of_lt hlt
    have htext : (ofNat m).text = '#' :: padded 6 (ofNat m).value := rfl
    exact ⟨t, ht, by rw [hvalue, hm], by rw [htext, hvalue, hpadded]⟩
  · rintro ⟨t, ht, hread, -⟩
    obtain ⟨written, rfl, hwidth, hnumber⟩ := ht.hexNumber?
    rw [parse_of_hexNumber? hwidth (hnumber.trans hread), ofNat_value]

theorem exists_parse_iff {s : Text} : (∃ c, parse s = .ok c) ↔ ∃ t, ReadsAs s t := by
  constructor
  · rintro ⟨c, hc⟩
    obtain ⟨t, ht, -⟩ := parse_eq_ok_iff.1 hc
    exact ⟨t, ht⟩
  · rintro ⟨t, ht⟩
    obtain ⟨m, hm, -, -⟩ := exists_hexNumber ht.isHex
    obtain ⟨written, rfl, hwidth, hnumber⟩ := ht.hexNumber?
    exact ⟨ofNat m, parse_of_hexNumber? hwidth (hnumber.trans hm)⟩

/-- Colors are read from their written form, and from that with a plus sign for its first digit,
which is no written form.  The value is the number that the text behind the hash sign denotes, and
it has 24 bits.  Written again, the color shows the digits it was read from in lower case, and a
zero in the place of the sign. -/
theorem reads_iff (s : Text) :
    ((∃ c, parse s = .ok c) ↔ IsWritten s ∨ IsSigned s) ∧ (IsSigned s → ¬ IsWritten s) ∧
    ∀ c, parse s = .ok c →
      c.value < 2 ^ 24 ∧ hexNumber? s.tail = some c.value ∧
      (IsWritten s → c.text = Text.fold s) ∧
      ∀ t, s = '#' :: '+' :: t → c.text = '#' :: '0' :: Text.fold t := by
  refine ⟨exists_parse_iff.trans exists_readsAs_iff, not_isWritten_of_isSigned, fun c hc => ?_⟩
  obtain ⟨t, ht, hread, htext⟩ := parse_eq_ok_iff.1 hc
  obtain ⟨m, hm, hlt, -⟩ := exists_hexNumber ht.isHex
  obtain rfl : m = c.value := Option.some.inj (hm.symm.trans hread)
  obtain ⟨written, rfl, -, hnumber⟩ := ht.hexNumber?
  refine ⟨hlt, hnumber.trans hread, fun hwritten => ?_, fun u hu => ?_⟩
  · cases ht with
    | written h => exact htext
    | @signed u h => exact absurd hwritten (not_isWritten_of_isSigned ⟨u, h, rfl⟩)
  · cases ht with
    | written h =>
      obtain rfl := (List.cons.inj hu).2
      exact absurd (h.digits '+' List.mem_cons_self) (by decide)
    | signed h =>
      obtain rfl : _ = u := (List.cons.inj (List.cons.inj hu).2).2
      exact htext

/-- Letters of both cases. -/
example : (parse "#0A0b0C".toList).toOption.map text = some "#0a0b0c".toList := by decide

/-- A sign is no digit, and the text is read all the same. -/
theorem not_only_written_read : ¬ ∀ s, (∃ c, parse s = .ok c) ↔ IsWritten s := by
  intro h
  have hsigned : IsSigned "#+12345".toList :=
    ⟨"12345".toList, ⟨rfl, List.all_eq_true.1 (by decide)⟩, rfl⟩
  have hread : ∃ c, parse "#+12345".toList = .ok c :=
    exists_parse_iff.2 (exists_readsAs_iff.2 (Or.inr hsigned))
  exact not_isWritten_of_isSigned hsigned ((h _).1 hread)

end Color
end SqlAssist
