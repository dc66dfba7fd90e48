/-!
Hexadecimal digits, which are ASCII and may be of either case.
-/

namespace SqlAssist

def hexValue? (c : Char) : Option Nat :=
  if c.isDigit then some (c.toNat - '0'.toNat)
  else if 'a' ≤ c ∧ c ≤ 'f' then some (c.toNat - 'a'.toNat + 10)
  else if 'A' ≤ c ∧ c ≤ 'F' then some (c.toNat - 'A'.toNat + 10)
  else none

def isHexDigit (c : Char) : Bool := (hexValue? c).isSome

theorem hexValue?_lt {c : Char} {n : Nat} (h : hexValue? c = some n) : n < 16 := by
  unfold hexValue? at h
  split at h
  · next hd =>
    obtain rfl := Option.some.inj h
    have hc : c.toNat ≤ '9'.toNat := by
      simp only [Char.isDigit, Bool.and_eq_true, decide_eq_true_eq] at hd
      exact UInt32.le_iff_toNat_le.1 hd.2
    have : '9'.toNat = 57 := rfl
    have : '0'.toNat = 48 := rfl
    omega
  · split at h
    · next _ hl =>
      obtain rfl := Option.some.inj h
      have hc : c.toNat ≤ 'f'.toNat := UInt32.le_iff_toNat_le.1 hl.2
      have : 'f'.toNat = 102 := rfl
      have : 'a'.toNat = 97 := rfl
      omega
    · split at h
      · next _ _ hu =>
        obtain rfl := Option.some.inj h
        have hc : c.toNat ≤ 'F'.toNat := UInt32.le_iff_toNat_le.1 hu.2
        have : 'F'.toNat = 70 := rfl
        have : 'A'.toNat = 65 := rfl
        omega
      · simp at h

end SqlAssist
