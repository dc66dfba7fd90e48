import SqlAssist.Text.Basic
import SqlAssist.Token.Class

/-!
Number literals: a run of digits, or a float, which has a point with digits after it and may
have digits before it and an exponent behind.  Lengths count characters, and since every
character of a number is ASCII they count bytes as well.
-/

namespace SqlAssist
namespace Number

def digitRun (t : Text) : Nat := (t.takeWhile Char.isDigit).length

def signLength : Text → Nat
  | '+' :: _ => 1
  | '-' :: _ => 1
  | _ => 0

/-- Length of the exponent at the start.  A letter without digits behind it is no exponent and
counts zero, so that it can begin a word. -/
def exponentLength : Text → Nat
  | [] => 0
  | c :: rest =>
    if c = 'e' ∨ c = 'E' then
      let sign := signLength rest
      let digits := digitRun (rest.drop sign)
      if digits = 0 then 0 else 1 + sign + digits
    else 0

def floatLength? (t : Text) : Option Nat :=
  let whole := digitRun t
  match t.drop whole with
  | '.' :: rest =>
    let fraction := digitRun rest
    if fraction = 0 then none
    else some (whole + 1 + fraction + exponentLength (rest.drop fraction))
  | _ => none

/-- Length and class of the number at the start: a float if there is one, else an integer. -/
def match? (t : Text) : Option (Nat × TokenClass) :=
  match floatLength? t with
  | some n => some (n, .numberFloat)
  | none => if digitRun t = 0 then none else some (digitRun t, .numberInt)

theorem floatLength?_pos {t : Text} {n : Nat} (h : floatLength? t = some n) : 0 < n := by
  simp only [floatLength?] at h
  split at h
  · split at h
    · simp at h
    · obtain rfl := Option.some.inj h
      omega
  · simp at h

theorem match?_pos {t : Text} {n : Nat} {c : TokenClass} (h : match? t = some (n, c)) :
    0 < n := by
  simp only [match?] at h
  split at h
  · next k hk =>
    obtain ⟨rfl, -⟩ : k = n ∧ _ = c := by simpa using h
    exact floatLength?_pos hk
  · split at h
    · simp at h
    · next hrun =>
      obtain ⟨rfl, -⟩ : digitRun t = n ∧ _ = c := by simpa using h
      omega

end Number
end SqlAssist
