import SqlAssist.Text.Basic
import SqlAssist.Text.Hex

/-!
Colors.  A color is a 24-bit number, written as a hash sign and six hexadecimal digits.
-/

namespace SqlAssist

structure Color where
  value : Nat
  value_lt : value < 0x1000000
  deriving Repr, DecidableEq

inductive ColorError where
  | missingHash (written : Text)
  | wrongLength (written : Text)
  | notHexadecimal (written : Text)
  deriving Repr, DecidableEq

namespace ColorError

def message : ColorError → String
  | missingHash written => "color '" ++ String.ofList written ++ "' must start with '#'"
  | wrongLength written => "color '" ++ String.ofList written ++ "' must have six hex digits"
  | notHexadecimal written => "color '" ++ String.ofList written ++ "' is not hexadecimal"

end ColorError

namespace Color

/-- The color whose number is made of the low 24 bits. -/
def ofNat (n : Nat) : Color := ⟨n % 0x1000000, Nat.mod_lt _ (by decide)⟩

def hexNumberFrom? (n : Nat) : Text → Option Nat
  | [] => some n
  | c :: rest => do hexNumberFrom? (n * 16 + (← hexValue? c)) rest

/-- A hexadecimal number of at least one digit.  It may have a plus sign. -/
def hexNumber? : Text → Option Nat
  | [] => none
  | ['+'] => none
  | '+' :: digits => hexNumberFrom? 0 digits
  | digits => hexNumberFrom? 0 digits

/-- Reads a color.  The length is checked in bytes and before the digits are looked at. -/
def parse (written : Text) : Except ColorError Color :=
  match written with
  | '#' :: digits =>
    if Text.width digits ≠ 6 then .error (.wrongLength written)
    else
      match hexNumber? digits with
      | some n => .ok (ofNat n)
      | none => .error (.notHexadecimal written)
  | _ => .error (.missingHash written)

/-- The written form, with six digits in lower case. -/
def text (c : Color) : Text := '#' :: (Nat.toDigits 16 c.value).leftpad 6 '0'

end Color
end SqlAssist
