import SqlAssist.Symbol.Kind
import SqlAssist.Text.Blank

/-!
A documented function, and the parameter list that its signature spells out.
-/

namespace SqlAssist

structure SymbolEntry where
  name : Text
  signature : Text
  description : Text
  /-- A worked example, shown for window functions. -/
  example? : Option Text := none
  category : FunctionCategory := .other
  deriving Repr, DecidableEq

namespace Signature

/-- Splits an argument list at the commas that stand outside round and square brackets.  The
accumulator holds the current piece backwards.  A closing bracket with no open one is taken as
text, so that the rest of the list still splits. -/
def splitFrom (depth : Nat) (current : Text) : Text → List Text
  | [] => [current.reverse]
  | c :: rest =>
    if c = '(' ∨ c = '[' then splitFrom (depth + 1) (c :: current) rest
    else if c = ')' ∨ c = ']' then splitFrom (depth - 1) (c :: current) rest
    else if c = ',' ∧ depth = 0 then current.reverse :: splitFrom 0 [] rest
    else splitFrom depth (c :: current) rest

/-- The text between the first opening parenthesis and the last closing one after it. -/
def argumentText? (signature : Text) : Option Text :=
  match signature.dropWhile (· ≠ '(') with
  | [] => none
  | _ :: afterOpen =>
    match afterOpen.reverse.dropWhile (· ≠ ')') with
    | [] => none
    | _ :: inner => some inner.reverse

/-- The parameters a signature lists, trimmed; pieces that hold nothing are no parameters. -/
def parameters (signature : Text) : List Text :=
  match argumentText? signature with
  | none => []
  | some inner => ((splitFrom 0 [] inner).map Text.trim).filter (!·.isEmpty)

end Signature

namespace SymbolEntry

def parameters (e : SymbolEntry) : List Text := Signature.parameters e.signature

end SymbolEntry
end SqlAssist
