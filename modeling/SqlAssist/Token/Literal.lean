import SqlAssist.Text.Basic
import SqlAssist.Text.Hex

/-!
Quoted literals.  A literal is closed by its own quote; a backslash hides the character after
it, and as the last character of a line it carries the literal over to the next one.
-/

namespace SqlAssist

inductive Quote where
  | double
  | single
  deriving Repr, DecidableEq

namespace Quote

def char : Quote → Char
  | double => '"'
  | single => '\''

def ofChar? (c : Char) : Option Quote :=
  if c = '"' then some double else if c = '\'' then some single else none

end Quote

inductive LiteralEnd where
  | closed
  /-- The line ends in a backslash that hides nothing. -/
  | continued
  | unterminated
  deriving Repr, DecidableEq

namespace Literal

/-- Looks ahead from inside a literal to the end of its line. -/
def lookAhead (quote : Quote) : Text → LiteralEnd
  | [] => .unterminated
  | ['\\'] => .continued
  | '\\' :: _ :: rest => lookAhead quote rest
  | c :: rest => if c = quote.char then .closed else lookAhead quote rest

/-- Length of the run of hexadecimal digits at the start, at most `limit`. -/
def hexRun (limit : Nat) (t : Text) : Nat := ((t.take limit).takeWhile isHexDigit).length

def simpleCodes : List Char := ['a', 'b', 'f', 'n', 'r', 't', 'v', '\\', '"', '\'']

/-- Length of the escape code after a backslash: one of the simple codes, or `x` with one to
four hexadecimal digits, `u` with four or `U` with eight. -/
def escapeLength? : Text → Option Nat
  | [] => none
  | c :: rest =>
    if simpleCodes.contains c then some 1
    else if c = 'x' then
      let n := hexRun 4 rest
      if n = 0 then none else some (1 + n)
    else if c = 'u' then if hexRun 4 rest = 4 then some 5 else none
    else if c = 'U' then if hexRun 8 rest = 8 then some 9 else none
    else none

end Literal
end SqlAssist
