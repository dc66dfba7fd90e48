import SqlAssist.Token.Class
import SqlAssist.Token.Literal

/-!
Lexemes, which are classified pieces of text, and tokens, which are lexemes at their place.
A scanner only cuts: the places follow from the widths of the pieces.
-/

namespace SqlAssist

/-- A classified piece of text. -/
structure Lexeme where
  text : Text
  tokenClass : TokenClass
  deriving Repr, DecidableEq

/-- A classified piece of text and the byte offset it starts at. -/
structure Token where
  text : Text
  tokenClass : TokenClass
  start : Nat
  deriving Repr, DecidableEq

namespace Token

/-- Byte offset one past the last character. -/
def stop (t : Token) : Nat := t.start + t.text.width

def contains (t : Token) (offset : Nat) : Bool := t.start ≤ offset && offset < t.stop

/-- Lays lexemes one after the other, the first at byte `offset`. -/
def place (offset : Nat) : List Lexeme → List Token
  | [] => []
  | l :: rest => ⟨l.text, l.tokenClass, offset⟩ :: place (offset + l.text.width) rest

theorem place_append (offset : Nat) (a b : List Lexeme) :
    place offset (a ++ b) =
      place offset a ++ place (offset + Text.width (a.flatMap Lexeme.text)) b := by
  induction a generalizing offset with
  | nil => simp [place]
  | cons l rest ih => simp [place, ih, Nat.add_assoc]

@[simp] theorem length_place (offset : Nat) (ls : List Lexeme) :
    (place offset ls).length = ls.length := by
  induction ls generalizing offset with
  | nil => rfl
  | cons l rest ih => simp [place, ih]

end Token

/-- What a line begins inside of.  This is all that one line hands to the next. -/
inductive LineState where
  | root
  | blockComment
  | literal (quote : Quote)
  deriving Repr, DecidableEq, Inhabited

structure LineScan where
  lexemes : List Lexeme
  endState : LineState
  deriving Repr, DecidableEq

structure LineTokens where
  tokens : List Token
  endState : LineState
  deriving Repr, DecidableEq

end SqlAssist
