import SqlAssist.Token.Stream

/-!
Open calls.  A walk over the tokens before a cursor keeps the parentheses that are open there,
each with the name in front of it and the commas counted in it.  The walk sees tokens, so that
a parenthesis in a comment or in a literal does not count.
-/

namespace SqlAssist

/-- A call that is open at the cursor: its name, and how many commas of its own lie before. -/
structure CallContext where
  callee : Text
  argument : Nat
  deriving Repr, DecidableEq

structure OpenParen where
  /-- The name that the parenthesis follows. -/
  callee? : Option Text
  commas : Nat := 0
  deriving Repr, DecidableEq

structure CallWalk where
  /-- The open parentheses, innermost first. -/
  parens : List OpenParen := []
  /-- The last token that is neither blank nor a comment. -/
  previous? : Option Token := none
  deriving Repr, DecidableEq

namespace TokenClass

/-- Classes of the words that can be the name of a call. -/
def isCallee : TokenClass → Bool
  | function | windowFunction | identifier => true
  | _ => false

end TokenClass

namespace CallWalk

def callee? (w : CallWalk) : Option Text :=
  match w.previous? with
  | some t => if t.tokenClass.isCallee then some t.text else none
  | none => none

def countComma : List OpenParen → List OpenParen
  | [] => []
  | p :: outer => { p with commas := p.commas + 1 } :: outer

def step (w : CallWalk) (t : Token) : CallWalk :=
  let parens :=
    if t.tokenClass = .bracket ∧ t.text = ['('] then { callee? := w.callee? } :: w.parens
    else if t.tokenClass = .bracket ∧ t.text = [')'] then w.parens.drop 1
    else if t.tokenClass = .delimiter ∧ t.text = [','] then countComma w.parens
    else w.parens
  { parens, previous? := if t.tokenClass.isTrivia then w.previous? else some t }

/-- The innermost open call that has a name. -/
def context? (w : CallWalk) : Option CallContext :=
  w.parens.findSome? fun p => p.callee?.map fun callee => { callee, argument := p.commas }

end CallWalk

namespace CallContext

def ofTokens? (tokens : List Token) : Option CallContext :=
  (tokens.foldl CallWalk.step {}).context?

end CallContext
end SqlAssist
