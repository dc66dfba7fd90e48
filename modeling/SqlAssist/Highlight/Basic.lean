import SqlAssist.Highlight.Kind
import SqlAssist.Token.Stream

/-!
Highlights: the pieces of a document that are styled, which are all tokens but the blank ones.
-/

namespace SqlAssist

structure Highlight where
  start : Nat
  stop : Nat
  kind : HighlightKind
  deriving Repr, DecidableEq

namespace Highlight

def ofToken (t : Token) : Highlight :=
  { start := t.start, stop := t.stop, kind := t.tokenClass.highlightKind }

def ofTokens (tokens : List Token) : List Highlight :=
  (tokens.filter fun t => t.tokenClass ≠ .whitespace).map ofToken

/-- Moves a highlight behind `offset` bytes of text. -/
def shift (offset : Nat) (h : Highlight) : Highlight :=
  { h with start := offset + h.start, stop := offset + h.stop }

end Highlight

namespace Lexicon

def highlights (x : Lexicon) (text : Text) : List Highlight := Highlight.ofTokens (x.tokens text)

/-- The highlights of a line, with offsets from its start, and the state the next line begins
in. -/
def lineHighlights (x : Lexicon) (state : LineState) (line : Text) :
    List Highlight × LineState :=
  let l := x.lineTokens state line
  (Highlight.ofTokens l.tokens, l.endState)

/-- The kind of the token at a byte offset.  Behind the text everything is unstyled. -/
def highlightAt (x : Lexicon) (text : Text) (offset : Nat) : HighlightKind :=
  match (x.tokens text).find? (·.contains offset) with
  | some t => t.tokenClass.highlightKind
  | none => .default

def errors (x : Lexicon) (text : Text) : List Highlight :=
  (x.highlights text).filter (·.kind.isError)

end Lexicon
end SqlAssist
