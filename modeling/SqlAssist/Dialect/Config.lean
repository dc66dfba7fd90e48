import SqlAssist.Text.Basic

/-!
The part of a dialect that is not a list of names: its comment markers, its operators and the
bracket pairs an editor offers.  A setting that a dialect does not give has the value below.
-/

namespace SqlAssist

structure CommentMarkers where
  /-- Opens a comment that runs to the end of its line. -/
  line : Text := ['-', '-']
  blockStart : Text := ['/', '*']
  blockEnd : Text := ['*', '/']
  deriving Repr, DecidableEq

namespace CommentMarkers

/-- Whether a comment of either form opens at the start of `t`. -/
def opensAt (m : CommentMarkers) (t : Text) : Bool :=
  m.line.isPrefixOf t || m.blockStart.isPrefixOf t

end CommentMarkers

structure TextPair where
  opening : Text
  closing : Text
  deriving Repr, DecidableEq

/-- The lexical settings of a dialect.  The two lists of pairs are for the host's editor; the
scanner has its own fixed set of brackets. -/
structure LexicalSettings where
  caseSensitive : Bool := false
  /-- The runs of symbol characters that are operators. -/
  operators : List Text :=
    [['='], ['>'], ['<'], ['!'], ['~'], ['?'], [':'],
      ['=', '='], ['<', '='], ['>', '='], ['!', '='], ['<', '>'],
      ['&', '&'], ['|', '|'], ['+', '+'],
      ['+'], ['-'], ['*'], ['/'], ['&'], ['|'], ['^'], ['%'],
      ['<', '<'], ['>', '>'], ['-', '>'], ['=', '>']]
  brackets : List TextPair := [⟨['('], [')']⟩, ⟨['['], [']']⟩, ⟨['{'], ['}']⟩]
  autoClosingPairs : List TextPair :=
    [⟨['('], [')']⟩, ⟨['['], [']']⟩, ⟨['{'], ['}']⟩, ⟨['"'], ['"']⟩, ⟨['\''], ['\'']⟩]
  deriving Repr, DecidableEq

structure DialectConfig where
  id : Text := "streamsql".toList
  displayName : Text := "Stream SQL".toList
  comments : CommentMarkers := {}
  lexical : LexicalSettings := {}
  deriving Repr, DecidableEq

end SqlAssist
