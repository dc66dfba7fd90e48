import SqlAssist.Dialect.Basic
import SqlAssist.Text.Blank
import SqlAssist.Token.Basic
import SqlAssist.Token.Word

/-!
Scanning one line.  A rule looks at the text that is left and says how many characters the next
lexeme takes, what it is and what comes after; `scanFrom` cuts there and goes on.  Since a rule
never names a text, what the lexemes of a line add up to does not depend on the rules.
-/

namespace SqlAssist

/-- What the scanner knows of a dialect. -/
structure Lexicon where
  comments : CommentMarkers := {}
  operators : List Text := []
  catalog : Catalog := {}
  deriving Repr, DecidableEq

/-- The next cut: how many characters it takes, their class and the state after them. -/
structure Cut where
  length : Nat
  tokenClass : TokenClass
  next : LineState
  deriving Repr, DecidableEq

namespace Dialect

def lexicon (d : Dialect) : Lexicon :=
  { comments := d.config.comments, operators := d.config.lexical.operators, catalog := d.catalog }

end Dialect

namespace Lexicon

def symbolCharacters : List Char :=
  ['=', '>', '<', '!', '~', '?', ':', '&', '|', '+', '-', '*', '/', '^', '%']

def isSymbol (c : Char) : Bool := symbolCharacters.contains c

def isBracket (c : Char) : Bool := ['(', ')', '[', ']', '{', '}'].contains c

def isDelimiter (c : Char) : Bool := [';', ',', '.'].contains c

def classifyWord (x : Lexicon) (word : Text) : TokenClass :=
  TokenClass.ofSymbol? (x.catalog.classify word)

/-- How far a run of symbols goes on.  It stops where a comment opens. -/
def symbolRun (x : Lexicon) : Text → Nat
  | [] => 0
  | c :: rest =>
    if isSymbol c && !x.comments.opensAt (c :: rest) then 1 + symbolRun x rest else 0

/-- A comment that opens here.  A block comment that does not close on the line takes all of it
and stays open; its end is looked for behind the opener. -/
def commentCut? (x : Lexicon) (t : Text) : Option Cut :=
  if x.comments.line.isPrefixOf t then some ⟨t.length, .comment, .root⟩
  else if x.comments.blockStart.isPrefixOf t then
    let opener := x.comments.blockStart.length
    match Text.search? x.comments.blockEnd (t.drop opener) with
    | some i => some ⟨opener + i + x.comments.blockEnd.length, .comment, .root⟩
    | none => some ⟨t.length, .comment, .blockComment⟩
  else none

/-- A quote that opens here.  Without an end on this line the rest of the line is one broken
literal, and the next line starts afresh. -/
def quoteCut (quote : Quote) (t : Text) : Cut :=
  match Literal.lookAhead quote (t.drop 1) with
  | .unterminated => ⟨t.length, .stringInvalid, .root⟩
  | .closed | .continued => ⟨1, .string, .literal quote⟩

/-- The cut at `c :: rest` outside of comments and literals. -/
def rootCut (x : Lexicon) (c : Char) (rest : Text) : Cut :=
  let t := c :: rest
  match x.commentCut? t with
  | some cut => cut
  | none =>
    if Text.isBlank c then ⟨(t.takeWhile Text.isBlank).length, .whitespace, .root⟩
    else
      match Quote.ofChar? c with
      | some quote => quoteCut quote t
      | none =>
        match Number.match? t with
        | some (n, numberClass) => ⟨n, numberClass, .root⟩
        | none =>
          if Word.isStart c then
            let n := Word.lengthAt t
            ⟨n, x.classifyWord (t.take n), .root⟩
          else if isSymbol c then
            let n := 1 + x.symbolRun rest
            ⟨n, if x.operators.contains (t.take n) then .operator else .default, .root⟩
          else if isBracket c then ⟨1, .bracket, .root⟩
          else if isDelimiter c then ⟨1, .delimiter, .root⟩
          else ⟨1, .default, .root⟩

def commentBodyCut (x : Lexicon) (t : Text) : Cut :=
  match Text.search? x.comments.blockEnd t with
  | some i => ⟨i + x.comments.blockEnd.length, .comment, .root⟩
  | none => ⟨t.length, .comment, .blockComment⟩

def literalCut (quote : Quote) (c : Char) (rest : Text) : Cut :=
  if c = quote.char then ⟨1, .string, .root⟩
  else if c = '\\' then
    if rest.isEmpty then ⟨1, .stringEscape, .literal quote⟩
    else
      match Literal.escapeLength? rest with
      | some n => ⟨1 + n, .stringEscape, .literal quote⟩
      | none => ⟨2, .stringEscapeInvalid, .literal quote⟩
  else
    let n := ((c :: rest).takeWhile fun d => d ≠ '\\' ∧ d ≠ quote.char).length
    ⟨n, .string, .literal quote⟩

def cut (x : Lexicon) (state : LineState) (c : Char) (rest : Text) : Cut :=
  match state with
  | .root => x.rootCut c rest
  | .blockComment => x.commentBodyCut (c :: rest)
  | .literal quote => literalCut quote c rest

/-- Scans to the end of a line.  Each cut has to take some characters, and only comment markers
that are empty can give one that takes none.  There the scan fails: it ends, with the rest of the
line left out.  A loop that goes on unchecked differs from it there only.  It would leave a block
comment behind an empty piece, and outside of comments, with both markers empty, go round for
ever. -/
def scanFrom (x : Lexicon) (state : LineState) (t : Text) : LineScan :=
  match t with
  | [] => ⟨[], state⟩
  | c :: rest =>
    let k := x.cut state c rest
    if stuck : k.length = 0 then ⟨[], state⟩
    else
      have : 0 < (x.cut state c rest).length := Nat.pos_of_ne_zero stuck
      let tail := x.scanFrom k.next ((c :: rest).drop k.length)
      ⟨⟨(c :: rest).take k.length, k.tokenClass⟩ :: tail.lexemes, tail.endState⟩
termination_by t.length
decreasing_by
  simp only [List.length_drop, List.length_cons]
  omega

/-- Scans a line, without its terminator, from the state that the line before it ended in.  A
literal carried into the line that neither closes nor goes on is broken, like one that opens
on the line and has no end there. -/
def scanLine (x : Lexicon) (state : LineState) (line : Text) : LineScan :=
  match state with
  | .literal quote =>
    if Literal.lookAhead quote line = .unterminated then
      ⟨if line.isEmpty then [] else [⟨line, .stringInvalid⟩], .root⟩
    else x.scanFrom state line
  | _ => x.scanFrom state line

def lineTokens (x : Lexicon) (state : LineState) (line : Text) : LineTokens :=
  let scan := x.scanLine state line
  ⟨Token.place 0 scan.lexemes, scan.endState⟩

end Lexicon
end SqlAssist
