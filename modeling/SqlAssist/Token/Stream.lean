import SqlAssist.Text.Line
import SqlAssist.Token.Scanner

/-!
Scanning a document.  `Lines` walks over it line by line and carries the state across; `Stream`
hands out single tokens and scans a line only when its first token is asked for.  `tokens` is
the whole list at once.
-/

namespace SqlAssist

/-- A place between two lines of a document that is being scanned. -/
structure Lines where
  /-- The text from here on. -/
  rest : Text
  /-- Byte offset of `rest` in the document. -/
  offset : Nat := 0
  /-- The state the next line begins in. -/
  state : LineState := .root
  deriving Repr, DecidableEq

/-- A token stream: the tokens of the current line not yet handed out, and the lines after it. -/
structure Stream where
  lines : Lines
  current : List Token := []
  deriving Repr, DecidableEq

namespace Lines

def ofText (t : Text) : Lines := { rest := t }

/-- Scans the next line.  Its terminator, if it has one, is a token of its own.  After the last
line feed there is no further line. -/
def next? (x : Lexicon) (s : Lines) : Option (LineTokens × Lines) :=
  if s.rest.isEmpty then none
  else
    let (line, after?) := Text.firstLine s.rest
    let scan := x.scanLine s.state line.content
    let ending := if line.terminator.isEmpty then [] else [⟨line.terminator, .whitespace⟩]
    let tokens := Token.place s.offset scan.lexemes ++
      Token.place (s.offset + line.content.width) ending
    some (⟨tokens, scan.endState⟩, ⟨after?.getD [], s.offset + line.full.width, scan.endState⟩)

theorem length_rest_lt_of_next? {x : Lexicon} {s s' : Lines} {l : LineTokens}
    (h : s.next? x = some (l, s')) : s'.rest.length < s.rest.length := by
  unfold next? at h
  split at h
  · simp at h
  · next hne =>
    obtain ⟨-, rfl⟩ : _ = l ∧ _ = s' := by simpa using h
    have hpos : 0 < s.rest.length := by
      cases hs : s.rest with
      | nil => simp [hs] at hne
      | cons => simp
    cases hf : Text.firstLine s.rest with
    | mk line after? =>
      cases after? with
      | none => simpa using hpos
      | some rest => simpa using Text.length_lt_of_firstLine hf

/-- All lines from here on, and the place after each. -/
def all (x : Lexicon) (s : Lines) : List (LineTokens × Lines) :=
  match h : s.next? x with
  | none => []
  | some (l, s') =>
    have := length_rest_lt_of_next? h
    (l, s') :: all x s'
termination_by s.rest.length

def endState (x : Lexicon) (s : Lines) : LineState :=
  match (s.all x).getLast? with
  | none => s.state
  | some (l, _) => l.endState

end Lines

namespace Stream

def ofText (t : Text) : Stream := { lines := Lines.ofText t }

/-- The state after the line scanned last. -/
def state (s : Stream) : LineState := s.lines.state

/-- Scans lines until one has a token to hand out. -/
def refill (x : Lexicon) (lines : Lines) : Option Token × Stream :=
  match h : lines.next? x with
  | none => (none, ⟨lines, []⟩)
  | some (l, lines') =>
    match l.tokens with
    | t :: rest => (some t, ⟨lines', rest⟩)
    | [] =>
      have := Lines.length_rest_lt_of_next? h
      refill x lines'
termination_by lines.rest.length

/-- Hands out the next token; `none` for ever once the text is used up. -/
def next (x : Lexicon) (s : Stream) : Option Token × Stream :=
  match s.current with
  | t :: rest => (some t, ⟨s.lines, rest⟩)
  | [] => refill x s.lines

/-- Asks for up to `n` tokens, and stops early when there are no more. -/
def take (x : Lexicon) : Nat → Stream → List Token × Stream
  | 0, s => ([], s)
  | n + 1, s =>
    match s.next x with
    | (none, s') => ([], s')
    | (some t, s') =>
      let (ts, s'') := take x n s'
      (t :: ts, s'')

end Stream

namespace Lexicon

def lines (x : Lexicon) (text : Text) : List LineTokens :=
  ((Lines.ofText text).all x).map Prod.fst

def tokens (x : Lexicon) (text : Text) : List Token := (x.lines text).flatMap LineTokens.tokens

def endState (x : Lexicon) (text : Text) : LineState := (Lines.ofText text).endState x

end Lexicon
end SqlAssist
