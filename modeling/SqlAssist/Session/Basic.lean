import SqlAssist.Assist.Provider
import SqlAssist.Document.Buffer
import SqlAssist.Highlight.Basic
import SqlAssist.Marker.Board

/-!
A session is one open document with its providers and markers.  It remembers the states that
its first lines begin in.  What a line begins in depends only on the lines above it, so an edit
leaves the states valid up to the line that it starts on, and the others are forgotten.
-/

namespace SqlAssist

/-- A session whose markers are of type `μ`; they are passed on without being looked at. -/
structure Session (μ : Type) where
  buffer : Buffer
  dialect : Dialect
  providers : Providers
  /-- The states that the first lines begin in; never empty. -/
  entryStates : List LineState := [.root]
  /-- The markers published last. -/
  markers : List μ := []
  board : Board := {}

namespace Session

variable {μ : Type}

def withProviders (text : Text) (dialect : Dialect) (providers : Providers) : Session μ :=
  { buffer := Buffer.ofText text, dialect, providers }

def ofText (text : Text) (dialect : Dialect) : Session μ :=
  withProviders text dialect dialect.providers

def text (s : Session μ) : Text := s.buffer.text

/-! ### Edits -/

def forgetAfter (s : Session μ) (line : Nat) : Session μ :=
  { s with entryStates := s.entryStates.take (line + 1) }

/-- Takes over a buffer that was edited from byte `offset` on. -/
def edited (s : Session μ) (offset : Nat) (b : Buffer) : Session μ :=
  { s with buffer := b }.forgetAfter ((b.lineOf? offset).getD 0)

def replace (s : Session μ) (start stop : Nat) (text : Text) : Except EditError (Session μ) := do
  let b ← s.buffer.replace start stop text
  return s.edited start b

def insert (s : Session μ) (offset : Nat) (text : Text) : Except EditError (Session μ) := do
  let b ← s.buffer.insert offset text
  return s.edited offset b

def delete (s : Session μ) (start stop : Nat) : Except EditError (Session μ) := do
  let b ← s.buffer.delete start stop
  return s.edited start b

def apply (s : Session μ) : Edit → Except EditError (Session μ)
  | .insert offset text => s.insert offset text
  | .delete start stop => s.delete start stop
  | .replace start stop text => s.replace start stop text

def setText (s : Session μ) (text : Text) : Except EditError (Session μ) :=
  s.replace 0 s.buffer.length text

/-- Applies an edit by positions.  The start is looked up before the end. -/
def applyTextEdit (s : Session μ) (e : TextEdit) : Except EditError (Session μ) := do
  let start ← s.buffer.positionToOffset e.range.start
  let stop ← s.buffer.positionToOffset e.range.stop
  s.replace start stop e.newText

/-- An edit of the buffer behind the session's back.  The session cannot tell where it takes
place, so it forgets all states but the first, whether or not the edit is refused. -/
def editBuffer (s : Session μ) (e : Edit) : Except EditError Unit × Session μ :=
  let s := s.forgetAfter 0
  match s.buffer.apply e with
  | .ok b => (.ok (), { s with buffer := b })
  | .error e => (.error e, s)

/-- Hands out the changes.  The text stays, and so do the states. -/
def takeChanges (s : Session μ) : List Change × Session μ :=
  let (taken, b) := s.buffer.takeChanges
  (taken, { s with buffer := b })

/-! ### Highlights -/

/-- The states after up to `n` lines, of which the first begins in the given state. -/
def statesAfter (x : Lexicon) : Nat → LineState → List Line → List LineState
  | 0, _, _ => []
  | _, _, [] => []
  | n + 1, state, l :: rest =>
    let next := (x.scanLine state l.content).endState
    next :: statesAfter x n next rest

/-- Learns the states up to a line, from the last one that is known. -/
def learn (s : Session μ) (line : Nat) : Session μ :=
  let known := s.entryStates
  let missing := line + 1 - known.length
  let unread := (Text.lines s.text).drop (known.length - 1)
  { s with
    entryStates :=
      known ++ statesAfter s.dialect.lexicon missing (known.getLastD .root) unread }

def entryState (s : Session μ) (line : Nat) : Option LineState × Session μ :=
  if line < s.buffer.lineCount then
    let s := s.learn line
    (s.entryStates[line]?, s)
  else (none, s)

/-- The highlights of a line, with offsets into the document.  The state behind the line comes
with them, and is kept when it is the next one to be learnt. -/
def lineHighlights (s : Session μ) (line : Nat) : Option (List Highlight) × Session μ :=
  match s.entryState line with
  | (none, s) => (none, s)
  | (some entry, s) =>
    match s.buffer.line? line, s.buffer.lineStart? line with
    | some content, some start =>
      let (hs, next) := s.dialect.lexicon.lineHighlights entry content
      let isNew := s.entryStates.length = line + 1 ∧ line + 1 < s.buffer.lineCount
      let s := if isNew then { s with entryStates := s.entryStates ++ [next] } else s
      (some (hs.map (Highlight.shift start)), s)
    | _, _ => (none, s)

def highlightsOf (s : Session μ) : List Nat → List Highlight × Session μ
  | [] => ([], s)
  | line :: rest =>
    let (here?, s) := s.lineHighlights line
    let (later, s) := s.highlightsOf rest
    (here?.getD [] ++ later, s)

def highlights (s : Session μ) : List Highlight × Session μ :=
  s.highlightsOf (List.range s.buffer.lineCount)

/-! ### Providers -/

def completions (s : Session μ) (p : Position) : List CompletionItem :=
  match s.providers.completion? with
  | none => []
  | some provider => (provider.completions s.text p).toList

def triggersCompletion (s : Session μ) (typed : Text) : Bool :=
  match s.providers.completion? with
  | none => false
  | some provider => provider.isTrigger typed

def hover? (s : Session μ) (p : Position) : Option Hover := do
  (← s.providers.hover?).hover? s.text p

def signatureHelp? (s : Session μ) (p : Position) : Option SignatureHelp := do
  (← s.providers.signature?).help? s.text p

def accept? (s : Session μ) (p : Position) (label : Text) :
    Option (Except EditError (Session μ)) :=
  ((s.completions p).find? (·.label == label)).map fun item => s.applyTextEdit item.edit

/-! ### Markers -/

def subscribe (s : Session μ) (name : Text) : Session μ :=
  { s with board := s.board.register { name } }

def dispose (s : Session μ) (name : Text) : Session μ := { s with board := s.board.dispose name }

def publish (s : Session μ) (markers : List μ) : List (Text × List μ) × Session μ :=
  let (told, board) := s.board.publish markers
  (told, { s with markers, board })

end Session
end SqlAssist
