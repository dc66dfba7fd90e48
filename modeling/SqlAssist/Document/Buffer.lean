import SqlAssist.Document.Change
import SqlAssist.Document.Cursor

/-!
Buffers.  A buffer is a document and the changes made to it since somebody last took them.  An
edit that fails makes no new buffer, so it cannot leave half of itself behind.
-/

namespace SqlAssist

inductive EditError where
  | invalidPosition (p : Position)
  /-- The offset is behind the end of the text or inside a character. -/
  | invalidOffset (offset length : Nat)
  | reversedRange (start stop : Nat)
  deriving Repr, DecidableEq

namespace EditError

def message : EditError → String
  | invalidPosition p =>
    "Invalid position: line " ++ toString p.line.toNat ++ ", character " ++
      toString p.character.toNat
  | invalidOffset offset length =>
    "Invalid offset: " ++ toString offset ++ " (buffer length: " ++ toString length ++ ")"
  | reversedRange start stop =>
    "Range " ++ toString start ++ ".." ++ toString stop ++ " has start > end"

end EditError

/-- An edit by byte offsets. -/
inductive Edit where
  | insert (offset : Nat) (text : Text)
  | delete (start stop : Nat)
  | replace (start stop : Nat) (text : Text)
  deriving Repr, DecidableEq

structure Buffer where
  text : Text := []
  /-- The changes since they were taken last, oldest first. -/
  changes : List Change := []
  deriving Repr, DecidableEq

namespace Buffer

def empty : Buffer := {}

def ofText (t : Text) : Buffer := { text := t }

def length (b : Buffer) : Nat := b.text.width

def isEmpty (b : Buffer) : Bool := b.length == 0

def lineCount (b : Buffer) : Nat := Text.lineCount b.text

def line? (b : Buffer) (line : Nat) : Option Text := Text.lineContent? b.text line

def lineStart? (b : Buffer) (line : Nat) : Option Nat :=
  if line < b.lineCount then some (Text.width (Text.beforeLine b.text line)) else none

/-- The line a byte offset lies on.  The end of the text lies on the last line. -/
def lineOf? (b : Buffer) (offset : Nat) : Option Nat :=
  if offset ≤ b.length then some (Text.lineOf b.text offset) else none

def cut (b : Buffer) (offset : Nat) : Except EditError (Text × Text) :=
  match Text.cutAt? b.text offset with
  | some halves => .ok halves
  | none => .error (.invalidOffset offset b.length)

/-- Puts `text` in the place of the bytes from `start` to `stop` and records the change.  A
reversed range is refused before its ends are looked at, and the start before the end. -/
def replace (b : Buffer) (start stop : Nat) (text : Text) : Except EditError Buffer := do
  if stop < start then throw (.reversedRange start stop)
  let (before, _) ← b.cut start
  let (through, after) ← b.cut stop
  let change : Change := ⟨start, through.drop before.length, text⟩
  return { text := before ++ text ++ after, changes := b.changes ++ [change] }

def insert (b : Buffer) (offset : Nat) (text : Text) : Except EditError Buffer :=
  b.replace offset offset text

def delete (b : Buffer) (start stop : Nat) : Except EditError Buffer := b.replace start stop []

def apply (b : Buffer) : Edit → Except EditError Buffer
  | .insert offset text => b.insert offset text
  | .delete start stop => b.delete start stop
  | .replace start stop text => b.replace start stop text

/-- Hands out the recorded changes and forgets them. -/
def takeChanges (b : Buffer) : List Change × Buffer := (b.changes, { b with changes := [] })

def positionToOffset (b : Buffer) (p : Position) : Except EditError Nat :=
  match p.offset? b.text with
  | some offset => .ok offset
  | none => .error (.invalidPosition p)

end Buffer
end SqlAssist
