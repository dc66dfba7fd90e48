import SqlAssist.Document.Position
import SqlAssist.Token.Word

/-!
Cursors.  A cursor is a position that has been looked up in a document: it knows the content of
its line and stands between two characters of it or at one end.  What is typed and what is
pointed at are found with `Word.all`, so that words end here where they end for the scanner.
-/

namespace SqlAssist

structure Cursor where
  line : UInt32
  /-- The line without its terminator. -/
  content : Text
  /-- Number of characters of the line before the cursor. -/
  column : Nat
  column_le_length : column ≤ content.length

namespace Cursor

/-- Looks a position up; it has to be on a line of the document and not behind its end. -/
def at? (document : Text) (p : Position) : Option Cursor :=
  match Text.lineContent? document p.line.toNat with
  | none => none
  | some content =>
    if h : p.character.toNat ≤ content.length then
      some { line := p.line, content, column := p.character.toNat, column_le_length := h }
    else none

/-- Byte offset of the cursor in its line. -/
def offset (c : Cursor) : Nat := Text.width (c.content.take c.column)

def rangeOf (c : Cursor) (start stop : Nat) : Range :=
  let first := (Text.charsBefore c.content start).toUInt32
  let last := first + (Text.slice c.content start stop).length.toUInt32
  { start := { line := c.line, character := first },
    stop := { line := c.line, character := last } }

/-- The word that starts before the cursor and contains or touches it. -/
def typedWord? (c : Cursor) : Option Word :=
  (Word.all c.content).find? fun w => w.start < c.offset && c.offset ≤ w.stop

/-- Byte offset at which the word being typed starts; the cursor itself when there is none. -/
def typedStart (c : Cursor) : Nat :=
  match c.typedWord? with
  | some w => w.start
  | none => c.offset

def typed (c : Cursor) : Text := Text.slice c.content c.typedStart c.offset

def typedRange (c : Cursor) : Range := c.rangeOf c.typedStart c.offset

/-- The word that contains the character behind the cursor. -/
def pointedWord? (c : Cursor) : Option Word :=
  (Word.all c.content).find? fun w => w.start ≤ c.offset && c.offset < w.stop

def wordRange (c : Cursor) (w : Word) : Range := c.rangeOf w.start w.stop

end Cursor

namespace Position

/-- Number of characters of the document before a position. -/
def charIndex? (p : Position) (document : Text) : Option Nat :=
  (Cursor.at? document p).map fun _ =>
    (Text.beforeLine document p.line.toNat).length + p.character.toNat

def offset? (p : Position) (document : Text) : Option Nat :=
  (p.charIndex? document).map fun n => Text.width (document.take n)

end Position
end SqlAssist
