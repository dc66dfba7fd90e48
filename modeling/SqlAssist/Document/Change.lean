import SqlAssist.Text.Basic

/-!
Changes.  A change says what text was taken out at an offset and what was put in, which is
enough to make it again and to undo it.
-/

namespace SqlAssist

structure Change where
  offset : Nat
  oldText : Text
  newText : Text
  deriving Repr, DecidableEq

namespace Change

def insertion (offset : Nat) (text : Text) : Change := ⟨offset, [], text⟩

def deletion (offset : Nat) (text : Text) : Change := ⟨offset, text, []⟩

def isInsertion (c : Change) : Bool := c.oldText.isEmpty && !c.newText.isEmpty

def isDeletion (c : Change) : Bool := !c.oldText.isEmpty && c.newText.isEmpty

def isReplacement (c : Change) : Bool := !c.oldText.isEmpty && !c.newText.isEmpty

/-- Where the old text ends in the document before the change. -/
def oldStop (c : Change) : Nat := c.offset + c.oldText.width

/-- Where the new text ends in the document after the change. -/
def newStop (c : Change) : Nat := c.offset + c.newText.width

end Change
end SqlAssist
