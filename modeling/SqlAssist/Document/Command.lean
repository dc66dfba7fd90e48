import SqlAssist.Document.Buffer

/-!
What can be asked of a buffer, as data, and runs of such requests.  An edit that is refused
leaves the buffer as it was, and the run goes on.
-/

namespace SqlAssist

inductive BufferQuery where
  | text
  | size
  | line (line : Nat)
  | lineStart (line : Nat)
  | lineOf (offset : Nat)
  | offset (p : Position)
  | changes
  deriving Repr, DecidableEq

inductive BufferCommand where
  | query (q : BufferQuery)
  | edit (e : Edit)
  | takeChanges
  deriving Repr, DecidableEq

inductive BufferAnswer where
  | text (t : Text)
  | size (bytes lines characters : Nat)
  | line (content? : Option Text)
  | lineStart (offset? : Option Nat)
  | lineOf (line? : Option Nat)
  | offset (offset : Nat)
  | changes (changes : List Change)
  | taken (changes : List Change)
  | refused (e : EditError)
  deriving Repr, DecidableEq

namespace Buffer

def answer (b : Buffer) : BufferQuery → BufferAnswer
  | .text => .text b.text
  | .size => .size b.length b.lineCount b.text.length
  | .line line => .line (b.line? line)
  | .lineStart line => .lineStart (b.lineStart? line)
  | .lineOf offset => .lineOf (b.lineOf? offset)
  | .offset p =>
    match b.positionToOffset p with
    | .ok offset => .offset offset
    | .error e => .refused e
  | .changes => .changes b.changes

def perform (b : Buffer) : BufferCommand → BufferAnswer × Buffer
  | .query q => (b.answer q, b)
  | .edit e =>
    match b.apply e with
    | .ok b => (.text b.text, b)
    | .error e => (.refused e, b)
  | .takeChanges =>
    let (taken, b) := b.takeChanges
    (.taken taken, b)

def run (b : Buffer) : List BufferCommand → List BufferAnswer × Buffer
  | [] => ([], b)
  | c :: rest =>
    let (first, b) := b.perform c
    let (later, b) := b.run rest
    (first :: later, b)

end Buffer
end SqlAssist
