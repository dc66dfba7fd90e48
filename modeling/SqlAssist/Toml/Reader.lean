import SqlAssist.Text.Basic

/-!
Readers over text.  A reader either takes something off the front of the text or fails; a
failure says no more than that, because no reader of a document is told where it went wrong.
-/

namespace SqlAssist
namespace Toml

abbrev Reader := StateT Text Option

namespace Reader

def satisfy (p : Char → Bool) : Reader Char := fun t =>
  match t with
  | [] => none
  | c :: rest => if p c then some (c, rest) else none

def char (c : Char) : Reader Unit := do discard <| satisfy (· == c)

def exactly (expected : Text) : Reader Unit := fun t =>
  if expected.isPrefixOf t then some ((), t.drop expected.length) else none

def takeWhile (p : Char → Bool) : Reader Text := fun t => some (t.takeWhile p, t.dropWhile p)

def takeWhile1 (p : Char → Bool) : Reader Text := do
  let c ← satisfy p
  let more ← takeWhile p
  return c :: more

def atEnd : Reader Unit := fun t => if t.isEmpty then some ((), []) else none

def maybe {α : Type} (r : Reader α) : Reader (Option α) := (some <$> r) <|> pure none

/-- Reads as often as the reader succeeds and gets on.  It ends because each round leaves less
of the text. -/
def manyFrom {α : Type} (r : Reader α) (t : Text) : List α × Text :=
  match r t with
  | none => ([], t)
  | some (a, rest) =>
    if rest.length < t.length then
      let (as, after) := manyFrom r rest
      (a :: as, after)
    else ([], t)
termination_by t.length

def many {α : Type} (r : Reader α) : Reader (List α) := fun t => some (manyFrom r t)

def separated1 {α : Type} (item : Reader α) (separator : Reader Unit) : Reader (List α) := do
  let first ← item
  let more ← many (separator *> item)
  return first :: more

/-- Runs a reader together with the text it takes. -/
def withTaken {α : Type} (r : Reader α) : Reader (α × Text) := fun t => do
  let (a, rest) ← r t
  return ((a, t.take (t.length - rest.length)), rest)

def run? {α : Type} (r : Reader α) (t : Text) : Option α :=
  match r t with
  | some (a, []) => some a
  | _ => none

end Reader

/-! ### Blanks, line ends and comments -/

open Reader

def isBlank (c : Char) : Bool := c == ' ' || c == '\t'

def blanks : Reader Unit := do discard <| takeWhile isBlank

def newline : Reader Unit := char '\n' <|> exactly ['\r', '\n']

/-- What comments and strings may hold on one line: all but the control characters other than
a tab. -/
def isPrintable (c : Char) : Bool := c == '\t' || (' ' ≤ c && c.toNat ≠ 0x7F)

def comment : Reader Unit := do
  char '#'
  discard <| takeWhile isPrintable

/-- What may stand behind a statement on its line. -/
def lineTrailing : Reader Unit := do
  blanks
  discard <| maybe comment
  newline <|> atEnd

/-- What may stand between the values of an array. -/
def arrayFiller : Reader Unit := do
  discard <| many (takeWhile1 isBlank *> pure () <|> newline <|> (comment *> newline))

end Toml
end SqlAssist
