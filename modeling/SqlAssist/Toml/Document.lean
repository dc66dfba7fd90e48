import SqlAssist.Toml.Scalar
import SqlAssist.Toml.Table

/-!
Reading a whole document: keys, values of every kind, and sections.
-/

namespace SqlAssist
namespace Toml

open Reader

/-- Arrays and inline tables may be nested this deep, and a key may have as many parts. -/
def nestingLimit : Nat := 79

/-! ### Keys -/

def isBareKey (c : Char) : Bool := c.isAlphanum || c == '_' || c == '-'

def simpleKey : Reader Text := takeWhile1 isBareKey <|> basicString <|> literalString

def key : Reader (List Text × Text) := do
  let parts ← separated1 (do blanks; let part ← simpleKey; blanks; return part) (char '.')
  guard (parts.length ≤ nestingLimit)
  match parts.getLast? with
  | none => failure
  | some last => return (parts.dropLast, last)

/-! ### Values -/

/-- An array of items; line breaks and comments may stand anywhere in it. -/
def array (item : Reader Value) : Reader Value := do
  char '['
  let place : Reader Value := do
    arrayFiller
    let v ← item
    arrayFiller
    return v
  let items ← maybe do
    let items ← separated1 place (char ',')
    discard <| maybe (char ',')
    return items
  arrayFiller
  char ']'
  return .array (items.getD [])

/-- A table on one line, with no comma before the closing brace. -/
def inlineTable (item : Reader Value) : Reader Value := do
  char '\x7b'
  let pair : Reader (List Text × Text × Value) := do
    let (path, last) ← key
    char '='
    blanks
    let v ← item
    blanks
    return (path, last, v)
  let pairs ← maybe (separated1 pair (char ','))
  blanks
  char '\x7d'
  match Table.empty.assignAll? (pairs.getD []) with
  | none => failure
  | some t => return .table t.toEntries

/-- A value in which arrays and inline tables are nested at most so deep. -/
def value : Nat → Reader Value
  | 0 => scalar
  | depth + 1 => array (value depth) <|> inlineTable (value depth) <|> scalar

/-! ### Sections -/

inductive Header where
  | table (path : List Text) (key : Text)
  | tables (path : List Text) (key : Text)

inductive Statement where
  | header (h : Header)
  | pair (path : List Text) (key : Text) (v : Value)

def header : Reader Header := do
  char '['
  let double ← maybe (char '[')
  let (path, last) ← key
  char ']'
  if double.isSome then
    char ']'
    return .tables path last
  else return .table path last

def keyValue : Reader Statement := do
  let (path, last) ← key
  char '='
  blanks
  let v ← value nestingLimit
  return .pair path last v

/-- A line: a statement, a comment or nothing.  The end of the text ends the last line. -/
def documentLine : Reader (Option Statement) := do
  blanks
  (do let h ← header; lineTrailing; return some (.header h)) <|>
    (do let s ← keyValue; lineTrailing; return some s) <|>
    (do lineTrailing; return none)

/-- Pairs up to the next header belong to the header before them. -/
def sections : List Statement →
    List (List Text × Text × Value) × List (Header × List (List Text × Text × Value))
  | [] => ([], [])
  | .pair path last v :: rest =>
    let (own, later) := sections rest
    ((path, last, v) :: own, later)
  | .header h :: rest =>
    let (own, later) := sections rest
    ([], (h, own) :: later)

def addSection? (root : Table) : Header × List (List Text × Text × Value) → Option Table
  | (.table path last, pairs) => root.openTable? path last pairs
  | (.tables path last, pairs) => root.appendTable? path last pairs

def parse? (t : Text) : Option (List (Text × Value)) := do
  let body := if t.head? = some '\uFEFF' then t.drop 1 else t
  let statements ← run? (many documentLine) body
  let (own, later) := sections (statements.filterMap id)
  let root ← Table.empty.assignAll? own
  let root ← later.foldlM addSection? root
  return root.toEntries

end Toml
end SqlAssist
