import SqlAssist.Toml.Value

/-!
Putting the tables of a document together.  Keys with dots and headers both make tables on the
way, and the rules on which of them may be opened again need to know how a table came to be.
-/

namespace SqlAssist
namespace Toml

mutual

inductive Node where
  | value (v : Value)
  | table (t : Table)
  /-- The tables that double-bracket headers have started so far, oldest first. -/
  | tables (elements : List Table)

inductive Table where
  /-- `implied` holds of a table that was only passed through on the way to another one, and
  `dotted` of one that a dotted key made. -/
  | mk (implied dotted : Bool) (entries : List (Text × Node))

end

namespace Table

def empty : Table := mk false false []

def implied : Table → Bool
  | mk i _ _ => i

def dotted : Table → Bool
  | mk _ d _ => d

def entries : Table → List (Text × Node)
  | mk _ _ es => es

def get? (t : Table) (key : Text) : Option Node := (t.entries.find? (·.1 == key)).map Prod.snd

def put (t : Table) (key : Text) (n : Node) : Table :=
  mk t.implied t.dotted
    (if t.entries.any (·.1 == key) then t.entries.map fun e => if e.1 == key then (key, n) else e
     else t.entries ++ [(key, n)])

/-- Makes a table that was only passed through one with a header of its own. -/
def declared (t : Table) : Table := mk false t.dotted t.entries

/-- Changes the table at the end of a path, making the tables on the way that are missing.  With
`byKey` the path is that of a dotted key, which may not open a table that has a header.  In a
list of tables the path goes on in the last one. -/
def updateAt? (byKey : Bool) (change : Table → Option Table) : List Text → Table → Option Table
  | [], t => change t
  | key :: path, t =>
    match t.get? key with
    | none => do
      let child ← updateAt? byKey change path (mk true byKey [])
      return t.put key (.table child)
    | some (.value _) => none
    | some (.tables elements) => do
      let last ← elements.getLast?
      let child ← updateAt? byKey change path last
      return t.put key (.tables (elements.dropLast ++ [child]))
    | some (.table child) => do
      if byKey && !child.implied then failure
      let child ← updateAt? byKey change path child
      return t.put key (.table child)

/-- Adds a value under a key, whose dots lead through tables that such keys alone have made. -/
def assign? (t : Table) (path : List Text) (key : Text) (v : Value) : Option Table :=
  updateAt? true (fun target =>
    if target.dotted == path.isEmpty || (target.get? key).isSome then none
    else some (target.put key (.value v))) path t

def assignAll? (t : Table) (pairs : List (List Text × Text × Value)) : Option Table :=
  pairs.foldlM (fun t (path, key, v) => t.assign? path key v) t

/-- A section with a single-bracket header.  Its table may have been passed through before, but
may have been neither opened by a header nor made by a dotted key. -/
def openTable? (root : Table) (path : List Text) (key : Text)
    (pairs : List (List Text × Text × Value)) : Option Table :=
  updateAt? false (fun parent => do
    let start ← match parent.get? key with
      | none => some empty
      | some (.table t) => if t.implied && !t.dotted then some t.declared else none
      | some _ => none
    let filled ← start.assignAll? pairs
    return parent.put key (.table filled)) path root

/-- A section with a double-bracket header, which adds one table to a list of tables. -/
def appendTable? (root : Table) (path : List Text) (key : Text)
    (pairs : List (List Text × Text × Value)) : Option Table :=
  updateAt? false (fun parent => do
    let before ← match parent.get? key with
      | none => some []
      | some (.tables elements) => some elements
      | some _ => none
    let filled ← empty.assignAll? pairs
    return parent.put key (.tables (before ++ [filled]))) path root

end Table

mutual

/-- The value a node has once the document is complete. -/
def Node.toValue : Node → Value
  | .value v => v
  | .table t => .table t.toEntries
  | .tables elements => .array (toValues elements)

def Table.toEntries : Table → List (Text × Value)
  | .mk _ _ es => entryValues es

def toValues : List Table → List Value
  | [] => []
  | t :: rest => .table t.toEntries :: toValues rest

def entryValues : List (Text × Node) → List (Text × Value)
  | [] => []
  | (key, n) :: rest => (key, n.toValue) :: entryValues rest

end

end Toml
end SqlAssist
