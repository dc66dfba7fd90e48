import SqlAssist.Symbol.Entry

/-!
The catalog of a dialect: five sets of declared names.  A set is kept in the order of
declaration, because that is the order completions show, and it is searched by the folded
name, because names are matched without regard to ASCII case.
-/

namespace SqlAssist

/-- Declarations under folded names, oldest first. -/
structure NameTable (α : Type) where
  entries : List (Text × α) := []
  deriving Repr, DecidableEq

namespace NameTable

variable {α : Type}

def empty : NameTable α := {}

def keys (t : NameTable α) : List Text := t.entries.map Prod.fst

def values (t : NameTable α) : List α := t.entries.map Prod.snd

def size (t : NameTable α) : Nat := t.entries.length

/-- The declaration under a name that is already folded. -/
def get? (t : NameTable α) (folded : Text) : Option α :=
  (t.entries.find? (·.1 == folded)).map Prod.snd

def contains (t : NameTable α) (folded : Text) : Bool := t.entries.any (·.1 == folded)

/-- Adds a declaration, unless the name is taken: the first declaration of a name stands. -/
def declare (t : NameTable α) (name : Text) (value : α) : NameTable α :=
  if t.contains (Text.fold name) then t else { entries := t.entries ++ [(Text.fold name, value)] }

theorem contains_iff_mem_keys {t : NameTable α} {folded : Text} :
    t.contains folded = true ↔ folded ∈ t.keys := by
  simp only [contains, keys, List.any_eq_true, beq_iff_eq, List.mem_map]

theorem keys_declare (t : NameTable α) (name : Text) (value : α) :
    (t.declare name value).keys =
      if Text.fold name ∈ t.keys then t.keys else t.keys ++ [Text.fold name] := by
  simp only [declare, contains_iff_mem_keys]
  split <;> simp [keys]

end NameTable

structure Catalog where
  keywords : NameTable Text := {}
  dataTypes : NameTable Text := {}
  streamOptions : NameTable Text := {}
  functions : NameTable SymbolEntry := {}
  windowFunctions : NameTable SymbolEntry := {}
  deriving Repr, DecidableEq

namespace Catalog

def empty : Catalog := {}

def addKeyword (c : Catalog) (name : Text) : Catalog :=
  { c with keywords := c.keywords.declare name name }

def addDataType (c : Catalog) (name : Text) : Catalog :=
  { c with dataTypes := c.dataTypes.declare name name }

def addStreamOption (c : Catalog) (name : Text) : Catalog :=
  { c with streamOptions := c.streamOptions.declare name name }

def addFunction (c : Catalog) (e : SymbolEntry) : Catalog :=
  { c with functions := c.functions.declare e.name e }

def addWindowFunction (c : Catalog) (e : SymbolEntry) : Catalog :=
  { c with windowFunctions := c.windowFunctions.declare e.name e }

def names (c : Catalog) : SymbolKind → List Text
  | .keyword => c.keywords.keys
  | .dataType => c.dataTypes.keys
  | .streamOption => c.streamOptions.keys
  | .function => c.functions.keys
  | .windowFunction => c.windowFunctions.keys

def declares (c : Catalog) (folded : Text) : SymbolKind → Bool
  | .keyword => c.keywords.contains folded
  | .dataType => c.dataTypes.contains folded
  | .streamOption => c.streamOptions.contains folded
  | .function => c.functions.contains folded
  | .windowFunction => c.windowFunctions.contains folded

def isKeyword (c : Catalog) (word : Text) : Bool := c.declares (Text.fold word) .keyword

def isDataType (c : Catalog) (word : Text) : Bool := c.declares (Text.fold word) .dataType

def isStreamOption (c : Catalog) (word : Text) : Bool := c.declares (Text.fold word) .streamOption

def function? (c : Catalog) (word : Text) : Option SymbolEntry :=
  c.functions.get? (Text.fold word)

def windowFunction? (c : Catalog) (word : Text) : Option SymbolEntry :=
  c.windowFunctions.get? (Text.fold word)

/-- The role of a word, the first in order of precedence; `none` for a plain identifier. -/
def classify (c : Catalog) (word : Text) : Option SymbolKind :=
  SymbolKind.precedence.find? (c.declares (Text.fold word))

/-- What the dialect says about a word.  A name that is both a function and a window function
is documented as a function. -/
def documented? (c : Catalog) (word : Text) : Option (SymbolKind × SymbolEntry) :=
  match c.function? word with
  | some e => some (.function, e)
  | none => (c.windowFunction? word).map fun e => (.windowFunction, e)

/-- The declared names, folded, each with its role: one set after the other, in order of
precedence. -/
def declared (c : Catalog) : List (Text × SymbolKind) :=
  SymbolKind.precedence.flatMap fun kind => (c.names kind).map fun n => (n, kind)

/-- Adds a role to those of a name.  A name that was not met before goes to the end. -/
def addRole : List (Text × List SymbolKind) → Text × SymbolKind → List (Text × List SymbolKind)
  | [], (n, kind) => [(n, [kind])]
  | (m, kinds) :: rest, (n, kind) =>
    if m = n then (m, kinds ++ [kind]) :: rest else (m, kinds) :: addRole rest (n, kind)

/-- Every declared name, where it is met first, with its roles. -/
def roles (c : Catalog) : List (Text × List SymbolKind) := c.declared.foldl addRole []

/-- The names declared in more than one role, each with all its roles. -/
def overlaps (c : Catalog) : List (Text × List SymbolKind) :=
  c.roles.filter fun (_, kinds) => 1 < kinds.length

def size (c : Catalog) : Nat :=
  c.keywords.size + c.dataTypes.size + c.streamOptions.size + c.functions.size +
    c.windowFunctions.size

def isEmpty (c : Catalog) : Bool := c.size == 0

end Catalog
end SqlAssist
