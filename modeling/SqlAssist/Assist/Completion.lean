import SqlAssist.Assist.Documentation
import SqlAssist.Dialect.Basic
import SqlAssist.Document.Cursor
import SqlAssist.Text.Alphanumeric

/-!
Completions.  Every name of the dialect is offered on every request; filtering and ranking
against what is typed belong to the host.  An item is tied to the typed part of the word at
the cursor, so that accepting it replaces that part and nothing else.
-/

namespace SqlAssist

inductive CompletionKind where
  | keyword
  | typeParameter
  | property
  | function
  deriving Repr, DecidableEq

inductive InsertFormat where
  | plainText
  | snippet
  deriving Repr, DecidableEq

structure CompletionItem where
  label : Text
  kind : CompletionKind
  detail : Text
  documentation? : Option Text
  /-- The key by which a host puts the items in order. -/
  sortText : Text
  filterText : Text
  insertText : Text
  insertFormat : InsertFormat
  edit : TextEdit
  deriving Repr, DecidableEq

namespace SymbolKind

def completionKind : SymbolKind → CompletionKind
  | keyword => .keyword
  | dataType => .typeParameter
  | streamOption => .property
  | function | windowFunction => .function

def sortGroup (k : SymbolKind) : Nat := precedence.idxOf k

/-- What accepting a name inserts: an option goes on to its value, and a function to its
arguments. -/
def insertion (k : SymbolKind) (name : Text) : Text × InsertFormat :=
  match k with
  | streamOption => (name ++ [' ', '=', ' '], .plainText)
  | function | windowFunction => (name ++ ['(', '$', '1', ')'], .snippet)
  | keyword | dataType => (name, .plainText)

end SymbolKind

namespace CompletionItem

def paddedIndex (n : Nat) : Text := (Nat.toDigits 10 n).leftpad 4 '0'

def sortKey (k : SymbolKind) (index : Nat) : Text :=
  Nat.toDigits 10 k.sortGroup ++ ['_'] ++ paddedIndex index

def detailText (k : SymbolKind) (e? : Option SymbolEntry) : Text :=
  match e? with
  | none => k.label.toList
  | some e =>
    if k = .windowFunction then k.label.toList ++ " · ".toList ++ e.signature else e.signature

/-- The item for the name at `index` of its role. -/
def ofSymbol (range : Range) (k : SymbolKind) (name : Text) (e? : Option SymbolEntry)
    (index : Nat) : CompletionItem :=
  let (newText, insertFormat) := k.insertion name
  { label := name, kind := k.completionKind, detail := detailText k e?,
    documentation? := e?.map (SymbolEntry.markdown k),
    sortText := sortKey k index, filterText := name, insertText := newText, insertFormat,
    edit := { range, newText } }

def ofNames (range : Range) (k : SymbolKind) (names : List Text) : List CompletionItem :=
  names.zipIdx.map fun (name, index) => ofSymbol range k name none index

def ofEntries (range : Range) (k : SymbolKind) (entries : List SymbolEntry) :
    List CompletionItem :=
  entries.zipIdx.map fun (e, index) => ofSymbol range k e.name (some e) index

end CompletionItem

namespace Catalog

/-- One item for each declared name, role by role, all for the same range. -/
def completionItems (c : Catalog) (range : Range) : List CompletionItem :=
  CompletionItem.ofNames range .keyword c.keywords.values ++
  CompletionItem.ofNames range .dataType c.dataTypes.values ++
  CompletionItem.ofNames range .streamOption c.streamOptions.values ++
  CompletionItem.ofEntries range .function c.functions.values ++
  CompletionItem.ofEntries range .windowFunction c.windowFunctions.values

end Catalog

namespace Dialect

/-- The completions at a position; none when it is not in the document. -/
def completions (d : Dialect) (document : Text) (p : Position) : List CompletionItem :=
  match Cursor.at? document p with
  | none => []
  | some c => d.catalog.completionItems c.typedRange

end Dialect

/-- Whether typing a text should bring up the completions.  A single underscore does, while a
longer text needs a letter or a number of some script in it. -/
def triggersCompletion : Text → Bool
  | [] => false
  | [c] => Text.isAlphanumeric c || c == '_'
  | t => t.any Text.isAlphanumeric

end SqlAssist
