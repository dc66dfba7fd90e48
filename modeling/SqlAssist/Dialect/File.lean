import SqlAssist.Dialect.Basic
import SqlAssist.Toml.Decode
import SqlAssist.Toml.Document

/-!
Dialects in files.  One TOML document holds the settings of a dialect and a second one its
declarations.  A dialect that the scanner could not work with is refused: comment markers may
not be empty, and names cannot be told apart by case.
-/

namespace SqlAssist

open Toml (Value Members)

inductive DialectError where
  /-- One of the documents is no TOML or does not have the shape of its file. -/
  | unreadable
  | emptyCommentMarker (id : Text)
  | caseSensitive (id : Text)
  deriving Repr, DecidableEq

namespace DialectError

def message : DialectError → String
  | unreadable => "Dialect parse error"
  | emptyCommentMarker id =>
    "Configuration error: dialect '" ++ String.ofList id ++ "' declares an empty comment marker"
  | caseSensitive id =>
    "Configuration error: dialect '" ++ String.ofList id ++
      "' sets case_sensitive, but names are matched case-insensitively"

end DialectError

namespace CommentMarkers

def ofToml? (v : Value) : Option CommentMarkers := do
  let m ← v.members?
  let preset : CommentMarkers := {}
  return {
    line := ← m.withDefault 0 "line_comment" Value.text? preset.line
    blockStart := ← m.withDefault 1 "block_comment_start" Value.text? preset.blockStart
    blockEnd := ← m.withDefault 2 "block_comment_end" Value.text? preset.blockEnd }

/-- Whether some marker is empty, so that comments would open or close everywhere. -/
def hasEmpty (m : CommentMarkers) : Bool :=
  m.line.isEmpty || m.blockStart.isEmpty || m.blockEnd.isEmpty

end CommentMarkers

namespace TextPair

def ofToml? (v : Value) : Option TextPair := do
  let (opening, closing) ← v.pair? Value.text?
  return { opening, closing }

end TextPair

namespace LexicalSettings

def ofToml? (v : Value) : Option LexicalSettings := do
  let m ← v.members?
  let preset : LexicalSettings := {}
  return {
    caseSensitive := ← m.withDefault 0 "case_sensitive" Value.bool? preset.caseSensitive
    operators := ← m.withDefault 1 "operators" (Value.list? Value.text?) preset.operators
    brackets := ← m.withDefault 2 "brackets" (Value.list? TextPair.ofToml?) preset.brackets
    autoClosingPairs := ← m.withDefault 3 "auto_closing_pairs" (Value.list? TextPair.ofToml?)
      preset.autoClosingPairs }

end LexicalSettings

namespace DialectConfig

def ofMembers? (m : Members) : Option DialectConfig := do
  return {
    id := ← m.required 0 "id" Value.text?
    displayName := ← m.required 1 "display_name" Value.text?
    comments := ← m.withDefault 2 "comments" CommentMarkers.ofToml? {}
    lexical := ← m.withDefault 3 "syntax" LexicalSettings.ofToml? {} }

def parse? (document : Text) : Option DialectConfig := do
  ofMembers? (.byName (← Toml.parse? document))

end DialectConfig

namespace FunctionCategory

def ofToml? (v : Value) : Option FunctionCategory := do
  ofName? (String.ofList (← v.word?))

end FunctionCategory

namespace SymbolEntry

def ofToml? (v : Value) : Option SymbolEntry := do
  let m ← v.members?
  return {
    name := ← m.required 0 "name" Value.text?
    signature := ← m.required 1 "signature" Value.text?
    description := ← m.required 2 "description" Value.text?
    example? := ← m.maybe 3 "example" Value.text?
    category := ← m.withDefault 4 "category" FunctionCategory.ofToml? .other }

end SymbolEntry

namespace Declarations

def ofMembers? (m : Members) : Option Declarations := do
  let names := fun (place : Nat) (key : String) =>
    m.withDefault place key (Value.list? Value.text?) []
  let entries := fun (place : Nat) (key : String) =>
    m.withDefault place key (Value.list? SymbolEntry.ofToml?) []
  return {
    keywords := ← names 0 "keywords"
    dataTypes := ← names 1 "data_types"
    streamOptions := ← names 2 "stream_options"
    functions := ← entries 3 "function"
    windowFunctions := ← entries 4 "window_function" }

def parse? (document : Text) : Option Declarations := do
  ofMembers? (.byName (← Toml.parse? document))

end Declarations

namespace Dialect

/-- The dialect of two parsed files, if the scanner can work with it. -/
def validate (config : DialectConfig) (declarations : Declarations) :
    Except DialectError Dialect :=
  if config.comments.hasEmpty then .error (.emptyCommentMarker config.id)
  else if config.lexical.caseSensitive then .error (.caseSensitive config.id)
  else .ok (ofDeclarations config declarations)

def parse (configFile declarationsFile : Text) : Except DialectError Dialect :=
  match DialectConfig.parse? configFile, Declarations.parse? declarationsFile with
  | some config, some declarations => validate config declarations
  | _, _ => .error .unreadable

end Dialect
end SqlAssist
