import SqlAssist.Text.Basic
import SqlAssist.Token.Class

/-!
Highlight kinds: one for each token class, under the names that themes use.
-/

namespace SqlAssist

inductive HighlightKind where
  | comment
  | string
  | stringEscape
  | stringEscapeInvalid
  | stringInvalid
  | number
  | numberFloat
  | keyword
  | type
  | streamOption
  | function
  | windowFunction
  | identifier
  | operator
  | bracket
  | delimiter
  | whitespace
  | default
  deriving Repr, DecidableEq

namespace HighlightKind

def all : List HighlightKind :=
  [comment, string, stringEscape, stringEscapeInvalid, stringInvalid, number, numberFloat,
    keyword, type, streamOption, function, windowFunction, identifier, operator, bracket,
    delimiter, whitespace, default]

def name : HighlightKind → String
  | comment => "comment"
  | string => "string"
  | stringEscape => "string_escape"
  | stringEscapeInvalid => "string_escape_invalid"
  | stringInvalid => "string_invalid"
  | number => "number"
  | numberFloat => "number_float"
  | keyword => "keyword"
  | type => "type"
  | streamOption => "stream_option"
  | function => "function"
  | windowFunction => "window_function"
  | identifier => "identifier"
  | operator => "operator"
  | bracket => "bracket"
  | delimiter => "delimiter"
  | whitespace => "whitespace"
  | default => "default"

def ofName? (word : Text) : Option HighlightKind := all.find? (·.name.toList == word)

def isError : HighlightKind → Bool
  | stringInvalid | stringEscapeInvalid => true
  | _ => false

end HighlightKind

namespace TokenClass

def highlightKind : TokenClass → HighlightKind
  | comment => .comment
  | string => .string
  | stringEscape => .stringEscape
  | stringEscapeInvalid => .stringEscapeInvalid
  | stringInvalid => .stringInvalid
  | numberInt => .number
  | numberFloat => .numberFloat
  | keyword => .keyword
  | type => .type
  | streamOption => .streamOption
  | function => .function
  | windowFunction => .windowFunction
  | identifier => .identifier
  | operator => .operator
  | bracket => .bracket
  | delimiter => .delimiter
  | whitespace => .whitespace
  | default => .default

end TokenClass
end SqlAssist
