import SqlAssist.Symbol.Kind

/-!
Token classes.  Each class has its own scope name, which editor themes select on.
-/

namespace SqlAssist

inductive TokenClass where
  | comment
  | string
  /-- A recognised escape inside a literal, or the backslash that continues it. -/
  | stringEscape
  /-- A backslash before a character that forms no escape. -/
  | stringEscapeInvalid
  /-- A literal with no closing quote on its line. -/
  | stringInvalid
  | numberInt
  | numberFloat
  | keyword
  | type
  | streamOption
  | function
  | windowFunction
  | identifier
  | operator
  | bracket
  | delimiter
  | whitespace
  /-- A run of symbols that is no operator, or a character that begins nothing else. -/
  | default
  deriving Repr, DecidableEq

namespace TokenClass

def all : List TokenClass :=
  [comment, string, stringEscape, stringEscapeInvalid, stringInvalid, numberInt, numberFloat,
    keyword, type, streamOption, function, windowFunction, identifier, operator, bracket,
    delimiter, whitespace, default]

def scope : TokenClass → String
  | comment => "comment"
  | string => "string"
  | stringEscape => "string.escape"
  | stringEscapeInvalid => "string.escape.invalid"
  | stringInvalid => "string.invalid"
  | numberInt => "number"
  | numberFloat => "number.float"
  | keyword => "keyword"
  | type => "type"
  | streamOption => "stream.option"
  | function => "function"
  | windowFunction => "function.window"
  | identifier => "identifier"
  | operator => "operator"
  | bracket => "delimiter.bracket"
  | delimiter => "delimiter"
  | whitespace => "white"
  | default => ""

/-- Whether a reader of the statement skips the token. -/
def isTrivia : TokenClass → Bool
  | whitespace | comment => true
  | _ => false

def isWord : TokenClass → Bool
  | keyword | type | streamOption | function | windowFunction | identifier => true
  | _ => false

def isLiteral : TokenClass → Bool
  | string | stringEscape | stringEscapeInvalid | stringInvalid => true
  | _ => false

/-- The class of a word, from its role in the dialect. -/
def ofSymbol? : Option SymbolKind → TokenClass
  | some .keyword => keyword
  | some .dataType => type
  | some .streamOption => streamOption
  | some .function => function
  | some .windowFunction => windowFunction
  | none => identifier

end TokenClass
end SqlAssist
