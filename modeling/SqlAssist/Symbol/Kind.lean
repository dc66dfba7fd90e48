/-!
What a name can be in a dialect, and how documented functions are grouped.
-/

namespace SqlAssist

inductive SymbolKind where
  | keyword
  | dataType
  | streamOption
  | function
  | windowFunction
  deriving Repr, DecidableEq

namespace SymbolKind

/-- The order in which a word is looked up: a word declared in several roles takes the first. -/
def precedence : List SymbolKind := [keyword, dataType, streamOption, function, windowFunction]

def label : SymbolKind → String
  | keyword => "Keyword"
  | dataType => "Data Type"
  | streamOption => "Stream Option"
  | function => "Function"
  | windowFunction => "Window Function"

end SymbolKind

inductive FunctionCategory where
  | aggregate
  | math
  | string
  | hashing
  | conversion
  | datetime
  | json
  | window
  | other
  deriving Repr, DecidableEq, Inhabited

namespace FunctionCategory

def all : List FunctionCategory :=
  [aggregate, math, string, hashing, conversion, datetime, json, window, other]

def name : FunctionCategory → String
  | aggregate => "aggregate"
  | math => "math"
  | string => "string"
  | hashing => "hashing"
  | conversion => "conversion"
  | datetime => "datetime"
  | json => "json"
  | window => "window"
  | other => "other"

def ofName? (word : String) : Option FunctionCategory := all.find? (·.name == word)

end FunctionCategory
end SqlAssist
