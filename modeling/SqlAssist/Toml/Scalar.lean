import SqlAssist.Text.Hex
import SqlAssist.Toml.Reader
import SqlAssist.Toml.Value

/-!
The values that do not nest: strings in their four forms, numbers, booleans, dates and times.
-/

namespace SqlAssist
namespace Toml

open Reader

/-! ### Strings -/

def digitsValue (base : Nat) (digits : Text) : Nat :=
  digits.foldl (fun n c => n * base + (hexValue? c).getD 0) 0

def hexDigits : Nat → Reader Text
  | 0 => pure []
  | n + 1 => do
    let c ← satisfy isHexDigit
    let more ← hexDigits n
    return c :: more

/-- The character with a code given in digits; a surrogate code has none. -/
def scalarValue (digits : Nat) : Reader Char := do
  let n := digitsValue 16 (← hexDigits digits)
  if h : n.isValidChar then return Char.ofNatAux n h else failure

def escape : Reader Char := do
  char '\\'
  let c ← satisfy fun _ => true
  match c with
  | 'b' => return '\x08'
  | 'f' => return '\x0c'
  | 'n' => return '\n'
  | 'r' => return '\r'
  | 't' => return '\t'
  | '"' => return '"'
  | '\\' => return '\\'
  | 'u' => scalarValue 4
  | 'U' => scalarValue 8
  | _ => failure

def isPlain (c : Char) : Bool := isPrintable c && c != '"' && c != '\\'

def isPlainLiteral (c : Char) : Bool := isPrintable c && c != '\''

def basicString : Reader Text := do
  char '"'
  let pieces ← many (takeWhile1 isPlain <|> (fun c => [c]) <$> escape)
  char '"'
  return pieces.flatten

def literalString : Reader Text := do
  char '\''
  let body ← takeWhile isPlainLiteral
  char '\''
  return body

/-- A line break inside a string, which always counts as a line feed. -/
def stringNewline : Reader Text := newline *> pure ['\n']

/-- A backslash at the end of a line: all blanks and line breaks after it are left out. -/
def joinedLines : Reader Text := do
  char '\\'
  blanks
  newline
  discard <| many (takeWhile1 isBlank *> pure () <|> newline)
  return []

/-- The end of a string in three quotes.  Up to two quotes directly before the closing three
belong to the string. -/
def closingQuotes (quote : Char) : Reader Text := do
  let quotes ← takeWhile1 (· == quote)
  guard (3 ≤ quotes.length && quotes.length ≤ 5)
  return quotes.drop 3

/-- One or two quotes that close nothing, because something else follows them. -/
def innerQuotes (quote : Char) : Reader Text := do
  let quotes ← takeWhile1 (· == quote)
  guard (quotes.length ≤ 2)
  return quotes

def multilineString : Reader Text := do
  exactly ['"', '"', '"']
  discard <| maybe newline
  let pieces ← many (takeWhile1 isPlain <|> stringNewline <|> joinedLines <|>
    (fun c => [c]) <$> escape <|> innerQuotes '"')
  let last ← closingQuotes '"'
  return pieces.flatten ++ last

def multilineLiteral : Reader Text := do
  exactly ['\'', '\'', '\'']
  discard <| maybe newline
  let pieces ← many (takeWhile1 isPlainLiteral <|> stringNewline <|> innerQuotes '\'')
  let last ← closingQuotes '\''
  return pieces.flatten ++ last

def string : Reader Text := multilineString <|> basicString <|> multilineLiteral <|> literalString

/-! ### Numbers -/

/-- A run of digits in which single underscores may stand between two digits. -/
def digitGroups (isDigit : Char → Bool) : Reader Text := do
  let first ← satisfy isDigit
  let more ← many (satisfy isDigit <|> (char '_' *> satisfy isDigit))
  return first :: more

def sign : Reader Bool := (char '-' *> pure true) <|> (char '+' *> pure false) <|> pure false

/-- Sign and digits of a decimal integer.  A leading zero is the whole of it. -/
def decimal : Reader (Bool × Text) := do
  let negative ← sign
  let first ← satisfy Char.isDigit
  if first = '0' then return (negative, [first])
  let more ← many (satisfy Char.isDigit <|> (char '_' *> satisfy Char.isDigit))
  return (negative, first :: more)

/-- An integer has to fit into 64 bits. -/
def fits (n : Int) : Bool := -0x8000000000000000 ≤ n && n < 0x8000000000000000

def radixInteger (letter : Char) (base : Nat) (isDigit : Char → Bool) : Reader Int := do
  exactly ['0', letter]
  let n : Int := digitsValue base (← digitGroups isDigit)
  guard (fits n)
  return n

def integer : Reader Int :=
  radixInteger 'x' 16 isHexDigit <|>
  radixInteger 'o' 8 (fun c => '0' ≤ c && c ≤ '7') <|>
  radixInteger 'b' 2 (fun c => c == '0' || c == '1') <|> do
    let (negative, digits) ← decimal
    let n : Int := digitsValue 10 digits
    let n := if negative then -n else n
    guard (fits n)
    return n

/-- Whether `digits · 10 ^ exponent` is below the least number that rounds to infinity.  Five
hundred places more than the digits take are always too many, and as many fewer are always
few enough, so the power is only worked out in between. -/
def isFinite (digits : Text) (exponent : Int) : Bool :=
  let n := digitsValue 10 digits
  let limit := Nat.pow 2 1024 - Nat.pow 2 970
  if n = 0 then true
  else if exponent > 500 then false
  else if exponent < 0 then
    if exponent + digits.length < 0 then true else n < limit * Nat.pow 10 exponent.natAbs
  else n * Nat.pow 10 exponent.toNat < limit

def exponentPart : Reader Int := do
  discard <| satisfy fun c => c == 'e' || c == 'E'
  let negative ← sign
  let n : Int := digitsValue 10 (← digitGroups Char.isDigit)
  return if negative then -n else n

/-- A float, by its digits and exponent.  A positive number too large to be finite is refused,
while a negative one passes. -/
def decimalFloat : Reader Unit := do
  let (negative, whole) ← decimal
  let fraction? ← maybe (char '.' *> digitGroups Char.isDigit)
  let exponent? ← maybe exponentPart
  guard (fraction?.isSome || exponent?.isSome)
  let fraction := fraction?.getD []
  guard (negative || isFinite (whole ++ fraction) (exponent?.getD 0 - fraction.length))

def specialFloat : Reader Unit := do
  discard sign
  exactly ['i', 'n', 'f'] <|> exactly ['n', 'a', 'n']

def float : Reader Text := Prod.snd <$> withTaken (decimalFloat <|> specialFloat)

/-! ### Dates and times -/

def fixedDigits : Nat → Reader Text
  | 0 => pure []
  | n + 1 => do
    let c ← satisfy Char.isDigit
    let more ← fixedDigits n
    return c :: more

def numberIn (digits low high : Nat) : Reader Nat := do
  let n := digitsValue 10 (← fixedDigits digits)
  guard (low ≤ n && n ≤ high)
  return n

def isLeapYear (year : Nat) : Bool := year % 4 == 0 && (year % 100 != 0 || year % 400 == 0)

def daysIn (year month : Nat) : Nat :=
  match month with
  | 2 => if isLeapYear year then 29 else 28
  | 4 | 6 | 9 | 11 => 30
  | _ => 31

def date : Reader Unit := do
  let year ← numberIn 4 0 9999
  char '-'
  let month ← numberIn 2 1 12
  char '-'
  discard <| numberIn 2 1 (daysIn year month)

/-- A time of day; the sixtieth second is a leap second. -/
def time : Reader Unit := do
  discard <| numberIn 2 0 23
  char ':'
  discard <| numberIn 2 0 59
  char ':'
  discard <| numberIn 2 0 60
  discard <| maybe (char '.' *> takeWhile1 Char.isDigit)

def utcOffset : Reader Unit :=
  discard (satisfy fun c => c == 'Z' || c == 'z') <|> do
    discard <| satisfy fun c => c == '+' || c == '-'
    discard <| numberIn 2 0 23
    char ':'
    discard <| numberIn 2 0 59

def dateTime : Reader Text :=
  let timeOfDay : Reader Unit := do
    discard <| satisfy fun c => c == 'T' || c == 't' || c == ' '
    time
    discard <| maybe utcOffset
  Prod.snd <$> withTaken ((do date; discard <| maybe timeOfDay) <|> time)

/-! ### All scalars -/

def boolean : Reader Bool :=
  (exactly ['t', 'r', 'u', 'e'] *> pure true) <|>
  (exactly ['f', 'a', 'l', 's', 'e'] *> pure false)

def scalar : Reader Value :=
  Value.string <$> string <|> Value.boolean <$> boolean <|> Value.dateTime <$> dateTime <|>
  Value.float <$> float <|> Value.integer <$> integer

end Toml
end SqlAssist
