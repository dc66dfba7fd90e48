import SqlAssist.Dialect.Basic

/-!
The dialect the service knows without any file: Stream SQL, with the default settings.
-/

namespace SqlAssist
namespace Dialect
namespace Builtin

def keywords : List Text :=
  ["SELECT", "FROM", "WHERE", "GROUP", "BY", "ORDER", "HAVING", "LIMIT", "AS", "AND", "OR",
    "NOT", "IN", "BETWEEN", "LIKE", "IS", "NULL", "TRUE", "FALSE", "CASE", "WHEN", "THEN",
    "ELSE", "END", "INNER", "LEFT", "RIGHT", "FULL", "CROSS", "JOIN", "ON", "ASC", "DESC",
    "DISTINCT", "ALL", "OVER", "PARTITION", "FILTER", "CREATE", "DROP", "DESCRIBE", "EXPLAIN",
    "SHOW", "STREAM", "STREAMS", "TABLE", "TABLES", "WITH"].map String.toList

def dataTypes : List Text :=
  ["BIGINT", "FLOAT", "STRING", "DATETIME", "BOOLEAN", "BYTEA", "ARRAY",
    "STRUCT"].map String.toList

def streamOptions : List Text :=
  ["DATASOURCE", "FORMAT", "KEY", "CONF_KEY", "TYPE", "STRICT_VALIDATION", "TIMESTAMP",
    "TIMESTAMP_FORMAT", "SHARED", "SCHEMAID", "KIND", "DELIMITER",
    "RETAIN_SIZE"].map String.toList

/-- The entries of one category, from the name, the signature and the description of each. -/
def group (category : FunctionCategory) (rows : List (String × String × String)) :
    List SymbolEntry :=
  rows.map fun (name, signature, description) =>
    { name := name.toList, signature := signature.toList, description := description.toList,
      category }

def window (name signature description worked : String) : SymbolEntry :=
  { name := name.toList, signature := signature.toList, description := description.toList,
    example? := some worked.toList, category := .window }

def aggregates : List SymbolEntry :=
  group .aggregate [
    ("avg", "avg(col)",
      "Returns the average of the values in the group. Null values are ignored."),
    ("count", "count(*)",
      "Returns the number of rows in the group."),
    ("max", "max(col)",
      "Returns the maximum value in the group. Null values are ignored."),
    ("min", "min(col)",
      "Returns the minimum value in the group. Null values are ignored."),
    ("sum", "sum(col)",
      "Returns the sum of all values in the group. Null values are ignored."),
    ("collect", "collect(*)",
      "Returns an array with all values of the column, or all rows when called with `*`, in the " ++
        "group."),
    ("deduplicate", "deduplicate(col, false)",
      "Returns the rows of the group whose column value is not a duplicate. The second argument " ++
        "selects whether all rows or only the latest are returned."),
    ("merge_agg", "merge_agg(*)",
      "Merges the object values of the group into a single object. Later keys overwrite earlier " ++
        "ones."),
    ("stddev", "stddev(col)",
      "Returns the population standard deviation of the values in the group."),
    ("median", "median(col)",
      "Returns the median of the values in the group.")]

def mathematics : List SymbolEntry :=
  group .math [
    ("abs", "abs(col)",
      "Returns the absolute value of the argument."),
    ("ceil", "ceil(col)",
      "Rounds the value up to the nearest integer."),
    ("floor", "floor(col)",
      "Rounds the value down to the nearest integer."),
    ("round", "round(col)",
      "Rounds the value to the nearest integer."),
    ("power", "power(x, y)",
      "Returns x raised to the power of y."),
    ("sqrt", "sqrt(col)",
      "Returns the square root of the argument."),
    ("mod", "mod(x, y)",
      "Returns the remainder of dividing x by y."),
    ("rand", "rand()",
      "Returns a pseudo-random float uniformly distributed between 0.0 and 1.0."),
    ("log", "log(col)",
      "Returns the base 10 logarithm of the argument."),
    ("ln", "ln(col)",
      "Returns the natural logarithm of the argument."),
    ("exp", "exp(col)",
      "Returns e raised to the power of the argument.")]

def strings : List SymbolEntry :=
  group .string [
    ("concat", "concat(col1, col2, ...)",
      "Concatenates arrays or strings."),
    ("length", "length(col)",
      "Returns the number of characters in the string."),
    ("lower", "lower(col)",
      "Returns the lowercase version of the string."),
    ("upper", "upper(col)",
      "Returns the uppercase version of the string."),
    ("substring", "substring(col, start, end)",
      "Returns the substring from the zero-based start index up to, but not including, the end " ++
        "index."),
    ("trim", "trim(col)",
      "Removes all leading and trailing whitespace from the string."),
    ("startswith", "startswith(col, prefix)",
      "Returns true if the string begins with the given prefix."),
    ("endswith", "endswith(col, suffix)",
      "Returns true if the string ends with the given suffix."),
    ("indexof", "indexof(col, substr)",
      "Returns the first zero-based index of substr in the string, or -1."),
    ("split_value", "split_value(col, sep, index)",
      "Splits the string by sep and returns the part at index."),
    ("regexp_matches", "regexp_matches(col, regex)",
      "Returns true if the string contains a match for the regular expression."),
    ("regexp_replace", "regexp_replace(col, regex, replacement)",
      "Replaces every match of the regular expression with the replacement string.")]

def hashes : List SymbolEntry :=
  group .hashing [
    ("md5", "md5(col)",
      "Returns the hex-encoded MD5 hash of the argument."),
    ("sha256", "sha256(col)",
      "Returns the hex-encoded SHA-256 hash of the argument.")]

def conversions : List SymbolEntry :=
  group .conversion [
    ("cast", "cast(col, \"bigint\")",
      "Converts the value to the named type: bigint, float, string, boolean, datetime or bytea."),
    ("encode", "encode(col, \"base64\")",
      "Encodes the value with the given scheme. Only base64 is supported."),
    ("decode", "decode(col, \"base64\")",
      "Decodes the value with the given scheme. Only base64 is supported."),
    ("trunc", "trunc(col, precision)",
      "Truncates the number to the given number of decimal places.")]

def datesAndTimes : List SymbolEntry :=
  group .datetime [
    ("now", "now()",
      "Returns the current timestamp."),
    ("format_time", "format_time(col, format)",
      "Formats a datetime or millisecond timestamp with the given pattern, e.g. \"yyyy-MM-dd " ++
        "HH:mm:ss\"."),
    ("tstamp", "tstamp()",
      "Returns the current time in milliseconds since the Unix epoch.")]

def jsonPaths : List SymbolEntry :=
  group .json [
    ("json_path_exists", "json_path_exists(col, jsonpath)",
      "Returns true if the JSON path returns any item for the value."),
    ("json_path_query", "json_path_query(col, jsonpath)",
      "Returns all items the JSON path selects from the value."),
    ("json_path_query_first", "json_path_query_first(col, jsonpath)",
      "Returns the first item the JSON path selects from the value.")]

def others : List SymbolEntry :=
  group .other [
    ("isnull", "isnull(col)",
      "Returns true if the argument is null."),
    ("coalesce", "coalesce(expr1, expr2, ...)",
      "Returns the first non-null argument, or null when every argument is null."),
    ("newuuid", "newuuid()",
      "Returns a random 16-byte UUID."),
    ("meta", "meta(key)",
      "Returns the metadata value of the given key attached to the message by its source."),
    ("window_start", "window_start()",
      "Returns the start timestamp, in milliseconds, of the current window."),
    ("window_end", "window_end()",
      "Returns the end timestamp, in milliseconds, of the current window."),
    ("lag", "lag(col, offset, default)",
      "Returns the value of the column from a previous event in the stream."),
    ("latest", "latest(col, default)",
      "Returns the latest non-null value of the column."),
    ("changed_col", "changed_col(ignoreNull, col)",
      "Returns the column value if it changed since the previous event, otherwise null.")]

def windowFunctions : List SymbolEntry := [
  window "TUMBLINGWINDOW" "tumblingwindow(timeunit, size)"
    "Splits the stream into fixed-size, non-overlapping, contiguous time intervals."
    "SELECT count(*) FROM demo GROUP BY ID, TUMBLINGWINDOW(ss, 10)",
  window "HOPPINGWINDOW" "hoppingwindow(timeunit, size, interval)"
    ("Fixed-size windows that hop forward by the interval. Windows overlap when the interval is " ++
     "smaller than the size, so an event can belong to several windows.")
    "SELECT count(*) FROM demo GROUP BY ID, HOPPINGWINDOW(ss, 10, 5)",
  window "SLIDINGWINDOW" "slidingwindow(timeunit, size)"
    "Emits a window whenever an event occurs, covering the events of the preceding size."
    "SELECT count(*) FROM demo GROUP BY ID, SLIDINGWINDOW(mi, 1)",
  window "SESSIONWINDOW" "sessionwindow(timeunit, size, timeout)"
    ("Groups events that arrive close together. A session closes when no event arrives within " ++
     "the timeout or when it reaches the maximum size.")
    "SELECT count(*) FROM demo GROUP BY ID, SESSIONWINDOW(mi, 2, 1)",
  window "COUNTWINDOW" "countwindow(count, interval)"
    ("Windows defined by a number of events rather than time. With an interval, a window of " ++
     "count events is emitted every interval events.")
    "SELECT * FROM demo WHERE temperature > 20 GROUP BY COUNTWINDOW(5, 1) HAVING COUNT(*) > 2"]

def declarations : Declarations :=
  { keywords, dataTypes, streamOptions,
    functions := aggregates ++ mathematics ++ strings ++ hashes ++ conversions ++
      datesAndTimes ++ jsonPaths ++ others,
    windowFunctions }

end Builtin

def builtin : Dialect := ofDeclarations {} Builtin.declarations

end Dialect
end SqlAssist
