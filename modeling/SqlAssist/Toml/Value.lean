import SqlAssist.Text.Basic

/-!
Values of a TOML document, once its tables are put together.
-/

namespace SqlAssist
namespace Toml

/-- A TOML value.  Nothing here computes with floats or dates, so both are kept as written. -/
inductive Value where
  | string (text : Text)
  | integer (n : Int)
  | float (written : Text)
  | boolean (b : Bool)
  | dateTime (written : Text)
  | array (items : List Value)
  | table (entries : List (Text × Value))
  deriving Repr, Inhabited

end Toml
end SqlAssist
