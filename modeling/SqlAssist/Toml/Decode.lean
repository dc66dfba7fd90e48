import SqlAssist.Toml.Value

/-!
Decoding values into records.  A record is written as a table, by the names of its members, or
as an array, by their order.  Members that a record does not have are passed over; a member
that is there has to be of its type.
-/

namespace SqlAssist
namespace Toml

inductive Members where
  | byName (entries : List (Text × Value))
  | byPlace (items : List Value)

namespace Members

def get? (m : Members) (place : Nat) (name : String) : Option Value :=
  match m with
  | byName entries => (entries.find? (·.1 == name.toList)).map Prod.snd
  | byPlace items => items[place]?

variable {α : Type}

def required (m : Members) (place : Nat) (name : String) (decode : Value → Option α) : Option α :=
  match m.get? place name with
  | none => none
  | some v => decode v

def withDefault (m : Members) (place : Nat) (name : String) (decode : Value → Option α)
    (value : α) : Option α :=
  match m.get? place name with
  | none => some value
  | some v => decode v

def maybe (m : Members) (place : Nat) (name : String) (decode : Value → Option α) :
    Option (Option α) :=
  m.withDefault place name (fun v => (decode v).map some) none

end Members

namespace Value

/-- The members of a record.  A date stands for a record of which no member is known. -/
def members? : Value → Option Members
  | table entries => some (.byName entries)
  | array items => some (.byPlace items)
  | dateTime _ => some (.byName [])
  | _ => none

def text? : Value → Option Text
  | string t => some t
  | _ => none

def bool? : Value → Option Bool
  | boolean b => some b
  | _ => none

def list? {α : Type} (decode : Value → Option α) : Value → Option (List α)
  | array items => items.mapM decode
  | _ => none

/-- The first two items of an array; any further ones are passed over. -/
def pair? {α : Type} (decode : Value → Option α) : Value → Option (α × α)
  | array (a :: b :: _) => do return (← decode a, ← decode b)
  | _ => none

/-- A table with keys of the document's own choice. -/
def map? {α : Type} (decode : Value → Option α) : Value → Option (List (Text × α))
  | table entries => entries.mapM fun (key, v) => (decode v).map fun a => (key, a)
  | _ => none

/-- A word out of a fixed set: a string, or a table with the word as its only key and nothing
under it. -/
def word? : Value → Option Text
  | string t => some t
  | table [(key, table [])] => some key
  | table [(key, array [])] => some key
  | _ => none

end Value
end Toml
end SqlAssist
