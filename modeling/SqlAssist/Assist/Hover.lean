import SqlAssist.Assist.Documentation
import SqlAssist.Dialect.Basic
import SqlAssist.Document.Cursor

/-!
Hovers.
-/

namespace SqlAssist

structure Hover where
  markdown : Text
  range : Range
  deriving Repr, DecidableEq

namespace Dialect

/-- What is known about the word that contains the character at a position. -/
def hover? (d : Dialect) (document : Text) (p : Position) : Option Hover := do
  let c ← Cursor.at? document p
  let w ← c.pointedWord?
  let (kind, e) ← d.catalog.documented? w.text
  return { markdown := e.markdown kind, range := c.wordRange w }

end Dialect
end SqlAssist
