import SqlAssist.Text.Line

/-!
Positions.  A position names a line and a column, both from zero; columns count characters and
the terminator of a line has none.  Both numbers are 32-bit words, the way hosts send them.
-/

namespace SqlAssist

structure Position where
  line : UInt32
  character : UInt32
  deriving Repr, DecidableEq

structure Range where
  start : Position
  stop : Position
  deriving Repr, DecidableEq

structure TextEdit where
  range : Range
  newText : Text
  deriving Repr, DecidableEq

end SqlAssist
