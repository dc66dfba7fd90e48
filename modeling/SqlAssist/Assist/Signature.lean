import SqlAssist.Assist.Call
import SqlAssist.Document.Cursor

/-!
Signature help.
-/

namespace SqlAssist

structure SignatureInfo where
  label : Text
  documentation : Text
  parameters : List Text
  deriving Repr, DecidableEq

structure SignatureHelp where
  signatures : List SignatureInfo
  activeSignature : UInt32 := 0
  activeParameter : UInt32
  deriving Repr, DecidableEq

namespace SymbolEntry

def signatureInfo (e : SymbolEntry) : SignatureInfo :=
  { label := e.signature, documentation := e.description, parameters := e.parameters }

end SymbolEntry

namespace Dialect

def callContext? (d : Dialect) (before : Text) : Option CallContext :=
  CallContext.ofTokens? (d.lexicon.tokens before)

/-- The signature of the innermost call around a position.  A call of an unknown name gives
nothing, even inside a call of a known one, because the argument typed is not of that one. -/
def signatureHelp? (d : Dialect) (document : Text) (p : Position) : Option SignatureHelp := do
  let index ← p.charIndex? document
  let call ← d.callContext? (document.take index)
  let (_, e) ← d.catalog.documented? call.callee
  return { signatures := [e.signatureInfo], activeParameter := call.argument.toUInt32 }

end Dialect
end SqlAssist
