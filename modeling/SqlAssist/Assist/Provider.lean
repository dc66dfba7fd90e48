import SqlAssist.Assist.Completion
import SqlAssist.Assist.Hover
import SqlAssist.Assist.Signature

/-!
Providers.  An editor asks whichever providers are bound to it, so that a host can replace a
feature or leave it out.
-/

namespace SqlAssist

inductive CompletionResponse where
  | items (items : List CompletionItem)
  | list (isIncomplete : Bool) (items : List CompletionItem)
  deriving Repr, DecidableEq

namespace CompletionResponse

def toList : CompletionResponse → List CompletionItem
  | items is => is
  | list _ is => is

end CompletionResponse

structure CompletionProvider where
  completions : Text → Position → CompletionResponse
  isTrigger : Text → Bool

structure HoverProvider where
  hover? : Text → Position → Option Hover

structure SignatureProvider where
  help? : Text → Position → Option SignatureHelp
  /-- What typed should bring the help up again. -/
  triggerCharacters : List Text := []

structure Providers where
  completion? : Option CompletionProvider := none
  hover? : Option HoverProvider := none
  signature? : Option SignatureProvider := none

namespace Dialect

def completionProvider (d : Dialect) : CompletionProvider :=
  { completions := fun document p => .items (d.completions document p)
    isTrigger := triggersCompletion }

/-- A provider of the same completions that answers with a list. -/
def completionListProvider (d : Dialect) : CompletionProvider :=
  { completions := fun document p => .list false (d.completions document p)
    isTrigger := triggersCompletion }

def hoverProvider (d : Dialect) : HoverProvider := { hover? := d.hover? }

def signatureProvider (d : Dialect) : SignatureProvider :=
  { help? := d.signatureHelp?, triggerCharacters := [['('], [',']] }

/-- A provider of the same help that nothing typed brings up. -/
def quietSignatureProvider (d : Dialect) : SignatureProvider := { help? := d.signatureHelp? }

def providers (d : Dialect) : Providers :=
  { completion? := some d.completionProvider
    hover? := some d.hoverProvider
    signature? := some d.signatureProvider }

end Dialect

namespace Providers

def summary (p : Providers) : String :=
  "Lsp \x7b completions: " ++ toString p.completion?.isSome ++ ", hover: " ++
    toString p.hover?.isSome ++ ", signature_help: " ++ toString p.signature?.isSome ++ " \x7d"

end Providers
end SqlAssist
