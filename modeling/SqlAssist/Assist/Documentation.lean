import SqlAssist.Symbol.Entry

/-!
How a documented name is shown: as Markdown, with the signature as code and the description under
it.  A window function shows its example too, because its use in a statement is not plain from the
signature.
-/

namespace SqlAssist
namespace SymbolEntry

def codeBlock (t : Text) : Text := "```sql\n".toList ++ t ++ "\n```".toList

def markdown (kind : SymbolKind) (e : SymbolEntry) : Text :=
  let head := codeBlock e.signature ++ "\n\n".toList ++ e.description
  match kind, e.example? with
  | .windowFunction, some worked => head ++ "\n\n**Example:**\n".toList ++ codeBlock worked
  | _, _ => head

structure ShownIn (e : SymbolEntry) (kind : SymbolKind) (t : Text) : Prop where
  signature : codeBlock e.signature <:+: t
  description : e.description <:+: t
  worked : kind = .windowFunction → ∀ w, e.example? = some w → codeBlock w <:+: t

theorem shownIn_markdown (kind : SymbolKind) (e : SymbolEntry) :
    e.ShownIn kind (e.markdown kind) := by
  have hhead : codeBlock e.signature ++ "\n\n".toList ++ e.description <+: e.markdown kind := by
    unfold markdown
    split
    · rw [List.append_assoc _ "\n\n**Example:**\n".toList]
      exact List.prefix_append _ _
    · exact List.prefix_refl _
  constructor
  case signature =>
    rw [List.append_assoc] at hhead
    exact ((List.prefix_append _ _).trans hhead).isInfix
  case description => exact (List.suffix_append _ _).isInfix.trans hhead.isInfix
  case worked =>
    intro hkind w hw
    unfold markdown
    simp only [hkind, hw]
    exact (List.suffix_append _ _).isInfix

end SymbolEntry
end SqlAssist
