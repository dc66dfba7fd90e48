import SqlAssist.Marker.Command
import SqlAssist.Proofs.Marker.Delivery

/-!
Boards as runs of their registry.

A board keeps subscriptions under names, and the names decide which subscription a command
releases.  To its registry it does nothing but subscribe, release and publish.  So each command is a
list of events of the registry, what listeners do when they are told included, and what the board
answers about deliveries is what these events say.
-/

namespace SqlAssist
namespace Board

variable {μ : Type} {b b' b'' : Board} {r : Registry Listener}
  {es es' : List (Registry.Event Listener μ)}

/-! ## Boards whose host is there -/

theorem releaseOld_eq (hr : b.registry? = some r) (old? : Option Subscription) :
    b.releaseOld old? = { b with registry? := some (r.release (old?.getD .detached)) } := by
  cases old? with
  | none =>
    obtain ⟨r?, bridges, direct⟩ := b
    obtain rfl : r? = some r := hr
    rfl
  | some s =>
    rw [releaseOld, release, hr]
    rfl

theorem subscribe_eq (hr : b.registry? = some r) (l : Listener) :
    b.subscribe l = ((r.subscribe l).1, { b with registry? := some (r.subscribe l).2 }) := by
  rw [subscribe, hr]

theorem publish_eq (hr : b.registry? = some r) (markers : List μ) :
    b.publish markers = (r.receivers.map fun l => (l.name, markers),
      r.receivers.foldl (fun b l => b.react l.reaction) b) := by
  rw [publish, hr]

/-! ## The events of a command -/

/-- Whether the registry of a board, if it is there, goes through events and becomes that of another
board. -/
def Follows (b : Board) (es : List (Registry.Event Listener μ)) (b' : Board) : Prop :=
  ∀ r, b.registry? = some r → ∃ r', b'.registry? = some r' ∧ Registry.Goes r es r'

theorem Follows.trans (h : Follows b es b') (h' : Follows b' es' b'') :
    Follows b (es ++ es') b'' := by
  intro r hr
  obtain ⟨mid, hmid, hgoes⟩ := h r hr
  obtain ⟨r', hr', hgoes'⟩ := h' mid hmid
  exact ⟨r', hr', hgoes.trans hgoes'⟩

end Board

def BoardAnswer.deliveries {μ : Type} : BoardAnswer μ → List (Text × List μ)
  | told deliveries _ => deliveries
  | _ => []

namespace Board

variable {μ : Type} {b : Board} {r : Registry Listener}

end Board
end SqlAssist
