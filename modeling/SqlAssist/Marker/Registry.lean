/-!
The registry of listeners.  Listeners are told about markers in the order in which they
subscribed.  Each gets a number of its own that is never given out again, so that releasing a
subscription twice, or after others came and went, cannot remove the wrong listener.
-/

namespace SqlAssist

/-- What a listener's owner keeps, to release it by. -/
structure Subscription where
  /-- The listener's number; a detached subscription has no listener. -/
  id? : Option Nat
  deriving Repr, DecidableEq

namespace Subscription

def detached : Subscription := ⟨none⟩

def isActive (s : Subscription) : Bool := s.id?.isSome

def summary (s : Subscription) : String :=
  "MarkerSubscription \x7b active: " ++ toString s.isActive ++ " \x7d"

end Subscription

/-- The listeners of a document, each with its number, oldest first. -/
structure Registry (α : Type) where
  nextId : Nat := 0
  listeners : List (Nat × α) := []
  deriving Repr, DecidableEq

namespace Registry

variable {α : Type}

def subscribe (r : Registry α) (listener : α) : Subscription × Registry α :=
  (⟨some r.nextId⟩,
    { nextId := r.nextId + 1, listeners := r.listeners ++ [(r.nextId, listener)] })

/-- Removes the listener of a subscription, if it is still there. -/
def release (r : Registry α) (s : Subscription) : Registry α :=
  match s.id? with
  | none => r
  | some id => { r with listeners := r.listeners.filter (·.1 != id) }

/-- The listeners that a publication made now is for. -/
def receivers (r : Registry α) : List α := r.listeners.map Prod.snd

def count (r : Registry α) : Nat := r.listeners.length

def summary (r : Registry α) : String :=
  "MarkerRegistry \x7b listeners: " ++ toString r.count ++ " \x7d"

end Registry
end SqlAssist
