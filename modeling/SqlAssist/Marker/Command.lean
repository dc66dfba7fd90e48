import SqlAssist.Marker.Board

/-!
What can be asked of a board, as data, and runs of such requests.
-/

namespace SqlAssist

inductive BoardCommand (μ : Type) where
  | register (l : Listener)
  | dispose (name : Text)
  | subscribeDirect (name : Text)
  /-- Holds a subscription that has no listener. -/
  | holdDetached (name : Text)
  | releaseDirect (name : Text)
  | publish (markers : List μ)
  | registry
  | close
  deriving Repr, DecidableEq

inductive BoardAnswer (μ : Type) where
  /-- Who was told what, and the number of listeners after that. -/
  | told (deliveries : List (Text × List μ)) (count : Nat)
  /-- A direct subscription as it was, and the number of listeners after its release. -/
  | released (s : Subscription) (count : Nat)
  /-- Whether there was a bridge to dispose of, once nobody listens any more. -/
  | found (b : Bool)
  | registry (r? : Option (Registry Listener))
  | closed
  deriving Repr, DecidableEq

namespace Board

variable {μ : Type}

def count (b : Board) : Nat := b.count?.getD 0

def quiet (b : Board) : BoardAnswer μ × Board := (.told [] b.count, b)

def perform (b : Board) : BoardCommand μ → BoardAnswer μ × Board
  | .register l => (b.register l).quiet
  | .dispose name =>
    match b.registry? with
    | some _ => (b.dispose name).quiet
    | none => (.found (b.hasBridge name), b.dispose name)
  | .subscribeDirect name => (b.subscribeDirect name).quiet
  | .holdDetached name => (b.hold name .detached).quiet
  | .releaseDirect name =>
    match b.releaseDirect? name with
    | some (s, b) => (.released s b.count, b)
    | none => b.quiet
  | .publish markers =>
    let (deliveries, b) := b.publish markers
    (.told deliveries b.count, b)
  | .registry => (.registry b.registry?, b)
  | .close => (.closed, b.close)

def run (b : Board) : List (BoardCommand μ) → List (BoardAnswer μ) × Board
  | [] => ([], b)
  | c :: rest =>
    let (first, b) := b.perform c
    let (later, b) := b.run rest
    (first :: later, b)

end Board
end SqlAssist
