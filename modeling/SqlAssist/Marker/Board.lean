import SqlAssist.Marker.Registry
import SqlAssist.Text.Basic

/-!
A board holds the subscriptions that are kept under names: bridges, which pass markers on, and
direct subscriptions.  Storing a subscription under a taken name subscribes the new listener
first and then releases the old one.  A bridge may act on the board when it is told about
markers; who is told about one publication is settled before anybody acts.
-/

namespace SqlAssist

/-- What a listener does after passing markers on. -/
inductive Reaction where
  | nothing
  | drop (target : Text)
  /-- Registers a bridge under that name, unless there is one. -/
  | register (target : Text)
  | andThen (first next : Reaction)
  deriving Repr, DecidableEq

structure Listener where
  name : Text
  reaction : Reaction := .nothing
  deriving Repr, DecidableEq

abbrev Held := List (Text × Subscription)

namespace Held

def get? (h : Held) (name : Text) : Option Subscription := (h.find? (·.1 == name)).map Prod.snd

def erase (h : Held) (name : Text) : Held := h.filter (·.1 != name)

/-- Stores a subscription in the place of the one held under the name, if any. -/
def put (h : Held) (name : Text) (s : Subscription) : Held := erase h name ++ [(name, s)]

theorem get?_erase (h : Held) (name name' : Text) :
    get? (erase h name) name' = if name' = name then none else get? h name' := by
  rw [get?, erase, List.find?_filter]
  by_cases heq : name' = name
  · rw [if_pos heq, List.find?_eq_none.2, Option.map_none]
    intro p _
    simp [heq]
  · rw [if_neg heq, get?]
    congr 2
    funext p
    by_cases hp : p.1 = name'
    · simp [hp, heq]
    · simp [hp]

theorem get?_put (h : Held) (name name' : Text) (s : Subscription) :
    get? (put h name s) name' = if name' = name then some s else get? h name' := by
  have herase := get?_erase h name name'
  rw [get?] at herase
  rw [get?, put, List.find?_append, Option.map_or, herase]
  by_cases heq : name' = name
  · simp [heq]
  · simp [heq, Ne.symm heq]

end Held

structure Board where
  /-- The registry, as long as its host is there. -/
  registry? : Option (Registry Listener) := some {}
  bridges : Held := []
  direct : Held := []
  deriving Repr, DecidableEq

namespace Board

/-- Number of listeners; `none` once the host is gone. -/
def count? (b : Board) : Option Nat := b.registry?.map Registry.count

def release (b : Board) (s : Subscription) : Board :=
  { b with registry? := b.registry?.map (·.release s) }

def subscribe (b : Board) (l : Listener) : Subscription × Board :=
  match b.registry? with
  | none => (.detached, b)
  | some r =>
    let (s, r) := r.subscribe l
    (s, { b with registry? := some r })

def releaseOld (b : Board) (old? : Option Subscription) : Board :=
  match old? with
  | none => b
  | some s => b.release s

def register (b : Board) (l : Listener) : Board :=
  let old? := Held.get? b.bridges l.name
  let (s, b) := b.subscribe l
  { b with bridges := Held.put b.bridges l.name s }.releaseOld old?

/-- Removes a bridge.  Disposing of it and dropping it come to the same. -/
def dispose (b : Board) (name : Text) : Board :=
  let old? := Held.get? b.bridges name
  { b with bridges := Held.erase b.bridges name }.releaseOld old?

def hasBridge (b : Board) (name : Text) : Bool := (Held.get? b.bridges name).isSome

def hold (b : Board) (name : Text) (s : Subscription) : Board :=
  let old? := Held.get? b.direct name
  { b with direct := Held.put b.direct name s }.releaseOld old?

def subscribeDirect (b : Board) (name : Text) : Board :=
  let (s, b) := b.subscribe { name }
  b.hold name s

/-- Releases a direct subscription, and hands it out as it was. -/
def releaseDirect? (b : Board) (name : Text) : Option (Subscription × Board) :=
  (Held.get? b.direct name).map fun s =>
    (s, { b with direct := Held.erase b.direct name }.release s)

def react (b : Board) : Reaction → Board
  | .nothing => b
  | .drop target => b.dispose target
  | .register target => if b.hasBridge target then b else b.register { name := target }
  | .andThen first next => (b.react first).react next

/-- Tells every listener about the markers.  The answer lists who was told what. -/
def publish {μ : Type} (b : Board) (markers : List μ) : List (Text × List μ) × Board :=
  match b.registry? with
  | none => ([], b)
  | some r =>
    let told := r.receivers
    (told.map fun l => (l.name, markers), told.foldl (fun b l => b.react l.reaction) b)

/-- Takes the host away, and its registry with it. -/
def close (b : Board) : Board := { b with registry? := none }

end Board
end SqlAssist
