import SqlAssist.Proofs.Marker.Board

/-!
What a board holds, against what its registry has.

A command releases the subscription that is held under a name, so which listener it takes away
depends on what the names have kept.  While the host is there, a board holds exactly the
subscriptions of its listeners: each is held once, under the name of its listener (`Attached`).
Storing a subscription, dropping one and all that listeners do when they are told keep it so.

A subscription that is replaced is released after the new one is made.  That comes to the same as
releasing it first, and so the proofs have two steps to look at: a name is vacated, and a vacant
name is filled.
-/

namespace SqlAssist

namespace Registry

variable {α : Type} {r : Registry α}

theorem mem_listeners_release {s : Subscription} {p : Nat × α} :
    p ∈ (r.release s).listeners ↔ p ∈ r.listeners ∧ s.id? ≠ some p.1 := by
  rw [listeners_release, List.mem_filter, decide_eq_true_eq]

theorem release_subscribe {s : Subscription} (h : s.id? ≠ some r.nextId) (l : α) :
    (r.subscribe l).2.release s = ((r.release s).subscribe l).2 := by
  obtain ⟨id?⟩ := s
  cases id? with
  | none => rfl
  | some id =>
    have hkept : [(r.nextId, l)].filter (fun p => p.1 != id) = [(r.nextId, l)] := by
      have hne : r.nextId ≠ id := fun heq => h (congrArg some heq.symm)
      simpa using hne
    simp only [release, subscribe, List.filter_append, hkept]

theorem Numbered.eq_of_mem (h : Numbered r) {id : Nat} {l l' : α} (hl : (id, l) ∈ r.listeners)
    (hl' : (id, l') ∈ r.listeners) : l' = l := by
  have hmem : (id, l') ∈ r.listeners.filter (·.1 == id) := List.mem_filter.2 ⟨hl', by simp⟩
  rw [h.filter_eq hl, List.mem_singleton] at hmem
  exact congrArg Prod.snd hmem

end Registry

namespace Held

def Keeps (h : Held) (name : Text) (id : Nat) : Prop := get? h name = some ⟨some id⟩

/-- What has to be released when a name gets another subscription. -/
def old (h : Held) (name : Text) : Subscription := (get? h name).getD .detached

variable {h : Held} {name name' : Text} {id : Nat}

theorem keeps_iff_old : h.Keeps name id ↔ (old h name).id? = some id := by
  rw [Keeps, old]
  cases get? h name with
  | none => simp [Subscription.detached]
  | some s =>
    obtain ⟨id?⟩ := s
    simp

theorem keeps_erase : Keeps (erase h name) name' id ↔ name' ≠ name ∧ h.Keeps name' id := by
  rw [Keeps, Keeps, get?_erase]
  by_cases heq : name' = name
  · simp [heq]
  · simp [heq]

theorem keeps_put {s : Subscription} :
    Keeps (put h name s) name' id ↔
      name' = name ∧ s.id? = some id ∨ name' ≠ name ∧ h.Keeps name' id := by
  rw [Keeps, Keeps, get?_put]
  by_cases heq : name' = name
  · obtain ⟨id?⟩ := s
    simp [heq]
  · simp [heq]

theorem put_erase (s : Subscription) : put (erase h name) name s = put h name s := by
  rw [put, put, erase, erase, List.filter_filter]
  simp only [Bool.and_self]

end Held

/-- Whether two tables hold the subscriptions of a registry's listeners, each once and under the
listener's name. -/
structure Attached (table other : Held) (r : Registry Listener) : Prop where
  numbered : r.Numbered
  held : ∀ id l, (id, l) ∈ r.listeners → table.Keeps l.name id ∨ other.Keeps l.name id
  listening : ∀ name id, table.Keeps name id ∨ other.Keeps name id →
    ∃ l, l.name = name ∧ (id, l) ∈ r.listeners
  apart : ∀ name id, table.Keeps name id → ¬ other.Keeps name id

namespace Attached

variable {table other : Held} {r : Registry Listener} {name : Text}

theorem nothing : Attached [] [] {} := by
  have hnone : ∀ name id, ¬ Held.Keeps [] name id := by simp [Held.Keeps, Held.get?]
  exact ⟨Registry.numbered_empty, by simp, by simp [hnone], by simp [hnone]⟩

theorem symm (h : Attached table other r) : Attached other table r :=
  ⟨h.numbered, fun id l hl => (h.held id l hl).symm, fun name id hk => h.listening name id hk.symm,
    fun name id hother htable => h.apart name id htable hother⟩

/-- A number is held under one name. -/
theorem name_eq (h : Attached table other r) {name' : Text} {id : Nat}
    (hk : table.Keeps name id ∨ other.Keeps name id)
    (hk' : table.Keeps name' id ∨ other.Keeps name' id) : name' = name := by
  obtain ⟨l, hname, hl⟩ := h.listening name id hk
  obtain ⟨l', hname', hl'⟩ := h.listening name' id hk'
  rw [← hname, ← hname', h.numbered.eq_of_mem hl hl']

theorem old_ne_nextId (h : Attached table other r) (name : Text) :
    (table.old name).id? ≠ some r.nextId := by
  intro hold
  obtain ⟨l, -, hl⟩ := h.listening name _ (Or.inl (Held.keeps_iff_old.2 hold))
  exact Nat.lt_irrefl _ (h.numbered.below _ hl)

theorem vacate (h : Attached table other r) (name : Text) :
    Attached (table.erase name) other (r.release (table.old name)) := by
  constructor
  case numbered => exact h.numbered.release _
  case held =>
    intro id l hl
    rw [Registry.mem_listeners_release] at hl
    rcases h.held id l hl.1 with htable | hother
    · have hne : l.name ≠ name := by
        intro heq
        rw [heq] at htable
        exact hl.2 (Held.keeps_iff_old.1 htable)
      exact Or.inl (Held.keeps_erase.2 ⟨hne, htable⟩)
    · exact Or.inr hother
  case listening =>
    intro name' id hk
    have hkept : (name' ≠ name ∧ table.Keeps name' id) ∨ other.Keeps name' id := by
      rwa [Held.keeps_erase] at hk
    have hboth : table.Keeps name' id ∨ other.Keeps name' id := hkept.imp_left And.right
    obtain ⟨l, hname, hl⟩ := h.listening name' id hboth
    refine ⟨l, hname, Registry.mem_listeners_release.2 ⟨hl, fun hold => ?_⟩⟩
    have hreleased := Held.keeps_iff_old.2 hold
    have heq := h.name_eq (Or.inl hreleased) hboth
    rcases hkept with htable | hother
    · exact htable.1 heq
    · rw [heq] at hother
      exact h.apart name id hreleased hother
  case apart =>
    intro name' id hk
    exact h.apart name' id (Held.keeps_erase.1 hk).2

theorem fill (h : Attached table other r) (l : Listener)
    (hvacant : ∀ id, ¬ table.Keeps l.name id) :
    Attached (table.put l.name (r.subscribe l).1) other (r.subscribe l).2 := by
  constructor
  case numbered => exact h.numbered.subscribe l
  case held =>
    intro id l' hl'
    rcases List.mem_append.1 hl' with hl' | hl'
    · refine (h.held id l' hl').imp_left fun htable => Held.keeps_put.2 (Or.inr ⟨?_, htable⟩)
      intro heq
      rw [heq] at htable
      exact hvacant id htable
    · obtain ⟨rfl, rfl⟩ := Prod.mk.inj (List.mem_singleton.1 hl')
      exact Or.inl (Held.keeps_put.2 (Or.inl ⟨rfl, rfl⟩))
  case listening =>
    intro name id hk
    rw [Held.keeps_put] at hk
    have hold : table.Keeps name id ∨ other.Keeps name id →
        ∃ l', l'.name = name ∧ (id, l') ∈ (r.subscribe l).2.listeners := by
      intro hk
      obtain ⟨l', hname, hl'⟩ := h.listening name id hk
      exact ⟨l', hname, List.mem_append_left _ hl'⟩
    rcases hk with (⟨hname, hid⟩ | hk) | hk
    · obtain rfl := Option.some.inj hid
      exact ⟨l, hname.symm, List.mem_append_right _ (List.mem_singleton_self _)⟩
    · exact hold (Or.inl hk.2)
    · exact hold (Or.inr hk)
  case apart =>
    intro name id hk hother
    rcases Held.keeps_put.1 hk with ⟨-, hid⟩ | htable
    · obtain rfl := Option.some.inj hid
      obtain ⟨l', -, hl'⟩ := h.listening name _ (Or.inr hother)
      exact Nat.lt_irrefl _ (h.numbered.below _ hl')
    · exact h.apart name id htable.2 hother

theorem replace (h : Attached table other r) (l : Listener) :
    Attached (table.put l.name (r.subscribe l).1) other
      ((r.subscribe l).2.release (table.old l.name)) := by
  have hvacated := (h.vacate l.name).fill l fun id hk => (Held.keeps_erase.1 hk).1 rfl
  have hsame : ((r.release (table.old l.name)).subscribe l).1 = (r.subscribe l).1 := by
    show (⟨some (r.release (table.old l.name)).nextId⟩ : Subscription) = ⟨some r.nextId⟩
    rw [Registry.nextId_release]
  rwa [hsame, Held.put_erase, ← Registry.release_subscribe (h.old_ne_nextId l.name)] at hvacated

theorem replace_detached (h : Attached table other r) (name : Text) :
    Attached (table.put name .detached) other (r.release (table.old name)) := by
  have hvacated := h.vacate name
  have hsame : ∀ name' id, Held.Keeps (table.put name .detached) name' id ↔
      Held.Keeps (table.erase name) name' id := by
    intro name' id
    rw [Held.keeps_put, Held.keeps_erase]
    simp [Subscription.detached]
  constructor
  case numbered => exact hvacated.numbered
  case held =>
    intro id l hl
    rw [hsame]
    exact hvacated.held id l hl
  case listening =>
    intro name' id hk
    rw [hsame] at hk
    exact hvacated.listening name' id hk
  case apart =>
    intro name' id hk
    exact hvacated.apart name' id ((hsame name' id).1 hk)

end Attached

namespace Board

variable {μ : Type} {b : Board} {r : Registry Listener}

theorem register_eq (hr : b.registry? = some r) (l : Listener) :
    b.register l =
      { registry? := some ((r.subscribe l).2.release (Held.old b.bridges l.name))
        bridges := Held.put b.bridges l.name (r.subscribe l).1
        direct := b.direct } := by
  rw [register, subscribe_eq hr]
  exact releaseOld_eq rfl _

theorem dispose_eq (hr : b.registry? = some r) (name : Text) :
    b.dispose name =
      { registry? := some (r.release (Held.old b.bridges name))
        bridges := Held.erase b.bridges name
        direct := b.direct } :=
  releaseOld_eq (b := { b with bridges := Held.erase b.bridges name }) hr _

theorem hold_eq (hr : b.registry? = some r) (name : Text) (s : Subscription) :
    b.hold name s =
      { registry? := some (r.release (Held.old b.direct name))
        bridges := b.bridges
        direct := Held.put b.direct name s } :=
  releaseOld_eq (b := { b with direct := Held.put b.direct name s }) hr _

theorem subscribeDirect_eq (hr : b.registry? = some r) (name : Text) :
    b.subscribeDirect name =
      { registry? := some ((r.subscribe { name }).2.release (Held.old b.direct name))
        bridges := b.bridges
        direct := Held.put b.direct name (r.subscribe { name }).1 } := by
  rw [subscribeDirect, subscribe_eq hr]
  exact hold_eq rfl name _

/-- Whether the host is there and the board holds the subscriptions of its listeners. -/
def InStep (b : Board) : Prop := ∃ r, b.registry? = some r ∧ Attached b.bridges b.direct r

namespace InStep

theorem register (h : b.InStep) (l : Listener) : (b.register l).InStep := by
  obtain ⟨r, hr, hattached⟩ := h
  rw [register_eq hr]
  exact ⟨_, rfl, hattached.replace l⟩

theorem dispose (h : b.InStep) (name : Text) : (b.dispose name).InStep := by
  obtain ⟨r, hr, hattached⟩ := h
  rw [dispose_eq hr]
  exact ⟨_, rfl, hattached.vacate name⟩

theorem react (h : b.InStep) (a : Reaction) : (b.react a).InStep := by
  induction a generalizing b with
  | nothing => exact h
  | drop target => exact h.dispose target
  | register target =>
    rw [Board.react]
    split
    · exact h
    · exact h.register _
  | andThen first next ihFirst ihNext => exact ihNext (ihFirst h)

theorem publish (h : b.InStep) (markers : List μ) : (b.publish markers).2.InStep := by
  have hreactions : ∀ (ls : List Listener) (b : Board), b.InStep →
      (ls.foldl (fun b l => b.react l.reaction) b).InStep := by
    intro ls
    induction ls with
    | nil => exact fun b h => h
    | cons l rest ih => exact fun b h => ih _ (h.react l.reaction)
  obtain ⟨r, hr, hattached⟩ := h
  rw [publish_eq hr]
  exact hreactions _ _ ⟨r, hr, hattached⟩

theorem perform (h : b.InStep) {c : BoardCommand μ} (hc : c ≠ .close) :
    (b.perform c).2.InStep := by
  obtain ⟨r, hr, hattached⟩ := h
  cases c with
  | register l => exact register ⟨r, hr, hattached⟩ l
  | dispose name =>
    rw [Board.perform, hr]
    exact dispose ⟨r, hr, hattached⟩ name
  | subscribeDirect name =>
    show (b.subscribeDirect name).InStep
    rw [subscribeDirect_eq hr]
    exact ⟨_, rfl, (hattached.symm.replace { name }).symm⟩
  | holdDetached name =>
    show (b.hold name .detached).InStep
    rw [hold_eq hr]
    exact ⟨_, rfl, (hattached.symm.replace_detached name).symm⟩
  | releaseDirect name =>
    rw [Board.perform, releaseDirect?]
    cases hs : Held.get? b.direct name with
    | none => exact ⟨r, hr, hattached⟩
    | some s =>
      have hvacated := hattached.symm.vacate name
      rw [Held.old, hs] at hvacated
      refine ⟨r.release s, ?_, hvacated.symm⟩
      show b.registry?.map _ = _
      rw [hr]
      rfl
  | publish markers => exact publish ⟨r, hr, hattached⟩ markers
  | registry => exact ⟨r, hr, hattached⟩
  | close => exact absurd rfl hc

theorem run (h : b.InStep) {cs : List (BoardCommand μ)} (hcs : .close ∉ cs) :
    (b.run cs).2.InStep := by
  induction cs generalizing b with
  | nil => exact h
  | cons c rest ih =>
    exact ih (h.perform (List.ne_of_not_mem_cons hcs).symm) (List.not_mem_of_not_mem_cons hcs)

end InStep
end Board
end SqlAssist
