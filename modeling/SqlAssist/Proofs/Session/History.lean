import SqlAssist.Proofs.Document.History
import SqlAssist.Proofs.Session.Coherence

/-!
The changes of a session, and edits that are refused.

A session makes every edit through its buffer, so its changes are the history of its text, whatever
is asked in between and whenever they are taken.

A refused edit leaves no trace.  That is plain for the buffer.  A session that was edited behind
its back has forgotten the states of its lines even so; but what it remembers makes no
difference to an answer, because two coherent sessions that agree in all other fields give the same
answers for ever (`Twin.run`).
-/

namespace SqlAssist
namespace Session

variable {μ : Type} {d : Dialect} {s s' : Session μ}

/-! ## What a session shows -/

def visible (s : Session μ) : Session μ := { s with entryStates := [] }

theorem replace_eq (s : Session μ) (start stop : Nat) (text : Text) :
    s.replace start stop text = (s.buffer.replace start stop text).map (s.edited start) := by
  rw [replace]
  cases s.buffer.replace start stop text <;> rfl

theorem apply_eq_replace (s : Session μ) (e : Edit) :
    s.apply e = s.replace e.start e.stop e.newText := by
  cases e <;> rfl

def shown (r : SessionAnswer μ × Session μ) : SessionAnswer μ × Session μ := (r.1, r.2.visible)

theorem shown_afterEdit_replace (s : Session μ) (start stop : Nat) (text : Text) :
    shown (s.afterEdit (s.replace start stop text)) =
      shown (s.visible.afterEdit (s.visible.replace start stop text)) := by
  rw [replace_eq, replace_eq]
  show _ = shown (s.visible.afterEdit
    ((s.buffer.replace start stop text).map (s.visible.edited start)))
  cases s.buffer.replace start stop text <;> rfl

theorem shown_afterEdit_applyTextEdit (s : Session μ) (e : TextEdit) :
    shown (s.afterEdit (s.applyTextEdit e)) =
      shown (s.visible.afterEdit (s.visible.applyTextEdit e)) := by
  rw [applyTextEdit, applyTextEdit]
  show _ = shown (s.visible.afterEdit (s.buffer.positionToOffset e.range.start >>= fun start =>
    s.buffer.positionToOffset e.range.stop >>= fun stop =>
      s.visible.replace start stop e.newText))
  cases s.buffer.positionToOffset e.range.start with
  | error err => rfl
  | ok start =>
    cases s.buffer.positionToOffset e.range.stop with
    | error err => rfl
    | ok stop => exact s.shown_afterEdit_replace start stop e.newText

theorem perform_editBuffer (s : Session μ) (e : Edit) :
    s.perform (.editBuffer e) =
      match s.buffer.apply e with
      | .ok b => (.buffer (.text b.text), { s.forgetAfter 0 with buffer := b })
      | .error err => (.buffer (.refused err), s.forgetAfter 0) := by
  have hbuffer : (s.forgetAfter 0).buffer = s.buffer := rfl
  rw [perform, editBuffer, hbuffer]
  cases s.buffer.apply e <;> rfl

theorem perform_accept (s : Session μ) (p : Position) (label : Text) :
    s.perform (.accept p label) = (s.accept? p label).elim (.notOffered, s) s.afterEdit := by
  rw [perform]
  cases s.accept? p label <;> rfl

/-- Whether a command asks for states or highlights, the answers that depend on what is
remembered. -/
def asksStates : SessionCommand μ → Bool
  | .entryState _ | .lineHighlights _ | .highlights => true
  | _ => false

/-- Any other command does not look at what is remembered. -/
theorem shown_perform (s : Session μ) {c : SessionCommand μ} (hc : asksStates c = false) :
    shown (s.perform c) = shown (s.visible.perform c) := by
  cases c with
  | edit e =>
    show shown (s.afterEdit (s.apply e)) = shown (s.visible.afterEdit (s.visible.apply e))
    rw [apply_eq_replace, apply_eq_replace]
    exact s.shown_afterEdit_replace _ _ _
  | setText text => exact s.shown_afterEdit_replace _ _ _
  | applyTextEdit e => exact s.shown_afterEdit_applyTextEdit e
  | accept p label =>
    have hoffered : s.visible.accept? p label = ((s.completions p).find? (·.label == label)).map
        fun item => s.visible.applyTextEdit item.edit := rfl
    rw [perform_accept, perform_accept, accept?, hoffered]
    cases (s.completions p).find? (·.label == label) with
    | none => rfl
    | some item => exact s.shown_afterEdit_applyTextEdit item.edit
  | editBuffer e =>
    rw [perform_editBuffer, perform_editBuffer]
    show _ = shown (match s.buffer.apply e with
      | .ok b => _
      | .error err => _)
    cases s.buffer.apply e <;> rfl
  | entryState => simp [asksStates] at hc
  | lineHighlights => simp [asksStates] at hc
  | highlights => simp [asksStates] at hc
  | _ => rfl

/-! ## Sessions that cannot be told apart -/

theorem visible_entryState (s : Session μ) (line : Nat) :
    (s.entryState line).2.visible = s.visible := by
  rw [entryState]
  split <;> rfl

theorem visible_lineHighlights (s : Session μ) (line : Nat) :
    (s.lineHighlights line).2.visible = s.visible := by
  have hstate := s.visible_entryState line
  rw [lineHighlights]
  split
  · next hs => rwa [hs] at hstate
  · next hs =>
    rw [hs] at hstate
    split
    · show Session.visible (if _ then _ else _) = _
      split
      · exact hstate
      · exact hstate
    · exact hstate

theorem visible_highlightsOf (s : Session μ) (ls : List Nat) :
    (s.highlightsOf ls).2.visible = s.visible := by
  induction ls generalizing s with
  | nil => rfl
  | cons line rest ih => exact (ih _).trans (s.visible_lineHighlights line)

/-- Two coherent sessions of one dialect that differ in what they remember at most. -/
structure Twin (d : Dialect) (s s' : Session μ) : Prop where
  left : s.Coherent d
  right : s'.Coherent d
  visible : s.visible = s'.visible

theorem Twin.perform (h : Twin d s s') (c : SessionCommand μ) :
    (s.perform c).1 = (s'.perform c).1 ∧ Twin d (s.perform c).2 (s'.perform c).2 := by
  have htext : s.text = s'.text := by
    show s.visible.text = s'.visible.text
    rw [h.visible]
  have hleft := h.left.perform c
  have hright := h.right.perform c
  cases hc : asksStates c with
  | false =>
    have hshown : shown (s.perform c) = shown (s'.perform c) := by
      rw [shown_perform s hc, shown_perform s' hc, h.visible]
    obtain ⟨hanswer, hvisible⟩ := Prod.mk.inj hshown
    exact ⟨hanswer, hleft, hright, hvisible⟩
  | true =>
    have hsame : (s.perform c).2.visible = s.visible ∧ (s'.perform c).2.visible = s'.visible ∧
        (s.perform c).1 = (s'.perform c).1 := by
      cases c with
      | entryState line =>
        refine ⟨s.visible_entryState line, s'.visible_entryState line, ?_⟩
        have := (h.left.answersFor.entryState line).trans
          (htext ▸ (h.right.answersFor.entryState line).symm)
        exact Option.some.inj this
      | lineHighlights line =>
        refine ⟨s.visible_lineHighlights line, s'.visible_lineHighlights line, ?_⟩
        have := (h.left.answersFor.lineHighlights line).trans
          (htext ▸ (h.right.answersFor.lineHighlights line).symm)
        exact Option.some.inj this
      | highlights =>
        refine ⟨s.visible_highlightsOf _, s'.visible_highlightsOf _, ?_⟩
        have := h.left.answersFor.highlights.trans
          (htext ▸ h.right.answersFor.highlights.symm)
        exact Option.some.inj this
      | _ => simp [asksStates] at hc
    exact ⟨hsame.2.2, hleft, hright, hsame.1.trans (h.visible.trans hsame.2.1.symm)⟩

theorem run_cons (s : Session μ) (c : SessionCommand μ) (rest : List (SessionCommand μ)) :
    s.run (c :: rest) = ((s.perform c).1 :: ((s.perform c).2.run rest).1,
      ((s.perform c).2.run rest).2) := rfl

theorem Twin.run (h : Twin d s s') (cs : List (SessionCommand μ)) :
    (s.run cs).1 = (s'.run cs).1 := by
  induction cs generalizing s s' with
  | nil => rfl
  | cons c rest ih =>
    obtain ⟨hanswer, htwin⟩ := h.perform c
    rw [run_cons, run_cons, hanswer, ih htwin]

/-! ## Edits that are refused -/

theorem visible_of_refused {c : SessionCommand μ} {error : EditError}
    (h : (s.perform c).1 = .buffer (.refused error)) : (s.perform c).2.visible = s.visible := by
  have hedit : ∀ r : Except EditError (Session μ),
      (s.afterEdit r).1 = .buffer (.refused error) → (s.afterEdit r).2 = s := by
    intro r hr
    cases r with
    | error e => rfl
    | ok s' => simp [afterEdit] at hr
  cases c with
  | edit e => exact congrArg visible (hedit _ h)
  | setText text => exact congrArg visible (hedit _ h)
  | applyTextEdit e => exact congrArg visible (hedit _ h)
  | accept p label =>
    rw [perform] at h ⊢
    generalize s.accept? p label = r at h ⊢
    cases r with
    | none => rfl
    | some r => exact congrArg visible (hedit r h)
  | editBuffer e =>
    rw [perform_editBuffer] at h ⊢
    generalize s.buffer.apply e = r at h ⊢
    cases r with
    | error err => rfl
    | ok b => simp at h
  | query q => rfl
  | entryState line => exact s.visible_entryState line
  | lineHighlights line => exact s.visible_lineHighlights line
  | highlights => exact s.visible_highlightsOf _
  | _ => simp [perform] at h

/-! ## Runs -/

end Session

def SessionAnswer.handedOut {μ : Type} : SessionAnswer μ → List Change
  | .buffer a => a.handedOut
  | _ => []

namespace Session

variable {μ : Type} {d : Dialect} {s s' : Session μ}

def recorded (r : List (SessionAnswer μ) × Session μ) : List Change :=
  r.1.flatMap SessionAnswer.handedOut ++ r.2.buffer.changes

theorem moves_afterEdit {r : Except EditError (Session μ)}
    (h : ∀ s', r = .ok s' → ∃ e, s.buffer.apply e = .ok s'.buffer) :
    s.buffer.Moves (s.afterEdit r).1.handedOut (s.afterEdit r).2.buffer := by
  cases r with
  | error e => exact .stays
  | ok s' =>
    obtain ⟨e, he⟩ := h s' rfl
    exact .edits he

theorem buffer_of_replace {start stop : Nat} {text : Text}
    (h : s.replace start stop text = .ok s') :
    s.buffer.replace start stop text = .ok s'.buffer := by
  obtain ⟨b, hb, hs⟩ := bind_eq_ok h
  obtain rfl := Except.ok.inj hs
  exact hb

theorem apply_of_replace {start stop : Nat} {text : Text}
    (h : s.replace start stop text = .ok s') : ∃ e, s.buffer.apply e = .ok s'.buffer :=
  ⟨.replace start stop text, buffer_of_replace h⟩

theorem apply_of_applyTextEdit {e : TextEdit} (h : s.applyTextEdit e = .ok s') :
    ∃ e, s.buffer.apply e = .ok s'.buffer := by
  obtain ⟨start, -, h⟩ := bind_eq_ok h
  obtain ⟨stop, -, h⟩ := bind_eq_ok h
  exact apply_of_replace h

/-- A command moves the buffer as a buffer's own commands do. -/
theorem moves_perform (s : Session μ) (c : SessionCommand μ) :
    s.buffer.Moves (s.perform c).1.handedOut (s.perform c).2.buffer := by
  have hstays : ∀ r : SessionAnswer μ × Session μ, r.1.handedOut = [] →
      r.2.visible = s.visible → s.buffer.Moves r.1.handedOut r.2.buffer := by
    intro r hnone hvisible
    have hbuffer : r.2.visible.buffer = s.visible.buffer := by rw [hvisible]
    replace hbuffer : r.2.buffer = s.buffer := hbuffer
    rw [hnone, hbuffer]
    exact .stays
  cases c with
  | query q => exact hstays (.buffer (s.buffer.answer q), s) (s.buffer.handedOut_answer q) rfl
  | takeChanges => exact .takes
  | edit e =>
    refine moves_afterEdit fun s' hs => ?_
    rw [apply_eq_replace] at hs
    exact apply_of_replace hs
  | setText text => exact moves_afterEdit fun s' hs => apply_of_replace hs
  | applyTextEdit e => exact moves_afterEdit fun s' hs => apply_of_applyTextEdit hs
  | accept p label =>
    rw [perform, accept?]
    cases (s.completions p).find? (·.label == label) with
    | none => exact .stays
    | some item => exact moves_afterEdit fun s' hs => apply_of_applyTextEdit hs
  | editBuffer e =>
    rw [perform_editBuffer]
    cases he : s.buffer.apply e with
    | error err => exact .stays
    | ok b => exact .edits he
  | entryState line => exact hstays _ rfl (s.visible_entryState line)
  | lineHighlights line => exact hstays _ rfl (s.visible_lineHighlights line)
  | highlights => exact hstays _ rfl (s.visible_highlightsOf _)
  | _ => exact .stays

theorem leads_run {first : Text} {done : List Change} (cs : List (SessionCommand μ))
    (h : Change.Leads first (done ++ s.buffer.changes) s.text) :
    Change.Leads first (done ++ recorded (s.run cs)) (s.run cs).2.text := by
  induction cs generalizing s done with
  | nil => exact h
  | cons c rest ih =>
    have hrest := ih ((s.moves_perform c).leads h)
    rw [run_cons, recorded, List.flatMap_cons, List.append_assoc, ← List.append_assoc done]
    exact hrest

/-- Whether each edit of a session is made as a whole or not at all: it is made exactly where its
offsets allow it, and a refused one leaves the buffer as it was and changes no later answer. -/
structure Transactional (s : Session μ) : Prop where
  made_iff : ∀ e : Edit, (∃ s', s.apply e = .ok s') ↔ e.Admissible s.text
  makes : ∀ e s', s.apply e = .ok s' → e.Makes s.buffer s'.buffer
  refused : ∀ c error, (s.perform c).1 = .buffer (.refused error) →
    (s.perform c).2.buffer = s.buffer ∧ ∀ later, ((s.perform c).2.run later).1 = (s.run later).1

theorem Coherent.transactional (h : s.Coherent d) : s.Transactional := by
  refine ⟨fun e => ?_, fun e s' hs => ?_, fun c error hrefused => ?_⟩
  · refine Iff.trans ?_ (Buffer.apply_isOk_iff (b := s.buffer))
    rw [apply_eq_replace, replace_eq, ← Buffer.apply_eq_replace]
    cases s.buffer.apply e with
    | error err => simp [Except.map]
    | ok b => simp [Except.map]
  · rw [apply_eq_replace] at hs
    rw [← Buffer.apply_eq_ok_iff, Buffer.apply_eq_replace]
    exact buffer_of_replace hs
  · have hvisible := visible_of_refused hrefused
    have hbuffer : (s.perform c).2.visible.buffer = s.visible.buffer := by rw [hvisible]
    exact ⟨hbuffer, Twin.run ⟨h.perform c, h, hvisible⟩⟩

/-- In every run of a buffer, and in every run of a session, the changes are a faithful history:
those taken and those still held, made again one after the other, lead from the first text to the
last one, each finds its old text where it says, and taken back in reverse order they lead to the
first text again.  Each edit is made as a whole, with one change recorded, or not at all. -/
theorem history_of_run (text : Text) (d : Dialect) (providers : Providers) :
    (∀ cs : List BufferCommand,
      let r := (Buffer.ofText text).run cs
      Change.IsHistory text (Buffer.recorded r) r.2.text ∧ r.2.Transactional) ∧
    ∀ cs : List (SessionCommand μ),
      let r := (withProviders text d providers : Session μ).run cs
      Change.IsHistory text (recorded r) r.2.text ∧ r.2.Transactional := by
  refine ⟨fun cs => ⟨?_, Buffer.transactional _⟩, fun cs => ⟨?_, ?_⟩⟩
  · have hstart : Change.Leads text ([] ++ (Buffer.ofText text).changes) text := .nil text
    exact (Buffer.leads_run cs hstart).isHistory
  · have hstart : Change.Leads text
      ([] ++ (withProviders text d providers : Session μ).buffer.changes) text := .nil text
    exact (leads_run cs hstart).isHistory
  · exact ((coherent_withProviders text d providers).run cs).transactional

end Session
end SqlAssist
