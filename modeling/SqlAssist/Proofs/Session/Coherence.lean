import SqlAssist.Proofs.Document.Edit
import SqlAssist.Proofs.Highlight.Lines
import SqlAssist.Session.Command

/-!
A session's answers depend on its text only.

A session remembers the states that its first lines begin in, and edits and questions come in any
order.  What holds between any two of them is `Coherent`: each remembered state is the one that a
scan from the top of the current text gives, and no more are remembered than there are lines.
An edit keeps the states up to the line it starts on, and those depend on the text in front of
the edit only; a question adds states that it has just scanned for.  From a coherent session
every answer about highlights is the one for the whole text.
-/

namespace SqlAssist
namespace Session

variable {μ : Type} {d : Dialect} {s : Session μ}

structure Coherent (d : Dialect) (s : Session μ) : Prop where
  dialect : s.dialect = d
  known : s.entryStates ≠ []
  bounded : s.entryStates.length ≤ Text.lineCount s.text
  valid : ∀ line state, s.entryStates[line]? = some state →
    state = d.lexicon.entryState s.text line

theorem coherent_withProviders (text : Text) (d : Dialect) (providers : Providers) :
    (withProviders text d providers : Session μ).Coherent d := by
  refine ⟨rfl, by simp [withProviders], Text.lineCount_pos text, fun line state h => ?_⟩
  cases line with
  | zero => exact (Option.some.inj h).symm
  | succ n => simp [withProviders] at h

/-! ## Edits -/

/-- States may be kept for a new text as long as the lines up to them begin in the same states
there. -/
theorem Coherent.keep (h : s.Coherent d) {n : Nat} {b : Buffer} (hpos : 0 < n)
    (hlines : n ≤ Text.lineCount b.text)
    (hsame : ∀ line < n, d.lexicon.entryState b.text line = d.lexicon.entryState s.text line) :
    ({ s with buffer := b, entryStates := s.entryStates.take n } : Session μ).Coherent d := by
  refine ⟨h.dialect, ?_, ?_, fun line state hstate => ?_⟩
  · rw [Ne, List.take_eq_nil_iff]
    rintro (hzero | hnil)
    · omega
    · exact h.known hnil
  · show (s.entryStates.take n).length ≤ Text.lineCount b.text
    rw [List.length_take]
    omega
  · replace hstate : (s.entryStates.take n)[line]? = some state := hstate
    rw [List.getElem?_take] at hstate
    split at hstate
    · next hline =>
      show state = d.lexicon.entryState b.text line
      rw [hsame line hline]
      exact h.valid line state hstate
    · simp at hstate

/-- States that are kept over an edit are those of lines that the edit leaves alone. -/
theorem Coherent.edited (h : s.Coherent d) {offset : Nat} {b : Buffer}
    (hb : s.text.EditedAt offset b.text) : (s.edited offset b).Coherent d := by
  have hline : (b.lineOf? offset).getD 0 = Text.lineOf b.text offset := by
    rw [Buffer.lineOf?, Buffer.length, if_pos hb.offset_le]
    rfl
  show ({ s with
    buffer := b
    entryStates := s.entryStates.take ((b.lineOf? offset).getD 0 + 1) } : Session μ).Coherent d
  rw [hline]
  refine h.keep (Nat.succ_pos _) hb.lineOf_lt fun line hlt => ?_
  rw [Lexicon.entryState, Lexicon.entryState, hb.take_lines (Nat.le_of_lt_succ hlt)]

theorem Coherent.replace (h : s.Coherent d) {start stop : Nat} {text : Text} {s' : Session μ}
    (hs : s.replace start stop text = .ok s') : s'.Coherent d := by
  obtain ⟨b, hb, hs⟩ := bind_eq_ok hs
  obtain rfl := Except.ok.inj hs
  exact h.edited (Buffer.editedAt_of_replace hb)

theorem Coherent.apply (h : s.Coherent d) {e : Edit} {s' : Session μ}
    (hs : s.apply e = .ok s') : s'.Coherent d := by
  cases e with
  | insert offset text => exact h.replace hs
  | delete start stop => exact h.replace hs
  | replace start stop text => exact h.replace hs

theorem Coherent.applyTextEdit (h : s.Coherent d) {e : TextEdit} {s' : Session μ}
    (hs : s.applyTextEdit e = .ok s') : s'.Coherent d := by
  obtain ⟨start, -, hs⟩ := bind_eq_ok hs
  obtain ⟨stop, -, hs⟩ := bind_eq_ok hs
  exact h.replace hs

theorem Coherent.afterEdit (h : s.Coherent d) {r : Except EditError (Session μ)}
    (hr : ∀ s', r = .ok s' → s'.Coherent d) : (s.afterEdit r).2.Coherent d := by
  cases r with
  | error e => exact h
  | ok s' => exact hr s' rfl

/-- The first line begins in the same state in every text. -/
theorem Coherent.editBuffer (h : s.Coherent d) (e : Edit) : (s.editBuffer e).2.Coherent d := by
  have hfirst : ∀ b : Buffer,
      ({ s with buffer := b, entryStates := s.entryStates.take 1 } : Session μ).Coherent d := by
    intro b
    refine h.keep Nat.one_pos (Text.lineCount_pos b.text) fun line hlt => ?_
    obtain rfl : line = 0 := by omega
    rfl
  rw [Session.editBuffer]
  split
  · exact hfirst _
  · exact hfirst s.buffer

/-! ## Questions -/

theorem length_statesAfter (x : Lexicon) (n : Nat) (state : LineState) (ls : List Line) :
    (statesAfter x n state ls).length = min n ls.length := by
  induction n generalizing state ls with
  | zero => simp [statesAfter]
  | succ n ih =>
    cases ls with
    | nil => simp [statesAfter]
    | cons l rest =>
      simp only [statesAfter, List.length_cons, ih]
      omega

theorem eq_of_getElem?_statesAfter {x : Lexicon} {n : Nat} {state v : LineState}
    {ls : List Line} {i : Nat} (h : (statesAfter x n state ls)[i]? = some v) :
    v = x.stateAfter state (ls.take (i + 1)) := by
  induction n generalizing state ls i with
  | zero => simp [statesAfter] at h
  | succ n ih =>
    cases ls with
    | nil => simp [statesAfter] at h
    | cons l rest =>
      rw [statesAfter] at h
      cases i with
      | zero => exact (Option.some.inj h).symm
      | succ i =>
        have hrest := ih (List.getElem?_cons_succ ▸ h)
        exact hrest

/-- The last state that is known is where learning goes on. -/
theorem Coherent.getLastD (h : s.Coherent d) :
    s.entryStates.getLastD .root =
      d.lexicon.entryState s.text (s.entryStates.length - 1) := by
  have hpos := List.length_pos_iff.2 h.known
  have hlast := List.getElem?_eq_getElem (Nat.sub_lt hpos Nat.one_pos)
  rw [List.getLastD_eq_getLast?, List.getLast?_eq_getElem?, hlast]
  exact h.valid _ _ hlast

theorem Coherent.learn (h : s.Coherent d) {line : Nat} (hline : line < Text.lineCount s.text) :
    (s.learn line).Coherent d ∧ line < (s.learn line).entryStates.length := by
  have hpos := List.length_pos_iff.2 h.known
  have hbounded := h.bounded
  have hlength : (s.learn line).entryStates.length =
      s.entryStates.length + min (line + 1 - s.entryStates.length)
        (Text.lineCount s.text - (s.entryStates.length - 1)) := by
    rw [Session.learn, List.length_append, length_statesAfter, List.length_drop]
    rfl
  refine ⟨⟨h.dialect, ?_, ?_, fun i state hstate => ?_⟩, by omega⟩
  · exact List.length_pos_iff.1 (by omega)
  · show (s.learn line).entryStates.length ≤ Text.lineCount s.text
    omega
  · rw [Session.learn, h.dialect, h.getLastD] at hstate
    show state = d.lexicon.entryState s.text i
    by_cases hi : i < s.entryStates.length
    · rw [List.getElem?_append_left hi] at hstate
      exact h.valid i state hstate
    · rw [List.getElem?_append_right (Nat.not_lt.1 hi)] at hstate
      rw [eq_of_getElem?_statesAfter hstate, Lexicon.entryState, ← Lexicon.stateAfter_append,
        ← List.take_add, Lexicon.entryState,
        show s.entryStates.length - 1 + (i - s.entryStates.length + 1) = i by omega]

theorem entryState_of_lt {line : Nat} (h : line < Text.lineCount s.text) :
    s.entryState line = ((s.learn line).entryStates[line]?, s.learn line) := if_pos h

theorem entryState_of_not_lt {line : Nat} (h : ¬ line < Text.lineCount s.text) :
    s.entryState line = (none, s) := if_neg h

theorem Coherent.entryState (h : s.Coherent d) {line : Nat}
    (hline : line < Text.lineCount s.text) :
    s.entryState line = (some (d.lexicon.entryState s.text line), s.learn line) := by
  obtain ⟨hlearn, hlt⟩ := h.learn hline
  have hstate := List.getElem?_eq_getElem hlt
  rw [entryState_of_lt hline, hstate, hlearn.valid line _ hstate]
  rfl

theorem Coherent.push (h : s.Coherent d) (hroom : s.entryStates.length < Text.lineCount s.text) :
    ({ s with entryStates := s.entryStates ++
      [d.lexicon.entryState s.text s.entryStates.length] } : Session μ).Coherent d := by
  refine ⟨h.dialect, by simp, ?_, fun line state hstate => ?_⟩
  · show (s.entryStates ++ [_]).length ≤ Text.lineCount s.text
    rw [List.length_append, List.length_singleton]
    exact hroom
  · show state = d.lexicon.entryState s.text line
    by_cases hlt : line < s.entryStates.length
    · rw [List.getElem?_append_left hlt] at hstate
      exact h.valid line state hstate
    · rw [List.getElem?_append_right (Nat.not_lt.1 hlt), List.getElem?_singleton] at hstate
      split at hstate
      · next heq =>
        obtain rfl : line = s.entryStates.length := by omega
        exact (Option.some.inj hstate).symm
      · simp at hstate

theorem Coherent.lineHighlights (h : s.Coherent d) {line : Nat}
    (hline : line < Text.lineCount s.text) :
    ∃ s', s.lineHighlights line = (some (d.lexicon.highlightsOn s.text line), s') ∧
      s'.Coherent d ∧ s'.buffer = s.buffer := by
  obtain rfl := h.dialect
  obtain ⟨hlearn, -⟩ := h.learn hline
  have hl := List.getElem?_eq_getElem hline
  generalize (Text.lines s.text)[line] = l at hl
  have hcontent : (s.learn line).buffer.line? line = some l.content := by
    show (Text.lines s.text)[line]?.map Line.content = some l.content
    rw [hl]
    rfl
  have hstart : (s.learn line).buffer.lineStart? line =
      some (Text.width (Text.beforeLine s.text line)) := if_pos hline
  have hnext : (s.dialect.lexicon.lineHighlights
      (s.dialect.lexicon.entryState s.text line) l.content).2 =
        s.dialect.lexicon.entryState s.text (line + 1) := (Lexicon.entryState_succ hl).symm
  rw [Session.lineHighlights, h.entryState hline]
  simp only [hcontent, hstart, hlearn.dialect, hnext, ← Lexicon.highlightsOn_of_getElem? hl]
  refine ⟨_, rfl, ?_, ?_⟩
  · split
    · next hnew =>
      have hpush := hlearn.push (by rw [hnew.1]; exact hnew.2)
      rw [hnew.1] at hpush
      exact hpush
    · exact hlearn
  · split <;> rfl

theorem lineHighlights_of_not_lt {line : Nat} (h : ¬ line < Text.lineCount s.text) :
    s.lineHighlights line = (none, s) := by
  rw [Session.lineHighlights, entryState_of_not_lt h]

theorem Coherent.highlightsOf (h : s.Coherent d) {ls : List Nat}
    (hls : ∀ line ∈ ls, line < Text.lineCount s.text) :
    (s.highlightsOf ls).1 = ls.flatMap (d.lexicon.highlightsOn s.text) ∧
      (s.highlightsOf ls).2.Coherent d ∧ (s.highlightsOf ls).2.buffer = s.buffer := by
  induction ls generalizing s with
  | nil => exact ⟨rfl, h, rfl⟩
  | cons line rest ih =>
    obtain ⟨s', hhere, hs', hbuffer⟩ := h.lineHighlights (hls line List.mem_cons_self)
    have htext : s'.text = s.text := by rw [text, hbuffer]; rfl
    obtain ⟨hrest, hcoherent, hbuffer'⟩ := ih hs' (fun i hi => by
      rw [htext]
      exact hls i (List.mem_cons_of_mem line hi))
    rw [Session.highlightsOf, hhere]
    refine ⟨?_, hcoherent, hbuffer'.trans hbuffer⟩
    rw [List.flatMap_cons, ← htext, ← hrest]
    rfl

theorem Coherent.highlights (h : s.Coherent d) :
    s.highlights.1 = d.lexicon.highlights s.text ∧ s.highlights.2.Coherent d ∧
      s.highlights.2.buffer = s.buffer := by
  rw [Lexicon.highlights_eq_flatMap]
  exact h.highlightsOf fun line hline => List.mem_range.1 hline

/-! ## Runs -/

/-- A command keeps a session coherent, whether it edits, asks or does neither. -/
theorem Coherent.perform (h : s.Coherent d) (c : SessionCommand μ) :
    (s.perform c).2.Coherent d := by
  cases c with
  | edit e => exact h.afterEdit fun s' hs => h.apply hs
  | setText text => exact h.afterEdit fun s' hs => h.replace hs
  | applyTextEdit e => exact h.afterEdit fun s' hs => h.applyTextEdit hs
  | accept p label =>
    rw [Session.perform, accept?]
    cases (s.completions p).find? (·.label == label) with
    | none => exact h
    | some item => exact h.afterEdit fun s' hs => h.applyTextEdit hs
  | editBuffer e =>
    have hs := h.editBuffer e
    rw [Session.perform]
    split
    · next hresult => rwa [hresult] at hs
    · next hresult => rwa [hresult] at hs
  | entryState line =>
    show (s.entryState line).2.Coherent d
    by_cases hline : line < Text.lineCount s.text
    · rw [h.entryState hline]
      exact (h.learn hline).1
    · rw [entryState_of_not_lt hline]
      exact h
  | lineHighlights line =>
    show (s.lineHighlights line).2.Coherent d
    by_cases hline : line < Text.lineCount s.text
    · obtain ⟨s', hs, hcoherent, -⟩ := h.lineHighlights hline
      rw [hs]
      exact hcoherent
    · rw [lineHighlights_of_not_lt hline]
      exact h
  | highlights => exact h.highlights.2.1
  | _ => exact ⟨h.dialect, h.known, h.bounded, h.valid⟩

theorem Coherent.run (h : s.Coherent d) (cs : List (SessionCommand μ)) :
    (s.run cs).2.Coherent d := by
  induction cs generalizing s with
  | nil => exact h
  | cons c rest ih => exact ih (h.perform c)

/-- The answer to a command in a run is given by the session that the commands before it left. -/
theorem getElem?_run (s : Session μ) (before : List (SessionCommand μ)) (c : SessionCommand μ)
    (after : List (SessionCommand μ)) :
    (s.run (before ++ c :: after)).1[before.length]? = some ((s.run before).2.perform c).1 := by
  induction before generalizing s with
  | nil => rfl
  | cons b rest ih =>
    rw [List.cons_append, Session.run, List.length_cons, List.getElem?_cons_succ, ih]
    rfl

/-- Whether questions about the states and highlights of a text are answered from the text alone:
by the states that a scan of it from the top goes through, and by its highlights. -/
structure AnswersFor (d : Dialect) (text : Text)
    (answer : SessionCommand μ → Option (SessionAnswer μ)) : Prop where
  entryState : ∀ line, answer (.entryState line) = some (.entryState
    (if line < Text.lineCount text then some (d.lexicon.entryState text line) else none))
  lineHighlights : ∀ line, answer (.lineHighlights line) = some (.lineHighlights
    (if line < Text.lineCount text then
      some ((d.lexicon.highlights text).filter fun h => Text.lineOf text h.start = line)
    else none))
  highlights : answer .highlights = some (.highlights (d.lexicon.highlights text))

theorem Coherent.answersFor (h : s.Coherent d) :
    AnswersFor d s.text fun c => some (s.perform c).1 := by
  refine ⟨fun line => ?_, fun line => ?_, ?_⟩
  · show some (SessionAnswer.entryState (s.entryState line).1) = _
    by_cases hline : line < Text.lineCount s.text
    · rw [h.entryState hline, if_pos hline]
    · rw [entryState_of_not_lt hline, if_neg hline]
  · show some (SessionAnswer.lineHighlights (s.lineHighlights line).1) = _
    by_cases hline : line < Text.lineCount s.text
    · obtain ⟨s', hs, -, -⟩ := h.lineHighlights hline
      rw [hs, if_pos hline, d.lexicon.filter_highlights hline]
    · rw [lineHighlights_of_not_lt hline, if_neg hline]
  · show some (SessionAnswer.highlights s.highlights.1) = _
    rw [h.highlights.1]

/-- At every point of every run a session answers for the text it has there, and so does one that
has just been made on that text. -/
theorem answersFor_run (text : Text) (d : Dialect) (providers : Providers)
    (before after : List (SessionCommand μ)) :
    let s : Session μ := withProviders text d providers
    let now := (s.run before).2.text
    AnswersFor d now (fun c => (s.run (before ++ c :: after)).1[before.length]?) ∧
      AnswersFor d now fun c => some ((withProviders now d providers : Session μ).perform c).1 := by
  intro s now
  constructor
  · simp only [getElem?_run]
    exact ((coherent_withProviders text d providers).run before).answersFor
  · exact (coherent_withProviders now d providers).answersFor

end Session

end SqlAssist
