import SqlAssist.Document.Command
import SqlAssist.Proofs.Document.Edit

/-!
The changes of a buffer are its history.

A change names the offset, what was there and what is there now.  That is enough to make it again
and to take it back, as long as it is done in the text that the change was made in.  `Leads` says
that some changes do this one after the other, and a run of a buffer's commands is followed by
`Leads` from the first text to the last, whenever the changes are taken out in between.

Edits come in three forms, all of which replace the text between two offsets.  Which edits are
made at all depends on these offsets only, and `apply_eq_ok_iff` says what comes of it.
-/

namespace SqlAssist

namespace Text

/-- The text with other text in the place of the bytes from `start` to `stop`, which have to be
character boundaries. -/
def splice (t : Text) (start stop : Nat) (new : Text) : Text :=
  t.take (charsBefore t start) ++ new ++ t.drop (charsBefore t stop)

theorem splice_append (a b c new : Text) :
    splice (a ++ b ++ c) (width a) (width a + width b) new = a ++ new ++ c := by
  have hstop : charsBefore (a ++ b ++ c) (width a + width b) = (a ++ b).length := by
    rw [← width_append, charsBefore_width_append]
  have hstart : charsBefore (a ++ b ++ c) (width a) = a.length := by
    rw [List.append_assoc, charsBefore_width_append]
  rw [splice, hstop, hstart, List.drop_left, List.append_assoc a b c, List.take_left]

end Text

/-! ## Changes

`redo` makes a change in a text and `undo` takes it back. -/

namespace Change

def redo (c : Change) (t : Text) : Text := t.splice c.offset c.oldStop c.newText

def undo (c : Change) (t : Text) : Text := t.splice c.offset c.newStop c.oldText

def redoAll (cs : List Change) (t : Text) : Text := cs.foldl (fun t c => c.redo t) t

def undoAll (cs : List Change) (t : Text) : Text := cs.foldr undo t

/-- Whether a change can be made in a text: its old text stands where it says.  Its new text then
stands there in the text that comes of it. -/
structure Fits (c : Change) (t : Text) : Prop where
  start_boundary : t.IsBoundary c.offset
  stop_boundary : t.IsBoundary c.oldStop
  old : t.slice c.offset c.oldStop = c.oldText
  new_boundary : (c.redo t).IsBoundary c.newStop
  new : (c.redo t).slice c.offset c.newStop = c.newText

structure IsHistory (first : Text) (cs : List Change) (now : Text) : Prop where
  redo : redoAll cs first = now
  undo : undoAll cs now = first
  /-- Each change fits the text that the changes before it lead to. -/
  fits : ∀ before c after, cs = before ++ c :: after → c.Fits (redoAll before first)

/-- The changes lead from one text to another, each by putting its new text where its old text
stands. -/
inductive Leads : Text → List Change → Text → Prop
  | nil (t : Text) : Leads t [] t
  | cons {before after last : Text} {c : Change} {cs : List Change}
      (place : before.width = c.offset)
      (more : Leads (before ++ c.newText ++ after) cs last) :
      Leads (before ++ c.oldText ++ after) (c :: cs) last

theorem redo_append {c : Change} {before after : Text} (h : before.width = c.offset) :
    c.redo (before ++ c.oldText ++ after) = before ++ c.newText ++ after := by
  rw [redo, oldStop, ← h, Text.splice_append]

theorem undo_append {c : Change} {before after : Text} (h : before.width = c.offset) :
    c.undo (before ++ c.newText ++ after) = before ++ c.oldText ++ after := by
  rw [undo, newStop, ← h, Text.splice_append]

theorem fits_append {c : Change} {before after : Text} (h : before.width = c.offset) :
    c.Fits (before ++ c.oldText ++ after) := by
  have hboundary : ∀ piece : Text,
      (before ++ piece ++ after).IsBoundary (before.width + piece.width) := by
    intro piece
    rw [← Text.width_append]
    exact Text.isBoundary_width_append _ _
  refine ⟨?_, ?_, ?_, ?_, ?_⟩
  · rw [← h, List.append_assoc]
    exact Text.isBoundary_width_append _ _
  · rw [oldStop, ← h]
    exact hboundary c.oldText
  · rw [oldStop, ← h, Text.slice_append]
  · rw [redo_append h, newStop, ← h]
    exact hboundary c.newText
  · rw [redo_append h, newStop, ← h, Text.slice_append]

namespace Leads

variable {first mid last : Text} {cs ds : List Change}

theorem trans (h : Leads first cs mid) (h' : Leads mid ds last) :
    Leads first (cs ++ ds) last := by
  induction h with
  | nil t => exact h'
  | cons place more ih => exact .cons place (ih h')

theorem isHistory (h : Leads first cs last) : IsHistory first cs last := by
  induction h with
  | nil t => exact ⟨rfl, rfl, by simp⟩
  | @cons before after last c cs place more ih =>
    refine ⟨?_, ?_, ?_⟩
    · rw [redoAll, List.foldl_cons, redo_append place]
      exact ih.redo
    · rw [undoAll, List.foldr_cons]
      show c.undo (undoAll cs last) = _
      rw [ih.undo, undo_append place]
    · intro front d back hsplit
      cases front with
      | nil =>
        obtain ⟨rfl, -⟩ := List.cons.inj hsplit
        exact fits_append place
      | cons e front =>
        obtain ⟨rfl, hrest⟩ := List.cons.inj hsplit
        rw [redoAll, List.foldl_cons, redo_append place]
        exact ih.fits front d back hrest

end Leads

end Change

/-! ## Edits

An edit takes out what stands from `start` to `stop` and puts `newText` there. -/

namespace Edit

def start : Edit → Nat
  | insert offset _ => offset
  | delete start _ => start
  | replace start _ _ => start

def stop : Edit → Nat
  | insert offset _ => offset
  | delete _ stop => stop
  | replace _ stop _ => stop

def newText : Edit → Text
  | insert _ text => text
  | delete _ _ => []
  | replace _ _ text => text

structure Admissible (e : Edit) (t : Text) : Prop where
  ordered : e.start ≤ e.stop
  start_le : e.start ≤ t.width
  stop_le : e.stop ≤ t.width
  start_boundary : t.IsBoundary e.start
  stop_boundary : t.IsBoundary e.stop

/-- Whether an edit makes one buffer out of another: it changes the text between its offsets, and
records just that. -/
def Makes (e : Edit) (b b' : Buffer) : Prop :=
  ∃ before was after, b.text = before ++ was ++ after ∧ before.width = e.start ∧
    (before ++ was).width = e.stop ∧ b'.text = before ++ e.newText ++ after ∧
    b'.changes = b.changes ++ [⟨e.start, was, e.newText⟩]

end Edit

namespace Buffer

variable {b b' : Buffer} {e : Edit}

theorem apply_eq_replace (b : Buffer) (e : Edit) :
    b.apply e = b.replace e.start e.stop e.newText := by
  cases e <;> rfl

theorem apply_eq_ok_iff : b.apply e = .ok b' ↔ e.Makes b b' := by
  rw [apply_eq_replace, replace_eq_ok_iff]
  constructor
  · rintro ⟨before, was, after, hsplit, hstart, hstop, rfl⟩
    exact ⟨before, was, after, hsplit, hstart, hstop, rfl, rfl⟩
  · rintro ⟨before, was, after, hsplit, hstart, hstop, htext, hchanges⟩
    exact ⟨before, was, after, hsplit, hstart, hstop, by rw [← htext, ← hchanges]⟩

/-- An edit is made exactly when its offsets allow it. -/
theorem apply_isOk_iff : (∃ b', b.apply e = .ok b') ↔ e.Admissible b.text := by
  constructor
  · rintro ⟨b', h⟩
    obtain ⟨before, was, after, hsplit, hstart, hstop, -, -⟩ := apply_eq_ok_iff.1 h
    have hboundary : b.text.IsBoundary e.stop := ⟨before ++ was, after, hsplit, hstop⟩
    have hwidth := congrArg Text.width hsplit
    rw [Text.width_append, hstop] at hwidth
    rw [Text.width_append, hstart] at hstop
    refine ⟨by omega, by omega, by omega, ?_, hboundary⟩
    exact ⟨before, was ++ after, by rw [hsplit, List.append_assoc], hstart⟩
  · rintro ⟨hordered, -, -, ⟨before, rest, hbefore, hstart⟩, ⟨through, after, hthrough, hstop⟩⟩
    obtain ⟨was, rfl⟩ : before <+: through :=
      Text.prefix_of_width_le ⟨rest, hbefore.symm⟩ ⟨after, hthrough.symm⟩
        (by rw [hstart, hstop]; exact hordered)
    refine ⟨⟨before ++ e.newText ++ after, b.changes ++ [⟨e.start, was, e.newText⟩]⟩, ?_⟩
    exact apply_eq_ok_iff.2 ⟨before, was, after, hthrough, hstart, hstop, rfl, rfl⟩

/-! ## Runs -/

inductive Moves (b : Buffer) : List Change → Buffer → Prop
  | stays : Moves b [] b
  | edits {e : Edit} {b' : Buffer} (made : b.apply e = .ok b') : Moves b [] b'
  | takes : Moves b b.changes { b with changes := [] }

/-- The changes that lead to a buffer's text, those already taken among them, still do so behind
a step. -/
theorem Moves.leads {first : Text} {done taken : List Change} (h : b.Moves taken b')
    (hb : Change.Leads first (done ++ b.changes) b.text) :
    Change.Leads first (done ++ taken ++ b'.changes) b'.text := by
  cases h with
  | stays => rwa [List.append_nil]
  | @edits e b' made =>
    obtain ⟨before, was, after, hsplit, hstart, -, htext, hchanges⟩ := apply_eq_ok_iff.1 made
    have hlast : Change.Leads (before ++ was ++ after) [⟨e.start, was, e.newText⟩]
        (before ++ e.newText ++ after) := .cons (c := ⟨e.start, was, e.newText⟩) hstart (.nil _)
    rw [hsplit] at hb
    rw [htext, hchanges, List.append_nil, ← List.append_assoc]
    exact hb.trans hlast
  | takes => rwa [List.append_nil]

end Buffer

def BufferAnswer.handedOut : BufferAnswer → List Change
  | .taken cs => cs
  | _ => []

namespace Buffer

/-- All changes of a run: those taken in it and those that are left in the buffer. -/
def recorded (r : List BufferAnswer × Buffer) : List Change :=
  r.1.flatMap BufferAnswer.handedOut ++ r.2.changes

theorem handedOut_answer (b : Buffer) (q : BufferQuery) : (b.answer q).handedOut = [] := by
  cases q with
  | offset p =>
    rw [answer]
    split <;> rfl
  | _ => rfl

theorem moves_perform (b : Buffer) (c : BufferCommand) :
    b.Moves (b.perform c).1.handedOut (b.perform c).2 := by
  cases c with
  | query q =>
    show b.Moves (b.answer q).handedOut b
    rw [handedOut_answer]
    exact .stays
  | edit e =>
    rw [perform]
    split
    · next b' hb' => exact .edits hb'
    · exact .stays
  | takeChanges => exact .takes

theorem leads_run {first : Text} {done : List Change} {b : Buffer} (cs : List BufferCommand)
    (h : Change.Leads first (done ++ b.changes) b.text) :
    Change.Leads first (done ++ recorded (b.run cs)) (b.run cs).2.text := by
  induction cs generalizing b done with
  | nil => exact h
  | cons c rest ih =>
    have hrest := ih ((b.moves_perform c).leads h)
    rw [run, recorded, List.flatMap_cons, List.append_assoc, ← List.append_assoc done]
    exact hrest

/-- A refused command leaves the buffer as it was. -/
theorem perform_refused {b : Buffer} {c : BufferCommand} {error : EditError}
    (h : (b.perform c).1 = .refused error) : (b.perform c).2 = b := by
  cases c with
  | query q => rfl
  | edit e =>
    rw [perform] at h ⊢
    split
    · next hb' => simp [hb'] at h
    · rfl
  | takeChanges => simp [perform, takeChanges] at h

/-- Whether each edit of a buffer is made as a whole or not at all: it is made exactly where its
offsets allow it, and a refused one leaves the buffer as it was. -/
structure Transactional (b : Buffer) : Prop where
  made_iff : ∀ e : Edit, (∃ b', b.apply e = .ok b') ↔ e.Admissible b.text
  makes : ∀ e b', b.apply e = .ok b' → e.Makes b b'
  refused : ∀ c error, (b.perform c).1 = .refused error → (b.perform c).2 = b

theorem transactional (b : Buffer) : b.Transactional :=
  ⟨fun _ => apply_isOk_iff, fun _ _ => apply_eq_ok_iff.1, fun _ _ => perform_refused⟩

end Buffer

end SqlAssist
