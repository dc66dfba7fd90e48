import SqlAssist.Text.Basic

/-!
Lines.  Only a line feed ends a line; a carriage return directly before it belongs to the
terminator, and one anywhere else is content.  A text always has a last line without a
terminator, which is empty when the text is empty or ends in a line feed.
-/

namespace SqlAssist

/-- One line, split into what it says and what ends it. -/
structure Line where
  content : Text
  terminator : Text
  deriving Repr, DecidableEq

namespace Line

def full (l : Line) : Text := l.content ++ l.terminator

/-- A line whose text before the line feed is `body`. -/
def terminated (body : Text) : Line :=
  if body.getLast? = some '\r' then ⟨body.dropLast, ['\r', '\n']⟩ else ⟨body, ['\n']⟩

@[simp] theorem full_terminated (body : Text) : (terminated body).full = body ++ ['\n'] := by
  simp only [terminated, full]
  split
  · next h =>
    have hne : body ≠ [] := by rintro rfl; simp at h
    have hlast : body.getLast hne = '\r' := by
      rw [List.getLast?_eq_some_getLast hne] at h
      exact Option.some.inj h
    have hbody := List.dropLast_concat_getLast hne
    rw [hlast] at hbody
    calc body.dropLast ++ ['\r', '\n'] = (body.dropLast ++ ['\r']) ++ ['\n'] := by simp
      _ = body ++ ['\n'] := by rw [hbody]
  · rfl

end Line

namespace Text

/-- The first line, and the text after its line feed if it has one. -/
def firstLine (t : Text) : Line × Option Text :=
  match t.dropWhile (· ≠ '\n') with
  | [] => (⟨t, []⟩, none)
  | _ :: rest => (Line.terminated (t.takeWhile (· ≠ '\n')), some rest)

/-- A first line that has a terminator is followed by the rest of the text. -/
theorem full_append_of_firstLine {t rest : Text} {l : Line}
    (h : firstLine t = (l, some rest)) : l.full ++ rest = t := by
  unfold firstLine at h
  split at h
  · simp at h
  · next c tail hd =>
    obtain ⟨rfl, rfl⟩ : _ = l ∧ tail = rest := by simpa using h
    have hc : c = '\n' := by
      have hhead := List.head?_dropWhile_not (fun c => decide (c ≠ '\n')) t
      rw [hd] at hhead
      simpa using hhead
    subst hc
    have hsplit := List.takeWhile_append_dropWhile (p := fun c => decide (c ≠ '\n')) (l := t)
    rw [hd] at hsplit
    simpa using hsplit

theorem length_lt_of_firstLine {t rest : Text} {l : Line}
    (h : firstLine t = (l, some rest)) : rest.length < t.length := by
  have hfull := full_append_of_firstLine h
  have hne : l.full ≠ [] := by
    unfold firstLine at h
    split at h
    · simp at h
    · obtain ⟨rfl, -⟩ : _ = l ∧ _ = rest := by simpa using h
      simp
  have := List.length_pos_iff.2 hne
  rw [← hfull, List.length_append]
  omega

/-- All lines, the last one without a terminator. -/
def lines (t : Text) : List Line :=
  match h : firstLine t with
  | (l, none) => [l]
  | (l, some rest) =>
    have := length_lt_of_firstLine h
    l :: lines rest
termination_by t.length

def lineContent? (t : Text) (line : Nat) : Option Text := (lines t)[line]?.map Line.content

/-- Number of lines; never zero. -/
def lineCount (t : Text) : Nat := (lines t).length

/-- The text of all lines before the line with the given index. -/
def beforeLine (t : Text) (line : Nat) : Text := ((lines t).take line).flatMap Line.full

/-- Index of the line that byte `offset` lies on: the number of line feeds before it. -/
def lineOf (t : Text) (offset : Nat) : Nat := (t.take (charsBefore t offset)).count '\n'

end Text
end SqlAssist
