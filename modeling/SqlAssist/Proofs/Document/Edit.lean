import SqlAssist.Document.Buffer
import SqlAssist.Proofs.Text.Lines

/-!
What an edit does to a text.

All edits of a buffer are replacements, and a replacement that is not refused splits the text in
three and changes the middle.  The text before it stays, and so do the lines that are complete in
it and the line that the edit starts on.
-/

namespace SqlAssist

def Text.EditedAt (old : Text) (offset : Nat) (new : Text) : Prop :=
  ∃ before was now after, old = before ++ (was ++ after) ∧ new = before ++ (now ++ after) ∧
    before.width = offset

namespace Text.EditedAt

variable {old new : Text} {offset : Nat}

/-- The lines above the one that the edit starts on stay. -/
theorem take_lines (h : EditedAt old offset new) {line : Nat} (hline : line ≤ lineOf new offset) :
    (lines new).take line = (lines old).take line := by
  obtain ⟨before, was, now, after, rfl, rfl, rfl⟩ := h
  rw [lineOf_width_append] at hline
  have hsame := take_lines_append before (now ++ after) (was ++ after)
  have hcut := congrArg (List.take line) hsame
  rwa [List.take_take, List.take_take, Nat.min_eq_left hline] at hcut

theorem offset_le (h : EditedAt old offset new) : offset ≤ new.width := by
  obtain ⟨before, was, now, after, -, rfl, rfl⟩ := h
  rw [width_append]
  exact Nat.le_add_right _ _

theorem lineOf_lt (h : EditedAt old offset new) : lineOf new offset < lineCount new := by
  obtain ⟨before, was, now, after, -, rfl, rfl⟩ := h
  rw [lineOf_width_append, lineCount_eq_count, List.count_append]
  omega

end Text.EditedAt

theorem bind_eq_ok {ε α β : Type} {x : Except ε α} {f : α → Except ε β} {r : β}
    (h : x >>= f = .ok r) : ∃ v, x = .ok v ∧ f v = .ok r := by
  cases x with
  | error e => cases h
  | ok v => exact ⟨v, rfl, h⟩

namespace Buffer

variable {b b' : Buffer}

theorem eq_of_cut {offset : Nat} {halves : Text × Text} (h : b.cut offset = .ok halves) :
    b.text = halves.1 ++ halves.2 ∧ halves.1.width = offset := by
  rw [cut] at h
  split at h
  · next hcut =>
    obtain rfl := Except.ok.inj h
    exact Text.cutAt?_eq_some_iff.1 hcut
  · simp at h

/-- A replacement is made exactly where the text splits at both ends of it, and what is between
them is recorded as the old text. -/
theorem replace_eq_ok_iff {start stop : Nat} {text : Text} :
    b.replace start stop text = .ok b' ↔
      ∃ before was after, b.text = before ++ was ++ after ∧ before.width = start ∧
        (before ++ was).width = stop ∧
        b' = { text := before ++ text ++ after, changes := b.changes ++ [⟨start, was, text⟩] } := by
  constructor
  · intro h
    rw [replace] at h
    by_cases hlt : stop < start
    · rw [if_pos hlt] at h
      cases h
    rw [if_neg hlt] at h
    obtain ⟨⟨before, rest⟩, hstart, h⟩ := bind_eq_ok h
    obtain ⟨⟨through, after⟩, hstop, h⟩ := bind_eq_ok h
    obtain rfl := Except.ok.inj h
    obtain ⟨hbefore, hstart⟩ := eq_of_cut hstart
    obtain ⟨hthrough, hstop⟩ := eq_of_cut hstop
    obtain ⟨was, rfl⟩ : before <+: through :=
      Text.prefix_of_width_le ⟨rest, hbefore.symm⟩ ⟨after, hthrough.symm⟩
        (by rw [hstart, hstop]; exact Nat.not_lt.1 hlt)
    refine ⟨before, was, after, hthrough, hstart, hstop, ?_⟩
    rw [List.drop_left]
  · rintro ⟨before, was, after, hsplit, rfl, rfl, rfl⟩
    have hle : ¬ (before ++ was).width < before.width := by
      rw [Text.width_append]
      omega
    have hstart : b.cut before.width = .ok (before, was ++ after) := by
      rw [cut, Text.cutAt?_eq_some_iff.2 ⟨by rw [hsplit, List.append_assoc], rfl⟩]
    have hstop : b.cut (before ++ was).width = .ok (before ++ was, after) := by
      rw [cut, Text.cutAt?_eq_some_iff.2 ⟨hsplit, rfl⟩]
    rw [replace, if_neg hle, hstart, hstop]
    show Except.ok _ = _
    rw [List.drop_left]

/-- A replacement that is not refused changes the text where it says. -/
theorem editedAt_of_replace {start stop : Nat} {text : Text}
    (h : b.replace start stop text = .ok b') : b.text.EditedAt start b'.text := by
  obtain ⟨before, was, after, hsplit, hstart, -, rfl⟩ := replace_eq_ok_iff.1 h
  exact ⟨before, was, text, after, by rw [hsplit, List.append_assoc],
    List.append_assoc before text after, hstart⟩

end Buffer

end SqlAssist
