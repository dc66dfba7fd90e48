/-!
Text and the two ways of counting it.  A document is a list of Unicode scalar values; offsets
into it count the bytes of its UTF-8 form, while the columns of a position count characters.
Everything that converts between the two goes through `width` and `charsBefore`.
-/

namespace SqlAssist

/-- A document or a piece of one: its Unicode scalar values in order. -/
abbrev Text := List Char

namespace Text

/-- Number of bytes of the UTF-8 form. -/
def width : Text → Nat
  | [] => 0
  | c :: rest => c.utf8Size + width rest

@[simp] theorem width_nil : width [] = 0 := rfl

@[simp] theorem width_cons (c : Char) (t : Text) : width (c :: t) = c.utf8Size + width t := rfl

@[simp] theorem width_append (a b : Text) : width (a ++ b) = width a + width b := by
  induction a with
  | nil => simp
  | cons c rest ih => simp [ih, Nat.add_assoc]

/-- Every character takes a byte at least, so a text is never longer than it is wide. -/
theorem length_le_width (t : Text) : t.length ≤ width t := by
  induction t with
  | nil => simp
  | cons c rest ih =>
    have := c.utf8Size_pos
    simp only [List.length_cons, width_cons]
    omega

/-- Number of characters that start before byte `offset`.  The count stops at the end of the
text, and a character that `offset` falls inside is counted. -/
def charsBefore : Text → Nat → Nat
  | [], _ => 0
  | _ :: _, 0 => 0
  | c :: rest, offset + 1 => charsBefore rest (offset + 1 - c.utf8Size) + 1

/-- Splits at byte `offset`, which has to be the start of a character or the end of the text. -/
def cutAt? (t : Text) (offset : Nat) : Option (Text × Text) :=
  let n := charsBefore t offset
  if width (t.take n) = offset then some (t.take n, t.drop n) else none

def slice (t : Text) (start stop : Nat) : Text :=
  (t.take (charsBefore t stop)).drop (charsBefore t start)

theorem charsBefore_width_append (a b : Text) : charsBefore (a ++ b) (width a) = a.length := by
  induction a with
  | nil => cases b <;> simp [charsBefore]
  | cons c rest ih =>
    have hpos := c.utf8Size_pos
    obtain ⟨k, hk⟩ : ∃ k, width (c :: rest) = k + 1 := ⟨c.utf8Size + width rest - 1, by simp; omega⟩
    rw [List.cons_append, hk, charsBefore, ← hk, width_cons, Nat.add_sub_cancel_left, ih]
    rfl

/-- A text splits at `offset` exactly into two parts of which the first is `offset` bytes wide. -/
theorem cutAt?_eq_some_iff {t a b : Text} {offset : Nat} :
    cutAt? t offset = some (a, b) ↔ t = a ++ b ∧ width a = offset := by
  constructor
  · intro h
    simp only [cutAt?] at h
    split at h
    · next hw =>
      obtain ⟨rfl, rfl⟩ : _ = a ∧ _ = b := by simpa using h
      exact ⟨(List.take_append_drop _ t).symm, hw⟩
    · simp at h
  · rintro ⟨rfl, rfl⟩
    simp [cutAt?, charsBefore_width_append]

/-- Index, in characters, of the first place where `needle` occurs. -/
def search? (needle : Text) : Text → Option Nat
  | [] => if needle.isEmpty then some 0 else none
  | c :: rest =>
    if needle.isPrefixOf (c :: rest) then some 0 else (search? needle rest).map (· + 1)

/-- Lowers the ASCII letters and keeps every other character. -/
def fold (t : Text) : Text := t.map Char.toLower

@[simp] theorem fold_nil : fold [] = [] := rfl

@[simp] theorem length_fold (t : Text) : (fold t).length = t.length := by simp [fold]

end Text
end SqlAssist
