import SqlAssist.Text.Basic

/-!
Byte offsets and the pieces between them.

A text is a list of characters, so a cut between two characters is an equation `t = a ++ b`.
Every statement about offsets is brought to that form: an offset is a boundary when it is the
width of a front part, and the piece between two boundaries is the middle of three parts.
-/

namespace SqlAssist
namespace Text

/-- Whether a character starts at `offset` or the text ends there. -/
def IsBoundary (t : Text) (offset : Nat) : Prop := ∃ a b, t = a ++ b ∧ width a = offset

theorem isBoundary_width_append (a b : Text) : IsBoundary (a ++ b) (width a) := ⟨a, b, rfl, rfl⟩

theorem width_pos {t : Text} (h : t ≠ []) : 0 < width t :=
  Nat.lt_of_lt_of_le (List.length_pos_iff.2 h) (length_le_width t)

theorem width_take_add_drop (t : Text) (n : Nat) :
    width (t.take n) + width (t.drop n) = width t := by
  rw [← width_append, List.take_append_drop]

theorem take_drop_of_append {t a b : Text} {n : Nat} (ht : t = a ++ b) (hn : a.length = n) :
    t.take n = a ∧ t.drop n = b := by
  rw [ht, ← hn]
  exact ⟨List.take_left, List.drop_left⟩

theorem prefix_of_width_le {a b t : Text} (ha : a <+: t) (hb : b <+: t)
    (h : width a ≤ width b) : a <+: b := by
  rcases List.prefix_or_prefix_of_prefix ha hb with hab | ⟨more, rfl⟩
  · exact hab
  · by_cases hnil : more = []
    · exact ⟨[], by rw [hnil, List.append_nil, List.append_nil]⟩
    · have := width_pos hnil
      rw [width_append] at h
      omega

/-- The front part of a text is known by its width. -/
theorem eq_of_width_eq {a b t : Text} (ha : a <+: t) (hb : b <+: t) (h : width a = width b) :
    a = b :=
  (prefix_of_width_le ha hb (Nat.le_of_eq h)).eq_of_length_le
    (prefix_of_width_le hb ha (Nat.le_of_eq h.symm)).length_le

/-- A boundary that lies inside of a piece of a text cuts that piece in two. -/
theorem exists_split_of_between {before piece after front back : Text}
    (h : before ++ (piece ++ after) = front ++ back) (hstart : width before ≤ width front)
    (hstop : width front ≤ width before + width piece) :
    ∃ a b, piece = a ++ b ∧ front = before ++ a := by
  have hpiece : before ++ piece <+: front ++ back := ⟨after, by rw [← h, List.append_assoc]⟩
  obtain ⟨a, rfl⟩ := prefix_of_width_le ⟨_, h⟩ (List.prefix_append front back) hstart
  rw [← width_append] at hstop
  have hle := prefix_of_width_le (List.prefix_append (before ++ a) back) hpiece hstop
  obtain ⟨b, rfl⟩ := (List.prefix_append_right_inj before).1 hle
  exact ⟨a, b, rfl, rfl⟩

theorem slice_append (a b c : Text) :
    slice (a ++ b ++ c) (width a) (width a + width b) = b := by
  have hstop : charsBefore (a ++ b ++ c) (width a + width b) = a.length + b.length := by
    rw [← width_append, charsBefore_width_append, List.length_append]
  have hstart : charsBefore (a ++ b ++ c) (width a) = a.length := by
    rw [List.append_assoc, charsBefore_width_append]
  rw [slice, hstop, hstart, ← List.length_append, List.take_left, List.drop_left]

/-- A run of characters at the start of a text, and what is left behind it. -/
theorem exists_run (p : Char → Bool) (t : Text) :
    ∃ a b, t = a ++ b ∧ t.takeWhile p = a ∧ (∀ c ∈ a, p c = true) ∧ ∀ c ∈ b.head?, p c = false := by
  refine ⟨t.takeWhile p, t.dropWhile p, List.takeWhile_append_dropWhile.symm, rfl,
    List.all_eq_true.1 List.all_takeWhile, fun c hc => ?_⟩
  have hhead := List.head?_dropWhile_not p t
  rw [Option.mem_def.1 hc] at hhead
  exact hhead

/-- A run of characters ends in front of a character that it does not hold. -/
theorem takeWhile_append {p : Char → Bool} {e : Char} (h : p e = false) (a b : Text) :
    (a ++ e :: b).takeWhile p = a.takeWhile p := by
  rw [List.takeWhile_append]
  split
  · next hall =>
    rw [List.takeWhile_cons_of_neg (by simp [h]), List.append_nil,
      (List.takeWhile_prefix p).eq_of_length hall]
  · rfl

/-- A hit of the search splits the text around the needle. -/
theorem search?_eq_some {needle t : Text} {i : Nat} (h : search? needle t = some i) :
    ∃ a b, a.length = i ∧ t = a ++ needle ++ b := by
  induction t generalizing i with
  | nil =>
    rw [search?] at h
    split at h
    · next hn =>
      obtain rfl := Option.some.inj h
      exact ⟨[], [], rfl, by simpa using hn.symm⟩
    · simp at h
  | cons c rest ih =>
    rw [search?] at h
    split at h
    · next hp =>
      obtain rfl := Option.some.inj h
      obtain ⟨b, hb⟩ := List.isPrefixOf_iff_prefix.1 hp
      exact ⟨[], b, rfl, by rw [List.nil_append, hb]⟩
    · obtain ⟨j, hj, rfl⟩ := Option.map_eq_some_iff.1 h
      obtain ⟨a, b, ha, hrest⟩ := ih hj
      refine ⟨c :: a, b, by rw [List.length_cons, ha], ?_⟩
      rw [hrest, List.cons_append, List.cons_append]

theorem search?_nil (t : Text) : search? [] t = some 0 := by
  cases t with
  | nil => rfl
  | cons c rest => rfl

end Text
end SqlAssist
