import Mathlib.Data.List.Chain
import SqlAssist.Proofs.Text.Cut
import SqlAssist.Token.Basic

/-!
Placed lexemes.

A scanner only cuts, and `place` lays the pieces side by side.  Where a token lies then follows
from the lexemes before it, and two different tokens have no byte in common.
-/

namespace SqlAssist
namespace Token

/-- The tokens lie in the text side by side, from its first byte to its last. -/
structure Tiles (text : Text) (tokens : List Token) : Prop where
  first : ∀ t ∈ tokens.head?, t.start = 0
  adjacent : tokens.IsChain fun t u => u.start = t.stop
  nonempty : ∀ t ∈ tokens, t.start < t.stop
  slice : ∀ t ∈ tokens, t.text = Text.slice text t.start t.stop
  boundary : ∀ t ∈ tokens, text.IsBoundary t.start ∧ text.IsBoundary t.stop
  /-- The last token ends with the text.  Only the empty text has no token. -/
  last : (tokens.getLast?.map stop).getD 0 = text.width

theorem mem_place {offset : Nat} {ls : List Lexeme} {t : Token} (h : t ∈ place offset ls) :
    ∃ a l b, ls = a ++ l :: b ∧
      t = ⟨l.text, l.tokenClass, offset + Text.width (a.flatMap Lexeme.text)⟩ := by
  induction ls generalizing offset with
  | nil => simp [place] at h
  | cons l rest ih =>
    rw [place] at h
    rcases List.mem_cons.1 h with rfl | h
    · exact ⟨[], l, rest, rfl, rfl⟩
    · obtain ⟨a, l', b, rfl, rfl⟩ := ih h
      refine ⟨l :: a, l', b, rfl, ?_⟩
      rw [List.flatMap_cons, Text.width_append, Nat.add_assoc]

theorem le_start_of_mem_place {offset : Nat} {ls : List Lexeme} {t : Token}
    (h : t ∈ place offset ls) : offset ≤ t.start := by
  obtain ⟨a, l, b, -, rfl⟩ := mem_place h
  exact Nat.le_add_right _ _

theorem stop_le_of_mem_place {offset : Nat} {ls : List Lexeme} {t : Token}
    (h : t ∈ place offset ls) : t.stop ≤ offset + Text.width (ls.flatMap Lexeme.text) := by
  obtain ⟨a, l, b, rfl, rfl⟩ := mem_place h
  rw [stop, List.flatMap_append, List.flatMap_cons, Text.width_append, Text.width_append]
  simp only
  omega

/-- A token that reaches into a stretch of lexemes from either side is one of them. -/
theorem mem_place_of_overlap {offset : Nat} {a b c : List Lexeme} {t : Token}
    (ht : t ∈ place offset (a ++ b ++ c))
    (hstop : offset + Text.width (a.flatMap Lexeme.text) < t.stop)
    (hstart : t.start < offset + Text.width ((a ++ b).flatMap Lexeme.text)) :
    t ∈ place (offset + Text.width (a.flatMap Lexeme.text)) b := by
  rw [place_append, place_append, List.mem_append, List.mem_append] at ht
  rcases ht with (ht | ht) | ht
  · have := stop_le_of_mem_place ht
    omega
  · exact ht
  · have := le_start_of_mem_place ht
    omega

theorem contains_iff {t : Token} {offset : Nat} :
    t.contains offset = true ↔ t.start ≤ offset ∧ offset < t.stop := by
  rw [contains, Bool.and_eq_true, decide_eq_true_iff, decide_eq_true_iff]

/-- A token that is moved contains the places that it contained, moved as well. -/
theorem contains_move (t : Token) (k o : Nat) :
    ({ t with start := k + t.start } : Token).contains (k + o) = t.contains o := by
  rw [Bool.eq_iff_iff, contains_iff, contains_iff, stop, stop]
  simp only
  omega

/-- A byte lies in one token at most. -/
theorem eq_of_contains {offset o : Nat} {ls : List Lexeme} {t u : Token}
    (ht : t ∈ place offset ls) (hu : u ∈ place offset ls) (hto : t.contains o = true)
    (huo : u.contains o = true) : t = u := by
  induction ls generalizing offset with
  | nil => simp [place] at ht
  | cons l rest ih =>
    rw [contains_iff] at hto huo
    rw [place] at ht hu
    rcases List.mem_cons.1 ht with rfl | ht <;> rcases List.mem_cons.1 hu with rfl | hu
    · rfl
    · have := le_start_of_mem_place hu
      simp only [stop] at hto
      omega
    · have := le_start_of_mem_place ht
      simp only [stop] at huo
      omega
    · exact ih ht hu

/-- The lexemes of a text leave out no byte of it. -/
theorem exists_contains {offset o : Nat} {ls : List Lexeme} (hstart : offset ≤ o)
    (hstop : o < offset + Text.width (ls.flatMap Lexeme.text)) :
    ∃ t ∈ place offset ls, t.contains o = true := by
  induction ls generalizing offset with
  | nil =>
    rw [List.flatMap_nil, Text.width_nil] at hstop
    omega
  | cons l rest ih =>
    rw [List.flatMap_cons, Text.width_append] at hstop
    rw [place]
    by_cases ho : o < offset + l.text.width
    · exact ⟨_, List.mem_cons_self, contains_iff.2 ⟨hstart, ho⟩⟩
    · obtain ⟨t, ht, hto⟩ := ih (Nat.le_of_not_lt ho) (by omega)
      exact ⟨t, List.mem_cons_of_mem _ ht, hto⟩

/-- Lexemes are placed one behind the other. -/
theorem pairwise_place (offset : Nat) (ls : List Lexeme) :
    (place offset ls).Pairwise fun t u => t.stop ≤ u.start := by
  induction ls generalizing offset with
  | nil => exact List.Pairwise.nil
  | cons l rest ih =>
    rw [place]
    exact List.Pairwise.cons (fun u hu => le_start_of_mem_place hu) (ih _)

theorem start_lt_stop_of_mem_place {offset : Nat} {ls : List Lexeme} (h : ∀ l ∈ ls, l.text ≠ [])
    {t : Token} (ht : t ∈ place offset ls) : t.start < t.stop := by
  obtain ⟨a, l, b, rfl, rfl⟩ := mem_place ht
  exact Nat.lt_add_of_pos_right (Text.width_pos (h l (by simp)))

theorem place_add (offset k : Nat) (ls : List Lexeme) :
    place (offset + k) ls = (place k ls).map fun t => { t with start := offset + t.start } := by
  induction ls generalizing k with
  | nil => rfl
  | cons l rest ih => rw [place, place, List.map_cons, Nat.add_assoc, ih]

theorem start_head?_place {offset : Nat} {ls : List Lexeme} {t : Token}
    (h : t ∈ (place offset ls).head?) : t.start = offset := by
  cases ls with
  | nil => simp [place] at h
  | cons l rest =>
    obtain rfl : (⟨l.text, l.tokenClass, offset⟩ : Token) = t := by simpa [place] using h
    rfl

theorem adjacent_place (offset : Nat) (ls : List Lexeme) :
    (place offset ls).IsChain fun t u => u.start = t.stop := by
  induction ls generalizing offset with
  | nil => exact List.IsChain.nil
  | cons l rest ih =>
    rw [place]
    exact (ih _).cons fun u hu => start_head?_place hu

theorem stop_getLast?_place (offset : Nat) (ls : List Lexeme) :
    ((place offset ls).getLast?.map stop).getD offset =
      offset + Text.width (ls.flatMap Lexeme.text) := by
  induction ls generalizing offset with
  | nil => rfl
  | cons l rest ih =>
    have ih := ih (offset + l.text.width)
    rw [place, List.getLast?_cons, List.flatMap_cons, Text.width_append, ← Nat.add_assoc, ← ih]
    cases (place (offset + l.text.width) rest).getLast? <;> rfl

theorem tiles_place {ls : List Lexeme} (h : ∀ l ∈ ls, l.text ≠ []) :
    Tiles (ls.flatMap Lexeme.text) (place 0 ls) := by
  have hplace : ∀ t ∈ place 0 ls, ∃ a b, ls.flatMap Lexeme.text = a ++ t.text ++ b ∧
      t.start = Text.width a := by
    intro t ht
    obtain ⟨a, l, b, rfl, rfl⟩ := mem_place ht
    refine ⟨a.flatMap Lexeme.text, b.flatMap Lexeme.text, ?_, Nat.zero_add _⟩
    rw [List.flatMap_append, List.flatMap_cons, List.append_assoc]
  refine ⟨fun t ht => start_head?_place ht, adjacent_place 0 ls,
    fun t ht => start_lt_stop_of_mem_place h ht, ?_, ?_, ?_⟩
  · intro t ht
    obtain ⟨a, b, hsplit, hstart⟩ := hplace t ht
    rw [stop, hsplit, hstart, Text.slice_append]
  · intro t ht
    obtain ⟨a, b, hsplit, hstart⟩ := hplace t ht
    rw [stop, hsplit, hstart, ← Text.width_append]
    refine ⟨?_, Text.isBoundary_width_append _ _⟩
    rw [List.append_assoc]
    exact Text.isBoundary_width_append _ _
  · rw [stop_getLast?_place, Nat.zero_add]

end Token
end SqlAssist
