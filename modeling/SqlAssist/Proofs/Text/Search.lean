import Mathlib.Order.Bounds.Defs
import SqlAssist.Proofs.Text.Cut

/-!
Where one text occurs in another.

`search?` finds the first occurrence.  Its answer does not change when text is added behind a hit,
and a hit that ends within a front part is a hit of that front part.  Over a character that the
needle does not hold, a search that came to nothing starts afresh.  A needle without line feeds
and carriage returns is therefore found line by line.
-/

namespace SqlAssist
namespace Text

def OccursAt (needle t : Text) (offset : Nat) : Prop :=
  ∃ a b, t = a ++ needle ++ b ∧ width a = offset

/-- A text that is not empty and has no part in the terminator of a line. -/
structure InLine (t : Text) : Prop where
  nonempty : t ≠ []
  noFeed : '\n' ∉ t
  noReturn : '\r' ∉ t

variable {needle : Text}

theorem search?_eq_none_iff {t : Text} : search? needle t = none ↔ ¬ needle <:+: t := by
  induction t with
  | nil => simp [search?]
  | cons c rest ih =>
    rw [search?, List.infix_cons_iff, not_or, ← ih]
    by_cases hp : needle <+: c :: rest
    · simp [hp]
    · simp [hp]

/-- No occurrence lies before the hit of a search. -/
theorem search?_le {t a b : Text} {i : Nat} (h : search? needle t = some i)
    (ht : t = a ++ needle ++ b) : i ≤ a.length := by
  induction t generalizing a i with
  | nil =>
    rw [search?] at h
    split at h
    · obtain rfl := Option.some.inj h
      exact Nat.zero_le _
    · simp at h
  | cons c rest ih =>
    rw [search?] at h
    split at h
    · obtain rfl := Option.some.inj h
      exact Nat.zero_le _
    · next hp =>
      obtain ⟨j, hj, rfl⟩ := Option.map_eq_some_iff.1 h
      cases a with
      | nil => exact absurd (List.isPrefixOf_iff_prefix.2 ⟨b, ht.symm⟩) hp
      | cons d a => exact Nat.succ_le_succ (ih hj (List.cons.inj ht).2)

theorem search?_append {t : Text} {i : Nat} (h : search? needle t = some i) (u : Text) :
    search? needle (t ++ u) = some i := by
  obtain ⟨a, b, rfl, ht⟩ := search?_eq_some h
  have hinfix : needle <:+: t ++ u := ⟨a, b ++ u, by rw [ht, List.append_assoc (a ++ needle)]⟩
  cases hj : search? needle (t ++ u) with
  | none => exact absurd hinfix (search?_eq_none_iff.1 hj)
  | some j =>
    obtain ⟨a', b', rfl, ht'⟩ := search?_eq_some hj
    have hle : a'.length ≤ a.length := search?_le hj (b := b ++ u) (by rw [ht, List.append_assoc])
    -- the earlier occurrence ends no later than the other one, so it lies in `t` as well
    have hlen := congrArg List.length ht
    simp only [List.length_append] at hlen
    have hfront : a' ++ needle <+: t :=
      List.prefix_of_prefix_length_le ⟨b', ht'.symm⟩ (List.prefix_append t u)
        (by rw [List.length_append]; omega)
    obtain ⟨b'', hb''⟩ := hfront
    have hge : a.length ≤ a'.length := search?_le h hb''.symm
    rw [Nat.le_antisymm hle hge]

theorem search?_of_append {t u : Text} {i : Nat} (h : search? needle (t ++ u) = some i)
    (hi : i + needle.length ≤ t.length) : search? needle t = some i := by
  cases hj : search? needle t with
  | some j => rw [← h, search?_append hj]
  | none =>
    obtain ⟨a, b, rfl, ht⟩ := search?_eq_some h
    obtain ⟨c, hc⟩ : a ++ needle <+: t :=
      List.prefix_of_prefix_length_le ⟨b, ht.symm⟩ (List.prefix_append t u)
        (by rw [List.length_append]; exact hi)
    exact absurd ⟨a, c, hc⟩ (search?_eq_none_iff.1 hj)

/-! ## Characters that a needle does not hold -/

theorem prefix_of_prefix_append {a rest : Text} {c : Char} (hc : c ∉ needle)
    (h : needle <+: a ++ c :: rest) : needle <+: a := by
  rcases List.prefix_or_prefix_of_prefix h (List.prefix_append a (c :: rest)) with h' | ⟨more, rfl⟩
  · exact h'
  · rw [List.prefix_append_right_inj] at h
    cases more with
    | nil => exact (List.append_nil a).symm ▸ List.prefix_rfl
    | cons d more =>
      obtain rfl : d = c := (List.cons_prefix_cons.1 h).1
      exact absurd (List.mem_append_right a List.mem_cons_self) hc

theorem prefix_append_cons_iff {a rest : Text} {c : Char} (hc : c ∉ needle) :
    needle <+: a ++ c :: rest ↔ needle <+: a :=
  ⟨prefix_of_prefix_append hc, fun h => h.trans (List.prefix_append a _)⟩

theorem search?_append_cons {a rest : Text} {c : Char} (hc : c ∉ needle)
    (hnone : search? needle a = none) :
    search? needle (a ++ c :: rest) = (search? needle rest).map (· + (a.length + 1)) := by
  induction a with
  | nil =>
    have hne : ¬ needle <+: c :: rest := by
      intro hp
      have hnil := prefix_of_prefix_append (a := []) hc hp
      exact search?_eq_none_iff.1 hnone hnil.isInfix
    rw [List.nil_append, search?, if_neg (by rwa [List.isPrefixOf_iff_prefix])]
    rfl
  | cons d a ih =>
    have hne : ¬ needle <+: d :: (a ++ c :: rest) := fun hp =>
      search?_eq_none_iff.1 hnone (prefix_of_prefix_append (a := d :: a) hc hp).isInfix
    have hrest : search? needle a = none := by
      rw [search?_eq_none_iff, List.infix_cons_iff, not_or] at hnone
      exact search?_eq_none_iff.2 hnone.2
    rw [List.cons_append, search?, if_neg (by rwa [List.isPrefixOf_iff_prefix]), ih hrest,
      Option.map_map]
    rfl

namespace InLine

/-- A needle that is not found on a line is looked for on the lines below. -/
theorem search?_below (h : InLine needle) {a terminator : Text}
    (hterminator : terminator = ['\n'] ∨ terminator = ['\r', '\n'])
    (hnone : search? needle a = none) (rest : Text) :
    search? needle (a ++ (terminator ++ rest)) =
      (search? needle rest).map (· + (a ++ terminator).length) := by
  rcases hterminator with rfl | rfl
  · rw [List.length_append]
    exact search?_append_cons h.noFeed hnone
  · have hempty : search? needle [] = none := by
      rw [search?_eq_none_iff, List.infix_nil]
      exact h.nonempty
    have hfeed : search? needle ('\n' :: rest) = (search? needle rest).map (· + 1) :=
      search?_append_cons h.noFeed hempty
    show search? needle (a ++ '\r' :: '\n' :: rest) = _
    rw [search?_append_cons h.noReturn hnone, hfeed, Option.map_map]
    congr 1
    funext i
    simp only [Function.comp_apply, List.length_append, List.length_cons, List.length_nil]
    omega

/-- A needle that stands at the start of a text stands on its first line. -/
theorem prefix_of_prefix (h : InLine needle) {a terminator rest : Text}
    (hterminator : terminator = ['\n'] ∨ terminator = ['\r', '\n'])
    (hp : needle <+: a ++ (terminator ++ rest)) : needle <+: a := by
  rcases hterminator with rfl | rfl
  · exact prefix_of_prefix_append h.noFeed hp
  · exact prefix_of_prefix_append h.noReturn hp

end InLine

/-! ## The first occurrence behind an offset -/

theorem occursAt_width_iff {a b : Text} : OccursAt needle (a ++ b) (width a) ↔ needle <+: b := by
  constructor
  · rintro ⟨a', b', ht, hw⟩
    rw [List.append_assoc] at ht
    obtain rfl : a' = a := eq_of_width_eq ⟨needle ++ b', ht.symm⟩ ⟨b, rfl⟩ hw
    exact ⟨b', (List.append_cancel_left ht).symm⟩
  · rintro ⟨b', rfl⟩
    exact ⟨a, b', by rw [List.append_assoc], rfl⟩

theorem exists_split_of_occursAt {front back : Text} {e : Nat} (hle : width front ≤ e)
    (h : OccursAt needle (front ++ back) e) :
    ∃ a b, back = a ++ needle ++ b ∧ e = width front + width a := by
  obtain ⟨a', b, ht, rfl⟩ := h
  obtain ⟨a, rfl⟩ : front <+: a' :=
    prefix_of_width_le ⟨back, rfl⟩ ⟨needle ++ b, by rw [ht, List.append_assoc]⟩ hle
  refine ⟨a, b, ?_, width_append front a⟩
  rw [List.append_assoc, List.append_assoc] at ht
  rw [List.append_cancel_left ht, List.append_assoc]

/-- The least offset at which a needle occurs behind `front` is where the search from there
finds it. -/
theorem exists_search?_of_isLeast {front back : Text} {e : Nat}
    (h : IsLeast {e | width front ≤ e ∧ OccursAt needle (front ++ back) e} e) :
    ∃ a b, back = a ++ needle ++ b ∧ search? needle back = some a.length ∧
      e = width front + width a := by
  obtain ⟨⟨hle, hoccurs⟩, hleast⟩ := h
  obtain ⟨a, b, hback, rfl⟩ := exists_split_of_occursAt hle hoccurs
  cases hi : search? needle back with
  | none => exact absurd ⟨a, b, hback.symm⟩ (search?_eq_none_iff.1 hi)
  | some i =>
    obtain ⟨a', b', rfl, hback'⟩ := search?_eq_some hi
    have hoccurs' : OccursAt needle (front ++ back) (width (front ++ a')) :=
      ⟨front ++ a', b', by rw [hback']; simp only [List.append_assoc], rfl⟩
    have hge : width front + width a ≤ width (front ++ a') :=
      hleast ⟨by rw [width_append]; exact Nat.le_add_right _ _, hoccurs'⟩
    rw [width_append, Nat.add_le_add_iff_left] at hge
    have ha : a <+: back := ⟨needle ++ b, by rw [hback, List.append_assoc]⟩
    have ha' : a' <+: back := ⟨needle ++ b', by rw [hback', List.append_assoc]⟩
    have haa' : a <+: a' := prefix_of_width_le ha ha' hge
    obtain rfl : a = a' := haa'.eq_of_length_le (search?_le hi hback)
    exact ⟨a, b, hback, rfl, rfl⟩

theorem isLeast_of_search? (front : Text) {back a b : Text} (hback : back = a ++ needle ++ b)
    (h : search? needle back = some a.length) :
    IsLeast {e | width front ≤ e ∧ OccursAt needle (front ++ back) e} (width front + width a) := by
  refine ⟨⟨Nat.le_add_right _ _, front ++ a, b, ?_, width_append front a⟩, ?_⟩
  · rw [hback]
    simp only [List.append_assoc]
  · rintro e ⟨hle, hoccurs⟩
    obtain ⟨a', b', hback', rfl⟩ := exists_split_of_occursAt hle hoccurs
    have ha : a <+: back := ⟨needle ++ b, by rw [hback, List.append_assoc]⟩
    have ha' : a' <+: back := ⟨needle ++ b', by rw [hback', List.append_assoc]⟩
    obtain ⟨more, rfl⟩ : a <+: a' :=
      List.prefix_of_prefix_length_le ha ha' (search?_le h hback')
    rw [width_append]
    omega

theorem search?_eq_none_iff_not_occursAt (front : Text) {back : Text} :
    search? needle back = none ↔
      ¬ ∃ e, width front ≤ e ∧ OccursAt needle (front ++ back) e := by
  rw [search?_eq_none_iff]
  refine not_congr ⟨?_, ?_⟩
  · rintro ⟨a, b, hback⟩
    refine ⟨width (front ++ a), by rw [width_append]; exact Nat.le_add_right _ _, front ++ a, b, ?_,
      rfl⟩
    rw [← hback]
    simp only [List.append_assoc]
  · rintro ⟨e, hle, hoccurs⟩
    obtain ⟨a, b, hback, -⟩ := exists_split_of_occursAt hle hoccurs
    exact ⟨a, b, hback.symm⟩

end Text
end SqlAssist
