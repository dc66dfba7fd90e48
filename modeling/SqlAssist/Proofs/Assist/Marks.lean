import SqlAssist.Proofs.Assist.OpenCall

/-!
Marks of calls in plain text.

In a text in which neither a comment nor a literal opens, every parenthesis and every comma is a
token of its own, and no other token holds one.  The scanner's tokens and the single characters
then have the same marks at the same places (`marks_scanFrom`), and how often parentheses open and
close and which commas are their own depends on the marks only.  So all of this can be read off the
characters, whatever words and numbers the scanner makes of the rest.
-/

namespace SqlAssist

/-! ## The marks among tokens -/

namespace Token

instance : DecidablePred IsCallMark := fun _ => inferInstanceAs (Decidable (_ ∧ (_ ∨ _) ∨ _ ∧ _))

def marks (ts : List Token) : List Token := ts.filter fun t => t.IsCallMark

theorem marks_append (a b : List Token) : marks (a ++ b) = marks a ++ marks b :=
  List.filter_append ..

theorem marks_eq_nil {ts : List Token} (h : ∀ t ∈ ts, ¬ t.IsCallMark) : marks ts = [] :=
  List.filter_eq_nil_iff.2 fun t ht => by simpa using h t ht

theorem countP_marks {p : Token → Bool} (h : ∀ t, p t = true → t.IsCallMark) (ts : List Token) :
    (marks ts).countP p = ts.countP p := by
  rw [marks, List.countP_filter]
  refine List.countP_congr fun t _ => ?_
  rw [Bool.and_eq_true, decide_eq_true_eq]
  exact ⟨fun hp => hp.1, fun hp => ⟨hp, h t hp⟩⟩

theorem opened_marks (ts : List Token) : opened (marks ts) = opened ts :=
  countP_marks (fun _ ht => Or.inl ⟨(of_decide_eq_true ht).1, Or.inl (of_decide_eq_true ht).2⟩) ts

theorem closed_marks (ts : List Token) : closed (marks ts) = closed ts :=
  countP_marks (fun _ ht => Or.inl ⟨(of_decide_eq_true ht).1, Or.inr (of_decide_eq_true ht).2⟩) ts

theorem unclosed_marks_iff {ts : List Token} : Unclosed (marks ts) ↔ Unclosed ts := by
  constructor
  · intro h part hpart
    rw [← closed_marks part, ← opened_marks part]
    exact h _ (hpart.filter _)
  · intro h part hpart
    obtain ⟨front, hfront, rfl⟩ := List.prefix_filter_iff.1 hpart
    show closed (marks front) ≤ opened (marks front)
    rw [closed_marks, opened_marks]
    exact h front hfront

theorem settled_marks_iff {ts : List Token} : Settled (marks ts) ↔ Settled ts := by
  constructor
  · rintro ⟨hunclosed, hequal⟩
    rw [closed_marks, opened_marks] at hequal
    exact ⟨unclosed_marks_iff.1 hunclosed, hequal⟩
  · rintro ⟨hunclosed, hequal⟩
    rw [← closed_marks, ← opened_marks] at hequal
    exact ⟨unclosed_marks_iff.2 hunclosed, hequal⟩

theorem countP_zipIdx_append_singleton {α : Type} (P : α → List α → Bool) (a : List α) (x : α) :
    (a ++ [x]).zipIdx.countP (fun (y, i) => P y ((a ++ [x]).take i)) =
      a.zipIdx.countP (fun (y, i) => P y (a.take i)) + if P x a then 1 else 0 := by
  have hlast : [x].zipIdx = [(x, 0)] := rfl
  rw [countP_zipIdx_append P a [x], hlast, List.countP_singleton]
  simp only [List.take_zero, List.append_nil]

theorem ownCommas_append_singleton (ts : List Token) (t : Token) : ownCommas (ts ++ [t]) =
    ownCommas ts + if t.IsComma ∧ opened ts = closed ts then 1 else 0 := by
  have hsplit := countP_zipIdx_append_singleton
    (fun (t : Token) before => decide (t.IsComma ∧ opened before = closed before)) ts t
  simp only [decide_eq_true_eq] at hsplit
  exact hsplit

theorem ownCommas_marks (ts : List Token) : ownCommas (marks ts) = ownCommas ts := by
  induction ts using List.reverseRecOn with
  | nil => rfl
  | append_singleton ts t ih =>
    rw [marks_append, ownCommas_append_singleton]
    by_cases ht : t.IsCallMark
    · have hmark : marks [t] = [t] := by simp [marks, ht]
      rw [hmark, ownCommas_append_singleton, ih, opened_marks, closed_marks]
    · have hcomma : ¬ t.IsComma := fun h => ht (Or.inr h)
      have hnone : marks [t] = [] := marks_eq_nil (List.forall_mem_singleton.2 ht)
      rw [hnone, List.append_nil, ih, if_neg fun h => hcomma h.1, Nat.add_zero]

end Token

/-! ## Characters as tokens -/

def Lexeme.ofChar (c : Char) : Lexeme :=
  ⟨[c], if c = '(' ∨ c = ')' then .bracket else if c = ',' then .delimiter else .default⟩

namespace Token

/-- The characters of a text as tokens, the first at byte `offset`. -/
def ofChars (offset : Nat) (t : Text) : List Token := place offset (t.map Lexeme.ofChar)

theorem ofChars_append (offset : Nat) (a b : Text) :
    ofChars offset (a ++ b) = ofChars offset a ++ ofChars (offset + a.width) b := by
  have hjoin : (a.map Lexeme.ofChar).flatMap Lexeme.text = a := by
    rw [List.flatMap_map]
    exact List.flatMap_singleton' a
  rw [ofChars, List.map_append, place_append, hjoin]
  rfl

theorem length_ofChars (offset : Nat) (t : Text) : (ofChars offset t).length = t.length := by
  rw [ofChars, length_place, List.length_map]

theorem isOpening_ofChar_iff {c : Char} {offset : Nat} :
    IsOpening ⟨[c], (Lexeme.ofChar c).tokenClass, offset⟩ ↔ c = '(' := by
  constructor
  · rintro ⟨-, htext⟩
    exact (List.cons.inj htext).1
  · rintro rfl
    exact ⟨rfl, rfl⟩

theorem isClosing_ofChar_iff {c : Char} {offset : Nat} :
    IsClosing ⟨[c], (Lexeme.ofChar c).tokenClass, offset⟩ ↔ c = ')' := by
  constructor
  · rintro ⟨-, htext⟩
    exact (List.cons.inj htext).1
  · rintro rfl
    exact ⟨rfl, rfl⟩

theorem isComma_ofChar_iff {c : Char} {offset : Nat} :
    IsComma ⟨[c], (Lexeme.ofChar c).tokenClass, offset⟩ ↔ c = ',' := by
  constructor
  · rintro ⟨-, htext⟩
    exact (List.cons.inj htext).1
  · rintro rfl
    exact ⟨rfl, rfl⟩

theorem countP_ofChars {p : Token → Bool} {q : Char → Bool}
    (h : ∀ c offset, p ⟨[c], (Lexeme.ofChar c).tokenClass, offset⟩ = q c) (offset : Nat)
    (t : Text) : (ofChars offset t).countP p = t.countP q := by
  induction t generalizing offset with
  | nil => rfl
  | cons c rest ih =>
    show (⟨[c], _, offset⟩ :: ofChars (offset + Text.width [c]) rest).countP p = _
    rw [List.countP_cons, List.countP_cons, ih, h]

theorem opened_ofChars (offset : Nat) (t : Text) : opened (ofChars offset t) = t.count '(' := by
  refine countP_ofChars (fun c offset => ?_) offset t
  rw [Bool.eq_iff_iff, decide_eq_true_eq, isOpening_ofChar_iff, beq_iff_eq]

theorem closed_ofChars (offset : Nat) (t : Text) : closed (ofChars offset t) = t.count ')' := by
  refine countP_ofChars (fun c offset => ?_) offset t
  rw [Bool.eq_iff_iff, decide_eq_true_eq, isClosing_ofChar_iff, beq_iff_eq]

theorem settled_ofChar {c : Char} (hopen : c ≠ '(') (hclose : c ≠ ')') (offset : Nat) :
    Settled (ofChars offset [c]) :=
  .single (isOpening_ofChar_iff.not.2 hopen) (isClosing_ofChar_iff.not.2 hclose)

theorem not_isCallMark_of_mem_ofChars {t : Text} (h : ∀ c ∈ t, isCallMark c = false)
    {offset : Nat} : ∀ u ∈ ofChars offset t, ¬ u.IsCallMark := by
  intro u hu
  refine not_isCallMark_of_mem_place (fun l hl hmark => ?_) hu
  obtain ⟨c, hc, rfl⟩ := List.mem_map.1 hl
  obtain ⟨d, hd, hdmark⟩ := hmark.exists_mem
  obtain rfl := List.mem_singleton.1 hd
  rw [h d hc] at hdmark
  simp at hdmark

end Token

/-- The commas of a text in front of which as many round brackets are opened as closed. -/
def Text.bareCommas (t : Text) : Nat :=
  t.zipIdx.countP fun (c, i) => c = ',' ∧ (t.take i).count '(' = (t.take i).count ')'

theorem Text.bareCommas_append_singleton (t : Text) (c : Char) : bareCommas (t ++ [c]) =
    bareCommas t + if c = ',' ∧ t.count '(' = t.count ')' then 1 else 0 := by
  have hsplit := Token.countP_zipIdx_append_singleton
    (fun (c : Char) before => decide (c = ',' ∧ before.count '(' = before.count ')')) t c
  simp only [decide_eq_true_eq] at hsplit
  exact hsplit

theorem Token.ownCommas_ofChars (offset : Nat) (t : Text) :
    ownCommas (ofChars offset t) = Text.bareCommas t := by
  induction t using List.reverseRecOn with
  | nil => rfl
  | append_singleton t c ih =>
    have hlast : ofChars (offset + Text.width t) [c] =
        [⟨[c], (Lexeme.ofChar c).tokenClass, offset + Text.width t⟩] := rfl
    rw [ofChars_append, hlast, ownCommas_append_singleton, ih, opened_ofChars, closed_ofChars,
      Text.bareCommas_append_singleton]
    simp only [isComma_ofChar_iff]

/-! ## The marks that the scanner finds -/

namespace Lexicon

open Token

variable {x : Lexicon}

/-- Whether neither a comment nor a literal opens anywhere in a text. -/
def Plain (x : Lexicon) (t : Text) : Prop :=
  ∀ c rest, c :: rest <:+ t → x.comments.opensAt (c :: rest) = false ∧ Quote.ofChar? c = none

theorem Plain.drop {t : Text} (h : x.Plain t) (n : Nat) : x.Plain (t.drop n) :=
  fun c rest hsuffix => h c rest (hsuffix.trans (List.drop_suffix n t))

theorem RootRule.next_of_plain {c : Char} {rest : Text} {k : Cut} (h : RootRule x c rest k)
    (plain : x.Plain (c :: rest)) : k.next = .root := by
  obtain ⟨hopens, hquote⟩ := plain c rest (List.suffix_refl _)
  rw [CommentMarkers.opensAt, Bool.or_eq_false_iff] at hopens
  cases h with
  | openComment _ opens =>
    rw [List.isPrefixOf_iff_prefix.2 opens] at hopens
    simp at hopens
  | literal _ opens =>
    rw [hquote] at opens
    simp at opens
  | _ => rfl

/-- The part of a text in front of its first mark. -/
theorem exists_first_mark (t : Text) : (∀ c ∈ t, isCallMark c = false) ∨
    ∃ a m b, t = a ++ m :: b ∧ isCallMark m = true ∧ ∀ c ∈ a, isCallMark c = false := by
  induction t with
  | nil => exact Or.inl (by simp)
  | cons c rest ih =>
    by_cases hc : isCallMark c = true
    · exact Or.inr ⟨[], c, rest, rfl, hc, by simp⟩
    rw [Bool.not_eq_true] at hc
    rcases ih with hnone | ⟨a, m, b, rfl, hm, ha⟩
    · exact Or.inl (List.forall_mem_cons.2 ⟨hc, hnone⟩)
    · exact Or.inr ⟨c :: a, m, b, rfl, hm, List.forall_mem_cons.2 ⟨hc, ha⟩⟩

/-- A cut that does not begin at a mark does not take one. -/
theorem SparesCallMarks.unmarked_cut (hx : x.SparesCallMarks) {c : Char} {rest : Text}
    (plain : x.Plain (c :: rest)) (hc : isCallMark c = false) :
    ∀ d ∈ (c :: rest).take (x.rootCut c rest).length, isCallMark d = false := by
  rcases exists_first_mark rest with hnone | ⟨a, m, b, rfl, hm, ha⟩
  · intro d hd
    rcases List.mem_cons.1 (List.mem_of_mem_take hd) with rfl | hd
    · exact hc
    · exact hnone d hd
  · obtain ⟨hopens, hquote⟩ := plain c (a ++ m :: b) (List.suffix_refl _)
    rw [← List.cons_append, hx.opensAt_append hm] at hopens
    have hcut := hx.rootCut_append hm hopens hquote b
    have hle := (x.rootCut_rule c a).length_le
    intro d hd
    rw [hcut, ← List.cons_append, List.take_append_of_le_length hle] at hd
    rcases List.mem_cons.1 (List.mem_of_mem_take hd) with rfl | hd
    · exact hc
    · exact ha d hd

/-- In plain text the scanner finds the marks that are there. -/
theorem marks_scanFrom (hx : x.SparesCallMarks) (hprogress : x.Progresses .root) {t : Text}
    (plain : x.Plain t) (offset : Nat) :
    marks (place offset (x.scanFrom .root t).lexemes) = marks (ofChars offset t) := by
  match t with
  | [] => rw [scanFrom_nil]; rfl
  | c :: rest =>
    have hpos : 0 < (x.rootCut c rest).length := cut_length_pos hprogress c rest
    have hnext : (x.rootCut c rest).next = .root := (x.rootCut_rule c rest).next_of_plain plain
    have ih := marks_scanFrom hx hprogress (plain.drop (x.rootCut c rest).length)
      (offset + Text.width ((c :: rest).take (x.rootCut c rest).length))
    have hscan : x.scanFrom .root (c :: rest) =
        ⟨⟨(c :: rest).take (x.rootCut c rest).length, (x.rootCut c rest).tokenClass⟩ ::
            (x.scanFrom (x.rootCut c rest).next
              ((c :: rest).drop (x.rootCut c rest).length)).lexemes, _⟩ := scanFrom_cons hpos
    have hchars := ofChars_append offset ((c :: rest).take (x.rootCut c rest).length)
      ((c :: rest).drop (x.rootCut c rest).length)
    rw [List.take_append_drop] at hchars
    rw [hscan, hchars, hnext, place, ← List.singleton_append, marks_append, marks_append, ih]
    congr 1
    by_cases hc : isCallMark c = true
    · rw [rootCut_of_isCallMark hc (plain c rest (List.suffix_refl _)).1]
      rcases isCallMark_cases hc with rfl | rfl | rfl <;> rfl
    · have hspared := hx.unmarked_cut plain (Bool.eq_false_iff.2 hc)
      rw [marks_eq_nil (not_isCallMark_of_mem_ofChars hspared), marks_eq_nil]
      intro u hu hmark
      obtain rfl := List.mem_singleton.1 hu
      obtain ⟨d, hd, hdmark⟩ := Lexeme.IsCallMark.exists_mem hmark
      rw [hspared d hd] at hdmark
      simp at hdmark
termination_by t.length
decreasing_by
  simp only [List.length_drop, List.length_cons]
  omega

end Lexicon
end SqlAssist
