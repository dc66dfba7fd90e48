import SqlAssist.Text.Line
import SqlAssist.Proofs.Text.Search

/-!
How a text falls into lines.

`lines` looks for the next line feed over and over.  Its two equations below are about a text
with no line feed and about one that is cut at its first line feed, and `linesInduction` is the
induction that goes with them.  Lines that are complete do not depend on what comes after them,
which is what `take_lines_append` says.
-/

namespace SqlAssist

namespace Line

theorem not_mem_content_terminated {body : Text} (h : '\n' ∉ body) :
    '\n' ∉ (terminated body).content := by
  rw [terminated]
  split
  · exact fun hm => h (List.dropLast_subset body hm)
  · exact h

theorem terminator_terminated (body : Text) :
    (terminated body).terminator = ['\n'] ∨ (terminated body).terminator = ['\r', '\n'] := by
  rw [terminated]
  split
  · exact Or.inr rfl
  · exact Or.inl rfl

end Line

namespace Text

theorem firstLine_of_not_mem {t : Text} (h : '\n' ∉ t) : firstLine t = (⟨t, []⟩, none) := by
  have hall : ∀ c ∈ t, decide (c ≠ '\n') = true := by
    intro c hc
    rw [decide_eq_true_iff]
    exact ne_of_mem_of_not_mem hc h
  have hd : t.dropWhile (· ≠ '\n') = [] := by
    rw [← List.append_nil t, List.dropWhile_append_of_pos hall]
    rfl
  rw [firstLine, hd]

theorem firstLine_append {body : Text} (h : '\n' ∉ body) (rest : Text) :
    firstLine (body ++ '\n' :: rest) = (Line.terminated body, some rest) := by
  have hall : ∀ c ∈ body, decide (c ≠ '\n') = true := by
    intro c hc
    rw [decide_eq_true_iff]
    exact ne_of_mem_of_not_mem hc h
  have hd : (body ++ '\n' :: rest).dropWhile (· ≠ '\n') = '\n' :: rest := by
    rw [List.dropWhile_append_of_pos hall]
    rfl
  have ht : (body ++ '\n' :: rest).takeWhile (· ≠ '\n') = body := by
    rw [List.takeWhile_append_of_pos hall]
    simp
  rw [firstLine, hd]
  simp only [ht]

theorem lines_of_not_mem {t : Text} (h : '\n' ∉ t) : lines t = [⟨t, []⟩] := by
  rw [lines]
  split
  · next l hl =>
    rw [firstLine_of_not_mem h] at hl
    rw [(Prod.mk.inj hl).1]
  · next l rest hl =>
    rw [firstLine_of_not_mem h] at hl
    simp at hl

theorem lines_append {body : Text} (h : '\n' ∉ body) (rest : Text) :
    lines (body ++ '\n' :: rest) = Line.terminated body :: lines rest := by
  rw [lines]
  split
  · next l hl =>
    rw [firstLine_append h] at hl
    simp at hl
  · next l rest' hl =>
    rw [firstLine_append h] at hl
    obtain ⟨rfl, rfl⟩ : _ = l ∧ rest = rest' := by simpa using hl
    rfl

theorem eq_append_of_mem {t : Text} (h : '\n' ∈ t) :
    ∃ body rest, '\n' ∉ body ∧ t = body ++ '\n' :: rest := by
  obtain ⟨body, rest, rfl, hbody⟩ := List.eq_append_cons_of_mem h
  exact ⟨body, rest, hbody, rfl⟩

/-- Induction on the lines of a text, from the last one back. -/
@[elab_as_elim]
theorem linesInduction {P : Text → Prop} (last : ∀ t, '\n' ∉ t → P t)
    (next : ∀ body rest, '\n' ∉ body → P rest → P (body ++ '\n' :: rest)) (t : Text) : P t := by
  by_cases h : '\n' ∈ t
  · obtain ⟨body, rest, hbody, ht⟩ := eq_append_of_mem h
    have hlt : rest.length < t.length := by
      rw [ht, List.length_append, List.length_cons]
      omega
    rw [ht]
    exact next body rest hbody (linesInduction last next rest)
  · exact last t h
termination_by t.length

theorem lineCount_pos (t : Text) : 0 < lineCount t := by
  rw [lineCount]
  induction t using linesInduction with
  | last t h => rw [lines_of_not_mem h]; exact Nat.one_pos
  | next body rest h _ => rw [lines_append h]; exact Nat.succ_pos _

theorem lineCount_eq_count (t : Text) : lineCount t = t.count '\n' + 1 := by
  rw [lineCount]
  induction t using linesInduction with
  | last t h => rw [lines_of_not_mem h, List.count_eq_zero.2 h]; rfl
  | next body rest h ih =>
    rw [lines_append h, List.length_cons, ih, List.count_append, List.count_eq_zero.2 h,
      List.count_cons_self, Nat.zero_add]

theorem flatMap_full_lines (t : Text) : (lines t).flatMap Line.full = t := by
  induction t using linesInduction with
  | last t h => rw [lines_of_not_mem h]; simp [Line.full]
  | next body rest h ih =>
    rw [lines_append h, List.flatMap_cons, ih, Line.full_terminated, List.append_assoc]
    rfl

theorem not_mem_content {t : Text} {l : Line} (h : l ∈ lines t) : '\n' ∉ l.content := by
  induction t using linesInduction with
  | last t ht =>
    rw [lines_of_not_mem ht] at h
    obtain rfl := List.mem_singleton.1 h
    exact ht
  | next body rest hb ih =>
    rw [lines_append hb] at h
    rcases List.mem_cons.1 h with rfl | h
    · exact Line.not_mem_content_terminated hb
    · exact ih h

theorem terminator_cases {t : Text} {l : Line} (h : l ∈ lines t) :
    l.terminator = [] ∨ l.terminator = ['\n'] ∨ l.terminator = ['\r', '\n'] := by
  induction t using linesInduction with
  | last t ht =>
    rw [lines_of_not_mem ht] at h
    obtain rfl := List.mem_singleton.1 h
    exact Or.inl rfl
  | next body rest hb ih =>
    rw [lines_append hb] at h
    rcases List.mem_cons.1 h with rfl | h
    · exact Or.inr (Line.terminator_terminated body)
    · exact ih h

/-- Complete lines do not depend on the text behind them.  The cut may fall between the two
characters of a terminator, since only the line feed completes a line. -/
theorem take_lines_append (a u v : Text) :
    (lines (a ++ u)).take (a.count '\n') = (lines (a ++ v)).take (a.count '\n') := by
  induction a using linesInduction with
  | last a h => rw [List.count_eq_zero.2 h, List.take_zero, List.take_zero]
  | next body rest h ih =>
    have hcount : (body ++ '\n' :: rest).count '\n' = rest.count '\n' + 1 := by
      rw [List.count_append, List.count_eq_zero.2 h, List.count_cons_self, Nat.zero_add]
    rw [hcount, List.append_assoc, List.append_assoc, List.cons_append, List.cons_append,
      lines_append h, lines_append h, List.take_succ_cons, List.take_succ_cons, ih]

/-! ## One line of a text -/

theorem beforeLine_succ {body : Text} (h : '\n' ∉ body) (rest : Text) (n : Nat) :
    beforeLine (body ++ '\n' :: rest) (n + 1) = body ++ '\n' :: beforeLine rest n := by
  rw [beforeLine, lines_append h, List.take_succ_cons, List.flatMap_cons, Line.full_terminated,
    List.append_assoc]
  rfl

theorem lt_lineCount_of_getElem? {t : Text} {i : Nat} {l : Line} (h : (lines t)[i]? = some l) :
    i < lineCount t := (List.getElem?_eq_some_iff.1 h).1

theorem eq_beforeLine_append {t : Text} {i : Nat} {l : Line} (h : (lines t)[i]? = some l) :
    ∃ after, t = beforeLine t i ++ (l.content ++ (l.terminator ++ after)) := by
  obtain ⟨hi, rfl⟩ := List.getElem?_eq_some_iff.1 h
  refine ⟨((lines t).drop (i + 1)).flatMap Line.full, ?_⟩
  have hsplit := congrArg (List.flatMap Line.full) (List.take_append_drop i (lines t))
  rw [List.flatMap_append, flatMap_full_lines, List.drop_eq_getElem_cons hi,
    List.flatMap_cons, Line.full, List.append_assoc] at hsplit
  exact hsplit.symm

/-- A text that is cut off on a line has the same lines above it. -/
theorem lines_beforeLine_append {t : Text} {i : Nat} {l : Line} (h : (lines t)[i]? = some l)
    {a b : Text} (hl : l.content = a ++ b) :
    lines (beforeLine t i ++ a) = (lines t).take i ++ [⟨a, []⟩] := by
  have hcontent : '\n' ∉ a := fun hm =>
    not_mem_content (List.mem_of_getElem? h) (hl ▸ List.mem_append_left b hm)
  induction t using linesInduction generalizing i with
  | last t ht =>
    rw [lines_of_not_mem ht] at h ⊢
    obtain rfl : i = 0 := by
      have := (List.getElem?_eq_some_iff.1 h).1
      simpa using this
    exact lines_of_not_mem hcontent
  | next body rest hb ih =>
    cases i with
    | zero => exact lines_of_not_mem hcontent
    | succ n =>
      rw [lines_append hb, List.getElem?_cons_succ] at h
      rw [beforeLine_succ hb, List.append_assoc, List.cons_append, lines_append hb, ih h,
        lines_append hb]
      rfl

/-- Only the last line has no terminator. -/
theorem drop_lines_of_terminator {t : Text} {i : Nat} {l : Line} (h : (lines t)[i]? = some l)
    (hl : l.terminator = []) : (lines t).drop (i + 1) = [] := by
  induction t using linesInduction generalizing i with
  | last t ht =>
    rw [lines_of_not_mem ht]
    exact List.drop_eq_nil_of_le (Nat.le_add_left 1 i)
  | next body rest hb ih =>
    rw [lines_append hb] at h ⊢
    cases i with
    | zero =>
      obtain rfl : Line.terminated body = l := Option.some.inj h
      rcases Line.terminator_terminated body with hterminator | hterminator <;>
        · rw [hterminator] at hl
          simp at hl
    | succ n => exact ih h

theorem count_beforeLine {t : Text} {i : Nat} (h : i < lineCount t) :
    (beforeLine t i).count '\n' = i := by
  induction t using linesInduction generalizing i with
  | last t ht =>
    rw [lineCount, lines_of_not_mem ht] at h
    have hi : i = 0 := by simpa using h
    rw [hi]
    rfl
  | next body rest hb ih =>
    cases i with
    | zero => rfl
    | succ n =>
      rw [lineCount, lines_append hb, List.length_cons] at h
      rw [beforeLine_succ hb, List.count_append, List.count_eq_zero.2 hb,
        List.count_cons_self, ih (by rw [lineCount]; omega), Nat.zero_add]

theorem lineOf_width_append (a b : Text) : lineOf (a ++ b) (width a) = a.count '\n' := by
  rw [lineOf, charsBefore_width_append, List.take_left]

theorem count_of_content {t : Text} {i : Nat} {l : Line} (h : (lines t)[i]? = some l)
    {a b : Text} (hl : l.content = a ++ b) : (beforeLine t i ++ a).count '\n' = i := by
  have ha : '\n' ∉ a := fun hm =>
    not_mem_content (List.mem_of_getElem? h) (hl ▸ List.mem_append_left b hm)
  rw [List.count_append, count_beforeLine (lt_lineCount_of_getElem? h),
    List.count_eq_zero.2 ha, Nat.add_zero]

/-- Every place in the content of a line, its end included, lies on that line. -/
theorem lineOf_content {t : Text} {i : Nat} {l : Line} (h : (lines t)[i]? = some l)
    {a b : Text} (hl : l.content = a ++ b) :
    lineOf t (width (beforeLine t i) + width a) = i := by
  obtain ⟨after, ht⟩ := eq_beforeLine_append h
  have hsplit : t = (beforeLine t i ++ a) ++ (b ++ (l.terminator ++ after)) := by
    rw [hl] at ht
    simpa only [List.append_assoc] using ht
  calc lineOf t (width (beforeLine t i) + width a)
      = lineOf ((beforeLine t i ++ a) ++ (b ++ (l.terminator ++ after)))
          (width (beforeLine t i ++ a)) := by rw [← hsplit, width_append]
    _ = (beforeLine t i ++ a).count '\n' := lineOf_width_append _ _
    _ = i := count_of_content h hl

/-- Two lines are the same if a place in the content of one lies in a piece of the content of the
other, ends included. -/
theorem line_unique {t : Text} {i j : Nat} {l l' : Line} (hl : (lines t)[i]? = some l)
    (hl' : (lines t)[j]? = some l') {a b : Text} (hplace : l.content = a ++ b)
    {before piece after : Text} (hpiece : l'.content = before ++ piece ++ after)
    (hstart : width (beforeLine t j) + width before ≤ width (beforeLine t i) + width a)
    (hstop : width (beforeLine t i) + width a ≤
      width (beforeLine t j) + width before + width piece) : i = j := by
  obtain ⟨rest, ht⟩ := eq_beforeLine_append hl
  obtain ⟨rest', ht'⟩ := eq_beforeLine_append hl'
  have hsame : (beforeLine t j ++ before) ++ (piece ++ (after ++ (l'.terminator ++ rest'))) =
      (beforeLine t i ++ a) ++ (b ++ (l.terminator ++ rest)) := by
    rw [hplace] at ht
    rw [hpiece] at ht'
    simp only [List.append_assoc] at ht ht' ⊢
    rw [← ht', ← ht]
  obtain ⟨front, back, rfl, hfront⟩ := exists_split_of_between hsame
    (by rw [width_append, width_append]; exact hstart)
    (by rw [width_append, width_append]; exact hstop)
  have hcontent : l'.content = (before ++ front) ++ (back ++ after) := by
    rw [hpiece]
    simp only [List.append_assoc]
  calc i = lineOf t (width (beforeLine t i) + width a) := (lineOf_content hl hplace).symm
    _ = lineOf t (width (beforeLine t j) + width (before ++ front)) := by
      rw [← width_append, ← width_append, hfront, List.append_assoc]
    _ = j := lineOf_content hl' hcontent

/-! ## Places in the content of a line -/

/-- Whether an offset falls between a carriage return and the line feed directly after it. -/
def SplitsTerminator (t : Text) (offset : Nat) : Prop :=
  ∃ a b, t = a ++ b ∧ width a = offset ∧ a.getLast? = some '\r' ∧ b.head? = some '\n'

/-- A place of a text lies in the content of a line, ends included, unless a terminator falls apart
there. -/
theorem exists_line_of_append {t a b : Text} (ht : t = a ++ b)
    (h : ¬ (a.getLast? = some '\r' ∧ b.head? = some '\n')) :
    ∃ i l u v, (lines t)[i]? = some l ∧ l.content = u ++ v ∧ a = beforeLine t i ++ u := by
  induction t using linesInduction generalizing a b with
  | last t hfeed =>
    rw [lines_of_not_mem hfeed]
    exact ⟨0, ⟨t, []⟩, a, b, rfl, ht, rfl⟩
  | next body rest hb ih =>
    have hfirst : ∀ v, body = a ++ v → b = v ++ '\n' :: rest →
        ∃ v', (Line.terminated body).content = a ++ v' := by
      rintro v rfl rfl
      rw [Line.terminated]
      split
      · next hreturn =>
        have hv : v ≠ [] := by
          rintro rfl
          rw [List.append_nil] at hreturn
          exact h ⟨hreturn, rfl⟩
        exact ⟨v.dropLast, List.dropLast_append_of_ne_nil hv⟩
      · exact ⟨v, rfl⟩
    rw [lines_append hb]
    rcases List.append_eq_append_iff.1 ht with ⟨a', rfl, hrest⟩ | ⟨v, hbody, hb'⟩
    · cases a' with
      | nil =>
        rw [List.append_nil] at hfirst
        obtain ⟨v', hv'⟩ := hfirst [] (List.append_nil body).symm hrest.symm
        exact ⟨0, _, _, v', rfl, hv', by rw [List.append_nil]; rfl⟩
      | cons c a' =>
        obtain ⟨rfl, hbelow⟩ := List.cons.inj hrest
        have hinner : ¬ (a'.getLast? = some '\r' ∧ b.head? = some '\n') := by
          rintro ⟨hreturn, hfeed⟩
          refine h ⟨?_, hfeed⟩
          rw [List.getLast?_append, List.getLast?_cons, hreturn]
          rfl
        obtain ⟨i, l, u, v, hl, hcontent, hplace⟩ := ih hbelow hinner
        refine ⟨i + 1, l, u, v, hl, hcontent, ?_⟩
        rw [beforeLine_succ hb, List.append_assoc, List.cons_append, ← hplace]
    · obtain ⟨v', hv'⟩ := hfirst v hbody hb'
      exact ⟨0, _, a, v', rfl, hv', rfl⟩

/-- A text without line feeds and carriage returns occurs in the content of one line. -/
theorem InLine.exists_line {needle t : Text} (h : InLine needle) {a b : Text}
    (ht : t = a ++ needle ++ b) :
    ∃ i l u v, (lines t)[i]? = some l ∧ l.content = u ++ (needle ++ v) ∧
      a = beforeLine t i ++ u := by
  have hfirst : ¬ (a.getLast? = some '\r' ∧ (needle ++ b).head? = some '\n') := by
    rintro ⟨-, hfeed⟩
    obtain ⟨c, rest, rfl⟩ := List.exists_cons_of_ne_nil h.nonempty
    exact h.noFeed (List.mem_of_head? hfeed)
  have hlast : ¬ ((a ++ needle).getLast? = some '\r' ∧ b.head? = some '\n') := by
    rintro ⟨hreturn, -⟩
    rw [List.getLast?_append, List.getLast?_eq_some_getLast h.nonempty, Option.some_or,
      ← List.getLast?_eq_some_getLast h.nonempty] at hreturn
    exact h.noReturn (List.mem_of_getLast? hreturn)
  obtain ⟨i, l, u, v, hl, hcontent, ha⟩ :=
    exists_line_of_append (ht.trans (List.append_assoc _ _ _)) hfirst
  obtain ⟨j, l', u', v', hl', hcontent', ha'⟩ := exists_line_of_append ht hlast
  obtain rfl : i = j := by
    rw [← count_of_content hl hcontent, ← ha, ← count_of_content hl' hcontent', ← ha',
      List.count_append, List.count_eq_zero.2 h.noFeed, Nat.add_zero]
  obtain rfl : l' = l := Option.some.inj (hl'.symm.trans hl)
  rw [ha, List.append_assoc, List.append_cancel_left_eq] at ha'
  exact ⟨i, l', u, v', hl, by rw [hcontent', ← ha', List.append_assoc], ha⟩

/-- No terminator falls apart at a place in the content of a line. -/
theorem not_splitsTerminator_of_content {t : Text} {i : Nat} {l : Line}
    (h : (lines t)[i]? = some l) {u v : Text} (hl : l.content = u ++ v) :
    ¬ SplitsTerminator t (width (beforeLine t i ++ u)) := by
  rintro ⟨a, b, ht, hwidth, hreturn, hfeed⟩
  obtain ⟨after, htext⟩ := eq_beforeLine_append h
  rw [hl, List.append_assoc, ← List.append_assoc] at htext
  obtain rfl : a = beforeLine t i ++ u := eq_of_width_eq ⟨b, ht.symm⟩ ⟨_, htext.symm⟩ hwidth
  clear htext hwidth
  induction t using linesInduction generalizing i with
  | last t hnone =>
    refine hnone ?_
    rw [ht]
    exact List.mem_append_right _ (List.mem_of_head? hfeed)
  | next body rest hb ih =>
    rw [lines_append hb] at h
    cases i with
    | zero =>
      obtain rfl : Line.terminated body = l := Option.some.inj h
      obtain ⟨b, rfl⟩ := List.head?_eq_some_iff.1 hfeed
      change body ++ '\n' :: rest = u ++ '\n' :: b at ht
      change u.getLast? = some '\r' at hreturn
      have hu : '\n' ∉ u := fun hm => Line.not_mem_content_terminated hb
        (hl ▸ List.mem_append_left v hm)
      -- the line ends at this line feed, so that its content is what stands before the `\r`
      have hfirst := (firstLine_append hb rest).symm.trans
        ((congrArg firstLine ht).trans (firstLine_append hu b))
      rw [(Prod.mk.inj hfirst).1, Line.terminated, if_pos hreturn] at hl
      have hlength := congrArg List.length hl
      have hpos := List.length_pos_of_mem (List.mem_of_getLast? hreturn)
      simp only [List.length_dropLast, List.length_append] at hlength
      omega
    | succ n =>
      rw [beforeLine_succ hb] at ht hreturn
      simp only [List.append_assoc, List.cons_append, List.append_cancel_left_eq] at ht hreturn
      refine ih h ((List.cons.inj ht).2.trans (List.append_assoc _ _ _).symm) ?_
      rw [List.getLast?_append, List.getLast?_cons] at hreturn
      cases hlast : (beforeLine rest n ++ u).getLast? with
      | none => simp [hlast] at hreturn
      | some c => simpa [hlast] using hreturn

end Text
end SqlAssist
