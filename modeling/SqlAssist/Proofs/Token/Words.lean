import SqlAssist.Proofs.Token.Rules

/-!
Splitting a line into words.

`Word.all` walks through a line by words, numbers and single characters.  `Splits` is that walk as
a relation, with a character at least in each step.  Where it starts matters: from the middle of
`1e5` it finds the word `e5`, which is none from the start.  But there are characters that no word
and no number can hold.  Whatever stands before such a character, the splitter takes it as a step
of its own, and behind it starts afresh (`allFrom_append`).  Quotes, blanks and brackets are of
this kind.
-/

namespace SqlAssist

/-! ## Numbers and words end in front of any other character -/

namespace Word

theorem isDigit_iff {c : Char} : c.isDigit = true ↔ 48 ≤ c.toNat ∧ c.toNat ≤ 57 := by
  have hval : c.val.toNat = c.toNat := rfl
  simp only [Char.isDigit, Bool.and_eq_true, decide_eq_true_eq, ge_iff_le,
    UInt32.le_iff_toNat_le, hval, UInt32.reduceToNat, Char.reduceVal]

theorem isStart_iff {c : Char} : isStart c = true ↔
    65 ≤ c.toNat ∧ c.toNat ≤ 90 ∨ 97 ≤ c.toNat ∧ c.toNat ≤ 122 ∨ c.toNat = 95 := by
  have hval : c.val.toNat = c.toNat := rfl
  have hunderscore : c = '_' ↔ c.toNat = 95 :=
    ⟨fun h => by rw [h]; rfl, fun h => Char.ext (UInt32.toNat_inj.1 h)⟩
  show (decide (c.val ≥ 'A'.val ∧ c.val ≤ 'Z'.val) ||
    (decide (c.val ≥ 'a'.val) && decide (c.val ≤ 'z'.val)) || c == '_') = true ↔ _
  simp only [Bool.or_eq_true, Bool.and_eq_true, decide_eq_true_eq, beq_iff_eq, hunderscore,
    ge_iff_le, UInt32.le_iff_toNat_le, hval, UInt32.reduceToNat, Char.reduceVal, or_assoc]

theorem not_isDigit_of_isStart {c : Char} (h : isStart c = true) :
    c.isDigit = false ∧ c ≠ '.' := by
  rw [isStart_iff] at h
  refine ⟨Bool.eq_false_iff.2 fun hdigit => ?_, ?_⟩
  · rw [isDigit_iff] at hdigit
    omega
  · rintro rfl
    exact absurd h (by decide)

def canHold (c : Char) : Bool := isContinue c || c == '.' || c == '+' || c == '-'

theorem canHold_eq_false {e : Char} (h : canHold e = false) :
    isContinue e = false ∧ e ≠ '.' ∧ e ≠ '+' ∧ e ≠ '-' := by
  simp only [canHold, Bool.or_eq_false_iff, beq_eq_false_iff_ne] at h
  exact ⟨h.1.1.1, h.1.1.2, h.1.2, h.2⟩

theorem isContinue_eq_false {e : Char} (h : isContinue e = false) :
    e.isDigit = false ∧ isStart e = false ∧ e ≠ 'e' ∧ e ≠ 'E' := by
  refine ⟨?_, ?_, ?_, ?_⟩
  · simp only [isContinue, Char.isAlphanum, Bool.or_eq_false_iff] at h
    exact h.1.2
  · simp only [isContinue, Char.isAlphanum, Bool.or_eq_false_iff] at h
    rw [isStart, h.1.1, h.2]
    rfl
  · rintro rfl
    exact absurd h (by decide)
  · rintro rfl
    exact absurd h (by decide)

/-- Whether a text is one word, as the scanner takes words. -/
def IsIdentifier (t : Text) : Prop :=
  ∃ c w, t = c :: w ∧ isStart c = true ∧ ∀ d ∈ w, isContinue d = true

theorem isContinue_of_isStart {c : Char} (h : isStart c = true) : isContinue c = true := by
  rw [← Bool.not_eq_false]
  intro hnot
  rw [(isContinue_eq_false hnot).2.1] at h
  simp at h

theorem IsIdentifier.isContinue {t : Text} (h : IsIdentifier t) :
    ∀ c ∈ t, isContinue c = true := by
  obtain ⟨c, w, rfl, hc, hw⟩ := h
  exact List.forall_mem_cons.2 ⟨isContinue_of_isStart hc, hw⟩

end Word

namespace Number

variable {e : Char}

theorem digitRun_append (h : e.isDigit = false) (a b : Text) :
    digitRun (a ++ e :: b) = digitRun a := by
  rw [digitRun, digitRun, Text.takeWhile_append h]

theorem signLength_append (hplus : e ≠ '+') (hminus : e ≠ '-') (a b : Text) :
    signLength (a ++ e :: b) = signLength a := by
  cases a with
  | nil =>
    unfold signLength
    split <;> simp_all
  | cons c rest =>
    unfold signLength
    split <;> simp_all

theorem exponentLength_append (h : Word.canHold e = false) (a b : Text) :
    exponentLength (a ++ e :: b) = exponentLength a := by
  obtain ⟨hcontinue, -, hplus, hminus⟩ := Word.canHold_eq_false h
  obtain ⟨hdigit, -, hlower, hupper⟩ := Word.isContinue_eq_false hcontinue
  cases a with
  | nil =>
    show exponentLength (e :: b) = 0
    rw [exponentLength, if_neg (by simp [hlower, hupper])]
  | cons c rest =>
    rw [List.cons_append, exponentLength, exponentLength]
    simp only [signLength_append hplus hminus,
      List.drop_append_of_le_length (signLength_le_length rest), digitRun_append hdigit]

theorem floatLength?_append (h : Word.canHold e = false) (a b : Text) :
    floatLength? (a ++ e :: b) = floatLength? a := by
  obtain ⟨hcontinue, hpoint, -, -⟩ := Word.canHold_eq_false h
  obtain ⟨hdigit, -, -, -⟩ := Word.isContinue_eq_false hcontinue
  simp only [floatLength?]
  rw [digitRun_append hdigit, List.drop_append_of_le_length (digitRun_le_length a)]
  cases hrest : a.drop (digitRun a) with
  | nil =>
    rw [List.nil_append]
    split
    · next heq => exact absurd (List.cons.inj heq).1 hpoint
    · rfl
  | cons c rest =>
    by_cases hc : c = '.'
    · subst hc
      simp only [List.cons_append, digitRun_append hdigit,
        List.drop_append_of_le_length (digitRun_le_length rest), exponentLength_append h]
    · rw [List.cons_append]
      split
      · next heq => exact absurd (List.cons.inj heq).1 hc
      · split
        · next heq => exact absurd (List.cons.inj heq).1 hc
        · rfl

/-- A number is matched as if the text ended in front of a character that it cannot hold. -/
theorem match?_append (h : Word.canHold e = false) (a b : Text) :
    match? (a ++ e :: b) = match? a := by
  have hdigit := (Word.isContinue_eq_false (Word.canHold_eq_false h).1).1
  rw [match?, match?, floatLength?_append h, digitRun_append hdigit]

theorem match?_of_head {c : Char} (hdigit : c.isDigit = false) (hpoint : c ≠ '.')
    (rest : Text) : match? (c :: rest) = none := by
  have hrun : digitRun (c :: rest) = 0 := by
    rw [digitRun, List.takeWhile_cons_of_neg (by simp [hdigit])]
    rfl
  have hfloat : floatLength? (c :: rest) = none := by
    simp only [floatLength?, hrun, List.drop_zero]
    split
    · next heq => exact absurd (List.cons.inj heq).1 hpoint
    · rfl
  rw [match?, hfloat, hrun]
  rfl

end Number

namespace Word

/-- Characters that start neither a word nor a number, and so are passed over one by one. -/
def isInert (c : Char) : Bool := !isStart c && !c.isDigit && c != '.'

theorem isInert_iff {c : Char} :
    isInert c = true ↔ isStart c = false ∧ c.isDigit = false ∧ c ≠ '.' := by
  simp only [isInert, Bool.and_eq_true, Bool.not_eq_true', bne_iff_ne, and_assoc]

theorem isInert_of_not_canHold {e : Char} (h : canHold e = false) : isInert e = true := by
  obtain ⟨hcontinue, hpoint, -, -⟩ := canHold_eq_false h
  obtain ⟨hdigit, hstart, -, -⟩ := isContinue_eq_false hcontinue
  exact isInert_iff.2 ⟨hstart, hdigit, hpoint⟩

def stepLength (c : Char) (rest : Text) : Nat :=
  if isStart c then lengthAt (c :: rest) else gapLength (c :: rest)

def stepWord (offset : Nat) (c : Char) (rest : Text) : List Word :=
  if isStart c then [⟨(c :: rest).take (stepLength c rest), offset⟩] else []

theorem stepLength_pos (c : Char) (rest : Text) : 0 < stepLength c rest := by
  rw [stepLength]
  split
  · exact lengthAt_pos _
  · exact gapLength_pos _

theorem stepLength_le_length (c : Char) (rest : Text) :
    stepLength c rest ≤ (c :: rest).length := by
  rw [stepLength]
  split
  · exact lengthAt_le_length c rest
  · rw [gapLength]
    split
    · next n cls hn => exact Number.match?_le_length hn
    · exact Nat.succ_le_succ (Nat.zero_le _)

theorem lengthAt_append {e : Char} (h : isContinue e = false) (c : Char) (rest b : Text) :
    lengthAt (c :: (rest ++ e :: b)) = lengthAt (c :: rest) := by
  rw [lengthAt, lengthAt, List.drop_one, List.drop_one, List.tail_cons, List.tail_cons,
    Text.takeWhile_append h]

/-- A step does not see what stands behind a character that no word and no number can hold. -/
theorem stepLength_append {e : Char} (h : canHold e = false) (c : Char) (rest b : Text) :
    stepLength c (rest ++ e :: b) = stepLength c rest := by
  have hlength := lengthAt_append (canHold_eq_false h).1 c rest b
  have hgap : gapLength (c :: (rest ++ e :: b)) = gapLength (c :: rest) := by
    rw [gapLength, gapLength, ← List.cons_append, Number.match?_append h]
  rw [stepLength, stepLength, hlength, hgap]

theorem allFrom_nil (offset : Nat) : allFrom offset [] = [] := by rw [allFrom]

theorem allFrom_cons (offset : Nat) (c : Char) (rest : Text) :
    allFrom offset (c :: rest) =
      stepWord offset c rest ++
        allFrom (offset + Text.width ((c :: rest).take (stepLength c rest)))
          ((c :: rest).drop (stepLength c rest)) := by
  rw [allFrom, stepWord, stepLength]
  split <;> rfl

theorem allFrom_inert {a : Text} (h : ∀ c ∈ a, isInert c = true) (offset : Nat) (b : Text) :
    allFrom offset (a ++ b) = allFrom (offset + Text.width a) b := by
  induction a generalizing offset with
  | nil => rfl
  | cons c rest ih =>
    obtain ⟨hstart, hdigit, hpoint⟩ := isInert_iff.1 (h c List.mem_cons_self)
    have hstep : stepLength c (rest ++ b) = 1 := by
      rw [stepLength, hstart, gapLength, Number.match?_of_head hdigit hpoint]
      rfl
    have ih := ih (fun d hd => h d (List.mem_cons_of_mem c hd)) (offset + c.utf8Size)
    rw [List.cons_append, allFrom_cons, stepWord, hstart, hstep, Text.width_cons,
      ← Nat.add_assoc, ← ih]
    rfl

/-! ## The walk -/

/-- The splitter walks through a text that starts at `offset` to its end, and lists `words`. -/
inductive Splits : Nat → Text → List Word → Prop
  | done (offset : Nat) : Splits offset [] []
  | step {offset : Nat} {c : Char} {rest : Text} {words : List Word}
      (progress : 0 < stepLength c rest)
      (more : Splits (offset + Text.width ((c :: rest).take (stepLength c rest)))
        ((c :: rest).drop (stepLength c rest)) words) :
      Splits offset (c :: rest) (stepWord offset c rest ++ words)

theorem splits_allFrom (offset : Nat) (t : Text) : Splits offset t (allFrom offset t) := by
  match t with
  | [] =>
    rw [allFrom_nil]
    exact .done offset
  | c :: rest =>
    rw [allFrom_cons]
    exact .step (stepLength_pos c rest) (splits_allFrom _ _)
termination_by t.length
decreasing_by
  have := stepLength_pos c rest
  simp only [List.length_drop, List.length_cons]
  omega

theorem mem_stepWord {offset : Nat} {c : Char} {rest : Text} {w : Word}
    (h : w ∈ stepWord offset c rest) :
    isStart c = true ∧ w = ⟨(c :: rest).take (stepLength c rest), offset⟩ := by
  rw [stepWord] at h
  split at h
  · next hstart => exact ⟨hstart, List.mem_singleton.1 h⟩
  · simp at h

/-- The word that a text starts with, and what is left of the text. -/
theorem exists_identifier {c : Char} (h : isStart c = true) (rest : Text) :
    ∃ a b, c :: rest = a ++ b ∧ a.length = lengthAt (c :: rest) ∧ IsIdentifier a ∧
      ∀ d ∈ b.head?, isContinue d = false := by
  obtain ⟨a, b, hrest, hrun, hall, hnext⟩ := Text.exists_run isContinue rest
  refine ⟨c :: a, b, congrArg (List.cons c) hrest, ?_, ⟨c, a, rfl, h, hall⟩, hnext⟩
  rw [lengthAt, List.drop_one, List.tail_cons, hrun, Nat.add_comm, List.length_cons]

namespace Splits

variable {offset : Nat} {t : Text} {words : List Word}

/-- Behind a character that no word and no number can hold the words start afresh. -/
theorem allFrom_append (h : Splits offset t words) {e : Char} (he : canHold e = false) (b : Text) :
    allFrom offset (t ++ e :: b) = words ++ allFrom (offset + Text.width (t ++ [e])) b := by
  induction h with
  | done offset => exact allFrom_inert (a := [e]) (by simp [isInert_of_not_canHold he]) offset b
  | @step offset c rest words progress more ih =>
    have hle := stepLength_le_length c rest
    have hword : stepWord offset c (rest ++ e :: b) = stepWord offset c rest := by
      rw [stepWord, stepWord, stepLength_append he, ← List.cons_append,
        List.take_append_of_le_length hle]
    have hwidth := Text.width_take_add_drop (c :: rest) (stepLength c rest)
    rw [List.cons_append, allFrom_cons, hword, stepLength_append he, ← List.cons_append,
      List.take_append_of_le_length hle, List.drop_append_of_le_length hle, ih, List.append_assoc,
      Text.width_append, Text.width_append, ← hwidth, Nat.add_assoc, Nat.add_assoc]

/-- Each word is a piece of the text. -/
theorem exists_split (h : Splits offset t words) {w : Word} (hw : w ∈ words) :
    ∃ a b, t = a ++ w.text ++ b ∧ w.start = offset + Text.width a := by
  induction h with
  | done => simp at hw
  | @step offset c rest words progress more ih =>
    have hsplit := List.take_append_drop (stepLength c rest) (c :: rest)
    rcases List.mem_append.1 hw with hw | hw
    · obtain ⟨-, rfl⟩ := mem_stepWord hw
      exact ⟨[], _, hsplit.symm, rfl⟩
    · obtain ⟨a, b, hdrop, hstart⟩ := ih hw
      refine ⟨(c :: rest).take (stepLength c rest) ++ a, b, ?_, ?_⟩
      · rw [List.append_assoc, List.append_assoc, ← List.append_assoc a, ← hdrop, hsplit]
      · rw [hstart, Text.width_append, Nat.add_assoc]

theorem within (h : Splits offset t words) {w : Word} (hw : w ∈ words) :
    offset ≤ w.start ∧ w.stop ≤ offset + Text.width t := by
  obtain ⟨a, b, rfl, hstart⟩ := h.exists_split hw
  rw [stop, hstart, Text.width_append, Text.width_append]
  omega

/-- The words are listed in order, and no two have a character in common. -/
theorem pairwise (h : Splits offset t words) : words.Pairwise fun w v => w.stop ≤ v.start := by
  induction h with
  | done => exact .nil
  | @step offset c rest words progress more ih =>
    refine List.pairwise_append.2 ⟨?_, ih, fun w hw v hv => ?_⟩
    · rw [stepWord]
      split
      · exact List.pairwise_singleton _ _
      · exact .nil
    · obtain ⟨-, rfl⟩ := mem_stepWord hw
      exact (more.within hv).1

theorem isIdentifier (h : Splits offset t words) {w : Word} (hw : w ∈ words) :
    IsIdentifier w.text := by
  induction h with
  | done => simp at hw
  | @step offset c rest words progress more ih =>
    rcases List.mem_append.1 hw with hw | hw
    · obtain ⟨hstart, rfl⟩ := mem_stepWord hw
      obtain ⟨a, b, hsplit, hlength, ha, -⟩ := exists_identifier hstart rest
      rw [stepLength, if_pos hstart, (Text.take_drop_of_append hsplit hlength).1]
      exact ha
    · exact ih hw

theorem start_lt_stop (h : Splits offset t words) {w : Word} (hw : w ∈ words) :
    w.start < w.stop := by
  obtain ⟨c, rest, htext, -⟩ := h.isIdentifier hw
  have hpos := Text.width_pos (t := w.text) (by rw [htext]; exact List.cons_ne_nil c rest)
  rw [stop]
  omega

end Splits

theorem allFrom_append {e : Char} (he : canHold e = false) (offset : Nat) (a b : Text) :
    allFrom offset (a ++ e :: b) =
      allFrom offset a ++ allFrom (offset + Text.width (a ++ [e])) b :=
  (splits_allFrom offset a).allFrom_append he b

theorem mem_allFrom {offset : Nat} {t : Text} {w : Word} (h : w ∈ allFrom offset t) :
    offset ≤ w.start ∧ w.stop ≤ offset + Text.width t :=
  (splits_allFrom offset t).within h

/-- Words of a line in order, none of them empty, of which no two have a character in common. -/
structure InOrder (line : Text) (words : List Word) : Prop where
  ordered : words.Pairwise fun w v => w.start < v.start
  disjoint : words.Pairwise fun w v => w.stop ≤ v.start
  nonempty : ∀ w ∈ words, w.start < w.stop
  within : ∀ w ∈ words, w.stop ≤ line.width
  slice : ∀ w ∈ words, w.text = Text.slice line w.start w.stop

theorem inOrder_all (line : Text) : InOrder line (all line) := by
  have h : Splits 0 line (all line) := splits_allFrom 0 line
  constructor
  case ordered =>
    exact h.pairwise.imp_of_mem fun hw _ hle => Nat.lt_of_lt_of_le (h.start_lt_stop hw) hle
  case disjoint => exact h.pairwise
  case nonempty => exact fun w hw => h.start_lt_stop hw
  case within => exact fun w hw => Nat.zero_add line.width ▸ (h.within hw).2
  case slice =>
    intro w hw
    obtain ⟨a, b, hline, hstart⟩ := h.exists_split hw
    rw [Nat.zero_add] at hstart
    rw [stop, hline, hstart, Text.slice_append]

/-- A place is the end of one word, or inside of it, or of none. -/
theorem eq_of_touches {line : Text} {w v : Word} (hw : w ∈ all line) (hv : v ∈ all line)
    {o : Nat} (hwo : w.start < o ∧ o ≤ w.stop) (hvo : v.start < o ∧ o ≤ v.stop) : w = v := by
  have hpairs := (inOrder_all line).disjoint
  have hall : ∀ w ∈ all line, ∀ v ∈ all line,
      w.start < o ∧ o ≤ w.stop → v.start < o ∧ o ≤ v.stop → w = v := by
    refine List.Pairwise.forall_of_forall_of_flip (fun _ _ _ _ => rfl)
      (hpairs.imp fun hle hwo hvo => ?_) (hpairs.imp fun hle hwo hvo => ?_)
    · omega
    · omega
  exact hall w hw v hv hwo hvo

/-- Blank characters start nothing: each has a code below that of the point or above that of
the last letter. -/
theorem isInert_of_isBlank {c : Char} (h : Text.isBlank c = true) : isInert c = true := by
  have hcode : c.toNat < 46 ∨ 122 < c.toNat := by
    simp only [Text.isBlank, Bool.or_eq_true, Bool.and_eq_true, decide_eq_true_iff] at h
    omega
  refine isInert_iff.2 ⟨?_, ?_, ?_⟩
  · refine Bool.eq_false_iff.2 fun hstart => ?_
    rw [isStart_iff] at hstart
    omega
  · refine Bool.eq_false_iff.2 fun hdigit => ?_
    rw [isDigit_iff] at hdigit
    omega
  · rintro rfl
    exact absurd hcode (by decide)

theorem isInert_of_isSymbol {c : Char} (h : Lexicon.isSymbol c = true) : isInert c = true := by
  have hall : Lexicon.symbolCharacters.all isInert = true := by decide
  exact List.all_eq_true.1 hall c (List.contains_iff_mem.1 h)

theorem canHold_char (quote : Quote) : canHold quote.char = false := by
  cases quote <;> rfl

end Word

end SqlAssist
