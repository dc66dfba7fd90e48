import SqlAssist.Proofs.Text.Fold
import SqlAssist.Proofs.Token.Document
import SqlAssist.Proofs.Token.Literal
import SqlAssist.Proofs.Token.Words

/-!
Scanning a text with its letters lowered.

No rule of the scanner compares letters as they are.  Words are looked up folded, an exponent is
opened by either letter, and markers, quotes and symbols are no letters at all.  So the cuts of a
folded text are those of the text, and its lexemes are the text's, folded.  The one place where the
case of a letter counts is an escape: `\x41` is one and `\X41` is not.  So the scanner is compared on
texts without a backslash only.

A number or a word is measured without any such condition, and so the words of a line are the same
in every text.
-/

namespace SqlAssist

/-! ## Numbers and words -/

namespace Number

theorem digitRun_fold (t : Text) : digitRun (Text.fold t) = digitRun t := by
  rw [digitRun, digitRun, Text.takeWhile_fold Text.isDigit_toLower, Text.length_fold]

theorem signLength_fold (t : Text) : signLength (Text.fold t) = signLength t := by
  have hcons : ∀ (c : Char) (rest : Text),
      signLength (c :: rest) = if c = '+' ∨ c = '-' then 1 else 0 := by
    intro c rest
    unfold signLength
    split <;> simp_all
  cases t with
  | nil => rfl
  | cons c rest =>
    rw [Text.fold_cons, hcons, hcons]
    simp only [Text.toLower_eq_iff (c := '+') rfl, Text.toLower_eq_iff (c := '-') rfl]

theorem exponentLength_fold (t : Text) : exponentLength (Text.fold t) = exponentLength t := by
  have hletter : ∀ c : Char, decide (c.toLower = 'e' ∨ c.toLower = 'E') =
      decide (c = 'e' ∨ c = 'E') :=
    Text.apply_toLower (f := fun c => decide (c = 'e' ∨ c = 'E')) (by decide)
  cases t with
  | nil => rfl
  | cons c rest =>
    have hc : (c.toLower = 'e' ∨ c.toLower = 'E') = (c = 'e' ∨ c = 'E') :=
      propext (decide_eq_decide.1 (hletter c))
    rw [Text.fold_cons, exponentLength, exponentLength]
    simp only [hc, signLength_fold, Text.drop_fold, digitRun_fold]

theorem floatLength?_fold (t : Text) : floatLength? (Text.fold t) = floatLength? t := by
  simp only [floatLength?]
  rw [digitRun_fold, Text.drop_fold]
  cases t.drop (digitRun t) with
  | nil => rfl
  | cons c rest =>
    rw [Text.fold_cons]
    by_cases hc : c = '.'
    · subst hc
      show (if digitRun (Text.fold rest) = 0 then none else _) =
        if digitRun rest = 0 then none else _
      rw [digitRun_fold, Text.drop_fold, exponentLength_fold]
    · have hlower : c.toLower ≠ '.' := fun h => hc ((Text.toLower_eq_iff rfl).1 h)
      split
      · next heq => exact absurd (List.cons.inj heq).1 hlower
      · split
        · next heq => exact absurd (List.cons.inj heq).1 hc
        · rfl

theorem match?_fold (t : Text) : match? (Text.fold t) = match? t := by
  rw [match?, match?, floatLength?_fold, digitRun_fold]

end Number

namespace Word

def fold (w : Word) : Word := ⟨Text.fold w.text, w.start⟩

theorem stop_fold (w : Word) : w.fold.stop = w.stop := by
  rw [stop, stop, fold, Text.width_fold]

theorem isStart_toLower (c : Char) : isStart c.toLower = isStart c :=
  Text.apply_toLower (by decide) c

theorem isContinue_toLower (c : Char) : isContinue c.toLower = isContinue c :=
  Text.apply_toLower (by decide) c

theorem lengthAt_fold (t : Text) : lengthAt (Text.fold t) = lengthAt t := by
  rw [lengthAt, lengthAt, Text.drop_fold, Text.takeWhile_fold isContinue_toLower, Text.length_fold]

theorem stepLength_fold (c : Char) (rest : Text) :
    stepLength c.toLower (Text.fold rest) = stepLength c rest := by
  rw [stepLength, stepLength, isStart_toLower, ← Text.fold_cons, lengthAt_fold, gapLength,
    gapLength, Number.match?_fold]

theorem stepWord_fold (offset : Nat) (c : Char) (rest : Text) :
    stepWord offset c.toLower (Text.fold rest) = (stepWord offset c rest).map fold := by
  rw [stepWord, stepWord, isStart_toLower, stepLength_fold, ← Text.fold_cons, Text.take_fold]
  split <;> rfl

/-- A line and the folded line fall into words at the same places. -/
theorem allFrom_fold (offset : Nat) (t : Text) :
    allFrom offset (Text.fold t) = (allFrom offset t).map fold := by
  match t with
  | [] => rw [Text.fold_nil, allFrom_nil, List.map_nil]
  | c :: rest =>
    have ih := allFrom_fold (offset + Text.width ((c :: rest).take (stepLength c rest)))
      ((c :: rest).drop (stepLength c rest))
    rw [Text.fold_cons, allFrom_cons, allFrom_cons, stepWord_fold, stepLength_fold,
      ← Text.fold_cons, Text.take_fold, Text.drop_fold, Text.width_fold, ih, List.map_append]
termination_by t.length
decreasing_by
  have := stepLength_pos c rest
  simp only [List.length_drop, List.length_cons]
  omega

end Word

/-! ## Literals without escapes -/

theorem Quote.toLower_eq_char {quote : Quote} {c : Char} :
    c.toLower = quote.char ↔ c = quote.char :=
  Text.toLower_eq_iff (by cases quote <;> rfl)

theorem Quote.ofChar?_toLower (c : Char) : ofChar? c.toLower = ofChar? c := by
  rw [ofChar?, ofChar?]
  simp only [Text.toLower_eq_iff (c := '"') rfl, Text.toLower_eq_iff (c := '\'') rfl]

theorem Text.isBlank_toLower (c : Char) : isBlank c.toLower = isBlank c :=
  apply_toLower (by decide) c

theorem Text.toLower_eq_backslash {c : Char} : c.toLower = '\\' ↔ c = '\\' := toLower_eq_iff rfl

theorem Literal.lookAhead_fold (quote : Quote) {t : Text} (h : '\\' ∉ t) :
    lookAhead quote (Text.fold t) = lookAhead quote t := by
  induction t with
  | nil => rfl
  | cons c rest ih =>
    have hc : c ≠ '\\' := (List.ne_of_not_mem_cons h).symm
    have hlower : c.toLower ≠ '\\' := fun e => hc (Text.toLower_eq_backslash.1 e)
    rw [Text.fold_cons, lookAhead_cons hlower, lookAhead_cons hc,
      ih (List.not_mem_of_not_mem_cons h)]
    simp only [Quote.toLower_eq_char]

/-! ## The scanner -/

def Lexeme.fold (l : Lexeme) : Lexeme := ⟨Text.fold l.text, l.tokenClass⟩

def LineScan.fold (s : LineScan) : LineScan := ⟨s.lexemes.map Lexeme.fold, s.endState⟩

def Token.fold (t : Token) : Token := ⟨Text.fold t.text, t.tokenClass, t.start⟩

def LineTokens.fold (l : LineTokens) : LineTokens := ⟨l.tokens.map Token.fold, l.endState⟩

theorem Token.stop_fold (t : Token) : t.fold.stop = t.stop := by
  rw [stop, stop, fold, Text.width_fold]

theorem Token.place_fold (offset : Nat) (ls : List Lexeme) :
    place offset (ls.map Lexeme.fold) = (place offset ls).map fold := by
  induction ls generalizing offset with
  | nil => rfl
  | cons l rest ih =>
    rw [List.map_cons, place, place, List.map_cons, ih, Lexeme.fold, Text.width_fold]
    rfl

structure CommentMarkers.Caseless (m : CommentMarkers) : Prop where
  line : m.line.Caseless
  blockStart : m.blockStart.Caseless
  blockEnd : m.blockEnd.Caseless

namespace Lexicon

variable {x : Lexicon}

theorem isSymbol_toLower (c : Char) : isSymbol c.toLower = isSymbol c :=
  Text.apply_toLower (by decide) c

theorem isBracket_toLower (c : Char) : isBracket c.toLower = isBracket c :=
  Text.apply_toLower (by decide) c

theorem isDelimiter_toLower (c : Char) : isDelimiter c.toLower = isDelimiter c :=
  Text.apply_toLower (by decide) c

theorem caseless_of_isSymbol {t : Text} (h : ∀ c ∈ t, isSymbol c = true) : t.Caseless := by
  have hsymbols : Text.Caseless symbolCharacters := by decide
  intro c hc
  exact hsymbols c (List.contains_iff_mem.1 (h c hc))

theorem isSymbol_of_mem_take (x : Lexicon) {t : Text} :
    ∀ c ∈ t.take (x.symbolRun t), isSymbol c = true := by
  induction t with
  | nil => simp
  | cons d rest ih =>
    intro c hc
    rw [symbolRun] at hc
    split at hc
    · next hopen =>
      rw [Bool.and_eq_true] at hopen
      rw [Nat.add_comm, List.take_succ_cons] at hc
      rcases List.mem_cons.1 hc with rfl | hc
      · exact hopen.1
      · exact ih c hc
    · simp at hc

theorem fold_take_symbolRun (x : Lexicon) {c : Char} (hc : isSymbol c = true) (rest : Text) :
    (Text.fold (c :: rest)).take (1 + x.symbolRun rest) =
      (c :: rest).take (1 + x.symbolRun rest) := by
  rw [Text.take_fold, Text.fold_eq_iff]
  refine caseless_of_isSymbol fun d hd => ?_
  rw [Nat.add_comm, List.take_succ_cons] at hd
  rcases List.mem_cons.1 hd with rfl | hd
  · exact hc
  · exact isSymbol_of_mem_take x d hd

theorem quoteCut_fold (quote : Quote) {c : Char} {rest : Text} (h : '\\' ∉ rest) :
    quoteCut quote (Text.fold (c :: rest)) = quoteCut quote (c :: rest) := by
  simp only [quoteCut, Text.fold_cons, List.drop_one, List.tail_cons, List.length_cons,
    Text.length_fold, Literal.lookAhead_fold quote h]

theorem classifyWord_fold (x : Lexicon) (word : Text) :
    x.classifyWord (Text.fold word) = x.classifyWord word := by
  rw [classifyWord, classifyWord, Catalog.classify, Catalog.classify, Text.fold_fold]

section Folded

variable (hx : x.comments.Caseless)

include hx

theorem commentCut?_fold (t : Text) : x.commentCut? (Text.fold t) = x.commentCut? t := by
  simp only [commentCut?]
  rw [Text.isPrefixOf_fold hx.line, Text.isPrefixOf_fold hx.blockStart, Text.drop_fold,
    Text.search?_fold hx.blockEnd, Text.length_fold]

theorem symbolRun_fold (t : Text) : x.symbolRun (Text.fold t) = x.symbolRun t := by
  induction t with
  | nil => rfl
  | cons c rest ih =>
    have hopens : x.comments.opensAt (Text.fold (c :: rest)) = x.comments.opensAt (c :: rest) := by
      rw [CommentMarkers.opensAt, CommentMarkers.opensAt, Text.isPrefixOf_fold hx.line,
        Text.isPrefixOf_fold hx.blockStart]
    rw [Text.fold_cons, symbolRun, symbolRun, ← Text.fold_cons, hopens, isSymbol_toLower,
      ih]

theorem rootCut_fold {c : Char} {rest : Text} (h : '\\' ∉ rest) :
    x.rootCut c.toLower (Text.fold rest) = x.rootCut c rest := by
  have hblanks : ((Text.fold (c :: rest)).takeWhile Text.isBlank).length =
      ((c :: rest).takeWhile Text.isBlank).length := by
    rw [Text.takeWhile_fold Text.isBlank_toLower, Text.length_fold]
  have hquote := fun quote => quoteCut_fold quote (c := c) h
  have hclass : ∀ n, x.classifyWord ((Text.fold (c :: rest)).take n) =
      x.classifyWord ((c :: rest).take n) := by
    intro n
    rw [Text.take_fold, classifyWord_fold]
  have hcomment := commentCut?_fold hx (c :: rest)
  have hnumber := Number.match?_fold (c :: rest)
  have hword := Word.lengthAt_fold (c :: rest)
  rw [Text.fold_cons] at hblanks hclass hcomment hnumber hword
  simp only [Text.fold_cons] at hquote
  simp only [rootCut, hcomment, Text.isBlank_toLower, hblanks, Quote.ofChar?_toLower, hquote,
    hnumber, hword, Word.isStart_toLower, hclass, isSymbol_toLower, symbolRun_fold hx,
    isBracket_toLower, isDelimiter_toLower]
  -- only in a run of symbols it matters what the text of a cut is
  by_cases hc : isSymbol c = true
  · rw [← Text.fold_cons, fold_take_symbolRun x hc rest]
  · rw [Bool.not_eq_true] at hc
    simp only [hc, Bool.false_eq_true, if_false]

/-- The scanner cuts a folded text where it cuts the text. -/
theorem cut_fold {state : LineState} {c : Char} {rest : Text} (h : '\\' ∉ c :: rest) :
    x.cut state c.toLower (Text.fold rest) = x.cut state c rest := by
  have hc : c ≠ '\\' := (List.ne_of_not_mem_cons h).symm
  cases state with
  | root => exact rootCut_fold hx (List.not_mem_of_not_mem_cons h)
  | blockComment =>
    simp only [cut, commentBodyCut]
    rw [← Text.fold_cons, Text.search?_fold hx.blockEnd, Text.length_fold]
  | literal quote =>
    have hplain : ∀ c : Char, decide (c.toLower ≠ '\\' ∧ c.toLower ≠ quote.char) =
        decide (c ≠ '\\' ∧ c ≠ quote.char) := by
      intro c
      simp only [ne_eq, Text.toLower_eq_backslash, Quote.toLower_eq_char]
    have hlower : c.toLower ≠ '\\' := fun e => hc (Text.toLower_eq_backslash.1 e)
    simp only [cut, literalCut, if_neg hc, if_neg hlower, Quote.toLower_eq_char]
    rw [← Text.fold_cons, Text.takeWhile_fold hplain, Text.length_fold]

theorem scanFrom_fold (state : LineState) {t : Text} (h : '\\' ∉ t) :
    x.scanFrom state (Text.fold t) = (x.scanFrom state t).fold := by
  match t with
  | [] => rw [Text.fold_nil, scanFrom_nil]; rfl
  | c :: rest =>
    have hcut : x.cut state c.toLower (Text.fold rest) = x.cut state c rest := cut_fold hx h
    by_cases hpos : 0 < (x.cut state c rest).length
    · have ih := scanFrom_fold (x.cut state c rest).next
        (t := (c :: rest).drop (x.cut state c rest).length)
        (fun hm => h (List.mem_of_mem_drop hm))
      rw [Text.fold_cons, scanFrom_cons (by rwa [hcut]), scanFrom_cons hpos, hcut,
        ← Text.fold_cons, Text.take_fold, Text.drop_fold, ih]
      rfl
    · rw [Text.fold_cons, scanFrom, scanFrom]
      simp only [hcut, Nat.eq_zero_of_not_pos hpos, dite_true]
      rfl
termination_by t.length
decreasing_by
  simp only [List.length_drop, List.length_cons]
  omega

theorem scanLine_fold (state : LineState) {line : Text} (h : '\\' ∉ line) :
    x.scanLine state (Text.fold line) = (x.scanLine state line).fold := by
  rcases ended_or_broken state line with hended | ⟨quote, rfl, hbroken⟩
  · rw [scanLine_of_ended hended, scanLine_of_ended, scanFrom_fold hx state h]
    intro quote hstate
    rw [Literal.lookAhead_fold quote h]
    exact hended quote hstate
  · have hbroken' : Literal.lookAhead quote (Text.fold line) = .unterminated := by
      rw [Literal.lookAhead_fold quote h, hbroken]
    rw [scanLine_of_broken hbroken, scanLine_of_broken hbroken', Text.isEmpty_fold]
    split <;> rfl

theorem tokensOfLine_fold (offset : Nat) (entry : LineState) {l : Line} (h : '\\' ∉ l.content) :
    x.tokensOfLine offset entry l.fold = (x.tokensOfLine offset entry l).map Token.fold := by
  have hending : l.fold.ending = l.ending.map Lexeme.fold := by
    rw [Line.ending, Line.ending, Line.fold, Text.isEmpty_fold]
    split <;> rfl
  rw [tokensOfLine, tokensOfLine, hending, Line.fold, scanLine_fold hx entry h, Text.width_fold,
    LineScan.fold, Token.place_fold, Token.place_fold, List.map_append]

/-- The lines of a folded text have the tokens of the text's lines, folded, and end in the same
states. -/
theorem lineTokens_all_fold {s : Lines} (h : '\\' ∉ s.rest) :
    (({ s with rest := Text.fold s.rest } : Lines).all x).map Prod.fst =
      (s.all x).map fun p => p.1.fold := by
  obtain ⟨t, offset, state⟩ := s
  induction t using Text.linesInduction generalizing offset state with
  | last t ht =>
    have hfirst : Text.firstLine (Text.fold t) = ((⟨t, []⟩ : Line).fold, none) :=
      Text.firstLine_of_not_mem fun hm => ht (Text.feed_mem_fold_iff.1 hm)
    by_cases hnil : t = []
    · rw [hnil, Lines.all_of_none (Lines.next?_of_nil rfl),
        Lines.all_of_none (Lines.next?_of_nil rfl)]
      rfl
    · have hnil' : Text.fold t ≠ [] := by simpa [Text.fold] using hnil
      rw [Lines.all_of_some (Lines.next?_eq hnil' hfirst),
        Lines.all_of_none (Lines.next?_of_nil rfl),
        Lines.all_of_some (Lines.next?_eq hnil (Text.firstLine_of_not_mem ht)),
        Lines.all_of_none (Lines.next?_of_nil rfl)]
      simp only [List.map_cons, List.map_nil, tokensOfLine_fold hx offset state (l := ⟨t, []⟩) h]
      rw [Line.fold, scanLine_fold hx state h]
      rfl
  | next body rest hb ih =>
    have hfirst : Text.firstLine (Text.fold (body ++ '\n' :: rest)) =
        ((Line.terminated body).fold, some (Text.fold rest)) := by
      rw [← Line.terminated_fold,
        ← Text.firstLine_append fun hm => hb (Text.feed_mem_fold_iff.1 hm)]
      exact congrArg _ (Text.fold_append body ('\n' :: rest))
    have hcontent : '\\' ∉ (Line.terminated body).content := by
      intro hm
      refine h ?_
      have hfull := List.mem_append_left (Line.terminated body).terminator hm
      rw [← Line.full, Line.full_terminated] at hfull
      show '\\' ∈ body ++ '\n' :: rest
      rw [List.append_cons]
      exact List.mem_append_left rest hfull
    have hne : body ++ '\n' :: rest ≠ [] := by simp
    have hne' : Text.fold (body ++ '\n' :: rest) ≠ [] := by simp [Text.fold]
    have hrest : '\\' ∉ rest := by
      intro hm
      exact h (List.mem_append_right body (List.mem_cons_of_mem _ hm))
    rw [Lines.all_of_some (Lines.next?_eq hne' hfirst),
      Lines.all_of_some (s := ⟨body ++ '\n' :: rest, offset, state⟩)
        (Lines.next?_eq hne (Text.firstLine_append hb rest))]
    have ih := ih (offset + (Line.terminated body).full.width)
      (x.scanLine state (Line.terminated body).content).endState hrest
    simp only [List.map_cons, Option.getD_some, tokensOfLine_fold hx offset state hcontent,
      Line.full_fold, Text.width_fold]
    have hline : (Line.terminated body).fold.content =
        Text.fold (Line.terminated body).content := rfl
    rw [hline, scanLine_fold hx state hcontent]
    exact congrArg₂ List.cons rfl ih

theorem lines_fold {text : Text} (h : '\\' ∉ text) :
    x.lines (Text.fold text) = (x.lines text).map LineTokens.fold := by
  have hall := lineTokens_all_fold hx (s := Lines.ofText text) h
  rw [lines, lines, List.map_map]
  exact hall

theorem tokens_fold {text : Text} (h : '\\' ∉ text) :
    x.tokens (Text.fold text) = (x.tokens text).map Token.fold := by
  rw [tokens, tokens, lines_fold hx h, List.flatMap_map, List.map_flatMap]
  rfl

end Folded

end Lexicon
end SqlAssist
