import SqlAssist.Proofs.Text.Lines
import SqlAssist.Proofs.Token.Place
import SqlAssist.Proofs.Token.Run
import SqlAssist.Token.Stream

/-!
The tokens of a document, line by line.

`Lines` consumes the text it walks over and counts the bytes as it goes.  Here the lines are
given at once: a line's tokens follow from its content, the offset it starts at and the state it
begins in, and `tokens_eq_flatMap` puts the document together from them.  The offset is the width
of the lines above and the state is folded from their contents, so nothing else crosses a line
boundary.

The tokens of lines do not ask for progress.  Where the scanner is stuck it leaves out the rest of
a line, and the next line starts where it would have started anyway.  Where it comes to the end of
every line (`Finishes`), as it does when it makes progress, the lexemes of the lines add up to the
text, and a place in the document is known by the lexemes before it (`Arrives`).
-/

namespace SqlAssist

namespace Line

/-- The terminator as a lexeme of its own; none for the last line. -/
def ending (l : Line) : List Lexeme :=
  if l.terminator.isEmpty then [] else [⟨l.terminator, .whitespace⟩]

@[simp] theorem ending_unterminated (content : Text) : ending ⟨content, []⟩ = [] := rfl

theorem join_ending (l : Line) : l.ending.flatMap Lexeme.text = l.terminator := by
  rw [ending]
  split
  · next h => rw [List.isEmpty_iff.1 h]; rfl
  · simp

theorem mem_ending {l : Line} {e : Lexeme} (h : e ∈ l.ending) :
    e = ⟨l.terminator, .whitespace⟩ ∧ l.terminator ≠ [] := by
  rw [ending] at h
  split at h
  · simp at h
  · next hne => exact ⟨List.mem_singleton.1 h, fun e => hne (List.isEmpty_iff.2 e)⟩

end Line

namespace Token

def IsTerminator (t : Token) : Prop := t.text = ['\n'] ∨ t.text = ['\r', '\n']

end Token

namespace Lexicon

def stateAfter (x : Lexicon) (entry : LineState) (ls : List Line) : LineState :=
  ls.foldl (fun state l => (x.scanLine state l.content).endState) entry

/-- The state that a line of a document begins in: all lines above it are scanned. -/
def entryState (x : Lexicon) (text : Text) (line : Nat) : LineState :=
  x.stateAfter .root ((Text.lines text).take line)

/-- The tokens of one line, its terminator among them, when it starts at `offset`. -/
def tokensOfLine (x : Lexicon) (offset : Nat) (entry : LineState) (l : Line) : List Token :=
  Token.place offset (x.scanLine entry l.content).lexemes ++
    Token.place (offset + l.content.width) l.ending

def tokensOn (x : Lexicon) (text : Text) (line : Nat) : List Token :=
  match (Text.lines text)[line]? with
  | none => []
  | some l => x.tokensOfLine (Text.beforeLine text line).width (x.entryState text line) l

def tokensOfLines (x : Lexicon) (offset : Nat) (entry : LineState) : List Line → List Token
  | [] => []
  | l :: rest =>
    x.tokensOfLine offset entry l ++
      tokensOfLines x (offset + l.full.width) (x.scanLine entry l.content).endState rest

theorem stateAfter_append (x : Lexicon) (entry : LineState) (a b : List Line) :
    x.stateAfter entry (a ++ b) = x.stateAfter (x.stateAfter entry a) b :=
  List.foldl_append

theorem lexemes_scanLine_nil (x : Lexicon) (entry : LineState) :
    (x.scanLine entry []).lexemes = [] := by
  rcases ended_or_broken entry [] with hended | ⟨quote, rfl, hbroken⟩
  · rw [scanLine_of_ended hended, scanFrom_nil]
  · rw [scanLine_of_broken hbroken]
    rfl

end Lexicon

/-! ## Walking over the lines -/

namespace Lines

theorem next?_of_nil {x : Lexicon} {s : Lines} (h : s.rest = []) : s.next? x = none := by
  rw [next?, h]
  rfl

theorem next?_eq {x : Lexicon} {s : Lines} (h : s.rest ≠ []) {l : Line} {after? : Option Text}
    (hl : Text.firstLine s.rest = (l, after?)) :
    s.next? x =
      some (⟨x.tokensOfLine s.offset s.state l, (x.scanLine s.state l.content).endState⟩,
        ⟨after?.getD [], s.offset + l.full.width, (x.scanLine s.state l.content).endState⟩) := by
  rw [next?, if_neg (fun e => h (List.isEmpty_iff.1 e)), hl]
  rfl

theorem all_of_none {x : Lexicon} {s : Lines} (h : s.next? x = none) : s.all x = [] := by
  rw [all]
  split
  · rfl
  · next l s' hsome =>
    rw [h] at hsome
    simp at hsome

theorem all_of_some {x : Lexicon} {s s' : Lines} {l : LineTokens}
    (h : s.next? x = some (l, s')) : s.all x = (l, s') :: s'.all x := by
  rw [all]
  split
  · next hnone =>
    rw [h] at hnone
    simp at hnone
  · next l₁ s₁ hsome =>
    rw [h] at hsome
    obtain ⟨rfl, rfl⟩ : l = l₁ ∧ s' = s₁ := by simpa using hsome
    rfl

/-- The walk gives the tokens of the lines it walks over.  The empty line behind a last line feed
is not visited, and has no token. -/
theorem flatMap_all (x : Lexicon) (s : Lines) :
    (s.all x).flatMap (fun p => p.1.tokens) =
      x.tokensOfLines s.offset s.state (Text.lines s.rest) := by
  obtain ⟨t, offset, state⟩ := s
  induction t using Text.linesInduction generalizing offset state with
  | last t ht =>
    rw [Text.lines_of_not_mem ht]
    by_cases hnil : t = []
    · rw [all_of_none (next?_of_nil hnil), hnil]
      simp [Lexicon.tokensOfLines, Lexicon.tokensOfLine, Lexicon.lexemes_scanLine_nil, Token.place]
    · rw [all_of_some (next?_eq hnil (Text.firstLine_of_not_mem ht))]
      rw [all_of_none (next?_of_nil rfl)]
      rw [List.flatMap_cons, List.flatMap_nil, List.append_nil]
      simp only [Lexicon.tokensOfLines, List.append_nil]
  | next body rest hb ih =>
    have hne : body ++ '\n' :: rest ≠ [] := by simp
    rw [Text.lines_append hb]
    rw [all_of_some (next?_eq hne (Text.firstLine_append hb rest)), List.flatMap_cons]
    simp only [Option.getD_some, ih, Lexicon.tokensOfLines]

theorem state_of_next? {x : Lexicon} {s s' : Lines} {l : LineTokens}
    (h : s.next? x = some (l, s')) : s'.state = l.endState := by
  rw [next?] at h
  split at h
  · simp at h
  · obtain ⟨rfl, rfl⟩ : _ = l ∧ _ = s' := by simpa using h
    rfl

theorem endState_of_next? {x : Lexicon} {s s' : Lines} {l : LineTokens}
    (h : s.next? x = some (l, s')) : s.endState x = s'.endState x := by
  rw [endState, endState, all_of_some h, List.getLast?_cons]
  cases (s'.all x).getLast? with
  | none => exact (state_of_next? h).symm
  | some last => rfl

/-- The walk ends in the state behind all lines, also where it does not visit an empty last line:
that line changes the state only when it breaks a literal. -/
theorem endState_of_ne_root {x : Lexicon} {s : Lines}
    (h : x.stateAfter s.state (Text.lines s.rest) ≠ .root) :
    s.endState x = x.stateAfter s.state (Text.lines s.rest) := by
  obtain ⟨t, offset, state⟩ := s
  induction t using Text.linesInduction generalizing offset state with
  | last t ht =>
    rw [Text.lines_of_not_mem ht] at h ⊢
    by_cases hnil : t = []
    · have hall : (⟨t, offset, state⟩ : Lines).all x = [] := all_of_none (next?_of_nil hnil)
      subst hnil
      rw [endState, hall]
      rcases Lexicon.ended_or_broken state [] with hended | ⟨quote, rfl, hbroken⟩
      · show state = (x.scanLine state []).endState
        rw [Lexicon.scanLine_of_ended hended, Lexicon.scanFrom_nil]
      · refine absurd ?_ h
        show (x.scanLine (.literal quote) []).endState = .root
        rw [Lexicon.scanLine_of_broken hbroken]
    · rw [endState_of_next? (next?_eq hnil (Text.firstLine_of_not_mem ht)), endState,
        all_of_none (next?_of_nil rfl)]
      rfl
  | next body rest hb ih =>
    rw [Text.lines_append hb] at h ⊢
    have hne : body ++ '\n' :: rest ≠ [] := by simp
    rw [endState_of_next? (next?_eq hne (Text.firstLine_append hb rest))]
    exact ih _ _ h

end Lines

namespace Lexicon

theorem tokens_eq_tokensOfLines (x : Lexicon) (text : Text) :
    x.tokens text = x.tokensOfLines 0 .root (Text.lines text) := by
  rw [tokens, lines, List.flatMap_map]
  exact Lines.flatMap_all x (Lines.ofText text)

theorem tokensOfLines_append (x : Lexicon) (offset : Nat) (entry : LineState) (a b : List Line) :
    x.tokensOfLines offset entry (a ++ b) =
      x.tokensOfLines offset entry a ++
        x.tokensOfLines (offset + Text.width (a.flatMap Line.full)) (x.stateAfter entry a) b := by
  induction a generalizing offset entry with
  | nil => rfl
  | cons l rest ih =>
    rw [List.cons_append, tokensOfLines, tokensOfLines, ih, List.append_assoc, List.flatMap_cons,
      Text.width_append, Nat.add_assoc]
    rfl

theorem tokensOfLines_eq_flatMap (x : Lexicon) (offset : Nat) (entry : LineState)
    (ls : List Line) :
    x.tokensOfLines offset entry ls =
      (List.range ls.length).flatMap fun i =>
        match ls[i]? with
        | none => []
        | some l =>
          x.tokensOfLine (offset + Text.width ((ls.take i).flatMap Line.full))
            (x.stateAfter entry (ls.take i)) l := by
  induction ls generalizing offset entry with
  | nil => rfl
  | cons l rest ih =>
    rw [tokensOfLines, ih, List.length_cons, List.range_succ_eq_map, List.flatMap_cons,
      List.flatMap_map]
    simp [Nat.add_assoc, stateAfter]

/-- A document's tokens are those of its lines, each scanned from its own state. -/
theorem tokens_eq_flatMap (x : Lexicon) (text : Text) :
    x.tokens text = (List.range (Text.lineCount text)).flatMap (x.tokensOn text) := by
  rw [tokens_eq_tokensOfLines, tokensOfLines_eq_flatMap]
  simp only [Nat.zero_add]
  rfl

theorem le_start_of_mem_tokensOfLine {x : Lexicon} {offset : Nat} {entry : LineState} {l : Line}
    {t : Token} (h : t ∈ x.tokensOfLine offset entry l) : offset ≤ t.start := by
  rcases List.mem_append.1 h with h | h
  · exact Token.le_start_of_mem_place h
  · exact Nat.le_trans (Nat.le_add_right _ _) (Token.le_start_of_mem_place h)

theorem stop_le_of_mem_tokensOfLine {x : Lexicon} {offset : Nat} {entry : LineState} {l : Line}
    {t : Token} (h : t ∈ x.tokensOfLine offset entry l) : t.stop ≤ offset + l.full.width := by
  have hfull : l.full.width = l.content.width + l.terminator.width := Text.width_append _ _
  rcases List.mem_append.1 h with h | h
  · obtain ⟨more, hmore⟩ := scanLine_prefix x entry l.content
    have hstop := Token.stop_le_of_mem_place h
    have hcontent := congrArg Text.width hmore
    rw [Text.width_append] at hcontent
    omega
  · have hstop := Token.stop_le_of_mem_place h
    rw [l.join_ending] at hstop
    omega

theorem le_start_of_mem_tokensOfLines {x : Lexicon} {offset : Nat} {entry : LineState}
    {ls : List Line} {t : Token} (h : t ∈ x.tokensOfLines offset entry ls) : offset ≤ t.start := by
  induction ls generalizing offset entry with
  | nil => simp [tokensOfLines] at h
  | cons l rest ih =>
    rcases List.mem_append.1 h with h | h
    · exact le_start_of_mem_tokensOfLine h
    · exact Nat.le_trans (Nat.le_add_right _ _) (ih h)

theorem stop_le_of_mem_tokensOfLines {x : Lexicon} {offset : Nat} {entry : LineState}
    {ls : List Line} {t : Token} (h : t ∈ x.tokensOfLines offset entry ls) :
    t.stop ≤ offset + Text.width (ls.flatMap Line.full) := by
  induction ls generalizing offset entry with
  | nil => simp [tokensOfLines] at h
  | cons l rest ih =>
    rw [List.flatMap_cons, Text.width_append]
    rcases List.mem_append.1 h with h | h
    · have := stop_le_of_mem_tokensOfLine h
      omega
    · have := ih h
      omega

theorem mem_tokens_iff {x : Lexicon} {text : Text} {t : Token} :
    t ∈ x.tokens text ↔ ∃ line, t ∈ x.tokensOn text line := by
  rw [tokens_eq_flatMap, List.mem_flatMap]
  constructor
  · rintro ⟨line, -, ht⟩
    exact ⟨line, ht⟩
  · rintro ⟨line, ht⟩
    refine ⟨line, ?_, ht⟩
    rw [List.mem_range]
    rw [tokensOn] at ht
    split at ht
    · simp at ht
    · next l hl => exact Text.lt_lineCount_of_getElem? hl

theorem tokensOn_of_getElem? {x : Lexicon} {text : Text} {line : Nat} {l : Line}
    (h : (Text.lines text)[line]? = some l) :
    x.tokensOn text line =
      x.tokensOfLine (Text.beforeLine text line).width (x.entryState text line) l := by
  rw [tokensOn, h]

/-- A token on a line is one of its content, moved to where the line starts, or its terminator. -/
theorem mem_tokensOn_iff {x : Lexicon} {text : Text} {line : Nat} {l : Line}
    (h : (Text.lines text)[line]? = some l) {t : Token} :
    t ∈ x.tokensOn text line ↔
      (∃ u ∈ (x.lineTokens (x.entryState text line) l.content).tokens,
        t = { u with start := (Text.beforeLine text line).width + u.start }) ∨
      l.terminator ≠ [] ∧
        t = ⟨l.terminator, .whitespace, (Text.beforeLine text line).width + l.content.width⟩ := by
  rw [tokensOn_of_getElem? h, tokensOfLine, List.mem_append,
    ← Nat.add_zero (Text.beforeLine text line).width, Token.place_add, List.mem_map, Nat.add_zero]
  refine or_congr ⟨?_, ?_⟩ ?_
  · rintro ⟨u, hu, rfl⟩
    exact ⟨u, hu, rfl⟩
  · rintro ⟨u, hu, rfl⟩
    exact ⟨u, hu, rfl⟩
  · rw [Line.ending]
    split
    · next hnil => simp [Token.place, List.isEmpty_iff.1 hnil]
    · next hne => simpa [Token.place] using fun _ hnil => hne (List.isEmpty_iff.2 hnil)

theorem exists_line_of_mem_tokens {x : Lexicon} {text : Text} {t : Token} (h : t ∈ x.tokens text) :
    ∃ line l, (Text.lines text)[line]? = some l ∧ t ∈ x.tokensOn text line := by
  obtain ⟨line, ht⟩ := mem_tokens_iff.1 h
  cases hl : (Text.lines text)[line]? with
  | none => simp [tokensOn, hl] at ht
  | some l => exact ⟨line, l, hl, ht⟩

theorem entryState_succ {x : Lexicon} {text : Text} {line : Nat} {l : Line}
    (h : (Text.lines text)[line]? = some l) :
    x.entryState text (line + 1) = (x.scanLine (x.entryState text line) l.content).endState := by
  rw [entryState, List.take_add_one, h, stateAfter_append]
  rfl

/-! ## States that make progress -/

theorem progresses_scanLine {x : Lexicon} {entry : LineState} (h : x.Progresses entry)
    (line : Text) : x.Progresses (x.scanLine entry line).endState :=
  (reaches_scanLine h line).progresses h

theorem progresses_stateAfter {x : Lexicon} {entry : LineState} (h : x.Progresses entry)
    (ls : List Line) : x.Progresses (x.stateAfter entry ls) := by
  induction ls generalizing entry with
  | nil => exact h
  | cons l rest ih => exact ih (progresses_scanLine h l.content)

/-- A place in front of a character of a line lies in a token of that line, and the document has
this token in its place. -/
theorem exists_token_of_content {x : Lexicon} (hprogress : x.Progresses .root) {text : Text}
    {i : Nat} {l : Line} (hl : (Text.lines text)[i]? = some l) {u v : Text}
    (hcontent : l.content = u ++ v) (hv : v ≠ []) :
    ∃ t ∈ (x.lineTokens (x.entryState text i) l.content).tokens, t.contains u.width = true ∧
      { t with start := (Text.beforeLine text i).width + t.start } ∈ x.tokens text := by
  have hentry : x.Progresses (x.entryState text i) := progresses_stateAfter hprogress _
  have hjoin := (reaches_scanLine hentry l.content).join_of_end
  have hwidth : u.width < l.content.width := by
    have hpos := Text.width_pos hv
    rw [hcontent, Text.width_append]
    omega
  obtain ⟨t, ht, hto⟩ := Token.exists_contains (Nat.zero_le _)
    (by rw [Nat.zero_add, hjoin]; exact hwidth)
  exact ⟨t, ht, hto, mem_tokens_iff.2 ⟨i, (mem_tokensOn_iff hl).2 (Or.inl ⟨t, ht, rfl⟩)⟩⟩

/-! ## The lexemes of lines -/

def lexemesOfLine (x : Lexicon) (entry : LineState) (l : Line) : List Lexeme :=
  (x.scanLine entry l.content).lexemes ++ l.ending

def lexemesOfLines (x : Lexicon) (entry : LineState) : List Line → List Lexeme
  | [] => []
  | l :: rest =>
    x.lexemesOfLine entry l ++ lexemesOfLines x (x.scanLine entry l.content).endState rest

/-- The scan of some lines, of which the first begins in `entry`, comes to the end of each of
them. -/
inductive Finishes (x : Lexicon) : LineState → List Line → Prop
  | nil (entry : LineState) : Finishes x entry []
  | cons {entry state : LineState} {l : Line} {below : List Line} {lexemes : List Lexeme}
      (reaches : x.Reaches entry l.content lexemes state []) (more : Finishes x state below) :
      Finishes x entry (l :: below)

theorem finishes_of_progresses {x : Lexicon} {entry : LineState} (h : x.Progresses entry)
    (ls : List Line) : x.Finishes entry ls := by
  induction ls generalizing entry with
  | nil => exact .nil entry
  | cons l below ih => exact .cons (reaches_scanLine h l.content) (ih (progresses_scanLine h _))

namespace Reaches

variable {x : Lexicon} {entry state : LineState} {l : Line} {lexemes : List Lexeme}

theorem join_lexemesOfLine (h : x.Reaches entry l.content lexemes state []) :
    (x.lexemesOfLine entry l).flatMap Lexeme.text = l.full := by
  rw [lexemesOfLine, h.scanLine_of_end, List.flatMap_append, h.join_of_end, l.join_ending,
    Line.full]

theorem tokensOfLine_eq_place (h : x.Reaches entry l.content lexemes state []) (offset : Nat) :
    x.tokensOfLine offset entry l = Token.place offset (x.lexemesOfLine entry l) := by
  rw [tokensOfLine, lexemesOfLine, h.scanLine_of_end, Token.place_append, h.join_of_end]

end Reaches

namespace Finishes

variable {x : Lexicon} {entry : LineState} {ls : List Line}

/-- The lexemes of lines add up to them. -/
theorem join_lexemesOfLines (h : x.Finishes entry ls) :
    (x.lexemesOfLines entry ls).flatMap Lexeme.text = ls.flatMap Line.full := by
  induction h with
  | nil => rfl
  | cons reaches more ih =>
    rw [lexemesOfLines, List.flatMap_append, reaches.join_lexemesOfLine, reaches.scanLine_of_end,
      ih, List.flatMap_cons]

/-- The tokens of lines are their lexemes in their places. -/
theorem tokensOfLines_eq_place (h : x.Finishes entry ls) (offset : Nat) :
    x.tokensOfLines offset entry ls = Token.place offset (x.lexemesOfLines entry ls) := by
  induction h generalizing offset with
  | nil => rfl
  | cons reaches more ih =>
    rw [tokensOfLines, lexemesOfLines, Token.place_append, reaches.tokensOfLine_eq_place,
      reaches.join_lexemesOfLine, reaches.scanLine_of_end, ih]

theorem ne_nil (h : x.Finishes entry ls) : ∀ e ∈ x.lexemesOfLines entry ls, e.text ≠ [] := by
  induction h with
  | nil => simp [lexemesOfLines]
  | @cons entry state l below lexemes reaches more ih =>
    intro e he
    rw [lexemesOfLines, lexemesOfLine, reaches.scanLine_of_end, List.mem_append,
      List.mem_append] at he
    rcases he with (he | he) | he
    · exact reaches.ne_nil e he
    · obtain ⟨rfl, hterminator⟩ := l.mem_ending he
      exact hterminator
    · exact ih e he

variable {text : Text}

theorem tokens_eq_place (h : x.Finishes .root (Text.lines text)) :
    x.tokens text = Token.place 0 (x.lexemesOfLines .root (Text.lines text)) := by
  rw [tokens_eq_tokensOfLines, h.tokensOfLines_eq_place]

theorem join_lexemesOfLines_lines (h : x.Finishes .root (Text.lines text)) :
    (x.lexemesOfLines .root (Text.lines text)).flatMap Lexeme.text = text := by
  rw [h.join_lexemesOfLines, Text.flatMap_full_lines]

end Finishes

theorem join_lexemesOfLine {x : Lexicon} {entry : LineState} (h : x.Progresses entry) (l : Line) :
    (x.lexemesOfLine entry l).flatMap Lexeme.text = l.full :=
  (reaches_scanLine h l.content).join_lexemesOfLine

theorem tokens_eq_place {x : Lexicon} (h : x.Progresses .root) (text : Text) :
    x.tokens text = Token.place 0 (x.lexemesOfLines .root (Text.lines text)) :=
  (finishes_of_progresses h _).tokens_eq_place

/-! ## Places on lines -/

/-- The scan of some lines, of which the first begins in `entry`, comes to `state` on one of them,
with the lexemes `before` behind it. -/
inductive Arrives (x : Lexicon) : LineState → List Line → List Lexeme → LineState → Prop
  | here {entry state : LineState} {l : Line} {below : List Line} {before : List Lexeme}
      {rest : Text} (reaches : x.Reaches entry l.content before state rest) :
      Arrives x entry (l :: below) before state
  | later {entry state : LineState} {l : Line} {below : List Line} {before : List Lexeme}
      (more : Arrives x (x.scanLine entry l.content).endState below before state) :
      Arrives x entry (l :: below) (x.lexemesOfLine entry l ++ before) state

def StandsAt (x : Lexicon) (text : Text) (state : LineState) (offset : Nat) : Prop :=
  ∃ before, x.Arrives .root (Text.lines text) before state ∧
    Text.width (before.flatMap Lexeme.text) = offset

theorem Arrives.exists_lexemesOfLines {x : Lexicon} {entry state : LineState} {ls : List Line}
    {before : List Lexeme} (h : x.Arrives entry ls before state) :
    ∃ after, x.lexemesOfLines entry ls = before ++ after := by
  induction h with
  | here reaches =>
    rw [lexemesOfLines, lexemesOfLine, reaches.scanLine_eq, List.append_assoc, List.append_assoc]
    exact ⟨_, rfl⟩
  | later more ih =>
    obtain ⟨after, hafter⟩ := ih
    exact ⟨after, by rw [lexemesOfLines, hafter, List.append_assoc]⟩

theorem Arrives.exists_text {x : Lexicon} {state : LineState} {text : Text} {before : List Lexeme}
    (h : x.Arrives .root (Text.lines text) before state) (hprogress : x.Progresses .root) :
    ∃ back, text = before.flatMap Lexeme.text ++ back := by
  obtain ⟨after, hafter⟩ := h.exists_lexemesOfLines
  have hjoin := (finishes_of_progresses hprogress (Text.lines text)).join_lexemesOfLines_lines
  rw [hafter, List.flatMap_append] at hjoin
  exact ⟨_, hjoin.symm⟩

theorem arrives_start (x : Lexicon) {entry : LineState} (h : ∀ quote, entry ≠ .literal quote)
    (text : Text) : x.Arrives entry (Text.lines text) [] entry := by
  obtain ⟨l, below, hlines⟩ : ∃ l below, Text.lines text = l :: below :=
    List.exists_cons_of_length_pos (Text.lineCount_pos text)
  rw [hlines]
  exact .here (.steps (fun quote hentry => absurd hentry (h quote)) (.refl entry l.content))

end Lexicon
end SqlAssist
