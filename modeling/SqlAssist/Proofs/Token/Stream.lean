import SqlAssist.Proofs.Token.Resume

/-!
The lazy stream of tokens and the list of all tokens.

A stream has handed out some of the tokens of a text, and from there on is known by what it holds:
the tokens left of the line that it scanned last, and a place behind that line (`HandedOut`).  A
call hands out the next token and keeps this form, or it finds nothing left and changes nothing.
It has to scan at most one line, because every line has a token where the scan comes to its end.
So the state of the stream is the one behind the line of the last token it gave, and not of any
line below.
-/

namespace SqlAssist

namespace Lines

variable {x : Lexicon}

theorem scanned_of_some {s s' : Lines} {l : LineTokens} (h : s.next? x = some (l, s')) :
    s.scanned x = l :: s'.scanned x := by
  rw [scanned, all_of_some h]
  rfl

/-- A line that is not empty, and is scanned to its end, has a last token that ends with it. -/
theorem exists_last_of_reaches {entry state : LineState} {l : Line} {lexemes : List Lexeme}
    (h : x.Reaches entry l.content lexemes state []) (hne : l.full ≠ []) (offset : Nat) :
    ∃ t, (x.tokensOfLine offset entry l).getLast? = some t ∧ t.stop = offset + l.full.width := by
  have hstop := Token.stop_getLast?_place offset (x.lexemesOfLine entry l)
  have hpos := Text.width_pos hne
  rw [h.join_lexemesOfLine, ← h.tokensOfLine_eq_place] at hstop
  cases hlast : (x.tokensOfLine offset entry l).getLast? with
  | none =>
    rw [hlast] at hstop
    simp only [Option.map_none, Option.getD_none] at hstop
    omega
  | some t =>
    rw [hlast] at hstop
    exact ⟨t, rfl, hstop⟩

/-- Behind a line the walk stands where its last token ends, in the state that the line ends in. -/
theorem exists_last_of_mem_all {s : Lines} (h : x.Finishes s.state (Text.lines s.rest)) :
    ∀ p ∈ s.all x,
      ∃ t, p.1.tokens.getLast? = some t ∧ p.2.offset = t.stop ∧ p.2.state = p.1.endState := by
  obtain ⟨t, offset, state⟩ := s
  induction t using Text.linesInduction generalizing offset state with
  | last t ht =>
    by_cases hnil : t = []
    · rw [all_of_none (next?_of_nil hnil)]
      simp
    · rw [Text.lines_of_not_mem ht] at h
      cases h with
      | cons reaches more =>
        have hfull : (⟨t, []⟩ : Line).full ≠ [] := by rwa [Line.full, List.append_nil]
        obtain ⟨u, hu, hstop⟩ := exists_last_of_reaches reaches hfull offset
        rw [all_of_some (next?_eq hnil (Text.firstLine_of_not_mem ht)),
          all_of_none (next?_of_nil rfl), List.forall_mem_singleton]
        exact ⟨u, hu, hstop.symm, rfl⟩
  | next body rest hb ih =>
    rw [Text.lines_append hb] at h
    cases h with
    | cons reaches more =>
      have hfull : (Line.terminated body).full ≠ [] := by simp
      obtain ⟨u, hu, hstop⟩ := exists_last_of_reaches reaches hfull offset
      rw [all_of_some (next?_line hb rest), List.forall_mem_cons]
      refine ⟨⟨u, hu, hstop.symm, rfl⟩, ?_⟩
      rw [reaches.scanLine_of_end]
      exact ih _ _ more

end Lines

namespace Lexicon.Finishes

variable {x : Lexicon} {text : Text}

theorem tokens_ne_nil_of_mem_lines (h : x.Finishes .root (Text.lines text)) :
    ∀ l ∈ x.lines text, l.tokens ≠ [] := by
  intro l hl hnil
  obtain ⟨p, hp, rfl⟩ := List.mem_map.1 hl
  obtain ⟨t, ht, -⟩ := Lines.exists_last_of_mem_all (s := Lines.ofText text) h p hp
  rw [hnil] at ht
  simp at ht

theorem tokens_ne_nil (h : x.Finishes .root (Text.lines text)) (hne : text ≠ []) :
    x.tokens text ≠ [] := by
  intro hnil
  have hlexemes := congrArg List.length h.tokens_eq_place
  rw [hnil, Token.length_place, List.length_nil] at hlexemes
  have hjoin := h.join_lexemesOfLines_lines
  rw [List.length_eq_zero_iff.1 hlexemes.symm] at hjoin
  exact hne hjoin.symm

end Lexicon.Finishes

namespace Stream

variable {x : Lexicon} {text : Text}

def calls (x : Lexicon) : Nat → Stream → List (Option Token) × Stream
  | 0, s => ([], s)
  | n + 1, s =>
    let (answer, s') := s.next x
    let (answers, s'') := calls x n s'
    (answer :: answers, s'')

theorem calls_succ (n : Nat) (s : Stream) :
    s.calls x (n + 1) =
      ((s.next x).1 :: ((s.next x).2.calls x n).1, ((s.next x).2.calls x n).2) := rfl

/-- The answers of a stream and of a copy of it that are called by turns, where `true` is a turn of
the copy. -/
def callsByTurns (x : Lexicon) : List Bool → Stream → Stream →
    List (Option Token) × List (Option Token)
  | [], _, _ => ([], [])
  | false :: turns, s, copy =>
    let (answer, s') := s.next x
    let (answers, copied) := callsByTurns x turns s' copy
    (answer :: answers, copied)
  | true :: turns, s, copy =>
    let (answer, copy') := copy.next x
    let (answers, copied) := callsByTurns x turns s copy'
    (answers, answer :: copied)

theorem callsByTurns_eq (turns : List Bool) (s copy : Stream) :
    callsByTurns x turns s copy =
      ((calls x (turns.count false) s).1, (calls x (turns.count true) copy).1) := by
  induction turns generalizing s copy with
  | nil => rfl
  | cons turn turns ih =>
    cases turn with
    | false => simp [callsByTurns, calls, ih]
    | true => simp [callsByTurns, calls, ih]

/-- A stream over `text` that has handed out `given`.  It is fresh, or it has some tokens of a line
behind it and holds the others, and nothing below that line is scanned. -/
inductive HandedOut (x : Lexicon) (text : Text) : List Token → Stream → Prop
  | fresh : HandedOut x text [] (ofText text)
  | within {above below : List LineTokens} {l : LineTokens} {front back : List Token}
      {lines : Lines} (hlines : x.lines text = above ++ l :: below)
      (htokens : l.tokens = front ++ back) (hfront : front ≠ []) (hbelow : lines.scanned x = below)
      (hstate : lines.state = l.endState) :
      HandedOut x text (above.flatMap LineTokens.tokens ++ front) ⟨lines, back⟩

theorem refill_of_none {lines : Lines} (h : lines.next? x = none) :
    refill x lines = (none, ⟨lines, []⟩) := by
  rw [refill]
  split
  · rfl
  · next hsome =>
    rw [h] at hsome
    simp at hsome

theorem refill_of_some {lines lines' : Lines} {l : LineTokens} {t : Token} {rest : List Token}
    (h : lines.next? x = some (l, lines')) (hl : l.tokens = t :: rest) :
    refill x lines = (some t, ⟨lines', rest⟩) := by
  rw [refill]
  split
  · next hnone =>
    rw [h] at hnone
    simp at hnone
  · next l₁ lines₁ hsome =>
    rw [h] at hsome
    obtain ⟨rfl, rfl⟩ : l = l₁ ∧ lines' = lines₁ := by simpa using hsome
    rw [hl]

theorem scanned_eq_nil_or_cons (lines : Lines) :
    lines.next? x = none ∧ lines.scanned x = [] ∨
      ∃ l lines', lines.next? x = some (l, lines') ∧ lines.scanned x = l :: lines'.scanned x := by
  cases h : lines.next? x with
  | none => exact Or.inl ⟨rfl, by rw [Lines.scanned, Lines.all_of_none h]; rfl⟩
  | some next => exact Or.inr ⟨next.1, next.2, rfl, Lines.scanned_of_some h⟩

/-- A stream that holds no token scans the next line for one, if there is a line. -/
theorem refill_handedOut (htokens : ∀ l ∈ x.lines text, l.tokens ≠ []) (above : List LineTokens)
    (lines : Lines) (h : x.lines text = above ++ lines.scanned x) :
    (∃ t s, refill x lines = (some t, s) ∧
        HandedOut x text (above.flatMap LineTokens.tokens ++ [t]) s) ∨
      refill x lines = (none, ⟨lines, []⟩) ∧
        above.flatMap LineTokens.tokens = x.tokens text := by
  rcases scanned_eq_nil_or_cons lines with ⟨hnone, hscanned⟩ | ⟨l, lines', hsome, hscanned⟩
  · rw [hscanned, List.append_nil] at h
    exact Or.inr ⟨refill_of_none hnone, by rw [← h]; rfl⟩
  · rw [hscanned] at h
    obtain ⟨t, rest, hl⟩ := List.exists_cons_of_ne_nil (htokens l (by rw [h]; simp))
    exact Or.inl ⟨t, ⟨lines', rest⟩, refill_of_some hsome hl,
      .within h hl (List.cons_ne_nil t []) rfl (Lines.state_of_next? hsome)⟩

namespace HandedOut

variable {given : List Token} {s : Stream}

/-- A call hands out one more token, or all are handed out and nothing changes. -/
theorem next_cases (h : HandedOut x text given s)
    (htokens : ∀ l ∈ x.lines text, l.tokens ≠ []) :
    (∃ t s', s.next x = (some t, s') ∧ HandedOut x text (given ++ [t]) s') ∨
      s.next x = (none, s) ∧ given = x.tokens text := by
  cases h with
  | fresh => exact refill_handedOut htokens [] (.ofText text) rfl
  | @within above below l front back lines hlines hl hfront hbelow hstate =>
    cases back with
    | nil =>
      rw [List.append_nil] at hl
      have hnext := refill_handedOut htokens (above ++ [l]) lines
        (by rw [hlines, hbelow, List.append_assoc]; rfl)
      rwa [List.flatMap_append, List.flatMap_singleton, hl] at hnext
    | cons t rest =>
      refine Or.inl ⟨t, ⟨lines, rest⟩, rfl, ?_⟩
      rw [List.append_assoc]
      exact .within hlines (by rw [hl, List.append_assoc]; rfl) (by simp) hbelow hstate

theorem isPrefix (h : HandedOut x text given s) : given <+: x.tokens text := by
  cases h with
  | fresh => exact List.nil_prefix
  | @within above below l front back lines hlines hl hfront hbelow hstate =>
    refine ⟨back ++ below.flatMap LineTokens.tokens, ?_⟩
    rw [Lexicon.tokens, hlines, List.flatMap_append, List.flatMap_cons, hl]
    simp only [List.append_assoc]

/-- The call behind `n` tokens answers with the next one, or with `none` behind the last. -/
theorem next {n : Nat} (h : HandedOut x text ((x.tokens text).take n) s)
    (htokens : ∀ l ∈ x.lines text, l.tokens ≠ []) :
    (s.next x).1 = (x.tokens text)[n]? ∧
      HandedOut x text ((x.tokens text).take (n + 1)) (s.next x).2 := by
  rcases h.next_cases htokens with ⟨t, s', hnext, h'⟩ | ⟨hnext, hall⟩
  · obtain ⟨rest, hrest⟩ := h'.isPrefix
    have htotal := congrArg List.length hrest
    simp only [List.length_append, List.length_take, List.length_singleton] at htotal
    have hlength : ((x.tokens text).take n).length = n := List.length_take_of_le (by omega)
    have htake : (x.tokens text).take n ++ [t] = (x.tokens text).take (n + 1) := by
      have hprefix := List.prefix_iff_eq_take.1 h'.isPrefix
      rwa [List.length_append, hlength] at hprefix
    have ht : (x.tokens text)[n]? = some t := by
      rw [← hrest, List.append_assoc, List.getElem?_append_right (Nat.le_of_eq hlength), hlength,
        Nat.sub_self]
      rfl
    rw [hnext, ht, ← htake]
    exact ⟨rfl, h'⟩
  · have htotal : (x.tokens text).length ≤ n := by
      rw [← hall]
      exact List.length_take_le n _
    rw [hnext, List.getElem?_eq_none htotal, List.take_of_length_le (Nat.le_succ_of_le htotal),
      ← hall]
    exact ⟨rfl, h⟩

theorem calls {n : Nat} (h : HandedOut x text ((x.tokens text).take n) s)
    (htokens : ∀ l ∈ x.lines text, l.tokens ≠ []) (m : Nat) :
    (s.calls x m).1 = (List.range m).map (fun i => (x.tokens text)[n + i]?) ∧
      HandedOut x text ((x.tokens text).take (n + m)) (s.calls x m).2 := by
  induction m generalizing n s with
  | zero => exact ⟨rfl, h⟩
  | succ m ih =>
    obtain ⟨hfirst, hnext⟩ := h.next htokens
    obtain ⟨hrest, hafter⟩ := ih hnext
    rw [Nat.add_assoc, Nat.add_comm 1] at hafter
    refine ⟨?_, hafter⟩
    rw [calls_succ, hfirst, hrest, List.range_succ_eq_map, List.map_cons, List.map_map]
    simp only [Function.comp_def, Nat.succ_eq_add_one, Nat.add_assoc, Nat.add_comm 1, Nat.add_zero]

/-- The state behind the line of the last token that was handed out. -/
theorem exists_line (h : HandedOut x text given s) (hgiven : given ≠ []) :
    ∃ above l below front t back, x.lines text = above ++ l :: below ∧
      l.tokens = front ++ t :: back ∧
      given = above.flatMap LineTokens.tokens ++ front ++ [t] ∧ s.state = l.endState := by
  cases h with
  | fresh => exact absurd rfl hgiven
  | @within above below l front back lines hlines hl hfront hbelow hstate =>
    obtain ⟨before, t, rfl⟩ := List.eq_nil_or_concat front |>.resolve_left hfront
    exact ⟨above, l, below, before, t, back, hlines, by simp [hl], by simp, hstate⟩

theorem state_of_nil (h : HandedOut x [] given s) : s.state = .root := by
  have hnone : x.lines [] = [] := Lines.scanned_nil
  cases h with
  | fresh => rfl
  | within hlines =>
    rw [hnone] at hlines
    simp at hlines

theorem calls_of_none (h : HandedOut x text given s) (htokens : ∀ l ∈ x.lines text, l.tokens ≠ [])
    (hnone : (s.next x).1 = none) (m : Nat) : s.calls x m = (List.replicate m none, s) := by
  have hnext : s.next x = (none, s) := by
    rcases h.next_cases htokens with ⟨t, s', hnext, -⟩ | ⟨hnext, -⟩
    · rw [hnext] at hnone
      simp at hnone
    · exact hnext
  induction m with
  | zero => rfl
  | succ m ih => rw [calls_succ, hnext, ih, List.replicate_succ]

end HandedOut

/-- What `n` calls on a fresh stream over `text` lead to, their answers and the stream after them,
against the lines of the text and their tokens. -/
structure Follows (x : Lexicon) (text : Text) (n : Nat) (answers : List (Option Token))
    (s : Stream) : Prop where
  answered : answers = (List.range n).map fun i => (x.tokens text)[i]?
  /-- The stream and a copy of it both go on with the next token, whichever is called. -/
  copied : ∀ turns, callsByTurns x turns s s =
    ((List.range (turns.count false)).map (fun i => (x.tokens text)[n + i]?),
      (List.range (turns.count true)).map (fun i => (x.tokens text)[n + i]?))
  untouched : n = 0 ∨ text = [] → s.state = .root
  /-- The state is the one behind the line `l` of the last token `t`. -/
  lastLine : n ≠ 0 → text ≠ [] →
    ∃ above l below front t back, x.lines text = above ++ l :: below ∧
      l.tokens = front ++ t :: back ∧
      (x.tokens text).take n = above.flatMap LineTokens.tokens ++ front ++ [t] ∧
      s.state = l.endState ∧ ((x.tokens text).length ≤ n → below = [])
  exhausted : (s.next x).1 = none → ∀ m, s.calls x m = (List.replicate m none, s)

theorem follows_calls (h : x.Finishes .root (Text.lines text)) (n : Nat) :
    Follows x text n ((ofText text).calls x n).1 ((ofText text).calls x n).2 := by
  have htokens := h.tokens_ne_nil_of_mem_lines
  have hfresh : HandedOut x text ((x.tokens text).take 0) (ofText text) := .fresh
  obtain ⟨hanswers, hafter⟩ := hfresh.calls htokens n
  simp only [Nat.zero_add] at hanswers hafter
  constructor
  case answered => exact hanswers
  case copied =>
    intro turns
    rw [callsByTurns_eq, (hafter.calls htokens _).1, (hafter.calls htokens _).1]
  case untouched =>
    rintro (rfl | rfl)
    · rfl
    · exact hafter.state_of_nil
  case lastLine =>
    intro hn htext
    obtain ⟨above, l, below, front, t, back, hlines, hl, hgiven, hstate⟩ :=
      hafter.exists_line (by simpa [List.take_eq_nil_iff] using ⟨hn, h.tokens_ne_nil htext⟩)
    refine ⟨above, l, below, front, t, back, hlines, hl, hgiven, hstate, fun hall => ?_⟩
    -- every line has a token, so that no line is left when no token is
    have hrest : back ++ below.flatMap LineTokens.tokens = [] := by
      rw [List.take_of_length_le hall, Lexicon.tokens, hlines, List.flatMap_append,
        List.flatMap_cons, hl] at hgiven
      simpa using hgiven
    refine List.eq_nil_iff_forall_not_mem.2 fun l' hl' => ?_
    refine htokens l' (by rw [hlines]; simp [hl']) ?_
    exact List.flatMap_eq_nil_iff.1 (List.append_eq_nil_iff.1 hrest).2 l' hl'
  case exhausted => exact hafter.calls_of_none htokens

/-- Calls on a stream over a text follow the list of its tokens, however many there are.  The walk
over the lines that the stream is made from gives no line without tokens, and behind a line it
stands at the end of the last one. -/
theorem follows_tokens (h : x.Finishes .root (Text.lines text)) :
    (∀ n, Follows x text n ((ofText text).calls x n).1 ((ofText text).calls x n).2) ∧
    ∀ p ∈ (Lines.ofText text).all x,
      ∃ t, p.1.tokens.getLast? = some t ∧ p.2.offset = t.stop ∧ p.2.state = p.1.endState :=
  ⟨follows_calls h, Lines.exists_last_of_mem_all h⟩

/-- Four calls stop within a line, whose end in a literal they have seen already. -/
theorem follows_tokens_continued :
    let text : Text := "a 'b\\\nc'".toList
    let s := ((ofText text).calls {} 4).2
    ({} : Lexicon).Finishes .root (Text.lines text) ∧
      Follows {} text 4 ((ofText text).calls {} 4).1 s ∧
      s.current = [⟨['\\'], .stringEscape, 4⟩, ⟨['\n'], .whitespace, 5⟩] ∧
      s.state = .literal .single := by
  have hfinishes : ({} : Lexicon).Finishes .root (Text.lines "a 'b\\\nc'".toList) :=
    Lexicon.finishes_of_progresses (Or.inl (by decide)) _
  exact ⟨hfinishes, (follows_tokens hfinishes).1 4, by decide +kernel, by decide +kernel⟩

end Stream
end SqlAssist
