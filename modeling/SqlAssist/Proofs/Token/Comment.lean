import SqlAssist.Proofs.Text.Search
import SqlAssist.Proofs.Token.Document

/-!
How far a block comment goes.

The scanner looks for the end marker line by line: behind the opener on its line, and from the
start of every line below.  With markers that have no part in a terminator these searches are
one search of the document from behind the opener.  Nothing else that stands in a comment is
looked at, so an induction on the lines is all it takes.
-/

namespace SqlAssist

namespace Lexeme

/-- A piece of a block comment, or a terminator between two pieces. -/
def IsCommentPiece (l : Lexeme) : Prop :=
  l.tokenClass = .comment ∨ l.tokenClass = .whitespace ∧ (l.text = ['\n'] ∨ l.text = ['\r', '\n'])

end Lexeme

namespace Token

def InComment (t : Token) : Prop :=
  t.tokenClass = .comment ∨ t.tokenClass = .whitespace ∧ t.IsTerminator

theorem inComment_of_mem_place {offset : Nat} {ls : List Lexeme}
    (h : ∀ l ∈ ls, l.IsCommentPiece) {t : Token} (ht : t ∈ place offset ls) : t.InComment := by
  obtain ⟨a, l, b, rfl, rfl⟩ := mem_place ht
  exact h l (by simp)

end Token

theorem Line.isCommentPiece_ending {l : Line}
    (h : l.terminator = ['\n'] ∨ l.terminator = ['\r', '\n']) :
    ∀ e ∈ l.ending, e.IsCommentPiece := by
  intro e he
  obtain ⟨rfl, -⟩ := Line.mem_ending he
  exact Or.inr ⟨rfl, h⟩

namespace Lexicon

variable {x : Lexicon}

/-! ## On one line -/

/-- The scanner is about to scan a comment from `t`, and looks for its end behind `k` characters:
behind the opener, or at once where the comment has been open before. -/
inductive CommentAt (x : Lexicon) : LineState → Text → Nat → Prop
  | opener {t : Text} (opens : x.comments.blockStart <+: t)
      (noLine : ¬ x.comments.line <+: t) : CommentAt x .root t x.comments.blockStart.length
  | inside {t : Text} : CommentAt x .blockComment t 0

namespace CommentAt

variable {state : LineState} {t : Text} {k : Nat}

theorem le_length (h : x.CommentAt state t k) : k ≤ t.length := by
  cases h with
  | opener opens => exact opens.length_le
  | inside => exact Nat.zero_le _

theorem cut_eq {c : Char} {rest : Text} (h : x.CommentAt state (c :: rest) k) :
    x.cut state c rest =
      match Text.search? x.comments.blockEnd ((c :: rest).drop k) with
      | some i => ⟨k + i + x.comments.blockEnd.length, .comment, .root⟩
      | none => ⟨(c :: rest).length, .comment, .blockComment⟩ := by
  cases h with
  | opener opens noLine =>
    have hline : x.comments.line.isPrefixOf (c :: rest) = false :=
      Bool.eq_false_iff.2 fun hp => noLine (List.isPrefixOf_iff_prefix.1 hp)
    have hopen : x.comments.blockStart.isPrefixOf (c :: rest) = true :=
      List.isPrefixOf_iff_prefix.2 opens
    show x.rootCut c rest = _
    simp only [rootCut, commentCut?, hline, hopen, Bool.false_eq_true, if_false, if_true]
    cases Text.search? x.comments.blockEnd ((c :: rest).drop x.comments.blockStart.length) with
    | none => rfl
    | some i => rfl
  | inside =>
    show x.commentBodyCut (c :: rest) = _
    rw [commentBodyCut, List.drop_zero]
    cases Text.search? x.comments.blockEnd (c :: rest) with
    | none => rfl
    | some i => simp only [Nat.zero_add]

theorem closes (h : x.CommentAt state t k) (hend : x.comments.blockEnd ≠ []) {i : Nat}
    (hi : Text.search? x.comments.blockEnd (t.drop k) = some i) :
    x.Steps state t [⟨t.take (k + i + x.comments.blockEnd.length), .comment⟩] .root
      (t.drop (k + i + x.comments.blockEnd.length)) := by
  have hpos := List.length_pos_iff.2 hend
  cases t with
  | nil =>
    rw [List.drop_nil] at hi
    obtain ⟨a, b, -, hnil⟩ := Text.search?_eq_some hi
    exact absurd (by simpa using hnil.symm : a = [] ∧ _ ∧ b = []).2.1 hend
  | cons c rest =>
    refine Steps.single (k := ⟨k + i + x.comments.blockEnd.length, .comment, .root⟩) ?_
      (Nat.lt_of_lt_of_le hpos (Nat.le_add_left _ _))
    rw [h.cut_eq, hi]

theorem runsOn (h : x.CommentAt state t k) (hstart : x.comments.blockStart ≠ [])
    (hi : Text.search? x.comments.blockEnd (t.drop k) = none) :
    ∃ pieces, x.Steps state t pieces .blockComment [] ∧
      ∀ l ∈ pieces, l.IsCommentPiece := by
  cases t with
  | nil =>
    cases h with
    | opener opens => exact absurd (List.prefix_nil.1 opens) hstart
    | inside => exact ⟨[], .refl _ _, by simp⟩
  | cons c rest =>
    have hcut : x.cut state c rest = ⟨(c :: rest).length, .comment, .blockComment⟩ := by
      rw [h.cut_eq, hi]
    have hstep := Steps.single hcut (Nat.succ_pos _)
    rw [List.drop_length] at hstep
    exact ⟨_, hstep, by simp [Lexeme.IsCommentPiece]⟩

/-- A line that a comment goes on behind ends in pieces of the comment. -/
theorem exists_lexemesOfLine {entry : LineState} {l : Line} {before : List Lexeme} {rest : Text}
    (hreach : x.Reaches entry l.content before state rest) (h : x.CommentAt state rest k)
    (hstart : x.comments.blockStart ≠ [])
    (hnone : Text.search? x.comments.blockEnd (rest.drop k) = none)
    (hending : ∀ e ∈ l.ending, e.IsCommentPiece) :
    ∃ pieces, x.lexemesOfLine entry l = before ++ pieces ∧
      pieces.flatMap Lexeme.text = rest ++ l.terminator ∧ (∀ e ∈ pieces, e.IsCommentPiece) ∧
      (x.scanLine entry l.content).endState = .blockComment := by
  obtain ⟨first, hsteps, hfirst⟩ := h.runsOn hstart hnone
  have hrest := hsteps.text_eq
  have hscan := (hreach.trans hsteps).scanLine_eq
  rw [scanFrom_nil, List.append_nil] at hscan
  rw [List.append_nil] at hrest
  refine ⟨first ++ l.ending, ?_, ?_, ?_, by rw [hscan]⟩
  · rw [lexemesOfLine, hscan, List.append_assoc]
  · rw [List.flatMap_append, ← hrest, l.join_ending]
  · exact List.forall_mem_append.2 ⟨hfirst, hending⟩

/-- A comment that opens in a document opens on its line. -/
theorem of_line (hstart : x.comments.blockStart.InLine) {rest terminator below : Text}
    (hterminator : terminator = ['\n'] ∨ terminator = ['\r', '\n'])
    (h : x.CommentAt state (rest ++ (terminator ++ below)) k) : x.CommentAt state rest k := by
  cases h with
  | opener opens noLine =>
    refine .opener (hstart.prefix_of_prefix hterminator opens) fun hline => noLine ?_
    exact hline.trans (List.prefix_append _ _)
  | inside => exact .inside

end CommentAt

/-! ## Over the lines -/

/-- What the search for the end of a comment says about the scan of some lines, of which the first
begins in `entry`: the comment stands behind the lexemes `before` and in front of `back`, and its
end is looked for behind `k` characters. -/
structure CommentExtent (x : Lexicon) (entry : LineState) (ls : List Line) (before : List Lexeme)
    (back : Text) (k : Nat) : Prop where
  closed : ∀ i, Text.search? x.comments.blockEnd (back.drop k) = some i → ∃ pieces last,
    x.Arrives entry ls (before ++ (pieces ++ [last])) .root ∧
    (pieces ++ [last]).flatMap Lexeme.text =
      back.take (k + i + x.comments.blockEnd.length) ∧
    (∀ l ∈ pieces, l.IsCommentPiece) ∧ last.tokenClass = .comment
  endless : Text.search? x.comments.blockEnd (back.drop k) = none → ∃ pieces,
    x.lexemesOfLines entry ls = before ++ pieces ∧ (∀ l ∈ pieces, l.IsCommentPiece) ∧
    x.stateAfter entry ls = .blockComment

namespace CommentExtent

variable {entry : LineState} {l : Line} {below : List Line} {before : List Lexeme} {back : Text}
  {k : Nat}

theorem later (h : CommentExtent x (x.scanLine entry l.content).endState below before back k) :
    CommentExtent x entry (l :: below) (x.lexemesOfLine entry l ++ before) back k where
  closed i hi := by
    obtain ⟨pieces, last, harrives, hjoin, hclass⟩ := h.closed i hi
    have hlater := Arrives.later (l := l) harrives
    rw [← List.append_assoc] at hlater
    exact ⟨pieces, last, hlater, hjoin, hclass⟩
  endless hi := by
    obtain ⟨pieces, hlexemes, hpieces, hstate⟩ := h.endless hi
    refine ⟨pieces, ?_, hpieces, hstate⟩
    rw [lexemesOfLines, hlexemes, List.append_assoc]

/-- A comment that ends on the line it is met on. -/
theorem of_closes (hend : x.comments.blockEnd ≠ []) {state : LineState} {rest : Text}
    (hreach : x.Reaches entry l.content before state rest) (hat : x.CommentAt state rest k)
    {i : Nat} (hi : Text.search? x.comments.blockEnd (rest.drop k) = some i) (behind : Text) :
    CommentExtent x entry (l :: below) before (rest ++ behind) k := by
  have hle := hat.le_length
  have hsearch := Text.search?_append hi behind
  rw [← List.drop_append_of_le_length hle] at hsearch
  constructor
  · intro j hj
    obtain rfl : i = j := Option.some.inj (hsearch.symm.trans hj)
    obtain ⟨a, b, ha, hsplit⟩ := Text.search?_eq_some hi
    have hlen := congrArg List.length hsplit
    simp only [List.length_append, List.length_drop] at hlen
    refine ⟨[], _, .here (hreach.trans (hat.closes hend hi)), ?_, by simp, rfl⟩
    rw [List.take_append_of_le_length (by omega)]
    simp
  · intro hnone
    rw [hsearch] at hnone
    simp at hnone

/-- A comment that goes on behind the line it is met on, and is looked for on the lines below. -/
theorem of_runsOn (hstart : x.comments.blockStart ≠ []) (hend : x.comments.blockEnd.InLine)
    {state : LineState} {rest : Text} (hreach : x.Reaches entry l.content before state rest)
    (hat : x.CommentAt state rest k)
    (hnone : Text.search? x.comments.blockEnd (rest.drop k) = none)
    (hterminator : l.terminator = ['\n'] ∨ l.terminator = ['\r', '\n'])
    {text : Text} (h : CommentExtent x .blockComment below [] text 0) :
    CommentExtent x entry (l :: below) before (rest ++ (l.terminator ++ text)) k := by
  obtain ⟨first, hline, hjoin, hfirst, hstate⟩ :=
    hat.exists_lexemesOfLine hreach hstart hnone (Line.isCommentPiece_ending hterminator)
  have hle := hat.le_length
  have hsearch := hend.search?_below hterminator hnone text
  rw [← List.drop_append_of_le_length hle] at hsearch
  constructor
  · intro i hi
    rw [hsearch, Option.map_eq_some_iff] at hi
    obtain ⟨j, hj, rfl⟩ := hi
    obtain ⟨pieces, last, harrives, htext, hpieces, hlast⟩ := h.closed j hj
    rw [← hstate, List.nil_append] at harrives
    have hlater := Arrives.later (l := l) harrives
    rw [hline, List.append_assoc, ← List.append_assoc _ pieces] at hlater
    refine ⟨first ++ pieces, last, hlater, ?_, ?_, hlast⟩
    · have hcount : k + (j + (rest.drop k ++ l.terminator).length) + x.comments.blockEnd.length =
          (rest ++ l.terminator).length + (0 + j + x.comments.blockEnd.length) := by
        simp only [List.length_append, List.length_drop]
        omega
      rw [List.append_assoc, List.flatMap_append, hjoin, htext, hcount, ← List.append_assoc,
        List.take_length_add_append]
    · exact List.forall_mem_append.2 ⟨hfirst, hpieces⟩
  · intro hi
    rw [hsearch, Option.map_eq_none_iff] at hi
    obtain ⟨pieces, hlexemes, hpieces, hafter⟩ := h.endless hi
    refine ⟨first ++ pieces, ?_, ?_, ?_⟩
    · rw [lexemesOfLines, hstate, hlexemes, hline, List.nil_append, List.append_assoc]
    · exact List.forall_mem_append.2 ⟨hfirst, hpieces⟩
    · show x.stateAfter (x.scanLine entry l.content).endState below = .blockComment
      rw [hstate, hafter]

/-- A comment that is open at the end of a text. -/
theorem of_last (hstart : x.comments.blockStart ≠ []) {state : LineState} {t rest : Text}
    (hreach : x.Reaches entry t before state rest) (hat : x.CommentAt state rest k)
    (hnone : Text.search? x.comments.blockEnd (rest.drop k) = none) :
    CommentExtent x entry [⟨t, []⟩] before rest k := by
  obtain ⟨pieces, hline, -, hpieces, hstate⟩ :=
    hat.exists_lexemesOfLine (l := ⟨t, []⟩) hreach hstart hnone (by simp)
  constructor
  · intro i hi
    rw [hnone] at hi
    simp at hi
  · intro _
    exact ⟨pieces, by rw [lexemesOfLines, lexemesOfLines, List.append_nil, hline], hpieces, hstate⟩

end CommentExtent

/-- Wherever the scan of a text is about to scan a comment, the search of the text from there
tells how far the comment goes. -/
theorem Arrives.commentExtent (hstart : x.comments.blockStart.InLine)
    (hend : x.comments.blockEnd.InLine) {text : Text} {entry state : LineState}
    {before : List Lexeme} (h : x.Arrives entry (Text.lines text) before state) {back : Text}
    (htext : text = before.flatMap Lexeme.text ++ back) {k : Nat}
    (hat : x.CommentAt state back k) :
    CommentExtent x entry (Text.lines text) before back k := by
  induction text using Text.linesInduction generalizing entry state before back k with
  | last t ht =>
    rw [Text.lines_of_not_mem ht] at h ⊢
    cases h with
    | here reaches =>
      rename_i rest
      obtain rfl : rest = back := by
        have hcontent := reaches.text_eq
        exact List.append_cancel_left (hcontent.symm.trans htext)
      cases hi : Text.search? x.comments.blockEnd (rest.drop k) with
      | none => exact .of_last hstart.nonempty reaches hat hi
      | some i =>
        rw [← List.append_nil rest]
        exact .of_closes hend.nonempty reaches hat hi []
    | later more => cases more
  | next body below hb ih =>
    rw [Text.lines_append hb] at h ⊢
    have hfull := Line.full_terminated body
    have hterminator := Line.terminator_terminated body
    generalize Line.terminated body = l at *
    have hsplit : l.content ++ (l.terminator ++ below) = body ++ '\n' :: below := by
      rw [← List.append_assoc]
      show l.full ++ below = _
      rw [hfull, List.append_assoc]
      rfl
    cases h with
    | here reaches =>
      rename_i rest
      obtain rfl : rest ++ (l.terminator ++ below) = back := by
        rw [← hsplit, reaches.text_eq, List.append_assoc] at htext
        exact List.append_cancel_left htext
      have hline := hat.of_line hstart hterminator
      cases hi : Text.search? x.comments.blockEnd (rest.drop k) with
      | some i => exact .of_closes hend.nonempty reaches hline hi _
      | none =>
        have hopen : x.Arrives .blockComment (Text.lines below) [] .blockComment :=
          arrives_start x (by simp) below
        exact .of_runsOn hstart.nonempty hend reaches hline hi hterminator (ih hopen rfl .inside)
    | later more =>
      rename_i before
      refine (ih more ?_ hat).later
      have hprogress : x.Progresses entry := Or.inl hend.nonempty
      rw [List.flatMap_append, join_lexemesOfLine hprogress, hfull] at htext
      simpa using htext

/-! ## In the document -/

/-- Every token that reaches into the lexemes of a comment is a piece of it or a terminator, and
one of the pieces is the last. -/
theorem tokens_of_closed {text : Text} (hprogress : x.Progresses .root)
    {before pieces : List Lexeme} {last : Lexeme} (hpieces : ∀ l ∈ pieces, l.IsCommentPiece)
    (hlast : last.tokenClass = .comment)
    (h : x.Arrives .root (Text.lines text) (before ++ (pieces ++ [last])) .root)
    {o stop : Nat} (ho : Text.width (before.flatMap Lexeme.text) = o)
    (hstop : o + Text.width ((pieces ++ [last]).flatMap Lexeme.text) = stop) :
    (∀ t ∈ x.tokens text, o < t.stop → t.start < stop →
      t.InComment ∧ o ≤ t.start ∧ t.stop ≤ stop) ∧
    (∃ t ∈ x.tokens text, t.tokenClass = .comment ∧ t.stop = stop) ∧
    x.StandsAt text .root stop := by
  obtain ⟨after, hafter⟩ := h.exists_lexemesOfLines
  have hinside : ∀ l ∈ pieces ++ [last], l.IsCommentPiece :=
    List.forall_mem_append.2 ⟨hpieces, List.forall_mem_singleton.2 (Or.inl hlast)⟩
  have hwidth : Text.width ((before ++ (pieces ++ [last])).flatMap Lexeme.text) =
      stop := by
    rw [List.flatMap_append, Text.width_append, ho, hstop]
  rw [tokens_eq_place hprogress, hafter]
  refine ⟨?_, ?_, ⟨_, h, hwidth⟩⟩
  · intro t ht hot hts
    have hmem := Token.mem_place_of_overlap ht
      (by rw [ho, Nat.zero_add]; exact hot) (by rw [hwidth, Nat.zero_add]; exact hts)
    rw [ho, Nat.zero_add] at hmem
    have hle := Token.stop_le_of_mem_place hmem
    rw [hstop] at hle
    exact ⟨Token.inComment_of_mem_place hinside hmem, Token.le_start_of_mem_place hmem, hle⟩
  · refine ⟨⟨last.text, last.tokenClass, o + Text.width (pieces.flatMap Lexeme.text)⟩, ?_, hlast,
      ?_⟩
    · rw [Token.place_append, Token.place_append, Token.place_append, ho, Nat.zero_add]
      simp [Token.place]
    · rw [Token.stop, ← hstop, List.flatMap_append, Text.width_append, Nat.add_assoc]
      simp

theorem tokens_of_endless {text : Text} (hprogress : x.Progresses .root)
    {before pieces : List Lexeme} (hpieces : ∀ l ∈ pieces, l.IsCommentPiece)
    (h : x.lexemesOfLines .root (Text.lines text) = before ++ pieces)
    {o : Nat} (ho : Text.width (before.flatMap Lexeme.text) = o) :
    ∀ t ∈ x.tokens text, o < t.stop → t.InComment ∧ o ≤ t.start := by
  intro t ht hot
  rw [tokens_eq_place hprogress, h, Token.place_append, ho, Nat.zero_add, List.mem_append] at ht
  rcases ht with ht | ht
  · have := Token.stop_le_of_mem_place ht
    omega
  · exact ⟨Token.inComment_of_mem_place hpieces ht, Token.le_start_of_mem_place ht⟩

/-- A block comment ends with the first end marker behind its opener, over any number of lines.
Every token that it has a byte in is a piece of it or a terminator, a piece ends where the marker
does and the scan goes on there.  If no end marker follows, the comment goes to the end of the
document and stays open. -/
theorem comment_extent (hstart : x.comments.blockStart.InLine)
    (hend : x.comments.blockEnd.InLine) {text : Text} {o : Nat} (h : x.StandsAt text .root o)
    (opens : Text.OccursAt x.comments.blockStart text o)
    (noLine : ¬ Text.OccursAt x.comments.line text o) :
    (∀ e, IsLeast {e | o + Text.width x.comments.blockStart ≤ e ∧
          Text.OccursAt x.comments.blockEnd text e} e →
      (∀ t ∈ x.tokens text, o < t.stop → t.start < e + Text.width x.comments.blockEnd →
        t.InComment ∧ o ≤ t.start ∧ t.stop ≤ e + Text.width x.comments.blockEnd) ∧
      (∃ t ∈ x.tokens text, t.tokenClass = .comment ∧ t.stop = e + Text.width x.comments.blockEnd) ∧
      x.StandsAt text .root (e + Text.width x.comments.blockEnd)) ∧
    ((¬ ∃ e, o + Text.width x.comments.blockStart ≤ e ∧ Text.OccursAt x.comments.blockEnd text e) →
      (∀ t ∈ x.tokens text, o < t.stop → t.InComment ∧ o ≤ t.start) ∧
      x.endState text = .blockComment) := by
  have hprogress : x.Progresses .root := Or.inl hend.nonempty
  obtain ⟨before, harrives, ho⟩ := h
  obtain ⟨back, htext⟩ := harrives.exists_text hprogress
  rw [htext, ← ho, Text.occursAt_width_iff] at opens noLine
  obtain ⟨inner, rfl⟩ := opens
  have hextent := harrives.commentExtent hstart hend htext
    (.opener (List.prefix_append _ inner) noLine)
  -- the end marker is looked for behind the opener
  have hfront : text = (before.flatMap Lexeme.text ++ x.comments.blockStart) ++ inner := by
    rw [htext, List.append_assoc]
  have hwidth : o + Text.width x.comments.blockStart =
      Text.width (before.flatMap Lexeme.text ++ x.comments.blockStart) := by
    rw [Text.width_append, ho]
  rw [hwidth]
  constructor
  · intro e he
    rw [hfront] at he
    obtain ⟨a, b, rfl, hsearch, rfl⟩ := Text.exists_search?_of_isLeast he
    obtain ⟨pieces, last, hclosed, hjoin, hpieces, hlast⟩ :=
      hextent.closed a.length (by rwa [List.drop_left])
    refine tokens_of_closed hprogress hpieces hlast hclosed ho ?_
    rw [hjoin, ← List.append_assoc, ← List.append_assoc, ← List.length_append,
      ← List.length_append, List.take_left, Text.width_append, Text.width_append, ← hwidth]
    omega
  · intro hnone
    rw [hfront] at hnone
    obtain ⟨pieces, hlexemes, hpieces, hstate⟩ := hextent.endless
      (by rw [List.drop_left]; exact (Text.search?_eq_none_iff_not_occursAt _).2 hnone)
    refine ⟨tokens_of_endless hprogress hpieces hlexemes ho, ?_⟩
    have hlast : (Lines.ofText text).endState x = x.stateAfter .root (Text.lines text) :=
      Lines.endState_of_ne_root (s := Lines.ofText text) fun hroot =>
        absurd (hstate.symm.trans hroot) (by simp)
    rw [endState, hlast, hstate]

/-- A comment over four lines, with an opener that could be taken for its own end, a quote, a line
comment and a second opener in it; and one that the document does not close. -/
theorem comment_extent_of_markers :
    ((∀ t ∈ ({} : Lexicon).tokens "x/*/\r\n'-- /*\n\n*/y".toList, 1 < t.stop → t.start < 16 →
        t.InComment ∧ 1 ≤ t.start ∧ t.stop ≤ 16) ∧
      ({} : Lexicon).StandsAt "x/*/\r\n'-- /*\n\n*/y".toList .root 16) ∧
    ({} : Lexicon).endState "/*/\n'".toList = .blockComment := by
  have hstart : ({} : Lexicon).comments.blockStart.InLine := ⟨by decide, by decide, by decide⟩
  have hend : ({} : Lexicon).comments.blockEnd.InLine := ⟨by decide, by decide, by decide⟩
  constructor
  · have htext : "x/*/\r\n'-- /*\n\n*/y".toList =
        ['x', '/', '*', '/', '\r'] ++ '\n' :: "'-- /*\n\n*/y".toList := by decide +kernel
    have hfront : "x/*/\r\n'-- /*\n\n*/y".toList =
        ['x', '/', '*'] ++ "/\r\n'-- /*\n\n*/y".toList := by decide +kernel
    have hstands : ({} : Lexicon).StandsAt "x/*/\r\n'-- /*\n\n*/y".toList .root 1 := by
      refine ⟨[⟨['x'], .identifier⟩], ?_, rfl⟩
      rw [htext, Text.lines_append (by decide)]
      have hcut : ({} : Lexicon).cut .root 'x' ['/', '*', '/'] = ⟨1, .identifier, .root⟩ := by
        decide
      exact .here (.steps (by simp) (Steps.single hcut Nat.one_pos))
    have hopens : Text.OccursAt ({} : Lexicon).comments.blockStart
        "x/*/\r\n'-- /*\n\n*/y".toList 1 := ⟨['x'], _, hfront, rfl⟩
    have hnoLine : ¬ Text.OccursAt ({} : Lexicon).comments.line
        "x/*/\r\n'-- /*\n\n*/y".toList 1 := by
      rw [hfront]
      exact fun h => absurd (Text.occursAt_width_iff (a := ['x']).1 h) (by decide +kernel)
    have hleast : IsLeast {e | 1 + Text.width ({} : Lexicon).comments.blockStart ≤ e ∧
        Text.OccursAt ({} : Lexicon).comments.blockEnd
          "x/*/\r\n'-- /*\n\n*/y".toList e} 14 := by
      have hsplit : "/\r\n'-- /*\n\n*/y".toList =
          "/\r\n'-- /*\n\n".toList ++ ['*', '/'] ++ ['y'] := by decide +kernel
      have hsearch : Text.search? ['*', '/'] "/\r\n'-- /*\n\n*/y".toList =
          some "/\r\n'-- /*\n\n".toList.length := by decide +kernel
      have hleast := Text.isLeast_of_search? ['x', '/', '*'] hsplit hsearch
      rwa [← hfront] at hleast
    obtain ⟨htokens, -, hafter⟩ :=
      (comment_extent hstart hend hstands hopens hnoLine).1 14 hleast
    exact ⟨htokens, hafter⟩
  · have htext : "/*/\n'".toList = ['/', '*'] ++ ['/', '\n', '\''] := by decide +kernel
    have hstands : ({} : Lexicon).StandsAt "/*/\n'".toList .root 0 :=
      ⟨[], arrives_start _ (by simp) _, rfl⟩
    have hopens : Text.OccursAt ({} : Lexicon).comments.blockStart "/*/\n'".toList 0 :=
      ⟨[], _, htext, rfl⟩
    have hnoLine : ¬ Text.OccursAt ({} : Lexicon).comments.line "/*/\n'".toList 0 := by
      rw [htext]
      exact fun h => absurd (Text.occursAt_width_iff (a := []).1 h) (by decide)
    have hsearch : Text.search? ['*', '/'] ['/', '\n', '\''] = none := by decide
    have hnone := (Text.search?_eq_none_iff_not_occursAt ['/', '*']).1 hsearch
    rw [← htext] at hnone
    exact ((comment_extent hstart hend hstands hopens hnoLine).2 hnone).2

end Lexicon
end SqlAssist
