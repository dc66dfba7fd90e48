import SqlAssist.Assist.Signature
import SqlAssist.Proofs.Document.Cursor
import SqlAssist.Proofs.Token.Document
import SqlAssist.Proofs.Token.Truncation

/-!
Open calls at a cursor.

Signature help scans the text up to the cursor only, as if the document ended there.  The walk
over open calls sees no difference to the tokens of the whole document.  On the lines above the
cursor the tokens are the same, and on its line they are the same up to tails in which there is
neither a parenthesis nor a comma.  The walk keeps no more than these marks and the names in
front of them, so tails without marks leave it with the same calls.
-/

namespace SqlAssist

namespace Token

def IsCallMark (t : Token) : Prop := Lexeme.IsCallMark ⟨t.text, t.tokenClass⟩

theorem not_isCallMark_of_mem_place {offset : Nat} {ls : List Lexeme}
    (h : ∀ l ∈ ls, ¬ l.IsCallMark) {t : Token} (ht : t ∈ place offset ls) : ¬ t.IsCallMark := by
  obtain ⟨a, l, b, rfl, rfl⟩ := mem_place ht
  exact h l (by simp)

end Token

/-! ## The walk -/

namespace CallWalk

/-- Only the marks of calls change the parentheses that are open. -/
theorem parens_step {t : Token} (h : ¬ t.IsCallMark) (w : CallWalk) :
    (w.step t).parens = w.parens := by
  have hopen : ¬ (t.tokenClass = .bracket ∧ t.text = ['(']) := fun hm =>
    h (Or.inl ⟨hm.1, Or.inl hm.2⟩)
  have hclose : ¬ (t.tokenClass = .bracket ∧ t.text = [')']) := fun hm =>
    h (Or.inl ⟨hm.1, Or.inr hm.2⟩)
  have hcomma : ¬ (t.tokenClass = .delimiter ∧ t.text = [',']) := fun hm => h (Or.inr hm)
  rw [step, if_neg hopen, if_neg hclose, if_neg hcomma]

theorem parens_foldl {ts : List Token} (h : ∀ t ∈ ts, ¬ t.IsCallMark) (w : CallWalk) :
    (ts.foldl step w).parens = w.parens := by
  induction ts generalizing w with
  | nil => rfl
  | cons t rest ih =>
    rw [List.foldl_cons, ih (fun u hu => h u (List.mem_cons_of_mem t hu)),
      parens_step (h t List.mem_cons_self)]

end CallWalk

theorem CallContext.ofTokens?_append {tail : List Token} (h : ∀ t ∈ tail, ¬ t.IsCallMark)
    (ts : List Token) : ofTokens? (ts ++ tail) = ofTokens? ts := by
  rw [ofTokens?, ofTokens?, List.foldl_append, CallWalk.context?, CallWalk.context?,
    CallWalk.parens_foldl h]

/-! ## The tokens up to a cursor -/

namespace Lexicon

variable {x : Lexicon}

/-- Of the tokens on a line and below it, those that end within the first characters of the line
are its lexemes that do. -/
theorem filter_tokensOfLines (x : Lexicon) {text : Text} {i : Nat} {l : Line}
    (hl : (Text.lines text)[i]? = some l) {a b : Text} (hcontent : l.content = a ++ b)
    (offset : Nat) (entry : LineState) :
    (x.tokensOfLines offset entry (l :: (Text.lines text).drop (i + 1))).filter
        (fun t => t.stop ≤ offset + a.width) =
      Token.place offset (Lexeme.within a.width (x.scanLine entry l.content).lexemes) := by
  have hwidth : l.content.width = a.width + b.width := by rw [hcontent, Text.width_append]
  have hending : (Token.place (offset + l.content.width) l.ending).filter
      (fun t => t.stop ≤ offset + a.width) = [] := by
    rw [List.filter_eq_nil_iff]
    intro t ht
    obtain ⟨before, e, behind, hlexemes, rfl⟩ := Token.mem_place ht
    have hterminator := (Line.mem_ending (e := e) (l := l) (by rw [hlexemes]; simp)).1
    have hpos := Text.width_pos (Line.mem_ending (e := e) (l := l) (by rw [hlexemes]; simp)).2
    rw [decide_eq_true_eq, Token.stop]
    simp only [hterminator]
    omega
  have hbelow : (x.tokensOfLines (offset + l.full.width)
      (x.scanLine entry l.content).endState ((Text.lines text).drop (i + 1))).filter
      (fun t => t.stop ≤ offset + a.width) = [] := by
    rw [List.filter_eq_nil_iff]
    intro t ht
    by_cases hlast : l.terminator = []
    · rw [Text.drop_lines_of_terminator hl hlast] at ht
      simp [tokensOfLines] at ht
    · have hstart := le_start_of_mem_tokensOfLines ht
      have hpos := Text.width_pos hlast
      have hfull : l.full.width = l.content.width + l.terminator.width := Text.width_append _ _
      rw [decide_eq_true_eq, Token.stop]
      omega
  rw [tokensOfLines, tokensOfLine, List.filter_append, List.filter_append, hending, hbelow,
    List.append_nil, List.append_nil, Lexeme.filter_place]

/-- The tokens of a document that is cut off on a line agree with those of the whole document
that end before the cut, up to tails in which there is no mark of a call. -/
theorem agree_tokens (hx : x.SparesCallMarks) {text : Text} {i : Nat} {l : Line}
    (hl : (Text.lines text)[i]? = some l) {a b : Text} (hcontent : l.content = a ++ b) :
    ∃ same cut whole, x.tokens (Text.beforeLine text i ++ a) = same ++ cut ∧
      (x.tokens text).filter (fun t => t.stop ≤ (Text.beforeLine text i).width + a.width) =
        same ++ whole ∧
      (∀ t ∈ cut, ¬ t.IsCallMark) ∧ ∀ t ∈ whole, ¬ t.IsCallMark := by
  obtain ⟨hi, rfl⟩ := List.getElem?_eq_some_iff.1 hl
  have hsplit : Text.lines text =
      (Text.lines text).take i ++ (Text.lines text)[i] :: (Text.lines text).drop (i + 1) := by
    rw [← List.drop_eq_getElem_cons hi, List.take_append_drop]
  have hwhole : x.tokens text = x.tokensOfLines 0 .root ((Text.lines text).take i) ++
      x.tokensOfLines (Text.beforeLine text i).width (x.entryState text i)
        ((Text.lines text)[i] :: (Text.lines text).drop (i + 1)) := by
    have happend := x.tokensOfLines_append 0 .root ((Text.lines text).take i)
      ((Text.lines text)[i] :: (Text.lines text).drop (i + 1))
    rwa [← hsplit, ← tokens_eq_tokensOfLines, Nat.zero_add] at happend
  have hcut : x.tokens (Text.beforeLine text i ++ a) =
      x.tokensOfLines 0 .root ((Text.lines text).take i) ++
        Token.place (Text.beforeLine text i).width
          (x.scanLine (x.entryState text i) a).lexemes := by
    rw [tokens_eq_tokensOfLines, Text.lines_beforeLine_append hl hcontent, tokensOfLines_append,
      Nat.zero_add, tokensOfLines, tokensOfLine, tokensOfLines, Line.ending_unterminated,
      List.append_nil]
    exact congrArg _ (List.append_nil _)
  have habove : (x.tokensOfLines 0 .root ((Text.lines text).take i)).filter
      (fun t => t.stop ≤ (Text.beforeLine text i).width + a.width) =
        x.tokensOfLines 0 .root ((Text.lines text).take i) := by
    rw [List.filter_eq_self]
    intro t ht
    have hstop := stop_le_of_mem_tokensOfLines ht
    rw [Nat.zero_add] at hstop
    exact decide_eq_true (Nat.le_trans hstop (Nat.le_add_right _ _))
  obtain ⟨same, cut, whole, hsame, hsame', hunmarked, hunmarked'⟩ :=
    agree_scanLine hx (x.entryState text i) a b
  have hplace : ∀ ls : List Lexeme, (∀ l ∈ ls, ¬ l.IsCallMark) → ∀ offset,
      ∀ t ∈ Token.place offset ls, ¬ t.IsCallMark := fun ls h offset t ht =>
    Token.not_isCallMark_of_mem_place h ht
  refine ⟨x.tokensOfLines 0 .root ((Text.lines text).take i) ++
    Token.place (Text.beforeLine text i).width same, _, _, ?_, ?_,
    hplace cut hunmarked
      ((Text.beforeLine text i).width + Text.width (same.flatMap Lexeme.text)),
    hplace whole hunmarked'
      ((Text.beforeLine text i).width + Text.width (same.flatMap Lexeme.text))⟩
  · rw [hcut, hsame, Token.place_append, List.append_assoc]
  · rw [hwhole, List.filter_append, habove, x.filter_tokensOfLines hl hcontent, hcontent, hsame',
      Token.place_append, List.append_assoc]

end Lexicon

/-! ## The call at a position -/

/-- The call that signature help finds at a position, in the text that is cut off there, is the
one that the tokens of the whole document up to the position leave open.  The cut text and the
whole document have the same tokens there, up to tails without a parenthesis or a comma. -/
theorem Dialect.callContext?_at_position {d : Dialect} (hd : d.lexicon.SparesCallMarks)
    {text : Text} {p : Position} {o : Nat} (hp : p.offset? text = some o) :
    ∃ index, p.charIndex? text = some index ∧ Text.width (text.take index) = o ∧
      d.callContext? (text.take index) =
        CallContext.ofTokens? ((d.lexicon.tokens text).filter fun t => t.stop ≤ o) ∧
      ∃ same cut whole, d.lexicon.tokens (text.take index) = same ++ cut ∧
        (d.lexicon.tokens text).filter (fun t => t.stop ≤ o) = same ++ whole ∧
        (∀ t ∈ cut, ¬ t.IsCallMark) ∧ ∀ t ∈ whole, ¬ t.IsCallMark := by
  obtain ⟨l, a, b, hl, hcontent, hindex, htake, rfl⟩ := Position.exists_index hp
  obtain ⟨same, cut, whole, hcut, hwhole, hunmarked, hunmarked'⟩ :=
    Lexicon.agree_tokens hd hl hcontent
  refine ⟨_, hindex, by rw [htake, Text.width_append], ?_, same, cut, whole, ?_, hwhole,
    hunmarked, hunmarked'⟩
  · rw [htake, callContext?, hcut, hwhole, CallContext.ofTokens?_append hunmarked,
      CallContext.ofTokens?_append hunmarked']
  · rw [htake, hcut]

/-- A cut inside of a literal, whose end the scanner then misses, and one between the two
characters of a comment opener. -/
theorem Dialect.callContext?_in_pieces :
    (∃ index, (⟨1, 3⟩ : Position).charIndex? "f(1,\n'a(b', 2)".toList = some index ∧
      ({} : Dialect).callContext? ("f(1,\n'a(b', 2)".toList.take index) = some ⟨['f'], 1⟩) ∧
    ∃ index, (⟨0, 4⟩ : Position).charIndex? "g(1/*,*/".toList = some index ∧
      ({} : Dialect).callContext? ("g(1/*,*/".toList.take index) = some ⟨['g'], 0⟩ := by
  have hspares : ({} : Dialect).lexicon.SparesCallMarks := by
    intro c hc
    rcases isCallMark_cases hc with rfl | rfl | rfl <;> decide
  constructor
  · have hp : (⟨1, 3⟩ : Position).offset? "f(1,\n'a(b', 2)".toList = some 8 := by decide +kernel
    have hcall : CallContext.ofTokens? ((({} : Dialect).lexicon.tokens
        "f(1,\n'a(b', 2)".toList).filter fun t => t.stop ≤ 8) = some ⟨['f'], 1⟩ := by
      decide +kernel
    obtain ⟨index, hindex, -, hsame, -⟩ := callContext?_at_position hspares hp
    exact ⟨index, hindex, hsame.trans hcall⟩
  · have hp : (⟨0, 4⟩ : Position).offset? "g(1/*,*/".toList = some 4 := by decide +kernel
    have hcall : CallContext.ofTokens? ((({} : Dialect).lexicon.tokens
        "g(1/*,*/".toList).filter fun t => t.stop ≤ 4) = some ⟨['g'], 0⟩ := by
      decide +kernel
    obtain ⟨index, hindex, -, hsame, -⟩ := callContext?_at_position hspares hp
    exact ⟨index, hindex, hsame.trans hcall⟩

end SqlAssist
