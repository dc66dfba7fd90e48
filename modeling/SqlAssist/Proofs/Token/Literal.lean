import SqlAssist.Proofs.Token.Run

/-!
Looking ahead to the end of a literal agrees with scanning it.

The look-ahead steps over one character for each backslash.  The scanner cuts escapes of up to
ten characters, and pieces of plain text in between.  Both pass over the same quotes and the
same backslashes: behind its code an escape holds hexadecimal digits only, which are neither.
`Body` is the text that both pass over, and `steps_body` the simulation of one by the other.
-/

namespace SqlAssist

namespace Quote

@[simp] theorem char_ne_backslash (quote : Quote) : quote.char ≠ '\\' := by
  cases quote <;> decide

@[simp] theorem ofChar?_char (quote : Quote) : ofChar? quote.char = some quote := by
  cases quote <;> rfl

theorem eq_char_of_ofChar? {c : Char} {quote : Quote} (h : ofChar? c = some quote) :
    c = quote.char := by
  rw [ofChar?] at h
  split at h
  · next hc => rw [hc, ← Option.some.inj h]; rfl
  · split at h
    · next hc => rw [hc, ← Option.some.inj h]; rfl
    · simp at h

theorem isBlank_char (quote : Quote) : Text.isBlank quote.char = false := by
  cases quote <;> decide

theorem isHexDigit_char (quote : Quote) : isHexDigit quote.char = false := by
  cases quote <;> decide

theorem utf8Size_char (quote : Quote) : quote.char.utf8Size = 1 := by
  cases quote <;> rfl

end Quote

namespace TokenClass

/-- Classes of the pieces of a literal that is closed or goes on on the next line. -/
def isLiteralPiece : TokenClass → Bool
  | string | stringEscape | stringEscapeInvalid => true
  | _ => false

end TokenClass

namespace Literal

/-- Text inside of a literal that neither closes it nor leaves a backslash open: each backslash
hides exactly the character after it, and no quote of the literal's kind stands unhidden. -/
inductive Body (quote : Quote) : Text → Prop
  | nil : Body quote []
  | hidden (c : Char) {rest : Text} (more : Body quote rest) : Body quote ('\\' :: c :: rest)
  | plain {c : Char} {rest : Text} (notHiding : c ≠ '\\') (notClosing : c ≠ quote.char)
      (more : Body quote rest) : Body quote (c :: rest)

/-- The first unescaped quote of `body` stands behind `inner` and before `after`. -/
def Closes (quote : Quote) (body inner after : Text) : Prop :=
  Body quote inner ∧ body = inner ++ quote.char :: after

/-- `body` ends in an unescaped backslash, with no unescaped quote before. -/
def RunsOn (quote : Quote) (body inner : Text) : Prop :=
  Body quote inner ∧ body = inner ++ ['\\']

/-- A literal's rest has an unescaped quote, or ends in an unescaped backslash, or has neither. -/
theorem closes_or_runsOn_or_body (quote : Quote) (t : Text) :
    (∃ inner after, Closes quote t inner after) ∨ (∃ inner, RunsOn quote t inner) ∨
      Body quote t := by
  match t with
  | [] => exact Or.inr (Or.inr .nil)
  | ['\\'] => exact Or.inr (Or.inl ⟨[], .nil, rfl⟩)
  | '\\' :: c :: rest =>
    rcases closes_or_runsOn_or_body quote rest with ⟨inner, after, h, rfl⟩ | ⟨inner, h, rfl⟩ | h
    · exact Or.inl ⟨'\\' :: c :: inner, after, .hidden c h, rfl⟩
    · exact Or.inr (Or.inl ⟨'\\' :: c :: inner, .hidden c h, rfl⟩)
    · exact Or.inr (Or.inr (.hidden c h))
  | c :: rest =>
    by_cases hhide : c = '\\'
    · subst hhide
      cases rest with
      | nil => exact Or.inr (Or.inl ⟨[], .nil, rfl⟩)
      | cons d rest =>
        rcases closes_or_runsOn_or_body quote rest with
          ⟨inner, after, h, rfl⟩ | ⟨inner, h, rfl⟩ | h
        · exact Or.inl ⟨'\\' :: d :: inner, after, .hidden d h, rfl⟩
        · exact Or.inr (Or.inl ⟨'\\' :: d :: inner, .hidden d h, rfl⟩)
        · exact Or.inr (Or.inr (.hidden d h))
    · by_cases hclose : c = quote.char
      · exact Or.inl ⟨[], rest, .nil, by rw [hclose]; rfl⟩
      · rcases closes_or_runsOn_or_body quote rest with
          ⟨inner, after, h, rfl⟩ | ⟨inner, h, rfl⟩ | h
        · exact Or.inl ⟨c :: inner, after, .plain hhide hclose h, rfl⟩
        · exact Or.inr (Or.inl ⟨c :: inner, .plain hhide hclose h, rfl⟩)
        · exact Or.inr (Or.inr (.plain hhide hclose h))

/-! ## The look-ahead -/

theorem lookAhead_cons {quote : Quote} {c : Char} (h : c ≠ '\\') (rest : Text) :
    lookAhead quote (c :: rest) = if c = quote.char then .closed else lookAhead quote rest := by
  cases rest with
  | nil => simp [lookAhead, h]
  | cons d rest => simp [lookAhead, h]

theorem lookAhead_append {quote : Quote} {inner : Text} (h : Body quote inner) (u : Text) :
    lookAhead quote (inner ++ u) = lookAhead quote u := by
  induction h with
  | nil => rfl
  | hidden c more ih => rw [← ih]; rfl
  | plain notHiding notClosing more ih =>
    rw [List.cons_append, lookAhead_cons notHiding, if_neg notClosing, ih]

theorem lookAhead_of_closes {quote : Quote} {t inner after : Text}
    (h : Closes quote t inner after) : lookAhead quote t = .closed := by
  obtain ⟨hbody, rfl⟩ := h
  rw [lookAhead_append hbody, lookAhead_cons quote.char_ne_backslash, if_pos rfl]

theorem lookAhead_of_runsOn {quote : Quote} {t inner : Text} (h : RunsOn quote t inner) :
    lookAhead quote t = .continued := by
  obtain ⟨hbody, rfl⟩ := h
  rw [lookAhead_append hbody]
  rfl

theorem lookAhead_of_body {quote : Quote} {t : Text} (h : Body quote t) :
    lookAhead quote t = .unterminated := by
  have := lookAhead_append h []
  rwa [List.append_nil] at this

/-! ## The scanner -/

/-- Behind characters that are no backslashes a body goes on as a body. -/
theorem Body.drop {quote : Quote} {t : Text} (h : Body quote t) (n : Nat)
    (hplain : ∀ d ∈ t.take n, d ≠ '\\') : Body quote (t.drop n) := by
  induction h generalizing n with
  | nil => rw [List.drop_nil]; exact .nil
  | hidden c more ih =>
    cases n with
    | zero => exact .hidden c more
    | succ n => exact absurd rfl (hplain '\\' (by simp))
  | plain notHiding notClosing more ih =>
    cases n with
    | zero => exact .plain notHiding notClosing more
    | succ n =>
      exact ih n fun d hd => hplain d (by rw [List.take_succ_cons]; exact List.mem_cons_of_mem _ hd)

/-- A run of characters that stop at neither end of `rest ++ e :: after` before `e` stays
in `rest`, if `e` is not one of them. -/
theorem le_length_of_take {p : Char → Bool} {rest after : Text} {e : Char} {m : Nat}
    (hm : ∀ d ∈ (rest ++ e :: after).take m, p d = true) (he : p e = false) :
    m ≤ rest.length := by
  rcases Nat.lt_or_ge rest.length m with hlt | hge
  · have hmem : e ∈ (rest ++ e :: after).take m := by
      obtain ⟨k, hk⟩ : ∃ k, m - rest.length = k + 1 := ⟨m - rest.length - 1, by omega⟩
      rw [List.take_append, hk, List.take_succ_cons]
      exact List.mem_append_right _ List.mem_cons_self
    rw [hm e hmem] at he
    exact absurd he (by simp)
  · exact hge

end Literal

namespace Lexicon

open Literal

/-- One cut at the start of a body, where it is not empty: a piece of a literal that leaves the
scanner in the literal and in front of a body again. -/
theorem LiteralRule.of_body {quote : Quote} {c e : Char} {inner after : Text} {k : Cut}
    (hrule : LiteralRule quote c (inner ++ e :: after) k) (hbody : Body quote (c :: inner))
    (hend : e = '\\' ∨ e = quote.char) :
    k.next = .literal quote ∧ k.tokenClass.isLiteralPiece = true ∧
      k.length ≤ (c :: inner).length ∧ Body quote ((c :: inner).drop k.length) := by
  have hhex : isHexDigit e = false := by
    rcases hend with rfl | rfl
    · decide
    · exact quote.isHexDigit_char
  cases hbody with
  | hidden d more =>
    rename_i rest
    cases hrule with
    | closes closing => exact absurd closing.symm quote.char_ne_backslash
    | carries hides last => simp at last
    | escape hides code =>
      obtain ⟨d', tail, m, htail, rfl, -, hdigits⟩ := eq_of_escapeLength? code
      obtain ⟨rfl, rfl⟩ : d = d' ∧ rest ++ e :: after = tail := by simpa using htail
      have hm : m ≤ rest.length := le_length_of_take hdigits hhex
      refine ⟨rfl, rfl, by simp only [List.length_cons]; omega, ?_⟩
      have hdrop : ('\\' :: d :: rest).drop (1 + (1 + m)) = rest.drop m := by
        rw [show 1 + (1 + m) = m + 1 + 1 by omega, List.drop_succ_cons, List.drop_succ_cons]
      rw [hdrop]
      refine more.drop m fun a ha => ?_
      have hhex' := hdigits a (by rw [List.take_append_of_le_length hm]; exact ha)
      rintro rfl
      exact absurd hhex' (by decide)
    | invalidEscape hides some noCode =>
      exact ⟨rfl, rfl, Nat.succ_le_succ (Nat.succ_le_succ (Nat.zero_le _)), more⟩
    | plain notClosing notHiding => exact absurd rfl notHiding
  | plain notHiding notClosing more =>
    cases hrule with
    | closes closing => exact absurd closing notClosing
    | carries hides last => exact absurd hides notHiding
    | escape hides code => exact absurd hides notHiding
    | invalidEscape hides some noCode => exact absurd hides notHiding
    | plain _ _ =>
      have htaken : ∀ d ∈ (c :: inner ++ e :: after).take
          ((c :: inner ++ e :: after).takeWhile
            fun d => decide (d ≠ '\\' ∧ d ≠ quote.char)).length,
          decide (d ≠ '\\' ∧ d ≠ quote.char) = true := by
        intro d hd
        rw [← List.prefix_iff_eq_take.1 (List.takeWhile_prefix _)] at hd
        exact List.all_eq_true.1 List.all_takeWhile d hd
      have hlen := le_length_of_take htaken (by rcases hend with rfl | rfl <;> simp)
      refine ⟨rfl, rfl, hlen, ?_⟩
      refine (Body.plain notHiding notClosing more).drop _ fun d hd => ?_
      have := htaken d (by
        rw [List.take_append_of_le_length hlen]
        exact hd)
      exact (of_decide_eq_true this).1

/-- The scanner passes over the body of a literal as the look-ahead does. -/
theorem steps_body (x : Lexicon) {quote : Quote} {inner : Text} {e : Char}
    (hbody : Body quote inner) (hend : e = '\\' ∨ e = quote.char) (after : Text) :
    ∃ pieces, x.Steps (.literal quote) (inner ++ e :: after) pieces (.literal quote)
        (e :: after) ∧ ∀ l ∈ pieces, l.tokenClass.isLiteralPiece = true := by
  match inner with
  | [] => exact ⟨[], .refl _ _, by simp⟩
  | c :: rest =>
    have hrule := literalCut_rule quote c (rest ++ e :: after)
    obtain ⟨hnext, hclass, hlen, hdrop⟩ := hrule.of_body hbody hend
    have hpos := hrule.length_pos
    obtain ⟨pieces, hsteps, hpieces⟩ := steps_body x hdrop hend after
    have hcut : x.cut (.literal quote) c (rest ++ e :: after) =
        literalCut quote c (rest ++ e :: after) := rfl
    have hstep := Steps.single hcut hpos
    rw [hnext, ← List.cons_append, List.drop_append_of_le_length hlen] at hstep
    refine ⟨_, hstep.trans hsteps, ?_⟩
    intro l hl
    rcases List.mem_cons.1 hl with rfl | hl
    · exact hclass
    · exact hpieces l hl
termination_by inner.length
decreasing_by
  simp only [List.length_drop, List.length_cons] at *
  omega

theorem steps_of_closes (x : Lexicon) {quote : Quote} {body inner after : Text}
    (h : Closes quote body inner after) :
    ∃ pieces, x.Steps (.literal quote) body (pieces ++ [⟨[quote.char], .string⟩]) .root after ∧
      ∀ l ∈ pieces, l.tokenClass.isLiteralPiece = true := by
  obtain ⟨hbody, rfl⟩ := h
  obtain ⟨pieces, hsteps, hpieces⟩ := x.steps_body hbody (Or.inr rfl) after
  have hcut : x.cut (.literal quote) quote.char after = ⟨1, .string, .root⟩ := by
    simp [cut, literalCut]
  exact ⟨pieces, hsteps.trans (Steps.single hcut Nat.one_pos), hpieces⟩

theorem steps_of_runsOn (x : Lexicon) {quote : Quote} {body inner : Text}
    (h : RunsOn quote body inner) :
    ∃ pieces, x.Steps (.literal quote) body (pieces ++ [⟨['\\'], .stringEscape⟩])
        (.literal quote) [] ∧
      ∀ l ∈ pieces, l.tokenClass.isLiteralPiece = true := by
  obtain ⟨hbody, rfl⟩ := h
  obtain ⟨pieces, hsteps, hpieces⟩ := x.steps_body hbody (Or.inl rfl) []
  have hcut : x.cut (.literal quote) '\\' [] = ⟨1, .stringEscape, .literal quote⟩ := by
    simp [cut, literalCut, quote.char_ne_backslash.symm]
  exact ⟨pieces, hsteps.trans (Steps.single hcut Nat.one_pos), hpieces⟩

/-! ## Literals on a line -/

theorem rootCut_quote {x : Lexicon} {quote : Quote} {body : Text}
    (h : x.comments.opensAt (quote.char :: body) = false) :
    x.rootCut quote.char body = quoteCut quote (quote.char :: body) := by
  simp only [rootCut, commentCut?_of_not_opensAt h, quote.isBlank_char, quote.ofChar?_char,
    Bool.false_eq_true, if_false]

/-- Where the scan of a line comes to the text of a literal: behind `before` and the literal's
opening quote if it has one on this line, and in front of `body`. -/
inductive LiteralAt (x : Lexicon) (entry : LineState) (line : Text) (quote : Quote) :
    List Lexeme → Text → Text → Prop
  /-- The scanner meets a quote outside of comments and literals, and no comment opens there. -/
  | opened {before : List Lexeme} {body : Text}
      (meets : x.Reaches entry line before .root (quote.char :: body))
      (plain : x.comments.opensAt (quote.char :: body) = false) :
      LiteralAt x entry line quote before [quote.char] body
  /-- The line is entered inside of the literal. -/
  | carried (enters : entry = .literal quote) : LiteralAt x entry line quote [] [] line

theorem LiteralAt.enter {x : Lexicon} {entry : LineState} {line : Text} {quote : Quote}
    {before : List Lexeme} {opening body : Text}
    (h : LiteralAt x entry line quote before opening body)
    (hends : lookAhead quote body ≠ .unterminated) :
    ∃ first, x.Reaches entry line (before ++ first) (.literal quote) body ∧
      first.flatMap Lexeme.text = opening ∧
      ∀ l ∈ first, l.tokenClass.isLiteralPiece = true := by
  cases h with
  | opened meets plain =>
    have hcut : x.cut .root quote.char body = ⟨1, .string, .literal quote⟩ := by
      show x.rootCut quote.char body = _
      rw [rootCut_quote plain, quoteCut, List.drop_one, List.tail_cons]
      split
      · next hend => exact absurd hend hends
      · rfl
      · rfl
    have hstep := Steps.single hcut Nat.one_pos
    exact ⟨_, meets.trans hstep, rfl, by simp [TokenClass.isLiteralPiece]⟩
  | carried enters =>
    subst enters
    refine ⟨[], .steps (fun quote' h' => ?_) (.refl _ _), rfl, by simp⟩
    obtain rfl : quote = quote' := by simpa using h'
    exact hends

theorem LiteralAt.through {x : Lexicon} {entry s : LineState} {line rest : Text} {quote : Quote}
    {before : List Lexeme} {opening body : Text} {last : Lexeme}
    (h : LiteralAt x entry line quote before opening body)
    (hsteps : ∃ pieces, x.Steps (.literal quote) body (pieces ++ [last]) s rest ∧
      ∀ l ∈ pieces, l.tokenClass.isLiteralPiece = true)
    (hends : lookAhead quote body ≠ .unterminated) :
    ∃ pieces, (∀ l ∈ pieces, l.tokenClass.isLiteralPiece = true) ∧
      opening ++ body = (pieces ++ [last]).flatMap Lexeme.text ++ rest ∧
      x.Reaches entry line (before ++ pieces ++ [last]) s rest := by
  obtain ⟨first, henter, hfirst, hfirstClass⟩ := h.enter hends
  obtain ⟨pieces, hrun, hpieces⟩ := hsteps
  have hreach := henter.trans hrun
  refine ⟨first ++ pieces, fun l hl => ?_, ?_, ?_⟩
  · rcases List.mem_append.1 hl with hl | hl
    · exact hfirstClass l hl
    · exact hpieces l hl
  · rw [List.append_assoc, List.flatMap_append, hfirst, List.append_assoc, ← hrun.text_eq]
  · simpa only [List.append_assoc] using hreach

/-- A literal whose end the look-ahead does not find is one broken piece up to the end of the
line; a line that is empty has no such piece. -/
theorem LiteralAt.break {x : Lexicon} {entry : LineState} {line : Text} {quote : Quote}
    {before : List Lexeme} {opening body : Text}
    (h : LiteralAt x entry line quote before opening body)
    (hbroken : lookAhead quote body = .unterminated) :
    x.Reaches entry line
      (before ++ if (opening ++ body).isEmpty then [] else [⟨opening ++ body, .stringInvalid⟩])
      .root [] := by
  cases h with
  | opened meets plain =>
    have hcut : x.cut .root quote.char body =
        ⟨(quote.char :: body).length, .stringInvalid, .root⟩ := by
      show x.rootCut quote.char body = _
      rw [rootCut_quote plain, quoteCut, List.drop_one, List.tail_cons, hbroken]
    have hstep := Steps.single hcut (Nat.succ_pos _)
    rw [List.take_length, List.drop_length] at hstep
    exact meets.trans hstep
  | carried enters => exact .broken enters hbroken

theorem Reaches.lineTokens_append {x : Lexicon} {entry s : LineState} {line t : Text}
    {before pieces : List Lexeme} {last : Lexeme}
    (h : x.Reaches entry line (before ++ pieces ++ [last]) s t) {p : Nat}
    (hp : Text.width (before.flatMap Lexeme.text) = p) {inner : Text}
    (hinner : pieces.flatMap Lexeme.text = inner) :
    x.lineTokens entry line =
      ⟨Token.place 0 before ++ Token.place p pieces ++
          ⟨last.text, last.tokenClass, p + Text.width inner⟩ ::
            Token.place (p + Text.width inner + last.text.width) (x.scanFrom s t).lexemes,
        (x.scanFrom s t).endState⟩ := by
  have hfront : Text.width ((before ++ pieces).flatMap Lexeme.text) = p + Text.width inner := by
    rw [List.flatMap_append, Text.width_append, hp, hinner]
  have hall : Text.width ((before ++ pieces ++ [last]).flatMap Lexeme.text) =
      p + Text.width inner + last.text.width := by
    rw [List.flatMap_append, Text.width_append, hfront, List.flatMap_cons, List.flatMap_nil,
      List.append_nil]
  rw [h.lineTokens_eq, hall, Token.place_append, Token.place_append, hfront, hp, Nat.zero_add,
    Nat.zero_add, List.append_assoc]
  rfl

/-- Looking ahead and scanning find the same end of a literal, wherever on a line its text begins.

With an unescaped quote, all pieces up to it are pieces of the literal, the last one is that quote
alone, and the scan goes on behind it outside of literals.  With an unescaped backslash at the end
of the line, the last piece is that backslash alone and the next line begins inside of the
literal.  Otherwise the literal is one broken piece, and the next line begins outside. -/
theorem lineTokens_of_literalAt {x : Lexicon} {entry : LineState} {line : Text} {quote : Quote}
    {before : List Lexeme} {opening body : Text}
    (h : LiteralAt x entry line quote before opening body) {p : Nat}
    (hp : Text.width (before.flatMap Lexeme.text) = p) :
    (∀ inner after, Closes quote body inner after → ∃ pieces,
      (∀ l ∈ pieces, l.tokenClass.isLiteralPiece = true) ∧
      pieces.flatMap Lexeme.text = opening ++ inner ∧
      x.Reaches entry line (before ++ pieces ++ [⟨[quote.char], .string⟩]) .root after ∧
      x.lineTokens entry line =
        ⟨Token.place 0 before ++ Token.place p pieces ++
            ⟨[quote.char], .string, p + Text.width (opening ++ inner)⟩ ::
              Token.place (p + Text.width (opening ++ inner) + 1)
                (x.scanFrom .root after).lexemes,
          (x.scanFrom .root after).endState⟩) ∧
    (∀ inner, RunsOn quote body inner → ∃ pieces,
      (∀ l ∈ pieces, l.tokenClass.isLiteralPiece = true) ∧
      pieces.flatMap Lexeme.text = opening ++ inner ∧
      x.lineTokens entry line =
        ⟨Token.place 0 before ++ Token.place p pieces ++
            [⟨['\\'], .stringEscape, p + Text.width (opening ++ inner)⟩], .literal quote⟩) ∧
    ((¬ ∃ inner after, Closes quote body inner after) → (¬ ∃ inner, RunsOn quote body inner) →
      x.lineTokens entry line =
        ⟨Token.place 0 before ++
          if (opening ++ body).isEmpty then [] else [⟨opening ++ body, .stringInvalid, p⟩],
          .root⟩) := by
  refine ⟨fun inner after hcloses => ?_, fun inner hruns => ?_, fun hcloses hruns => ?_⟩
  · obtain ⟨pieces, hclass, hjoin, hreach⟩ :=
      h.through (x.steps_of_closes hcloses) (by rw [lookAhead_of_closes hcloses]; simp)
    have htext : pieces.flatMap Lexeme.text = opening ++ inner := by
      have hsame : opening ++ inner ++ quote.char :: after =
          pieces.flatMap Lexeme.text ++ quote.char :: after := by
        simpa [hcloses.2] using hjoin
      exact (List.append_cancel_right hsame).symm
    refine ⟨pieces, hclass, htext, hreach, ?_⟩
    rw [hreach.lineTokens_append hp htext, Text.width_cons, Text.width_nil, quote.utf8Size_char]
  · obtain ⟨pieces, hclass, hjoin, hreach⟩ :=
      h.through (x.steps_of_runsOn hruns) (by rw [lookAhead_of_runsOn hruns]; simp)
    have htext : pieces.flatMap Lexeme.text = opening ++ inner := by
      have hsame : opening ++ inner ++ ['\\'] = pieces.flatMap Lexeme.text ++ ['\\'] := by
        simpa [hruns.2] using hjoin
      exact (List.append_cancel_right hsame).symm
    refine ⟨pieces, hclass, htext, ?_⟩
    rw [hreach.lineTokens_append hp htext, scanFrom_nil]
    rfl
  · rcases closes_or_runsOn_or_body quote body with hc | hr | hbody
    · exact absurd hc hcloses
    · exact absurd hr hruns
    · have hreach := h.break (lookAhead_of_body hbody)
      rw [hreach.lineTokens_eq, scanFrom_nil, Token.place_append, Nat.zero_add, hp]
      split <;> simp [Token.place]

/-- An escape of four characters in front of the closing quote, and a word on either side. -/
theorem lineTokens_of_hex_escape :
    LiteralAt {} .root ['a', '\'', '\\', 'x', '4', '1', '\'', 'b'] .single
      [⟨['a'], .identifier⟩] ['\''] ['\\', 'x', '4', '1', '\'', 'b'] ∧
    Closes .single ['\\', 'x', '4', '1', '\'', 'b'] ['\\', 'x', '4', '1'] ['b'] ∧
    ∃ pieces, (∀ l ∈ pieces, l.tokenClass.isLiteralPiece = true) ∧
      pieces.flatMap Lexeme.text = ['\'', '\\', 'x', '4', '1'] ∧
      ({} : Lexicon).Reaches .root ['a', '\'', '\\', 'x', '4', '1', '\'', 'b']
        ([⟨['a'], .identifier⟩] ++ pieces ++ [⟨['\''], .string⟩]) .root ['b'] := by
  have hword : ({} : Lexicon).Steps .root ['a', '\'', '\\', 'x', '4', '1', '\'', 'b']
      [⟨['a'], .identifier⟩] .root ['\'', '\\', 'x', '4', '1', '\'', 'b'] := by
    have hcut : ({} : Lexicon).cut .root 'a' ['\'', '\\', 'x', '4', '1', '\'', 'b'] =
        ⟨1, .identifier, .root⟩ := by decide
    exact Steps.single hcut Nat.one_pos
  have hat : LiteralAt {} .root ['a', '\'', '\\', 'x', '4', '1', '\'', 'b'] .single
      [⟨['a'], .identifier⟩] ['\''] ['\\', 'x', '4', '1', '\'', 'b'] :=
    .opened (.steps (by simp) hword) (by decide)
  have hcloses : Closes .single ['\\', 'x', '4', '1', '\'', 'b'] ['\\', 'x', '4', '1'] ['b'] :=
    ⟨.hidden 'x' (.plain (by decide) (by decide) (.plain (by decide) (by decide) .nil)), rfl⟩
  obtain ⟨pieces, hclass, hjoin, hreach, -⟩ :=
    (lineTokens_of_literalAt hat (p := 1) rfl).1 _ _ hcloses
  exact ⟨hat, hcloses, pieces, hclass, hjoin, hreach⟩

end Lexicon
end SqlAssist
