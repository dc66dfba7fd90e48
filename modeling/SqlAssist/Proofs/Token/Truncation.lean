import Mathlib.Data.List.Infix
import SqlAssist.Proofs.Token.Comment
import SqlAssist.Proofs.Token.Literal
import SqlAssist.Proofs.Token.Words

/-!
Scanning a line that is cut off.

Cutting a line changes lexemes before the cut, because the scanner looks ahead: a literal may lose
its end, a number its fraction and a comment its opener.  What does not change are the marks of a
call, the two parentheses and the comma.  Either the next cut stays the same whatever is added
behind the text, or no mark is found in the rest of the text whatever is added
(`unmarked_or_stable`).  A mark in the text is what keeps the rules without look-ahead apart from
what stands behind it, since none of them takes a mark together with another character.
-/

namespace SqlAssist

/-- The characters that tell where a call opens, closes and goes on with its next argument. -/
def isCallMark (c : Char) : Bool := c == '(' || c == ')' || c == ','

namespace Lexeme

/-- Whether a lexeme is a parenthesis or a comma, and not text that holds one. -/
def IsCallMark (l : Lexeme) : Prop :=
  l.tokenClass = .bracket ∧ (l.text = ['('] ∨ l.text = [')']) ∨
    l.tokenClass = .delimiter ∧ l.text = [',']

theorem IsCallMark.exists_mem {l : Lexeme} (h : l.IsCallMark) :
    ∃ c ∈ l.text, isCallMark c = true := by
  rcases h with ⟨-, h | h⟩ | ⟨-, h⟩
  · exact ⟨'(', by rw [h]; exact List.mem_cons_self, rfl⟩
  · exact ⟨')', by rw [h]; exact List.mem_cons_self, rfl⟩
  · exact ⟨',', by rw [h]; exact List.mem_cons_self, rfl⟩

theorem not_isCallMark_of_class {l : Lexeme} (hbracket : l.tokenClass ≠ .bracket)
    (hdelimiter : l.tokenClass ≠ .delimiter) : ¬ l.IsCallMark := by
  rintro (⟨h, -⟩ | ⟨h, -⟩)
  · exact hbracket h
  · exact hdelimiter h

theorem not_isCallMark_of_isLiteralPiece {l : Lexeme} (h : l.tokenClass.isLiteralPiece = true) :
    ¬ l.IsCallMark :=
  not_isCallMark_of_class (fun e => by rw [e] at h; exact absurd h (by decide))
    (fun e => by rw [e] at h; exact absurd h (by decide))

/-! ## The lexemes in front of a cut -/

def within (n : Nat) : List Lexeme → List Lexeme
  | [] => []
  | l :: rest => if l.text.width ≤ n then l :: within (n - l.text.width) rest else []

theorem isPrefix_within (n : Nat) (ls : List Lexeme) : within n ls <+: ls := by
  induction ls generalizing n with
  | nil => exact List.prefix_rfl
  | cons first rest ih =>
    rw [within]
    split
    · exact List.cons_prefix_cons.2 ⟨rfl, ih _⟩
    · exact List.nil_prefix

theorem width_join_within (n : Nat) (ls : List Lexeme) :
    Text.width ((within n ls).flatMap text) ≤ n := by
  induction ls generalizing n with
  | nil => exact Nat.zero_le n
  | cons first rest ih =>
    rw [within]
    split
    · have hrest := ih (n - first.text.width)
      rw [List.flatMap_cons, Text.width_append]
      omega
    · exact Nat.zero_le n

/-- What ends within the first bytes of a text and what follows it is text of its own. -/
theorem isPrefix_join_within {a b : Text} {ls : List Lexeme} (h : ls.flatMap text <+: a ++ b) :
    (within (Text.width a) ls).flatMap text <+: a := by
  have hjoin := List.IsPrefix.flatMap (isPrefix_within (Text.width a) ls) text
  exact Text.prefix_of_width_le (hjoin.trans h) (List.prefix_append a b) (width_join_within _ ls)

theorem within_of_prefix {a : Text} {ls : List Lexeme} (h : ls.flatMap text <+: a) :
    within (Text.width a) ls = ls := by
  obtain ⟨more, rfl⟩ := h
  induction ls with
  | nil => rfl
  | cons first rest ih =>
    have hwidth : Text.width ((first :: rest).flatMap text ++ more) - first.text.width =
        Text.width (rest.flatMap text ++ more) := by
      rw [List.flatMap_cons, List.append_assoc, Text.width_append, Nat.add_sub_cancel_left]
    rw [within, if_pos (by simp), hwidth, ih]

theorem filter_place (offset n : Nat) (ls : List Lexeme) :
    (Token.place offset ls).filter (fun t => t.stop ≤ offset + n) =
      Token.place offset (within n ls) := by
  induction ls generalizing offset n with
  | nil => rfl
  | cons first rest ih =>
    rw [Token.place, within]
    by_cases hle : first.text.width ≤ n
    · have hshift : offset + n = offset + first.text.width + (n - first.text.width) := by omega
      rw [List.filter_cons_of_pos (by simp [Token.stop, hle]), if_pos hle, Token.place, hshift, ih]
    · rw [if_neg hle, Token.place, List.filter_eq_nil_iff]
      intro t ht
      have hstop : offset + first.text.width ≤ t.stop := by
        rcases List.mem_cons.1 ht with rfl | ht
        · exact Nat.le_refl _
        · exact Nat.le_trans (Token.le_start_of_mem_place ht) (Nat.le_add_right _ _)
      simp only [decide_eq_true_eq]
      omega

end Lexeme

theorem isCallMark_cases {c : Char} (h : isCallMark c = true) : c = '(' ∨ c = ')' ∨ c = ',' := by
  simpa [isCallMark, or_assoc] using h

namespace Lexicon

open Literal

def SparesCallMarks (x : Lexicon) : Prop :=
  ∀ c, isCallMark c = true → c ∉ x.comments.line ∧ c ∉ x.comments.blockStart

variable {x : Lexicon}

/-! ## Rules without look-ahead stop in front of a mark -/

section Marks

variable {m : Char}

theorem canHold_of_isCallMark (hm : isCallMark m = true) : Word.canHold m = false := by
  rcases isCallMark_cases hm with rfl | rfl | rfl <;> decide

theorem isBlank_of_isCallMark (hm : isCallMark m = true) : Text.isBlank m = false := by
  rcases isCallMark_cases hm with rfl | rfl | rfl <;> decide

theorem isSymbol_of_isCallMark (hm : isCallMark m = true) : isSymbol m = false := by
  rcases isCallMark_cases hm with rfl | rfl | rfl <;> decide

theorem SparesCallMarks.opensAt_append (hx : x.SparesCallMarks) (hm : isCallMark m = true)
    (a b : Text) : x.comments.opensAt (a ++ m :: b) = x.comments.opensAt a := by
  obtain ⟨hline, hblock⟩ := hx m hm
  have hsame : ∀ marker : Text, m ∉ marker →
      marker.isPrefixOf (a ++ m :: b) = marker.isPrefixOf a := by
    intro marker hmarker
    rw [Bool.eq_iff_iff, List.isPrefixOf_iff_prefix, List.isPrefixOf_iff_prefix,
      Text.prefix_append_cons_iff hmarker]
  rw [CommentMarkers.opensAt, CommentMarkers.opensAt, hsame _ hline, hsame _ hblock]

theorem SparesCallMarks.symbolRun_append (hx : x.SparesCallMarks) (hm : isCallMark m = true)
    (a b : Text) : x.symbolRun (a ++ m :: b) = x.symbolRun a := by
  induction a with
  | nil =>
    show x.symbolRun (m :: b) = 0
    rw [symbolRun, isSymbol_of_isCallMark hm]
    rfl
  | cons c rest ih =>
    have hopens := hx.opensAt_append hm (c :: rest) b
    rw [List.cons_append] at hopens ⊢
    rw [symbolRun, symbolRun, hopens, ih]

/-- Where no comment and no literal opens, the next cut does not see what stands behind a mark. -/
theorem SparesCallMarks.rootCut_append (hx : x.SparesCallMarks) (hm : isCallMark m = true)
    {c : Char} {a : Text} (plain : x.comments.opensAt (c :: a) = false)
    (noQuote : Quote.ofChar? c = none) (b : Text) :
    x.rootCut c (a ++ m :: b) = x.rootCut c a := by
  have hhold := canHold_of_isCallMark hm
  have hcontinue := (Word.canHold_eq_false hhold).1
  have hopens := (hx.opensAt_append hm (c :: a) b).trans plain
  have hblank := Text.takeWhile_append (isBlank_of_isCallMark hm) (c :: a) b
  have hnumber := Number.match?_append hhold (c :: a) b
  have hword := Word.lengthAt_append hcontinue c a b
  have hsymbols := hx.symbolRun_append hm a b
  have htakeWord : (c :: a ++ m :: b).take (Word.lengthAt (c :: a)) =
      (c :: a).take (Word.lengthAt (c :: a)) :=
    List.take_append_of_le_length (Word.lengthAt_le_length c a)
  have htakeSymbols : (c :: a ++ m :: b).take (1 + x.symbolRun a) =
      (c :: a).take (1 + x.symbolRun a) := by
    have hle := x.symbolRun_le_length a
    exact List.take_append_of_le_length (by rw [List.length_cons]; omega)
  rw [List.cons_append] at hopens hblank hnumber htakeWord htakeSymbols
  simp only [rootCut, commentCut?_of_not_opensAt hopens, commentCut?_of_not_opensAt plain, noQuote,
    hblank, hnumber, hword, hsymbols, htakeWord, htakeSymbols]

theorem rootCut_of_isCallMark (hm : isCallMark m = true) {rest : Text}
    (plain : x.comments.opensAt (m :: rest) = false) :
    x.rootCut m rest = ⟨1, if isBracket m then .bracket else .delimiter, .root⟩ := by
  have hinert := Word.isInert_iff.1 (Word.isInert_of_not_canHold (canHold_of_isCallMark hm))
  have hnumber := Number.match?_of_head hinert.2.1 hinert.2.2 rest
  have hquote : Quote.ofChar? m = none := by
    rcases isCallMark_cases hm with rfl | rfl | rfl <;> rfl
  have hdelimiter : isBracket m = true ∨ isDelimiter m = true := by
    rcases isCallMark_cases hm with rfl | rfl | rfl <;> decide
  simp only [rootCut, commentCut?_of_not_opensAt plain, isBlank_of_isCallMark hm, hquote, hnumber,
    hinert.1, isSymbol_of_isCallMark hm, Bool.false_eq_true, if_false]
  by_cases hbracket : isBracket m = true
  · simp only [hbracket, if_true]
  · simp only [hbracket, hdelimiter.resolve_left hbracket, if_true, Bool.false_eq_true, if_false]

end Marks

/-! ## Inside of a literal -/

section Quoted

variable {quote : Quote}

theorem hexRun_append {e : Char} (h : isHexDigit e = false) (n : Nat) (a b : Text) :
    hexRun n (a ++ e :: b) = hexRun n a := by
  rw [hexRun, hexRun, List.take_append]
  cases hn : n - a.length with
  | zero => rw [List.take_zero, List.append_nil]
  | succ k => rw [List.take_succ_cons, Text.takeWhile_append h]

theorem escapeLength?_append {e : Char} (h : isHexDigit e = false) (c : Char) (a b : Text) :
    escapeLength? (c :: (a ++ e :: b)) = escapeLength? (c :: a) := by
  simp only [escapeLength?, hexRun_append h]

/-- A cut in the body of a literal does not see what stands behind the closing quote. -/
theorem literalCut_append {c : Char} {inner : Text} (h : Body quote (c :: inner)) (b : Text) :
    literalCut quote c (inner ++ quote.char :: b) = literalCut quote c inner := by
  cases h with
  | hidden d more =>
    rename_i rest
    have hne : '\\' ≠ quote.char := quote.char_ne_backslash.symm
    have hcode := escapeLength?_append quote.isHexDigit_char d rest b
    simp only [literalCut, if_neg hne, List.cons_append, hcode]
    rfl
  | plain notHiding notClosing more =>
    have hrun := Text.takeWhile_append (p := fun d => decide (d ≠ '\\' ∧ d ≠ quote.char))
      (e := quote.char) (by simp) (c :: inner) b
    rw [List.cons_append] at hrun
    simp only [literalCut, if_neg notClosing, if_neg notHiding, hrun]

theorem body_of_plain {t : Text} (h : ∀ d ∈ t, d ≠ '\\' ∧ d ≠ quote.char) : Body quote t := by
  induction t with
  | nil => exact .nil
  | cons c rest ih =>
    obtain ⟨hhide, hclose⟩ := h c List.mem_cons_self
    exact .plain hhide hclose (ih fun d hd => h d (List.mem_cons_of_mem c hd))

theorem lookAhead_drop {t : Text} {n : Nat} (h : ∀ d ∈ t.take n, d ≠ '\\' ∧ d ≠ quote.char) :
    lookAhead quote (t.drop n) = lookAhead quote t := by
  rw [← lookAhead_append (body_of_plain h), List.take_append_drop]

/-- Where a literal has no end in the text, a cut leaves the scanner in the literal and the rest
of the text without an end. -/
theorem LiteralRule.of_unclosed {c : Char} {rest b : Text} {k : Cut}
    (hrule : LiteralRule quote c (rest ++ b) k)
    (hopen : lookAhead quote (c :: rest) ≠ .closed) :
    k.next = .literal quote ∧ k.tokenClass.isLiteralPiece = true ∧
      lookAhead quote ((c :: rest).drop k.length) ≠ .closed := by
  have hnil : lookAhead quote [] ≠ .closed := by simp [lookAhead]
  cases hrule with
  | closes closing =>
    rw [closing, lookAhead_cons quote.char_ne_backslash, if_pos rfl] at hopen
    exact absurd rfl hopen
  | carries hides last =>
    obtain ⟨rfl, -⟩ := List.append_eq_nil_iff.1 last
    exact ⟨rfl, rfl, hnil⟩
  | escape hides code =>
    refine ⟨rfl, rfl, ?_⟩
    obtain ⟨d, tail, m, htail, rfl, -, hdigits⟩ := eq_of_escapeLength? code
    have hdrop : (c :: rest).drop (1 + (1 + m)) = (rest.drop 1).drop m := by
      rw [List.drop_drop, show 1 + (1 + m) = 1 + m + 1 by omega, List.drop_succ_cons]
    cases rest with
    | nil => rw [hdrop, List.drop_nil, List.drop_nil]; exact hnil
    | cons d' more =>
      obtain ⟨rfl, rfl⟩ : d' = d ∧ more ++ b = tail := by simpa using htail
      rw [hdrop, List.drop_one, List.tail_cons, lookAhead_drop]
      · rw [hides] at hopen
        exact hopen
      · intro a ha
        have hhex := hdigits a ((List.IsPrefix.take (List.prefix_append more b) m).subset ha)
        refine ⟨?_, ?_⟩
        · rintro rfl
          exact absurd hhex (by decide)
        · rintro rfl
          rw [quote.isHexDigit_char] at hhex
          simp at hhex
  | invalidEscape hides some noCode =>
    refine ⟨rfl, rfl, ?_⟩
    cases rest with
    | nil => exact hnil
    | cons d more =>
      rw [hides] at hopen
      exact hopen
  | plain notClosing notHiding =>
    refine ⟨rfl, rfl, ?_⟩
    rw [lookAhead_drop]
    · exact hopen
    · intro d hd
      have hrun := List.takeWhile_prefix (l := c :: (rest ++ b))
        fun d => decide (d ≠ '\\' ∧ d ≠ quote.char)
      have hmem := (List.IsPrefix.take (List.prefix_append (c :: rest) b) _).subset hd
      rw [List.cons_append, ← List.prefix_iff_eq_take.1 hrun] at hmem
      exact of_decide_eq_true (List.all_eq_true.1 List.all_takeWhile d hmem)

theorem lookAhead_closed_append {t : Text} (h : lookAhead quote t = .closed) (b : Text) :
    lookAhead quote (t ++ b) = .closed := by
  rcases closes_or_runsOn_or_body quote t with ⟨inner, after, hbody, rfl⟩ | ⟨inner, hr⟩ | hbody
  · exact lookAhead_of_closes ⟨hbody, by rw [List.append_assoc]; rfl⟩
  · rw [lookAhead_of_runsOn hr] at h
    simp at h
  · rw [lookAhead_of_body hbody] at h
    simp at h

end Quoted

/-! ## Texts in which no mark is found -/

/-- The scan of `a` and what follows finds no mark of a call up to the end of `a`. -/
def Unmarked (x : Lexicon) (state : LineState) (a b : Text) : Prop :=
  ∀ l ∈ Lexeme.within (Text.width a) (x.scanFrom state (a ++ b)).lexemes, ¬ l.IsCallMark

/-- Either no mark is found up to the end of `c :: rest`, whatever follows, or the next cut does
not depend on what follows. -/
def UnmarkedOrStable (x : Lexicon) (state : LineState) (c : Char) (rest : Text) : Prop :=
  (∀ b, x.Unmarked state (c :: rest) b) ∨ ∀ b, x.cut state c (rest ++ b) = x.cut state c rest

theorem unmarked_of_spared {a : Text} (h : ∀ c ∈ a, isCallMark c = false) (state : LineState)
    (b : Text) : x.Unmarked state a b := by
  intro l hl hmark
  obtain ⟨c, hc, hcmark⟩ := hmark.exists_mem
  have hscan := x.scanFrom_prefix state (a ++ b)
  have hfront := Lexeme.isPrefix_join_within hscan
  have hmem : c ∈ a := hfront.subset (List.mem_flatMap.2 ⟨l, hl, hc⟩)
  rw [h c hmem] at hcmark
  simp at hcmark

section OneCut

variable {state : LineState} {c : Char} {rest b : Text} {k : Cut}

theorem within_scanFrom_of_le (hk : x.cut state c (rest ++ b) = k) (hpos : 0 < k.length)
    (hle : k.length ≤ (c :: rest).length) :
    Lexeme.within (Text.width (c :: rest)) (x.scanFrom state (c :: rest ++ b)).lexemes =
      ⟨(c :: rest).take k.length, k.tokenClass⟩ ::
        Lexeme.within (Text.width ((c :: rest).drop k.length))
          (x.scanFrom k.next ((c :: rest).drop k.length ++ b)).lexemes := by
  have hscan := scanFrom_cons (x := x) (hk ▸ hpos)
  have hwidth := Text.width_take_add_drop (c :: rest) k.length
  have hafter : Text.width (c :: rest) - Text.width ((c :: rest).take k.length) =
      Text.width ((c :: rest).drop k.length) := by omega
  rw [hk, ← List.cons_append, List.take_append_of_le_length hle,
    List.drop_append_of_le_length hle] at hscan
  rw [hscan, Lexeme.within, if_pos (by simp only; omega), hafter]

/-- A cut that goes beyond `c :: rest` leaves nothing of the scan within it. -/
theorem within_scanFrom_of_lt (hk : x.cut state c (rest ++ b) = k)
    (hlt : (c :: rest).length < k.length) :
    Lexeme.within (Text.width (c :: rest)) (x.scanFrom state (c :: rest ++ b)).lexemes = [] := by
  have hpos : 0 < k.length := Nat.lt_of_le_of_lt (Nat.zero_le _) hlt
  have hle : k.length ≤ (c :: rest ++ b).length := hk ▸ x.cut_length_le state c (rest ++ b)
  have hscan := scanFrom_cons (x := x) (hk ▸ hpos)
  rw [hk, ← List.cons_append, List.take_append, List.take_of_length_le (Nat.le_of_lt hlt)] at hscan
  have hmore : b.take (k.length - (c :: rest).length) ≠ [] := by
    refine List.length_pos_iff.1 ?_
    rw [List.length_append] at hle
    rw [List.length_take]
    omega
  have hwidth := Text.width_pos hmore
  rw [hscan, Lexeme.within, if_neg (by simp only [Text.width_append]; omega)]

/-- A cut that takes all of `c :: rest` and is no mark. -/
theorem unmarked_of_cut (hk : x.cut state c (rest ++ b) = k) (hbracket : k.tokenClass ≠ .bracket)
    (hdelimiter : k.tokenClass ≠ .delimiter) (hle : (c :: rest).length ≤ k.length) :
    x.Unmarked state (c :: rest) b := by
  intro l hl
  rcases Nat.lt_or_eq_of_le hle with hlt | heq
  · rw [within_scanFrom_of_lt hk hlt] at hl
    simp at hl
  · have hpos : 0 < k.length := by rw [← heq]; exact Nat.succ_pos _
    rw [within_scanFrom_of_le hk hpos (Nat.le_of_eq heq.symm), ← heq, List.take_length,
      List.drop_length] at hl
    rcases List.mem_cons.1 hl with rfl | hl
    · exact Lexeme.not_isCallMark_of_class hbracket hdelimiter
    · exact unmarked_of_spared (by simp) k.next b l hl

/-- A cut that takes all of the line and is no mark. -/
theorem unmarked_of_cut_all {cls : TokenClass} {next : LineState}
    (hk : x.cut state c (rest ++ b) = ⟨(c :: (rest ++ b)).length, cls, next⟩)
    (hbracket : cls ≠ .bracket) (hdelimiter : cls ≠ .delimiter) :
    x.Unmarked state (c :: rest) b := by
  refine unmarked_of_cut hk hbracket hdelimiter ?_
  simp only [List.length_cons, List.length_append]
  omega

theorem unmarked_literal {quote : Quote} {a : Text} (hopen : lookAhead quote a ≠ .closed)
    (b : Text) : x.Unmarked (.literal quote) a b := by
  match a with
  | [] => exact unmarked_of_spared (by simp) _ b
  | c :: rest =>
    have hrule := literalCut_rule quote c (rest ++ b)
    have hcut : x.cut (.literal quote) c (rest ++ b) = literalCut quote c (rest ++ b) := rfl
    have hpos := hrule.length_pos
    obtain ⟨hnext, hclass, hdrop⟩ := hrule.of_unclosed hopen
    intro l hl
    by_cases hle : (literalCut quote c (rest ++ b)).length ≤ (c :: rest).length
    · rw [within_scanFrom_of_le hcut hpos hle] at hl
      rcases List.mem_cons.1 hl with rfl | hl
      · exact Lexeme.not_isCallMark_of_isLiteralPiece hclass
      · rw [hnext] at hl
        exact unmarked_literal hdrop b l hl
    · rw [within_scanFrom_of_lt hcut (Nat.lt_of_not_le hle)] at hl
      simp at hl
termination_by a.length
decreasing_by
  simp only [List.length_drop, List.length_cons]
  omega

/-! ## The next cut -/

theorem CommentAt.unmarkedOrStable {n : Nat} (h : x.CommentAt state (c :: rest) n)
    (hmore : ∀ b, x.CommentAt state (c :: (rest ++ b)) n) : x.UnmarkedOrStable state c rest := by
  have hdrop : ∀ b, (c :: (rest ++ b)).drop n = (c :: rest).drop n ++ b := fun b =>
    List.drop_append_of_le_length h.le_length
  cases hi : Text.search? x.comments.blockEnd ((c :: rest).drop n) with
  | some i =>
    refine Or.inr fun b => ?_
    rw [h.cut_eq, (hmore b).cut_eq, hdrop, hi, Text.search?_append hi]
  | none =>
    refine Or.inl fun b => ?_
    have hcut := (hmore b).cut_eq
    rw [hdrop] at hcut
    cases hj : Text.search? x.comments.blockEnd ((c :: rest).drop n ++ b) with
    | none =>
      rw [hj] at hcut
      exact unmarked_of_cut_all hcut (by simp) (by simp)
    | some j =>
      rw [hj] at hcut
      refine unmarked_of_cut hcut (by simp) (by simp) (Nat.le_of_not_lt fun hlt => ?_)
      have hle : j + x.comments.blockEnd.length ≤ ((c :: rest).drop n).length := by
        simp only [List.length_drop] at *
        omega
      rw [Text.search?_of_append hj hle] at hi
      simp at hi

theorem quote_unmarkedOrStable {quote : Quote} {body : Text}
    (plain : x.comments.opensAt (quote.char :: body) = false)
    (hmore : ∀ b, x.comments.opensAt (quote.char :: (body ++ b)) = false) :
    x.UnmarkedOrStable .root quote.char body := by
  by_cases hclosed : lookAhead quote body = .closed
  · refine Or.inr fun b => ?_
    show x.rootCut quote.char (body ++ b) = x.rootCut quote.char body
    rw [rootCut_quote plain, rootCut_quote (hmore b), quoteCut, quoteCut, List.drop_one,
      List.drop_one, List.tail_cons, List.tail_cons, hclosed, lookAhead_closed_append hclosed]
  · refine Or.inl fun b => ?_
    have hcut : x.cut .root quote.char (body ++ b) =
        quoteCut quote (quote.char :: (body ++ b)) := rootCut_quote (hmore b)
    rw [quoteCut, List.drop_one, List.tail_cons] at hcut
    by_cases hend : lookAhead quote (body ++ b) = .unterminated
    · rw [hend] at hcut
      exact unmarked_of_cut_all hcut (by simp) (by simp)
    · have hopens : x.cut .root quote.char (body ++ b) = ⟨1, .string, .literal quote⟩ := by
        rw [hcut]
        split
        · next h => exact absurd h hend
        · rfl
        · rfl
      intro l hl
      rw [within_scanFrom_of_le hopens Nat.one_pos (Nat.succ_le_succ (Nat.zero_le _))] at hl
      rcases List.mem_cons.1 hl with rfl | hl
      · exact Lexeme.not_isCallMark_of_isLiteralPiece rfl
      · exact unmarked_literal hclosed b l hl

theorem literal_unmarkedOrStable (quote : Quote) (c : Char) (rest : Text) :
    x.UnmarkedOrStable (.literal quote) c rest := by
  rcases closes_or_runsOn_or_body quote (c :: rest) with
    ⟨inner, after, hbody, hsplit⟩ | ⟨inner, hruns⟩ | hbody
  · refine Or.inr fun b => ?_
    show literalCut quote c (rest ++ b) = literalCut quote c rest
    cases inner with
    | nil =>
      obtain ⟨rfl, rfl⟩ : c = quote.char ∧ rest = after := by simpa using hsplit
      simp only [literalCut, if_true]
    | cons d inner =>
      obtain ⟨rfl, rfl⟩ : c = d ∧ rest = inner ++ quote.char :: after := by simpa using hsplit
      rw [List.append_assoc, List.cons_append, literalCut_append hbody, literalCut_append hbody]
  · exact Or.inl (unmarked_literal (by rw [lookAhead_of_runsOn hruns]; simp))
  · exact Or.inl (unmarked_literal (by rw [lookAhead_of_body hbody]; simp))

theorem SparesCallMarks.root_unmarkedOrStable (hx : x.SparesCallMarks) {m : Char}
    (hm : isCallMark m = true) {u v : Text} (huv : c :: rest = u ++ m :: v) :
    x.UnmarkedOrStable .root c rest := by
  have hlonger : ∀ b, c :: (rest ++ b) = u ++ m :: (v ++ b) := by
    intro b
    rw [← List.cons_append, huv, List.append_assoc]
    rfl
  have hsame : ∀ marker : Text, m ∉ marker → ∀ b,
      (marker <+: c :: (rest ++ b) ↔ marker <+: c :: rest) := by
    intro marker hmarker b
    rw [hlonger, huv, Text.prefix_append_cons_iff hmarker, Text.prefix_append_cons_iff hmarker]
  obtain ⟨hline, hblock⟩ := hx m hm
  by_cases hopensLine : x.comments.line <+: c :: rest
  · refine Or.inl fun b => ?_
    have hcut : x.cut .root c (rest ++ b) = ⟨(c :: (rest ++ b)).length, .comment, .root⟩ := by
      have hopens := List.isPrefixOf_iff_prefix.2 ((hsame _ hline b).2 hopensLine)
      show x.rootCut c (rest ++ b) = _
      simp only [rootCut, commentCut?, hopens, if_true]
    exact unmarked_of_cut_all hcut (by simp) (by simp)
  · by_cases hopensBlock : x.comments.blockStart <+: c :: rest
    · exact CommentAt.unmarkedOrStable (.opener hopensBlock hopensLine) fun b =>
        .opener ((hsame _ hblock b).2 hopensBlock) fun h => hopensLine ((hsame _ hline b).1 h)
    · have hopens : ∀ b, x.comments.opensAt (c :: (rest ++ b)) = false := by
        intro b
        rw [CommentMarkers.opensAt, Bool.or_eq_false_iff, Bool.eq_false_iff, Bool.eq_false_iff,
          ne_eq, ne_eq, List.isPrefixOf_iff_prefix, List.isPrefixOf_iff_prefix, hsame _ hline,
          hsame _ hblock]
        exact ⟨hopensLine, hopensBlock⟩
      have plain : x.comments.opensAt (c :: rest) = false := by
        have := hopens []
        rwa [List.append_nil] at this
      cases hquote : Quote.ofChar? c with
      | some quote =>
        obtain rfl := Quote.eq_char_of_ofChar? hquote
        exact quote_unmarkedOrStable plain hopens
      | none =>
        refine Or.inr fun b => ?_
        show x.rootCut c (rest ++ b) = x.rootCut c rest
        cases u with
        | nil =>
          obtain ⟨rfl, rfl⟩ : c = m ∧ rest = v := by simpa using huv
          rw [rootCut_of_isCallMark hm (hopens b), rootCut_of_isCallMark hm plain]
        | cons d u =>
          obtain ⟨rfl, rfl⟩ : c = d ∧ rest = u ++ m :: v := by simpa using huv
          rw [← List.cons_append, hx.opensAt_append hm] at plain
          rw [List.append_assoc, List.cons_append, hx.rootCut_append hm plain hquote,
            hx.rootCut_append hm plain hquote]

/-- Wherever the scanner stands, either no mark of a call is found up to the end of the text,
whatever follows, or the next cut does not depend on what follows. -/
theorem unmarked_or_stable (hx : x.SparesCallMarks) (state : LineState) (c : Char) (rest : Text) :
    x.UnmarkedOrStable state c rest := by
  by_cases hspared : ∀ d ∈ c :: rest, isCallMark d = false
  · exact Or.inl (unmarked_of_spared hspared state)
  · cases state with
    | blockComment => exact CommentAt.unmarkedOrStable .inside fun b => .inside
    | literal quote => exact literal_unmarkedOrStable quote c rest
    | root =>
      obtain ⟨m, hmem, hm⟩ : ∃ m ∈ c :: rest, isCallMark m = true := by
        simpa only [not_forall, Bool.not_eq_false, exists_prop] using hspared
      obtain ⟨u, v, huv⟩ := List.append_of_mem hmem
      exact hx.root_unmarkedOrStable hm huv

end OneCut

/-! ## The whole scan -/

/-- Two lists of lexemes are the same up to tails in which there is no mark of a call. -/
def AgreeOnMarks (ls ls' : List Lexeme) : Prop :=
  ∃ same tail tail', ls = same ++ tail ∧ ls' = same ++ tail' ∧
    (∀ l ∈ tail, ¬ l.IsCallMark) ∧ ∀ l ∈ tail', ¬ l.IsCallMark

theorem AgreeOnMarks.cons {ls ls' : List Lexeme} (h : AgreeOnMarks ls ls') (l : Lexeme) :
    AgreeOnMarks (l :: ls) (l :: ls') := by
  obtain ⟨same, tail, tail', rfl, rfl, htail, htail'⟩ := h
  exact ⟨l :: same, tail, tail', rfl, rfl, htail, htail'⟩

theorem agreeOnMarks_of_unmarked {a : Text} {ls ls' : List Lexeme}
    (hls : ls.flatMap Lexeme.text <+: a)
    (h : ∀ l ∈ Lexeme.within (Text.width a) ls, ¬ l.IsCallMark)
    (h' : ∀ l ∈ Lexeme.within (Text.width a) ls', ¬ l.IsCallMark) :
    AgreeOnMarks ls (Lexeme.within (Text.width a) ls') := by
  rw [Lexeme.within_of_prefix hls] at h
  exact ⟨[], _, _, rfl, rfl, h, h'⟩

/-- The scan of a text that is cut off agrees with the scan of the whole text up to the cut. -/
theorem agree_scanFrom (hx : x.SparesCallMarks) (state : LineState) (a b : Text) :
    AgreeOnMarks (x.scanFrom state a).lexemes
      (Lexeme.within (Text.width a) (x.scanFrom state (a ++ b)).lexemes) := by
  have hends : (∀ b, x.Unmarked state a b) → AgreeOnMarks (x.scanFrom state a).lexemes
      (Lexeme.within (Text.width a) (x.scanFrom state (a ++ b)).lexemes) := by
    intro hunmarked
    have hcut := hunmarked []
    rw [Unmarked, List.append_nil] at hcut
    exact agreeOnMarks_of_unmarked (x.scanFrom_prefix state a) hcut (hunmarked b)
  match a with
  | [] => exact hends fun b => unmarked_of_spared (by simp) state b
  | c :: rest =>
    rcases unmarked_or_stable hx state c rest with hunmarked | hstable
    · exact hends hunmarked
    · by_cases hpos : 0 < (x.cut state c rest).length
      · rw [scanFrom_cons hpos, within_scanFrom_of_le (hstable b) hpos (x.cut_length_le _ _ _)]
        exact (agree_scanFrom hx _ _ b).cons _
      · have hstuck : ∀ t, x.cut state c t = x.cut state c rest →
            (x.scanFrom state (c :: t)).lexemes = [] := by
          intro t ht
          rw [scanFrom]
          simp only [ht, Nat.eq_zero_of_not_pos hpos, dite_true]
        rw [List.cons_append, hstuck _ rfl, hstuck _ (hstable b)]
        exact ⟨[], [], [], rfl, rfl, by simp, by simp⟩
termination_by a.length
decreasing_by
  simp only [List.length_drop, List.length_cons]
  omega

theorem unmarked_scanLine {quote : Quote} {a : Text} (hopen : lookAhead quote a ≠ .closed)
    (b : Text) : ∀ l ∈ Lexeme.within (Text.width a) (x.scanLine (.literal quote) (a ++ b)).lexemes,
      ¬ l.IsCallMark := by
  by_cases hend : lookAhead quote (a ++ b) = .unterminated
  · intro l hl
    have hmem := (Lexeme.isPrefix_within _ _).subset hl
    rw [scanLine_of_broken hend] at hmem
    have hclass : l.tokenClass = .stringInvalid := by
      split at hmem
      · simp at hmem
      · rw [List.mem_singleton.1 hmem]
    exact Lexeme.not_isCallMark_of_class (by rw [hclass]; simp) (by rw [hclass]; simp)
  · rw [scanLine_literal hend]
    exact unmarked_literal hopen b

/-- The same for a line, which begins in any state. -/
theorem agree_scanLine (hx : x.SparesCallMarks) (entry : LineState) (a b : Text) :
    AgreeOnMarks (x.scanLine entry a).lexemes
      (Lexeme.within (Text.width a) (x.scanLine entry (a ++ b)).lexemes) := by
  cases entry with
  | root => exact agree_scanFrom hx .root a b
  | blockComment => exact agree_scanFrom hx .blockComment a b
  | literal quote =>
    by_cases hclosed : lookAhead quote a = .closed
    · have hlonger := lookAhead_closed_append hclosed b
      rw [scanLine_literal (by rw [hclosed]; simp), scanLine_literal (by rw [hlonger]; simp)]
      exact agree_scanFrom hx _ a b
    · have hcut := unmarked_scanLine (x := x) hclosed []
      rw [List.append_nil] at hcut
      exact agreeOnMarks_of_unmarked (x.scanLine_prefix (.literal quote) a) hcut
        (unmarked_scanLine hclosed b)

end Lexicon
end SqlAssist
