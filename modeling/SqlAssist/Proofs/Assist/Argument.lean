import Mathlib.Algebra.GroupWithZero.Nat
import Mathlib.Data.List.TakeWhile
import SqlAssist.Proofs.Assist.Marks
import SqlAssist.Proofs.Document.Cursor
import SqlAssist.Proofs.Symbol.Signature

/-!
Help for a call that is typed like its signature.

Two counters have to agree for the highlighted parameter to be the one about to be typed: the
splitter of signatures, which takes round and square brackets alike, and the walk over open calls,
which keeps round ones only.  They agree on texts in which no comma stands in square brackets
alone.  Such a comma is none between two parameters, and still the walk counts it for the call, so
that help is ahead by one for each of them (`signatureHelp?_writing`).
-/

namespace SqlAssist

open Token

namespace Signature

/-- Texts of words, spaces and brackets in pairs.  Commas stand in a pair of brackets only, unless
the text itself is the `inner` of one. -/
inductive Nested : Bool → Text → Prop
  | nil {inner : Bool} : Nested inner []
  | word {inner : Bool} {w rest : Text} (hw : Word.IsIdentifier w) (more : Nested inner rest) :
      Nested inner (w ++ rest)
  | space {inner : Bool} {rest : Text} (more : Nested inner rest) : Nested inner (' ' :: rest)
  | comma {rest : Text} (more : Nested true rest) : Nested true (',' :: rest)
  | round {inner : Bool} {content rest : Text} (inside : Nested true content)
      (more : Nested inner rest) : Nested inner ('(' :: (content ++ ')' :: rest))
  | square {inner : Bool} {content rest : Text} (inside : Nested true content)
      (more : Nested inner rest) : Nested inner ('[' :: (content ++ ']' :: rest))

structure IsParameter (p : Text) : Prop where
  nested : Nested false p
  ne_nil : p ≠ []
  first : p.head? ≠ some ' '
  last : p.getLast? ≠ some ' '

def isWritable (c : Char) : Bool := Word.isContinue c || [' ', ',', '(', ')', '[', ']'].contains c

theorem isWritable_of_isContinue {c : Char} (h : Word.isContinue c = true) :
    isWritable c = true := by
  rw [isWritable, h]
  rfl

theorem isWritable_call {f args : Text} (hf : Word.IsIdentifier f)
    (hargs : ∀ c ∈ args, isWritable c = true) : ∀ c ∈ f ++ '(' :: args, isWritable c = true :=
  List.forall_mem_append.2 ⟨fun c hc => isWritable_of_isContinue (hf.isContinue c hc),
    List.forall_mem_cons.2 ⟨rfl, hargs⟩⟩

theorem eq_space_of_isBlank {c : Char} (h : isWritable c = true) (hblank : Text.isBlank c = true) :
    c = ' ' := by
  have hcontinue : Word.isContinue c = false := by
    obtain ⟨hstart, hdigit, -⟩ := Word.isInert_iff.1 (Word.isInert_of_isBlank hblank)
    rw [Word.isStart, Bool.or_eq_false_iff] at hstart
    rw [Word.isContinue, Char.isAlphanum, hstart.1, hstart.2, hdigit]
    rfl
  rw [isWritable, hcontinue, Bool.false_or, List.contains_iff_mem] at h
  simp only [List.mem_cons, List.not_mem_nil, or_false] at h
  rcases h with rfl | rfl | rfl | rfl | rfl | rfl
  · rfl
  all_goals exact absurd hblank (by decide)

theorem isPiece_word_append {w : Text} (hw : ∀ c ∈ w, Word.isContinue c = true) (depth : Nat)
    (u : Text) : IsPiece depth (w ++ u) ↔ IsPiece depth u := by
  induction w with
  | nil => exact Iff.rfl
  | cons c w ih =>
    have hc := hw c List.mem_cons_self
    have hne : ∀ d, Word.isContinue d = false → c ≠ d := fun d hd heq => by
      rw [heq, hd] at hc
      simp at hc
    rw [List.cons_append, IsPiece, if_neg (by simp [hne '(' rfl, hne '[' rfl]),
      if_neg (by simp [hne ')' rfl, hne ']' rfl]), if_neg (hne ',' rfl)]
    exact ih fun d hd => hw d (List.mem_cons_of_mem c hd)

theorem isPiece_close_iff {c : Char} (hc : c = ')' ∨ c = ']') (depth : Nat) (u : Text) :
    IsPiece (depth + 1) (c :: u) ↔ IsPiece depth u := by
  have hopen : ¬ (c = '(' ∨ c = '[') := by rcases hc with rfl | rfl <;> decide
  rw [IsPiece, if_neg hopen, if_pos hc]
  exact ⟨fun h => h.2, fun h => ⟨Nat.succ_pos depth, h⟩⟩

namespace Nested

variable {inner : Bool} {t : Text}

theorem isWritable (h : Nested inner t) : ∀ c ∈ t, isWritable c = true := by
  induction h with
  | nil => simp
  | word hw _ ih =>
    exact List.forall_mem_append.2
      ⟨fun c hc => isWritable_of_isContinue (hw.isContinue c hc), ih⟩
  | space _ ih => exact List.forall_mem_cons.2 ⟨rfl, ih⟩
  | comma _ ih => exact List.forall_mem_cons.2 ⟨rfl, ih⟩
  | round _ _ ihin ih =>
    exact List.forall_mem_cons.2
      ⟨rfl, List.forall_mem_append.2 ⟨ihin, List.forall_mem_cons.2 ⟨rfl, ih⟩⟩⟩
  | square _ _ ihin ih =>
    exact List.forall_mem_cons.2
      ⟨rfl, List.forall_mem_append.2 ⟨ihin, List.forall_mem_cons.2 ⟨rfl, ih⟩⟩⟩

theorem append (h : Nested inner t) {outer : Bool} (hle : inner = true → outer = true) {u : Text}
    (hu : Nested outer u) : Nested outer (t ++ u) := by
  induction h with
  | nil => exact hu
  | word hw _ ih =>
    rw [List.append_assoc]
    exact .word hw (ih hle)
  | space _ ih => exact .space (ih hle)
  | comma _ ih =>
    obtain rfl := hle rfl
    exact .comma (ih hle)
  | round inside _ _ ih =>
    rw [List.cons_append, List.append_assoc, List.cons_append]
    exact .round inside (ih hle)
  | square inside _ _ ih =>
    rw [List.cons_append, List.append_assoc, List.cons_append]
    exact .square inside (ih hle)

theorem isPiece_append_iff (h : Nested inner t) {depth : Nat} (hdepth : inner = true → 0 < depth)
    (u : Text) : IsPiece depth (t ++ u) ↔ IsPiece depth u := by
  induction h generalizing depth u with
  | nil => exact Iff.rfl
  | word hw _ ih =>
    rw [List.append_assoc, isPiece_word_append hw.isContinue, ih hdepth]
  | space _ ih => exact ih hdepth u
  | @comma rest _ ih =>
    have hcomma : IsPiece depth (',' :: (rest ++ u)) ↔ IsPiece depth (rest ++ u) :=
      ⟨fun h => h.2, fun h => ⟨hdepth rfl, h⟩⟩
    exact hcomma.trans (ih hdepth u)
  | @round inner content rest _ _ ihin ih =>
    have hclosed := isPiece_close_iff (c := ')') (by simp) depth (rest ++ u)
    rw [List.cons_append, List.append_assoc]
    exact (ihin (fun _ => Nat.succ_pos depth) _).trans (hclosed.trans (ih hdepth u))
  | @square inner content rest _ _ ihin ih =>
    have hclosed := isPiece_close_iff (c := ']') (by simp) depth (rest ++ u)
    rw [List.cons_append, List.append_assoc]
    exact (ihin (fun _ => Nat.succ_pos depth) _).trans (hclosed.trans (ih hdepth u))

theorem settled (h : Nested inner t) (offset : Nat) : Settled (ofChars offset t) := by
  induction h generalizing offset with
  | nil => exact .nil
  | @word inner w rest hw _ ih =>
    have hspared : ∀ c ∈ w, isCallMark c = false := by
      intro c hc
      have hcontinue := hw.isContinue c hc
      rw [← Bool.not_eq_true]
      intro hmark
      rcases isCallMark_cases hmark with rfl | rfl | rfl <;> exact absurd hcontinue (by decide)
    rw [ofChars_append]
    refine .append (settled_marks_iff.1 ?_) (ih _)
    rw [marks_eq_nil (not_isCallMark_of_mem_ofChars hspared)]
    exact .nil
  | space _ ih =>
    exact (settled_ofChar (by decide) (by decide) offset).append (ih _)
  | comma _ ih =>
    exact (settled_ofChar (by decide) (by decide) offset).append (ih _)
  | @round inner content rest _ _ ihin ih =>
    have hgroup := (ihin (offset + 1)).enclose (p := ⟨['('], .bracket, offset⟩)
      (q := ⟨[')'], .bracket, offset + 1 + Text.width content⟩) ⟨rfl, rfl⟩ ⟨rfl, rfl⟩
    have hsplit : ofChars offset ('(' :: (content ++ ')' :: rest)) =
        ⟨['('], .bracket, offset⟩ :: (ofChars (offset + 1) content ++
          [⟨[')'], .bracket, offset + 1 + Text.width content⟩]) ++
            ofChars (offset + 1 + Text.width content + 1) rest := by
      show ⟨['('], .bracket, offset⟩ :: ofChars (offset + 1) (content ++ ')' :: rest) = _
      rw [ofChars_append, List.cons_append, List.append_assoc]
      rfl
    rw [hsplit]
    exact hgroup.append (ih _)
  | @square inner content rest _ _ ihin ih =>
    have hbracket : ∀ (c : Char) (u : Text) (o : Nat), ofChars o (c :: u) =
        ofChars o [c] ++ ofChars (o + Text.width [c]) u := fun c u o => ofChars_append o [c] u
    rw [hbracket, ofChars_append, hbracket]
    exact (settled_ofChar (by decide) (by decide) _).append
      ((ihin _).append ((settled_ofChar (by decide) (by decide) _).append (ih _)))

end Nested

namespace IsParameter

variable {p : Text}

theorem isPiece (h : IsParameter p) : IsPiece 0 p := by
  have hpiece : IsPiece 0 (p ++ []) ↔ IsPiece 0 [] := h.nested.isPiece_append_iff (by simp) []
  rw [List.append_nil] at hpiece
  exact hpiece.2 rfl

theorem trim_eq (h : IsParameter p) : Text.trim p = p := by
  refine Text.trim_of_not_isBlank ?_ ?_
  · intro c hc
    rw [← Bool.not_eq_true]
    intro hblank
    have hmem : c ∈ p := List.mem_of_mem_head? hc
    exact h.first (eq_space_of_isBlank (h.nested.isWritable c hmem) hblank ▸ hc)
  · intro c hc
    rw [← Bool.not_eq_true]
    intro hblank
    have hmem : c ∈ p := List.mem_of_mem_getLast? hc
    exact h.last (eq_space_of_isBlank (h.nested.isWritable c hmem) hblank ▸ hc)

end IsParameter

theorem parameters_of_isParameter {f : Text} (hf : Word.IsIdentifier f) {ps : List Text}
    (hps : ∀ p ∈ ps, IsParameter p) :
    parameters (f ++ '(' :: ([',', ' '].intercalate ps ++ [')'])) = ps := by
  refine parameters_of_joined (fun hm => absurd (hf.isContinue _ hm) (by decide)) (by simp) ?_
    (joined_spaced ps)
  intro p hp
  exact ⟨(hps p hp).isPiece, (hps p hp).ne_nil, (hps p hp).trim_eq⟩

/-! ## Arguments -/

/-- Arguments as they are typed, each with the comma and the space that follow. -/
def arguments (ps : List Text) : Text := ps.flatMap (· ++ [',', ' '])

theorem nested_arguments {ps : List Text} (h : ∀ p ∈ ps, Nested false p) :
    Nested true (arguments ps) := by
  induction ps with
  | nil => exact .nil
  | cons p ps ih =>
    have hrest := ih fun q hq => h q (List.mem_cons_of_mem p hq)
    rw [arguments, List.flatMap_cons, List.append_assoc]
    exact (h p List.mem_cons_self).append (by simp) (.comma (.space hrest))

theorem ownCommas_arguments {ps : List Text} (h : ∀ p ∈ ps, Nested false p) (offset : Nat) :
    ownCommas (ofChars offset (arguments ps)) = ps.length + (ps.map Text.bareCommas).sum := by
  induction ps generalizing offset with
  | nil => rfl
  | cons p ps ih =>
    have hseparator : ownCommas (ofChars (offset + Text.width p) [',', ' ']) = 1 := by
      rw [ownCommas_ofChars]
      rfl
    have hp := (h p List.mem_cons_self).settled offset
    have hcomma : Settled (ofChars (offset + Text.width p) [',', ' ']) :=
      Nested.settled (.comma (.space .nil)) _
    rw [arguments, List.flatMap_cons, ofChars_append, ofChars_append,
      ownCommas_append_of_closed_eq (hp.append hcomma).closed_eq,
      ownCommas_append_of_closed_eq hp.closed_eq, hseparator, ownCommas_ofChars,
      ← arguments, ih fun q hq => h q (List.mem_cons_of_mem p hq), List.map_cons, List.sum_cons,
      List.length_cons]
    omega

theorem commas_le_length {ps : List Text} (h : ∀ p ∈ ps, Nested false p) :
    ps.length + (ps.map Text.bareCommas).sum ≤ (arguments ps).length := by
  rw [← ownCommas_arguments h 0, ← length_ofChars 0 (arguments ps), ownCommas]
  refine Nat.le_trans List.countP_le_length ?_
  rw [List.length_zipIdx]

/-- What is typed up to a parameter is a front part of the signature. -/
theorem intercalate_eq_arguments_append (qs : List Text) (r : Text) (rs : List Text) :
    [',', ' '].intercalate (qs ++ r :: rs) = arguments qs ++ [',', ' '].intercalate (r :: rs) := by
  induction qs with
  | nil => rfl
  | cons q qs ih =>
    rw [arguments, List.flatMap_cons, ← arguments, List.append_assoc, ← ih, List.cons_append]
    cases qs with
    | nil => rw [List.nil_append, List.intercalate_cons_cons]
    | cons q' qs => rw [List.cons_append, List.intercalate_cons_cons]

end Signature

/-! ## The scan of a call -/

namespace Lexicon

open Signature

variable {x : Lexicon}

theorem tokens_of_not_mem {t : Text} (h : '\n' ∉ t) :
    x.tokens t = place 0 (x.scanLine .root t).lexemes := by
  rw [tokens_eq_tokensOfLines, Text.lines_of_not_mem h, tokensOfLines, tokensOfLine,
    tokensOfLines, Line.ending_unterminated]
  exact (List.append_nil _).trans (List.append_nil _)

theorem rootCut_of_isIdentifier {c : Char} {w rest : Text} (hc : Word.isStart c = true)
    (hw : ∀ d ∈ w, Word.isContinue d = true)
    (hplain : x.Plain (c :: (w ++ '(' :: rest))) :
    x.rootCut c (w ++ '(' :: rest) =
      ⟨(c :: w).length, x.classifyWord (c :: w), .root⟩ := by
  obtain ⟨hopens, hquote⟩ := hplain c _ (List.suffix_refl _)
  have hblank : Text.isBlank c = false := by
    rw [← Bool.not_eq_true]
    intro h
    rw [(Word.isInert_iff.1 (Word.isInert_of_isBlank h)).1] at hc
    simp at hc
  have hnumber : Number.match? (c :: (w ++ '(' :: rest)) = none :=
    Number.match?_of_head (Word.not_isDigit_of_isStart hc).1 (Word.not_isDigit_of_isStart hc).2 _
  have hlength : Word.lengthAt (c :: (w ++ '(' :: rest)) = (c :: w).length := by
    rw [Word.lengthAt_append rfl, Word.lengthAt, List.drop_one, List.tail_cons,
      List.takeWhile_eq_self_iff.2 hw, List.length_cons, Nat.add_comm]
  have htake : (c :: (w ++ '(' :: rest)).take (c :: w).length = c :: w := List.take_left
  simp only [rootCut, commentCut?_of_not_opensAt hopens, hblank, hquote, hnumber, hc, hlength,
    htake, Bool.false_eq_true, if_false, if_true]

section Default

variable (hx : x.comments = {})

include hx

theorem sparesCallMarks_of_default : x.SparesCallMarks := by
  intro c hc
  rw [hx]
  rcases isCallMark_cases hc with rfl | rfl | rfl <;> decide

theorem progresses_of_default (state : LineState) : x.Progresses state := by
  refine Or.inl ?_
  rw [hx]
  decide

theorem plain_of_isWritable {t : Text} (h : ∀ c ∈ t, isWritable c = true) : x.Plain t := by
  intro c rest hsuffix
  have hc : isWritable c = true := h c (hsuffix.subset List.mem_cons_self)
  have hne : ∀ d, isWritable d = false → d ≠ c := by
    rintro d hd rfl
    rw [hd] at hc
    simp at hc
  refine ⟨?_, ?_⟩
  · have hminus : ('-' == c) = false := beq_false_of_ne (hne '-' rfl)
    have hslash : ('/' == c) = false := beq_false_of_ne (hne '/' rfl)
    rw [hx, CommentMarkers.opensAt, List.isPrefixOf, List.isPrefixOf, hminus, hslash]
    rfl
  · rw [Quote.ofChar?, if_neg (hne '"' rfl).symm, if_neg (hne '\'' rfl).symm]

/-- A call is scanned as its name, the parenthesis and then its arguments. -/
theorem tokens_call {f args : Text} (hf : Word.IsIdentifier f)
    (hargs : ∀ c ∈ args, isWritable c = true) :
    x.tokens (f ++ '(' :: args) = ⟨f, x.classifyWord f, 0⟩ :: ⟨['('], .bracket, Text.width f⟩ ::
      place (Text.width f + 1) (x.scanFrom .root args).lexemes := by
  have hwritable := isWritable_call hf hargs
  have hline : '\n' ∉ f ++ '(' :: args := fun hm => absurd (hwritable _ hm) (by decide)
  obtain ⟨c, w, rfl, hc, hw⟩ := hf
  have hplain := plain_of_isWritable hx hwritable
  have hword := rootCut_of_isIdentifier hc hw hplain
  have hparen := rootCut_of_isCallMark (x := x) (m := '(') rfl
    (plain_of_isWritable hx (List.forall_mem_cons.2 ⟨rfl, hargs⟩) '(' args (List.suffix_refl _)).1
  have hwordScan := scanFrom_cons (cut_length_pos (progresses_of_default hx .root) c
    (w ++ '(' :: args))
  have hparenScan := scanFrom_cons (cut_length_pos (progresses_of_default hx .root) '(' args)
  rw [show x.cut .root c (w ++ '(' :: args) = _ from hword] at hwordScan
  rw [show x.cut .root '(' args = _ from hparen] at hparenScan
  have hdrop : (c :: (w ++ '(' :: args)).drop (c :: w).length = '(' :: args := List.drop_left
  have htake : (c :: (w ++ '(' :: args)).take (c :: w).length = c :: w := List.take_left
  simp only [hdrop, htake] at hwordScan
  rw [tokens_of_not_mem hline]
  show place 0 (x.scanFrom .root (c :: (w ++ '(' :: args))).lexemes = _
  rw [hwordScan, hparenScan, place, place, Nat.zero_add]
  rfl

end Default

end Lexicon

namespace Position

/-- The position behind a text of one line. -/
theorem charIndex?_end {t : Text} (h : '\n' ∉ t) (hlength : t.length < UInt32.size) :
    (⟨0, t.length.toUInt32⟩ : Position).charIndex? t = some t.length := by
  have hcolumn : t.length.toUInt32.toNat = t.length := UInt32.toNat_ofNat_of_lt' hlength
  have hcontent : Text.lineContent? t 0 = some t := by
    rw [Text.lineContent?, Text.lines_of_not_mem h]
    rfl
  have hcursor : Cursor.at? t ⟨0, t.length.toUInt32⟩ =
      some ⟨0, t, t.length.toUInt32.toNat, Nat.le_of_eq hcolumn⟩ := by
    rw [Cursor.at?, show Text.lineContent? t (0 : UInt32).toNat = some t from hcontent]
    exact dif_pos (Nat.le_of_eq hcolumn)
  rw [charIndex?, hcursor, Option.map_some]
  show some ((Text.beforeLine t 0).length + t.length.toUInt32.toNat) = some t.length
  rw [hcolumn, Text.beforeLine, List.take_zero, List.flatMap_nil, List.length_nil, Nat.zero_add]

end Position

/-! ## Help -/

namespace Dialect

open Signature

variable {d : Dialect} {f : Text}

theorem callContext?_writing (hd : d.config.comments = {}) (hf : Word.IsIdentifier f)
    (hkind : d.catalog.classify f = some .function ∨ d.catalog.classify f = some .windowFunction)
    {qs : List Text} (hqs : ∀ q ∈ qs, Nested false q) :
    d.callContext? (f ++ '(' :: arguments qs) =
      some ⟨f, qs.length + (qs.map Text.bareCommas).sum⟩ := by
  have hx : d.lexicon.comments = {} := hd
  have hnested := nested_arguments hqs
  have hmarks := Lexicon.marks_scanFrom (Lexicon.sparesCallMarks_of_default hx)
    (Lexicon.progresses_of_default hx .root) (Lexicon.plain_of_isWritable hx hnested.isWritable)
    (Text.width f + 1)
  have hsettled := hnested.settled (Text.width f + 1)
  have hname : nameBehind? [⟨f, d.lexicon.classifyWord f, 0⟩] = some f := by
    have hclass : d.lexicon.classifyWord f = TokenClass.ofSymbol? (d.catalog.classify f) := rfl
    rw [hclass]
    rcases hkind with h | h <;> rw [h] <;> rfl
  rw [callContext?, Lexicon.tokens_call hx hf hnested.isWritable, ← List.singleton_append,
    CallContext.ofTokens?_of_settled ⟨rfl, rfl⟩
      (settled_marks_iff.1 (hmarks ▸ settled_marks_iff.2 hsettled)) hname,
    ← ownCommas_marks, hmarks, ownCommas_marks, ownCommas_arguments hqs]

/-- Help behind the first `i` arguments of a call, when these are typed as the signature writes its
parameters: the signature with all its parameters.  The active one is the next, unless an argument
has commas in it that stand in square brackets but in no round ones. -/
theorem signatureHelp?_writing (hd : d.config.comments = {}) (hf : Word.IsIdentifier f)
    (hkind : d.catalog.classify f = some .function ∨ d.catalog.classify f = some .windowFunction)
    {kind : SymbolKind} {e : SymbolEntry} (he : d.catalog.documented? f = some (kind, e))
    {ps : List Text} (hps : ∀ p ∈ ps, IsParameter p)
    (hsignature : e.signature = f ++ '(' :: ([',', ' '].intercalate ps ++ [')']))
    (hwidth : e.signature.width < UInt32.size) {i : Nat} (hi : i < ps.length) :
    ∃ help, d.signatureHelp? (f ++ '(' :: arguments (ps.take i))
        ⟨0, (f ++ '(' :: arguments (ps.take i)).length.toUInt32⟩ = some help ∧
      help.signatures = [⟨e.signature, e.description, ps⟩] ∧ help.activeSignature = 0 ∧
      help.activeParameter.toNat = i + ((ps.take i).map Text.bareCommas).sum := by
  have hnested : ∀ q ∈ ps.take i, Nested false q := fun q hq =>
    (hps q (List.mem_of_mem_take hq)).nested
  -- the text is shorter than the signature, so that no count in it overflows
  have hfront := intercalate_eq_arguments_append (ps.take i) ps[i] (ps.drop (i + 1))
  rw [← List.drop_eq_getElem_cons hi, List.take_append_drop] at hfront
  have hlength : (f ++ '(' :: arguments (ps.take i)).length < UInt32.size := by
    refine Nat.lt_of_le_of_lt (Nat.le_trans ?_ (Text.length_le_width e.signature)) hwidth
    rw [hsignature, hfront]
    simp only [List.length_append, List.length_cons]
    omega
  have hcount := commas_le_length hnested
  have hline : '\n' ∉ f ++ '(' :: arguments (ps.take i) := fun hm =>
    absurd (isWritable_call hf (nested_arguments hnested).isWritable _ hm) (by decide)
  have hparameters : e.parameters = ps := by
    rw [SymbolEntry.parameters, hsignature, parameters_of_isParameter hf hps]
  refine ⟨_, signatureHelp?_eq_some_iff.2 ⟨_, _, kind, e, Position.charIndex?_end hline hlength,
    (congrArg _ List.take_length).trans (callContext?_writing hd hf hkind hnested), he, rfl⟩, ?_,
    rfl, ?_⟩
  · rw [SymbolEntry.signatureInfo, hparameters]
  · have hbound : (ps.take i).length + ((ps.take i).map Text.bareCommas).sum < UInt32.size := by
      rw [List.length_append, List.length_cons] at hlength
      omega
    rw [List.length_take, Nat.min_eq_left (Nat.le_of_lt hi)] at hbound ⊢
    exact UInt32.toNat_ofNat_of_lt' hbound

/-- Two functions of two parameters, of which the first has a comma in it. -/
def pairing : Dialect :=
  .ofDeclarations {}
    { functions := [
        ⟨['f'], "f([a, b], c)".toList, "Of an array.".toList, none, .other⟩,
        ⟨['g'], "g(h(a, b), c)".toList, "Of a call.".toList, none, .other⟩] }

theorem isIdentifier_singleton {c : Char} (h : Word.isStart c = true) : Word.IsIdentifier [c] :=
  ⟨c, [], rfl, h, by simp⟩

theorem nested_pair : Nested true ['a', ',', ' ', 'b'] :=
  .word (isIdentifier_singleton (c := 'a') rfl)
    (.comma (.space (.word (isIdentifier_singleton (c := 'b') rfl) .nil)))

theorem isParameter_last : IsParameter ['c'] :=
  ⟨.word (isIdentifier_singleton (c := 'c') rfl) .nil, by decide, by decide, by decide⟩

theorem isParameter_array : IsParameter ['[', 'a', ',', ' ', 'b', ']'] :=
  ⟨.square nested_pair .nil, by decide, by decide, by decide⟩

theorem isParameter_call : IsParameter ['h', '(', 'a', ',', ' ', 'b', ')'] :=
  ⟨.word (isIdentifier_singleton (c := 'h') rfl) (.round nested_pair .nil), by decide, by decide,
    by decide⟩

/-- Behind a call with a comma the second parameter is active. -/
theorem signatureHelp?_writing_call :
    ∃ help, pairing.signatureHelp? "g(h(a, b), ".toList ⟨0, 11⟩ = some help ∧
      help.signatures = [⟨"g(h(a, b), c)".toList, "Of a call.".toList,
        [['h', '(', 'a', ',', ' ', 'b', ')'], ['c']]⟩] ∧
      help.activeSignature = 0 ∧ help.activeParameter.toNat = 1 := by
  have hps : ∀ p ∈ [['h', '(', 'a', ',', ' ', 'b', ')'], ['c']], IsParameter p :=
    List.forall_mem_cons.2 ⟨isParameter_call, List.forall_mem_singleton.2 isParameter_last⟩
  have he : pairing.catalog.documented? ['g'] =
      some (.function, ⟨['g'], "g(h(a, b), c)".toList, "Of a call.".toList, none, .other⟩) := by
    decide +kernel
  exact signatureHelp?_writing (d := pairing) (i := 1) rfl (isIdentifier_singleton rfl)
    (Or.inl (by decide +kernel)) he hps (by decide +kernel) (by decide +kernel) (by decide)

/-- Behind an array with a comma it is not. -/
theorem not_active_behind_array : ¬ ∀ (d : Dialect) (f : Text) (kind : SymbolKind)
    (e : SymbolEntry) (ps : List Text) (i : Nat), d.config.comments = {} → Word.IsIdentifier f →
    (d.catalog.classify f = some .function ∨ d.catalog.classify f = some .windowFunction) →
    d.catalog.documented? f = some (kind, e) → (∀ p ∈ ps, IsParameter p) →
    e.signature = f ++ '(' :: ([',', ' '].intercalate ps ++ [')']) →
    e.signature.width < UInt32.size → i < ps.length →
    ∃ help, d.signatureHelp? (f ++ '(' :: arguments (ps.take i))
        ⟨0, (f ++ '(' :: arguments (ps.take i)).length.toUInt32⟩ = some help ∧
      help.signatures = [⟨e.signature, e.description, ps⟩] ∧
      help.activeParameter.toNat = i := by
  intro h
  have hps : ∀ p ∈ [['[', 'a', ',', ' ', 'b', ']'], ['c']], IsParameter p :=
    List.forall_mem_cons.2 ⟨isParameter_array, List.forall_mem_singleton.2 isParameter_last⟩
  have he : pairing.catalog.documented? ['f'] =
      some (.function, ⟨['f'], "f([a, b], c)".toList, "Of an array.".toList, none, .other⟩) := by
    decide +kernel
  obtain ⟨help, hhelp, -, hactive⟩ := h pairing ['f'] _ _ _ 1 rfl (isIdentifier_singleton rfl)
    (Or.inl (by decide +kernel)) he hps (by decide +kernel) (by decide +kernel) (by decide)
  have hcode : (pairing.signatureHelp? "f([a, b], ".toList ⟨0, 10⟩).map
      SignatureHelp.activeParameter = some 2 := by
    decide +kernel
  have htext : (pairing.signatureHelp? "f([a, b], ".toList ⟨0, 10⟩) = some help := hhelp
  rw [htext, Option.map_some, Option.some.injEq] at hcode
  rw [hcode] at hactive
  simp at hactive

end Dialect
end SqlAssist
