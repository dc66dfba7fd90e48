import SqlAssist.Assist.Completion
import SqlAssist.Assist.Hover
import SqlAssist.Assist.Signature
import SqlAssist.Dialect.Builtin
import SqlAssist.Proofs.Token.Fold

/-!
Answers to texts that differ in the case of letters.

Two texts that are equal when folded are compared through the folded text.  A cursor of the folded
text stands where the text's cursor stands, an open call there is the text's, folded, and the
catalog does not see the difference.  Of all that is computed on the way, only the texts of tokens,
words and calls are folded, and none of them is part of an answer.
-/

namespace SqlAssist

/-! ## Cursors -/

namespace Cursor

def fold (c : Cursor) : Cursor :=
  { line := c.line, content := Text.fold c.content, column := c.column
    column_le_length := by rw [Text.length_fold]; exact c.column_le_length }

theorem at?_fold (text : Text) (p : Position) :
    at? (Text.fold text) p = (at? text p).map fold := by
  rw [at?, at?, Text.lineContent?_fold]
  cases Text.lineContent? text p.line.toNat with
  | none => rfl
  | some content =>
    simp only [Option.map_some, Text.length_fold]
    split <;> rfl

variable (c : Cursor)

theorem offset_fold : c.fold.offset = c.offset := by
  show Text.width ((Text.fold c.content).take c.column) = Text.width (c.content.take c.column)
  rw [Text.take_fold, Text.width_fold]

theorem rangeOf_fold (start stop : Nat) : c.fold.rangeOf start stop = c.rangeOf start stop := by
  simp only [rangeOf, fold, Text.charsBefore_fold, Text.slice_fold, Text.length_fold]

theorem words_fold : Word.all c.fold.content = (Word.all c.content).map Word.fold :=
  Word.allFrom_fold 0 c.content

theorem pointedWord?_fold : c.fold.pointedWord? = c.pointedWord?.map Word.fold := by
  rw [pointedWord?, pointedWord?, words_fold, List.find?_map, offset_fold]
  simp only [Function.comp_def, Word.stop_fold]
  rfl

theorem typedRange_fold : c.fold.typedRange = c.typedRange := by
  have hword : c.fold.typedWord? = c.typedWord?.map Word.fold := by
    rw [typedWord?, typedWord?, words_fold, List.find?_map, offset_fold]
    simp only [Function.comp_def, Word.stop_fold]
    rfl
  have hstart : c.fold.typedStart = c.typedStart := by
    rw [typedStart, typedStart, hword, offset_fold]
    cases c.typedWord? <;> rfl
  rw [typedRange, typedRange, hstart, offset_fold, rangeOf_fold]

end Cursor

theorem Position.charIndex?_fold (p : Position) (text : Text) :
    p.charIndex? (Text.fold text) = p.charIndex? text := by
  rw [charIndex?, charIndex?, Cursor.at?_fold, Option.map_map, Text.beforeLine_fold,
    Text.length_fold]
  rfl

/-! ## Open calls -/

def OpenParen.fold (p : OpenParen) : OpenParen := ⟨p.callee?.map Text.fold, p.commas⟩

def CallContext.fold (k : CallContext) : CallContext := ⟨Text.fold k.callee, k.argument⟩

namespace CallWalk

def fold (w : CallWalk) : CallWalk :=
  ⟨w.parens.map OpenParen.fold, w.previous?.map Token.fold⟩

theorem callee?_fold (w : CallWalk) : w.fold.callee? = w.callee?.map Text.fold := by
  rw [callee?, callee?, fold]
  cases w.previous? with
  | none => rfl
  | some t =>
    show (if t.tokenClass.isCallee then some (Text.fold t.text) else none) =
      (if t.tokenClass.isCallee then some t.text else none).map Text.fold
    split <;> rfl

theorem step_fold (w : CallWalk) (t : Token) : w.fold.step t.fold = (w.step t).fold := by
  have hmark : ∀ m : Char, m.isAlpha = false → (t.fold.text = [m] ↔ t.text = [m]) := by
    intro m hm
    refine Text.fold_eq_iff fun c hc => ?_
    rw [List.mem_singleton.1 hc]
    exact hm
  have hclass : t.fold.tokenClass = t.tokenClass := rfl
  have hcomma : countComma (w.parens.map OpenParen.fold) =
      (countComma w.parens).map OpenParen.fold := by
    cases w.parens <;> rfl
  simp only [step, hclass, hmark '(' rfl, hmark ')' rfl, hmark ',' rfl, callee?_fold]
  rw [fold, fold, CallWalk.mk.injEq]
  constructor
  · split
    · rfl
    · split
      · exact List.map_drop.symm
      · split
        · exact hcomma
        · rfl
  · split <;> rfl

theorem foldl_fold (ts : List Token) (w : CallWalk) :
    (ts.map Token.fold).foldl step w.fold = (ts.foldl step w).fold := by
  induction ts generalizing w with
  | nil => rfl
  | cons t rest ih => rw [List.map_cons, List.foldl_cons, List.foldl_cons, step_fold, ih]

theorem context?_fold (w : CallWalk) : w.fold.context? = w.context?.map CallContext.fold := by
  rw [context?, context?, fold]
  simp only
  induction w.parens with
  | nil => rfl
  | cons p outer ih =>
    rw [List.map_cons, List.findSome?_cons, List.findSome?_cons, ih, OpenParen.fold]
    cases p.callee? <;> rfl

end CallWalk

theorem CallContext.ofTokens?_fold (ts : List Token) :
    ofTokens? (ts.map Token.fold) = (ofTokens? ts).map fold := by
  rw [ofTokens?, ofTokens?, ← CallWalk.context?_fold, ← CallWalk.foldl_fold]
  rfl

/-! ## Answers -/

theorem Catalog.documented?_fold (c : Catalog) (word : Text) :
    c.documented? (Text.fold word) = c.documented? word := by
  rw [documented?, documented?, function?, function?, windowFunction?, windowFunction?,
    Text.fold_fold]

namespace Dialect

variable {d : Dialect}

theorem hover?_fold (d : Dialect) (text : Text) (p : Position) :
    d.hover? (Text.fold text) p = d.hover? text p := by
  have hword : ∀ w : Word, d.catalog.documented? w.fold.text = d.catalog.documented? w.text :=
    fun w => d.catalog.documented?_fold w.text
  have hrange : ∀ (c : Cursor) (w : Word), c.fold.wordRange w.fold = c.wordRange w := by
    intro c w
    rw [Cursor.wordRange, Cursor.wordRange, c.rangeOf_fold, w.stop_fold]
    rfl
  simp only [hover?, Option.bind_eq_bind, Cursor.at?_fold, Cursor.pointedWord?_fold,
    Option.bind_map, Function.comp_def, hword, hrange]

theorem completions_fold (d : Dialect) (text : Text) (p : Position) :
    d.completions (Text.fold text) p = d.completions text p := by
  rw [completions, completions, Cursor.at?_fold]
  cases Cursor.at? text p with
  | none => rfl
  | some c => exact congrArg d.catalog.completionItems c.typedRange_fold

theorem callContext?_fold (hd : d.lexicon.comments.Caseless) {before : Text} (h : '\\' ∉ before) :
    d.callContext? (Text.fold before) = (d.callContext? before).map CallContext.fold := by
  rw [callContext?, callContext?, Lexicon.tokens_fold hd h, CallContext.ofTokens?_fold]

theorem signatureHelp?_fold (hd : d.lexicon.comments.Caseless) {text : Text} (h : '\\' ∉ text)
    (p : Position) : d.signatureHelp? (Text.fold text) p = d.signatureHelp? text p := by
  have hcall : ∀ index, d.callContext? ((Text.fold text).take index) =
      (d.callContext? (text.take index)).map CallContext.fold := by
    intro index
    rw [Text.take_fold]
    exact callContext?_fold hd fun hm => h (List.mem_of_mem_take hm)
  have hcallee : ∀ call : CallContext,
      d.catalog.documented? call.fold.callee = d.catalog.documented? call.callee :=
    fun call => d.catalog.documented?_fold call.callee
  simp only [signatureHelp?, Option.bind_eq_bind, p.charIndex?_fold, hcall, Option.bind_map,
    Function.comp_def, hcallee]
  rfl

end Dialect

def LineTokens.outline (l : LineTokens) : List (Nat × Nat × TokenClass) × LineState :=
  (l.tokens.map fun t => (t.start, t.stop, t.tokenClass), l.endState)

theorem LineTokens.outline_fold (l : LineTokens) : l.fold.outline = l.outline := by
  rw [outline, outline, fold, List.map_map]
  simp only [Function.comp_def, Token.stop_fold]
  rfl

/-- Whether a dialect makes no difference between two texts: their lines have the same tokens, apart
from the texts of these, and end in the same states, and every question about a position has the
same answer. -/
structure Dialect.Equates (d : Dialect) (a b : Text) : Prop where
  lines : (d.lexicon.lines a).map LineTokens.outline = (d.lexicon.lines b).map LineTokens.outline
  tokens : (d.lexicon.tokens a).map (fun t => (t.start, t.stop, t.tokenClass)) =
    (d.lexicon.tokens b).map fun t => (t.start, t.stop, t.tokenClass)
  hover : ∀ p, d.hover? a p = d.hover? b p
  signatureHelp : ∀ p, d.signatureHelp? a p = d.signatureHelp? b p
  completions : ∀ p, d.completions a p = d.completions b p

theorem Dialect.equates_fold {d : Dialect} (hd : d.lexicon.comments.Caseless) {a : Text}
    (ha : '\\' ∉ a) : d.Equates (Text.fold a) a := by
  refine ⟨?_, ?_, fun p => d.hover?_fold a p, fun p => signatureHelp?_fold hd ha p,
    fun p => d.completions_fold a p⟩
  · rw [Lexicon.lines_fold hd ha, List.map_map]
    exact List.map_congr_left fun l _ => l.outline_fold
  · rw [Lexicon.tokens_fold hd ha, List.map_map]
    simp only [Function.comp_def, Token.stop_fold]
    rfl

/-- The case of letters makes no difference to a dialect, as long as none of its comment markers has
a letter in it and there is no escape in the text. -/
theorem Dialect.equates_of_fold_eq {d : Dialect} (hd : d.lexicon.comments.Caseless) {a b : Text}
    (ha : '\\' ∉ a) (hb : '\\' ∉ b) (hab : Text.fold a = Text.fold b) : d.Equates a b := by
  have hleft := equates_fold hd ha
  have hright := equates_fold hd hb
  rw [hab] at hleft
  exact ⟨hleft.lines.symm.trans hright.lines, hleft.tokens.symm.trans hright.tokens,
    fun p => (hleft.hover p).symm.trans (hright.hover p),
    fun p => (hleft.signatureHelp p).symm.trans (hright.signatureHelp p),
    fun p => (hleft.completions p).symm.trans (hright.completions p)⟩

/-- Keywords, calls and exponents, and a literal in a comment. -/
theorem Dialect.equates_shouted :
    builtin.Equates "select Avg(1.5e3, -- 'X'\n'y', ".toList
      "SELECT avg(1.5E3, -- 'x'\n'Y', ".toList :=
  equates_of_fold_eq ⟨by decide, by decide, by decide⟩
    (by decide) (by decide) (by decide)

end SqlAssist
