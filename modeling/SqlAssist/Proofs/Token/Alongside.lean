import Mathlib.Data.List.Sort
import SqlAssist.Proofs.Token.Place
import SqlAssist.Proofs.Token.Run
import SqlAssist.Proofs.Token.Words

/-!
The words of a line run alongside its tokens.

`Word.all` does not look at comments or literals, and so it walks right through them, and may
read a number where the scanner reads none.  It is back in step with the scanner behind the quote
that closes a literal, and behind a comment if the dialect's end marker sees to it.

`Alongside` is the relation between the two lists that follows: each word is the text of a word
token, or it lies inside of comments and literals.
-/

namespace SqlAssist

namespace TokenClass

/-- Classes of the pieces whose words do not count. -/
def isOpaque (cls : TokenClass) : Bool := cls == comment || cls.isLiteral

theorem isWord_ofSymbol? (k? : Option SymbolKind) : (ofSymbol? k?).isWord = true := by
  cases k? with
  | none => rfl
  | some k => cases k <;> rfl

theorem isOpaque_of_isWord {cls : TokenClass} (h : cls.isWord = true) :
    cls.isOpaque = false := by
  cases cls <;> first | rfl | exact absurd h Bool.false_ne_true

end TokenClass

/-! ## Words and lexemes side by side -/

/-- The words of a text that starts at `offset`, beside the lexemes of the same text: a word
lexeme is the next word, a lexeme of another class that is neither comment nor literal has none
in it, and the words beside comments and literals lie inside of them. -/
inductive Alongside : Nat → List Lexeme → List Word → Prop
  | nil (offset : Nat) : Alongside offset [] []
  | word {offset : Nat} {l : Lexeme} {ls : List Lexeme} {ws : List Word}
      (isWord : l.tokenClass.isWord = true)
      (more : Alongside (offset + l.text.width) ls ws) :
      Alongside offset (l :: ls) (⟨l.text, offset⟩ :: ws)
  | gap {offset : Nat} {l : Lexeme} {ls : List Lexeme} {ws : List Word}
      (noWord : l.tokenClass.isWord = false) (visible : l.tokenClass.isOpaque = false)
      (more : Alongside (offset + l.text.width) ls ws) : Alongside offset (l :: ls) ws
  | hidden {offset : Nat} {hid ls : List Lexeme} {ins ws : List Word}
      (covered : ∀ l ∈ hid, l.tokenClass.isOpaque = true)
      (inside : ∀ w ∈ ins, offset ≤ w.start ∧
        w.stop ≤ offset + Text.width (hid.flatMap Lexeme.text))
      (more : Alongside (offset + Text.width (hid.flatMap Lexeme.text)) ls ws) :
      Alongside offset (hid ++ ls) (ins ++ ws)

namespace Alongside

open Word (allFrom allFrom_nil allFrom_append mem_allFrom canHold)

theorem hidden_end {hid : List Lexeme} (h : ∀ l ∈ hid, l.tokenClass.isOpaque = true)
    (offset : Nat) : Alongside offset hid (allFrom offset (hid.flatMap Lexeme.text)) := by
  have hall : Alongside offset (hid ++ []) (allFrom offset (hid.flatMap Lexeme.text) ++ []) :=
    .hidden h (fun w hw => mem_allFrom hw) (.nil _)
  rwa [List.append_nil, List.append_nil] at hall

/-- Comments and literals that end in a character that no word can hold hide all words in them,
and the words behind start afresh. -/
theorem hidden_until {hid ls : List Lexeme} {offset : Nat} {front rest : Text} {e : Char}
    (h : ∀ l ∈ hid, l.tokenClass.isOpaque = true)
    (htext : hid.flatMap Lexeme.text = front ++ [e]) (he : canHold e = false)
    (more : Alongside (offset + Text.width (front ++ [e])) ls
      (allFrom (offset + Text.width (front ++ [e])) rest)) :
    Alongside offset (hid ++ ls) (allFrom offset (front ++ e :: rest)) := by
  rw [allFrom_append he]
  refine .hidden h (fun w hw => ?_) (by rwa [htext])
  have := mem_allFrom hw
  rw [htext, Text.width_append]
  omega

theorem le_start {offset : Nat} {ls : List Lexeme} {ws : List Word}
    (h : Alongside offset ls ws) : ∀ w ∈ ws, offset ≤ w.start := by
  induction h with
  | nil => simp
  | word isWord more ih =>
    intro w hw
    rcases List.mem_cons.1 hw with rfl | hw
    · exact Nat.le_refl _
    · exact Nat.le_trans (Nat.le_add_right _ _) (ih w hw)
  | gap noWord visible more ih =>
    exact fun w hw => Nat.le_trans (Nat.le_add_right _ _) (ih w hw)
  | hidden covered inside more ih =>
    intro w hw
    rcases List.mem_append.1 hw with hw | hw
    · exact (inside w hw).1
    · exact Nat.le_trans (Nat.le_add_right _ _) (ih w hw)

theorem mem_of_isWord {offset : Nat} {ls : List Lexeme} {ws : List Word}
    (h : Alongside offset ls ws) {t : Token} (ht : t ∈ Token.place offset ls)
    (hword : t.tokenClass.isWord = true) : ⟨t.text, t.start⟩ ∈ ws := by
  induction h with
  | nil => simp [Token.place] at ht
  | word isWord more ih =>
    rw [Token.place] at ht
    rcases List.mem_cons.1 ht with rfl | ht
    · exact List.mem_cons_self
    · exact List.mem_cons_of_mem _ (ih ht)
  | gap noWord visible more ih =>
    rw [Token.place] at ht
    rcases List.mem_cons.1 ht with rfl | ht
    · rw [noWord] at hword
      exact absurd hword (by simp)
    · exact ih ht
  | hidden covered inside more ih =>
    rw [Token.place_append] at ht
    rcases List.mem_append.1 ht with ht | ht
    · obtain ⟨a, l, b, rfl, rfl⟩ := Token.mem_place ht
      have hcovered := covered l (by simp)
      rw [TokenClass.isOpaque_of_isWord hword] at hcovered
      exact absurd hcovered Bool.false_ne_true
    · exact List.mem_append_right _ (ih ht)

/-- Every word is a word token, or all tokens that it overlaps are comments and literals. -/
theorem isOpaque_of_mem {offset : Nat} {ls : List Lexeme} {ws : List Word}
    (h : Alongside offset ls ws) {w : Word} (hw : w ∈ ws) :
    (∃ t ∈ Token.place offset ls, t.tokenClass.isWord = true ∧ w = ⟨t.text, t.start⟩) ∨
      ∀ t ∈ Token.place offset ls, ∀ o, w.start ≤ o → o < w.stop → t.contains o = true →
        t.tokenClass.isOpaque = true := by
  induction h with
  | nil => simp at hw
  | @word offset l ls ws isWord more ih =>
    rw [Token.place]
    rcases List.mem_cons.1 hw with rfl | hw
    · exact Or.inl ⟨_, List.mem_cons_self, isWord, rfl⟩
    · have hstart := more.le_start w hw
      rcases ih hw with ⟨t, ht, htw, hwt⟩ | hall
      · exact Or.inl ⟨t, List.mem_cons_of_mem _ ht, htw, hwt⟩
      · refine Or.inr fun t ht o ho ho' hto => ?_
        rcases List.mem_cons.1 ht with rfl | ht
        · rw [Token.contains_iff, Token.stop] at hto
          simp only at hto
          omega
        · exact hall t ht o ho ho' hto
  | @gap offset l ls ws noWord visible more ih =>
    rw [Token.place]
    have hstart := more.le_start w hw
    rcases ih hw with ⟨t, ht, htw, hwt⟩ | hall
    · exact Or.inl ⟨t, List.mem_cons_of_mem _ ht, htw, hwt⟩
    · refine Or.inr fun t ht o ho ho' hto => ?_
      rcases List.mem_cons.1 ht with rfl | ht
      · rw [Token.contains_iff, Token.stop] at hto
        simp only at hto
        omega
      · exact hall t ht o ho ho' hto
  | @hidden offset hid ls ins ws covered inside more ih =>
    rw [Token.place_append]
    rcases List.mem_append.1 hw with hw | hw
    · refine Or.inr fun t ht o ho ho' hto => ?_
      rcases List.mem_append.1 ht with ht | ht
      · obtain ⟨a, l, b, rfl, rfl⟩ := Token.mem_place ht
        exact covered l (by simp)
      · have hinside := inside w hw
        have := Token.le_start_of_mem_place ht
        rw [Token.contains_iff] at hto
        omega
    · have hstart := more.le_start w hw
      rcases ih hw with ⟨t, ht, htw, hwt⟩ | hall
      · exact Or.inl ⟨t, List.mem_append_right _ ht, htw, hwt⟩
      · refine Or.inr fun t ht o ho ho' hto => ?_
        rcases List.mem_append.1 ht with ht | ht
        · have := Token.stop_le_of_mem_place ht
          rw [Token.contains_iff] at hto
          omega
        · exact hall t ht o ho ho' hto

end Alongside

namespace Lexicon

/-- Whether comments end in a character that no word and no number can hold, so that the words
behind a comment do not depend on what it says. -/
def SeparatesComments (x : Lexicon) : Prop :=
  ∃ front e, x.comments.blockEnd = front ++ [e] ∧ Word.canHold e = false

theorem SeparatesComments.progresses {x : Lexicon} (h : x.SeparatesComments)
    (state : LineState) : x.Progresses state := by
  obtain ⟨front, e, hend, -⟩ := h
  exact Or.inl (by simp [hend])

theorem isSymbol_of_mem_symbolRun (x : Lexicon) (t : Text) :
    ∀ c ∈ t.take (x.symbolRun t), isSymbol c = true := by
  induction t with
  | nil => simp
  | cons d rest ih =>
    rw [symbolRun]
    split
    · next hd =>
      rw [Nat.add_comm, List.take_succ_cons]
      intro c hc
      rcases List.mem_cons.1 hc with rfl | hc
      · exact (Bool.and_eq_true_iff.1 hd).1
      · exact ih c hc
    · simp

theorem alongside_comment {x : Lexicon} (hx : x.SeparatesComments) {t rest : Text} {n : Nat}
    {a : Text} (hsplit : t = a ++ x.comments.blockEnd ++ rest)
    (hn : n = (a ++ x.comments.blockEnd).length) {offset : Nat} {ls : List Lexeme}
    (more : Alongside (offset + Text.width (t.take n)) ls
      (Word.allFrom (offset + Text.width (t.take n)) (t.drop n))) :
    Alongside offset (⟨t.take n, .comment⟩ :: ls) (Word.allFrom offset t) := by
  obtain ⟨front, e, hend, he⟩ := hx
  have htake : t.take n = a ++ front ++ [e] := by
    rw [hsplit, hn, List.take_left, hend, List.append_assoc]
  have hdrop : t.drop n = rest := by rw [hsplit, hn, List.drop_left]
  have htext : t = a ++ front ++ e :: rest := by
    rw [hsplit, hend]
    simp
  have hid : Alongside offset ([⟨t.take n, .comment⟩] ++ ls)
      (Word.allFrom offset (a ++ front ++ e :: rest)) := by
    refine Alongside.hidden_until (by simp [TokenClass.isOpaque]) ?_ he ?_
    · rw [List.flatMap_singleton, htake]
    · rwa [← htake, ← hdrop]
  rwa [← htext] at hid

theorem alongside_rest {t : Text} {cls : TokenClass} (hidden : cls.isOpaque = true)
    {offset : Nat} {ls : List Lexeme}
    (more : Alongside (offset + Text.width (t.take t.length)) ls
      (Word.allFrom (offset + Text.width (t.take t.length)) (t.drop t.length))) :
    Alongside offset (⟨t.take t.length, cls⟩ :: ls) (Word.allFrom offset t) := by
  rw [List.drop_length, Word.allFrom_nil, List.take_length] at more
  rw [List.take_length]
  have hid : Alongside offset ([⟨t, cls⟩] ++ ls) (Word.allFrom offset t ++ []) := by
    refine .hidden (by simpa using hidden) (fun w hw => ?_) ?_
    · rw [List.flatMap_singleton]
      exact Word.mem_allFrom hw
    · rwa [List.flatMap_singleton]
  rwa [List.append_nil] at hid

theorem alongside_inert {t : Text} {n : Nat} (hinert : ∀ c ∈ t.take n, Word.isInert c = true)
    {cls : TokenClass} (noWord : cls.isWord = false) (visible : cls.isOpaque = false)
    {offset : Nat} {ls : List Lexeme}
    (more : Alongside (offset + Text.width (t.take n)) ls
      (Word.allFrom (offset + Text.width (t.take n)) (t.drop n))) :
    Alongside offset (⟨t.take n, cls⟩ :: ls) (Word.allFrom offset t) := by
  have hwords := Word.allFrom_inert hinert offset (t.drop n)
  rw [List.take_append_drop] at hwords
  rw [hwords]
  exact .gap noWord visible more

/-- A rule that opens no literal keeps words and lexemes side by side. -/
theorem RootRule.alongside {x : Lexicon} (hx : x.SeparatesComments) {c : Char} {rest : Text}
    {k : Cut} (h : RootRule x c rest k) (hnext : ∀ quote, k.next ≠ .literal quote)
    {offset : Nat} {ls : List Lexeme}
    (more : Alongside (offset + Text.width ((c :: rest).take k.length)) ls
      (Word.allFrom (offset + Text.width ((c :: rest).take k.length))
        ((c :: rest).drop k.length))) :
    Alongside offset (⟨(c :: rest).take k.length, k.tokenClass⟩ :: ls)
      (Word.allFrom offset (c :: rest)) := by
  have hwords := Word.allFrom_cons offset c rest
  cases h with
  | lineComment => exact alongside_rest rfl more
  | closedComment noLine opens ends =>
    obtain ⟨a, b, ha, hsplit⟩ := Text.search?_eq_some ends
    obtain ⟨t, ht⟩ := opens
    rw [← ht, List.drop_left] at hsplit
    have hcomment : c :: rest = (x.comments.blockStart ++ a) ++ x.comments.blockEnd ++ b := by
      rw [← ht, hsplit]
      simp
    exact alongside_comment hx hcomment (by simp only [List.length_append, ha]) more
  | openComment => exact alongside_rest rfl more
  | blank plain blank =>
    refine alongside_inert (fun d hd => Word.isInert_of_isBlank ?_) rfl rfl more
    rw [← List.prefix_iff_eq_take.1 (List.takeWhile_prefix _)] at hd
    exact List.all_eq_true.1 List.all_takeWhile d hd
  | brokenLiteral => exact alongside_rest rfl more
  | literal => exact absurd rfl (hnext _)
  | @number plain notBlank noQuote n cls matched =>
    have hstart : Word.isStart c = false := Bool.eq_false_iff.2 fun hstart => by
      obtain ⟨hdigit, hpoint⟩ := Word.not_isDigit_of_isStart hstart
      rw [Number.match?_of_head hdigit hpoint] at matched
      simp at matched
    have hstep : Word.stepLength c rest = n := by
      rw [Word.stepLength, hstart, Word.gapLength, matched]
      rfl
    rw [Word.stepWord, hstart, hstep] at hwords
    rw [hwords]
    rcases Number.class_of_match? matched with rfl | rfl
    · exact .gap rfl rfl more
    · exact .gap rfl rfl more
  | word plain notBlank noQuote noNumber starts =>
    rw [Word.stepWord, Word.stepLength, starts] at hwords
    rw [hwords]
    exact .word (TokenClass.isWord_ofSymbol? _) more
  | symbols plain notBlank noQuote noNumber noWord symbol =>
    refine alongside_inert (fun d hd => Word.isInert_of_isSymbol ?_) ?_ ?_ more
    · rw [Nat.add_comm, List.take_succ_cons] at hd
      rcases List.mem_cons.1 hd with rfl | hd
      · exact symbol
      · exact x.isSymbol_of_mem_symbolRun rest d hd
    · split <;> rfl
    · split <;> rfl
  | single plain notBlank noQuote noNumber noWord noSymbol =>
    have hstep : Word.stepLength c rest = 1 := by
      rw [Word.stepLength, noWord, Word.gapLength, noNumber]
      rfl
    rw [Word.stepWord, noWord, hstep] at hwords
    rw [hwords]
    refine .gap ?_ ?_ more
    · split
      · rfl
      · split <;> rfl
    · split
      · rfl
      · split <;> rfl

theorem RootRule.isOpaque_of_next {x : Lexicon} {c : Char} {rest : Text} {k : Cut}
    (h : RootRule x c rest k) {quote : Quote} (hnext : k.next = .literal quote) :
    k.tokenClass.isOpaque = true := by
  cases h with
  | literal => rfl
  | _ => simp at hnext

/-- The pieces of a literal hide the words in them until its quote closes. -/
theorem LiteralRule.isOpaque {quote : Quote} {c : Char} {rest : Text} {k : Cut}
    (h : LiteralRule quote c rest k) : k.tokenClass.isOpaque = true := by
  cases h <;> rfl

theorem LiteralRule.next_cases {quote : Quote} {c : Char} {rest : Text} {k : Cut}
    (h : LiteralRule quote c rest k) :
    k.next = .literal quote ∨ c = quote.char ∧ k = ⟨1, .string, .root⟩ := by
  cases h with
  | closes closing => exact Or.inr ⟨closing, rfl⟩
  | carries => exact Or.inl rfl
  | escape => exact Or.inl rfl
  | invalidEscape => exact Or.inl rfl
  | plain => exact Or.inl rfl

/-- Words and lexemes run side by side through a scan.  Inside of a literal the pieces that have
been cut off are kept back, in `pending`, until the quote that closes it: before that the words
need not be in step. -/
theorem alongside_scanFrom {x : Lexicon} (hx : x.SeparatesComments) (state : LineState)
    (t : Text) (pending : List Lexeme) (hcovered : ∀ l ∈ pending, l.tokenClass.isOpaque = true)
    (hpending : pending = [] ∨ ∃ quote, state = .literal quote) (offset : Nat) :
    Alongside offset (pending ++ (x.scanFrom state t).lexemes)
      (Word.allFrom offset (pending.flatMap Lexeme.text ++ t)) := by
  match t with
  | [] =>
    rw [scanFrom_nil, List.append_nil, List.append_nil]
    exact Alongside.hidden_end hcovered offset
  | c :: rest =>
    have hpos := cut_length_pos (hx.progresses state) c rest
    have hrec := alongside_scanFrom hx (x.cut state c rest).next
      ((c :: rest).drop (x.cut state c rest).length)
    -- A piece of a literal joins the pieces before it.
    have hjoin : ∀ quote, (x.cut state c rest).next = .literal quote →
        (x.cut state c rest).tokenClass.isOpaque = true →
        Alongside offset (pending ++ (x.scanFrom state (c :: rest)).lexemes)
          (Word.allFrom offset (pending.flatMap Lexeme.text ++ c :: rest)) := by
      intro quote hnext hclass
      have hrec := hrec (pending ++ [⟨(c :: rest).take (x.cut state c rest).length,
        (x.cut state c rest).tokenClass⟩]) (fun l hl => ?_) (Or.inr ⟨quote, hnext⟩) offset
      · rw [scanFrom_cons hpos]
        simpa only [List.append_assoc, List.singleton_append, List.flatMap_append,
          List.flatMap_singleton, List.take_append_drop] using hrec
      · rcases List.mem_append.1 hl with hl | hl
        · exact hcovered l hl
        · rw [List.mem_singleton.1 hl]
          exact hclass
    have hfresh := fun offset => hrec [] (by simp) (Or.inl rfl) offset
    simp only [List.nil_append, List.flatMap_nil] at hfresh
    cases state with
    | root =>
      obtain rfl : pending = [] := hpending.resolve_right (by simp)
      have hrule := x.rootCut_rule c rest
      by_cases hlit : ∃ quote, (x.cut .root c rest).next = .literal quote
      · obtain ⟨quote, hnext⟩ := hlit
        exact hjoin quote hnext (hrule.isOpaque_of_next hnext)
      · rw [scanFrom_cons hpos]
        exact hrule.alongside hx (fun quote hnext => hlit ⟨quote, hnext⟩) (hfresh _)
    | blockComment =>
      obtain rfl : pending = [] := hpending.resolve_right (by simp)
      rw [scanFrom_cons hpos]
      simp only [cut, commentBodyCut] at hfresh ⊢
      split at hfresh
      · next i hi =>
        obtain ⟨a, b, ha, hsplit⟩ := Text.search?_eq_some hi
        exact alongside_comment hx hsplit (by rw [List.length_append, ha]) (hfresh _)
      · next hi =>
        exact alongside_rest rfl (hfresh _)
    | literal quote =>
      have hrule := literalCut_rule quote c rest
      rcases hrule.next_cases with hnext | ⟨hc, hk⟩
      · exact hjoin quote hnext hrule.isOpaque
      · rw [scanFrom_cons hpos]
        simp only [cut, hk, List.take_succ_cons, List.take_zero, List.drop_succ_cons,
          List.drop_zero] at hfresh ⊢
        have hhid : Alongside offset
            ((pending ++ [⟨[c], .string⟩]) ++ (x.scanFrom .root rest).lexemes)
            (Word.allFrom offset (pending.flatMap Lexeme.text ++ c :: rest)) := by
          refine Alongside.hidden_until (fun l hl => ?_) (by simp)
            (hc ▸ Word.canHold_char quote) (hfresh _)
          rcases List.mem_append.1 hl with hl | hl
          · exact hcovered l hl
          · rw [List.mem_singleton.1 hl]
            rfl
        simpa only [List.append_assoc, List.singleton_append] using hhid
termination_by t.length
decreasing_by
  simp only [List.length_drop, List.length_cons]
  omega

theorem alongside_scanLine {x : Lexicon} (hx : x.SeparatesComments) (entry : LineState)
    (line : Text) : Alongside 0 (x.scanLine entry line).lexemes (Word.all line) := by
  rcases ended_or_broken entry line with hended | ⟨quote, rfl, hbroken⟩
  · rw [scanLine_of_ended hended]
    exact alongside_scanFrom hx entry line [] (by simp) (Or.inl rfl) 0
  · rw [scanLine_of_broken hbroken]
    cases line with
    | nil =>
      rw [Word.all, Word.allFrom_nil]
      exact .nil 0
    | cons c rest =>
      have hhidden : ∀ l ∈ [(⟨c :: rest, .stringInvalid⟩ : Lexeme)],
          l.tokenClass.isOpaque = true := by
        simp [TokenClass.isOpaque, TokenClass.isLiteral]
      have hid := Alongside.hidden_end hhidden 0
      rwa [List.flatMap_singleton] at hid

theorem exists_split_of_mem_place {x : Lexicon} {entry : LineState} {line : Text} {t : Token}
    (ht : t ∈ Token.place 0 (x.scanLine entry line).lexemes) :
    ∃ a b, line = a ++ t.text ++ b ∧ t.start = a.width := by
  obtain ⟨before, l, behind, hlexemes, rfl⟩ := Token.mem_place ht
  obtain ⟨rest, hrest⟩ := x.scanLine_prefix entry line
  refine ⟨before.flatMap Lexeme.text, behind.flatMap Lexeme.text ++ rest, ?_, Nat.zero_add _⟩
  rw [← hrest, hlexemes, List.flatMap_append, List.flatMap_cons]
  simp only [List.append_assoc]

end Lexicon

/-! ## The word tokens of a line -/

def Word.ofTokens (tokens : List Token) : List Word :=
  (tokens.filter (·.tokenClass.isWord)).map fun t => ⟨t.text, t.start⟩

def Token.hides (tokens : List Token) (offset : Nat) : Bool :=
  tokens.any fun t => t.tokenClass.isOpaque && t.contains offset

theorem Word.mem_ofTokens_iff {tokens : List Token} {w : Word} :
    w ∈ ofTokens tokens ↔ ∃ t ∈ tokens, t.tokenClass.isWord = true ∧ ⟨t.text, t.start⟩ = w := by
  rw [ofTokens, List.mem_map]
  simp only [List.mem_filter, and_assoc]

theorem Token.hides_iff {tokens : List Token} {offset : Nat} :
    hides tokens offset = true ↔
      ∃ t ∈ tokens, t.tokenClass.isOpaque = true ∧ t.contains offset = true := by
  simp only [hides, List.any_eq_true, Bool.and_eq_true]

namespace Lexicon

variable {x : Lexicon}

/-- A byte of a line lies in one of its tokens. -/
theorem exists_contains_of_lt {entry : LineState} (hx : x.Progresses entry) {line : Text} {o : Nat}
    (h : o < line.width) : ∃ t ∈ (x.lineTokens entry line).tokens, t.contains o = true := by
  refine Token.exists_contains (Nat.zero_le o) ?_
  rwa [(reaches_scanLine hx line).join_of_end, Nat.zero_add]

theorem start_lt_stop_of_mem_lineTokens {entry : LineState} (hx : x.Progresses entry) {line : Text}
    {t : Token} (ht : t ∈ (x.lineTokens entry line).tokens) : t.start < t.stop :=
  Token.start_lt_stop_of_mem_place (reaches_scanLine hx line).ne_nil ht

/-- A word is a word token unless it starts in a comment or a literal, and then it ends there. -/
theorem mem_ofTokens_or_hides (hx : x.SeparatesComments) {entry : LineState} {line : Text}
    {w : Word} (hw : w ∈ Word.all line) :
    w ∈ Word.ofTokens (x.lineTokens entry line).tokens ∨
      ∀ o, w.start ≤ o → o < w.stop → Token.hides (x.lineTokens entry line).tokens o = true := by
  rcases (alongside_scanLine hx entry line).isOpaque_of_mem hw with ⟨t, ht, hword, rfl⟩ | hopaque
  · exact Or.inl (Word.mem_ofTokens_iff.2 ⟨t, ht, hword, rfl⟩)
  · refine Or.inr fun o ho ho' => ?_
    have hline := (Word.inOrder_all line).within w hw
    obtain ⟨t, ht, hto⟩ :=
      exists_contains_of_lt (hx.progresses entry) (Nat.lt_of_lt_of_le ho' hline)
    exact Token.hides_iff.2 ⟨t, ht, hopaque t ht o ho ho' hto, hto⟩

/-- A word token starts in no comment and in no literal. -/
theorem hides_of_mem_ofTokens (hx : x.SeparatesComments) {entry : LineState} {line : Text}
    {w : Word} (hw : w ∈ Word.ofTokens (x.lineTokens entry line).tokens) :
    w ∈ Word.all line ∧ Token.hides (x.lineTokens entry line).tokens w.start = false := by
  obtain ⟨t, ht, hword, rfl⟩ := Word.mem_ofTokens_iff.1 hw
  refine ⟨(alongside_scanLine hx entry line).mem_of_isWord ht hword, ?_⟩
  refine Bool.eq_false_iff.2 fun hhidden => ?_
  obtain ⟨u, hu, hopaque, huo⟩ := Token.hides_iff.1 hhidden
  have hto : t.contains t.start = true :=
    Token.contains_iff.2 ⟨Nat.le_refl _, start_lt_stop_of_mem_lineTokens (hx.progresses entry) ht⟩
  obtain rfl := Token.eq_of_contains hu ht huo hto
  rw [TokenClass.isOpaque_of_isWord hword] at hopaque
  exact absurd hopaque Bool.false_ne_true

theorem ordered_ofTokens {entry : LineState} (hx : x.Progresses entry) (line : Text) :
    (Word.ofTokens (x.lineTokens entry line).tokens).Pairwise fun w v => w.start < v.start := by
  have hplaced : (x.lineTokens entry line).tokens.Pairwise fun t u => t.stop ≤ u.start :=
    Token.pairwise_place 0 _
  refine List.pairwise_map.2 (List.Pairwise.filter _ (hplaced.imp_of_mem fun ht _ hle => ?_))
  exact Nat.lt_of_lt_of_le (start_lt_stop_of_mem_lineTokens hx ht) hle

/-- The word tokens of a line are its words, in their order, without those that start in a comment
or a literal; and these lie in comments and literals from their first character to the last.  The
splitter comes to the end of every line, and lists words in order that do not overlap. -/
theorem ofTokens_eq_filter_words (hx : x.SeparatesComments) (entry : LineState) (line : Text) :
    let tokens := (x.lineTokens entry line).tokens
    Word.ofTokens tokens = (Word.all line).filter (fun w => !Token.hides tokens w.start) ∧
    (∀ w ∈ Word.all line, Token.hides tokens w.start = true →
      ∀ o, w.start ≤ o → o < w.stop → Token.hides tokens o = true) ∧
    Word.Splits 0 line (Word.all line) ∧ Word.InOrder line (Word.all line) := by
  intro tokens
  have hwords := Word.inOrder_all line
  refine ⟨?_, fun w hw hhidden => ?_, Word.splits_allFrom 0 line, hwords⟩
  · have hirrefl : Std.Irrefl fun w v : Word => w.start < v.start := ⟨fun w => Nat.lt_irrefl _⟩
    have hantisymm : Std.Antisymm fun w v : Word => w.start < v.start :=
      ⟨fun w v h h' => absurd h (Nat.lt_asymm h')⟩
    refine (ordered_ofTokens (hx.progresses entry) line).eq_of_mem_iff (hwords.ordered.filter _)
      fun w => ?_
    rw [List.mem_filter, Bool.not_eq_true']
    refine ⟨hides_of_mem_ofTokens hx, fun ⟨hw, hvisible⟩ => ?_⟩
    refine (mem_ofTokens_or_hides hx hw).resolve_right fun hhidden => ?_
    have hstart := hhidden w.start (Nat.le_refl _) (hwords.nonempty w hw)
    rw [hvisible] at hstart
    exact Bool.false_ne_true hstart
  · refine (mem_ofTokens_or_hides hx hw).resolve_left fun htoken => ?_
    rw [(hides_of_mem_ofTokens hx htoken).2] at hhidden
    exact Bool.false_ne_true hhidden

/-- Six words on a line that begins in a literal, of which three are tokens. -/
theorem ofTokens_eq_filter_words_literal :
    let line : Text := "a' b 2c /* d 1e5 */ e".toList
    let tokens := (({} : Lexicon).lineTokens (.literal .single) line).tokens
    ({} : Lexicon).SeparatesComments ∧
      (Word.all line).map Word.text = [['a'], ['b'], ['c'], ['d'], ['e', '5'], ['e']] ∧
      Word.ofTokens tokens = (Word.all line).filter (fun w => !Token.hides tokens w.start) ∧
      Word.ofTokens tokens = [⟨['b'], 3⟩, ⟨['c'], 6⟩, ⟨['e'], 20⟩] := by
  have hx : ({} : Lexicon).SeparatesComments := ⟨['*'], '/', rfl, by decide⟩
  exact ⟨hx, by decide +kernel, (ofTokens_eq_filter_words hx (.literal .single) _).1,
    by decide +kernel⟩

end Lexicon

end SqlAssist
