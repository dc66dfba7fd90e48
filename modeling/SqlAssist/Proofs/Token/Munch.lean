import SqlAssist.Proofs.Token.Alongside
import SqlAssist.Proofs.Token.Number

/-!
What a token outside of comments and literals is.

The class of such a token says what its text looks like, and no rule stops early: the characters
behind the token are not more of it.  Both are statements about one rule with the text behind it,
so they do not depend on how the scanner came there, be it from another line or by a token before.
An earlier rule can take the start of a later one.  Of a number it is the float that comes first,
and a comment may open in front of any character, or stop a run of symbols.
-/

namespace SqlAssist
namespace Lexicon

/-- Whether no rule but the last one applies at a character. -/
structure Unmatched (x : Lexicon) (c : Char) (after : Text) : Prop where
  noComment : x.comments.opensAt (c :: after) = false
  noBlank : Text.isBlank c = false
  noQuote : Quote.ofChar? c = none
  noNumber : Number.match? (c :: after) = none
  noWord : Word.isStart c = false
  noSymbol : isSymbol c = false
  noBracket : isBracket c = false
  noDelimiter : isDelimiter c = false

structure WellFormed (x : Lexicon) (l : Lexeme) (after : Text) : Prop where
  nonempty : l.text ≠ []
  blank : l.tokenClass = .whitespace →
    (∀ c ∈ l.text, Text.isBlank c = true) ∧ ∀ c ∈ after.head?, Text.isBlank c = false
  word : l.tokenClass.isWord = true →
    Word.IsIdentifier l.text ∧ (∀ c ∈ after.head?, Word.isContinue c = false) ∧
      l.tokenClass = x.classifyWord l.text
  integer : l.tokenClass = .numberInt →
    Number.IsDigits l.text ∧ (∀ c ∈ after.head?, c.isDigit = false) ∧
      ∀ c rest, after = '.' :: c :: rest → c.isDigit = false
  float : l.tokenClass = .numberFloat →
    Number.IsFloat l.text ∧
      ∀ a, a <+: l.text ++ after → Number.IsFloat a → a.length ≤ l.text.length
  symbols : ∀ c ∈ l.text.head?, isSymbol c = true →
    (∀ d ∈ l.text, isSymbol d = true) ∧
      (∀ d ∈ after.head?, isSymbol d = true → x.comments.opensAt after = true) ∧
      l.tokenClass = if x.operators.contains l.text then .operator else .default
  operator : l.tokenClass = .operator → ∀ c ∈ l.text.head?, isSymbol c = true
  single : l.tokenClass = .bracket ∨ l.tokenClass = .delimiter ∨ l.tokenClass = .default →
    (∀ c ∈ l.text.head?, isSymbol c = false) →
      ∃ c, l.text = [c] ∧ (l.tokenClass = .bracket → isBracket c = true) ∧
        (l.tokenClass = .delimiter → isDelimiter c = true) ∧
        (l.tokenClass = .default → x.Unmatched c after)
  point : l = ⟨['.'], .delimiter⟩ → ∀ c ∈ after.head?, c.isDigit = false

/-! ## Symbols are the start of no other token -/

theorem not_isSymbol_of_all {p : Char → Bool}
    (hall : symbolCharacters.all (fun c => !p c) = true) {c : Char} (h : p c = true) :
    isSymbol c = false := by
  refine Bool.eq_false_iff.2 fun hsymbol => ?_
  have hc := List.all_eq_true.1 hall c (List.contains_iff_mem.1 hsymbol)
  rw [h] at hc
  exact Bool.false_ne_true hc

theorem not_isSymbol_of_isBlank {c : Char} (h : Text.isBlank c = true) : isSymbol c = false :=
  not_isSymbol_of_all (by decide) h

theorem not_isSymbol_of_isContinue {c : Char} (h : Word.isContinue c = true) :
    isSymbol c = false :=
  not_isSymbol_of_all (by decide) h

theorem not_isSymbol_of_isDigit {c : Char} (h : c.isDigit = true) : isSymbol c = false :=
  not_isSymbol_of_all (by decide) h

/-- A run of symbols goes on until there is none or a comment opens, and not before. -/
theorem exists_symbolRun (x : Lexicon) (t : Text) :
    ∃ a b, t = a ++ b ∧ a.length = x.symbolRun t ∧ (∀ c ∈ a, isSymbol c = true) ∧
      ∀ c ∈ b.head?, isSymbol c = true → x.comments.opensAt b = true := by
  refine ⟨t.take (x.symbolRun t), t.drop (x.symbolRun t), (List.take_append_drop _ _).symm,
    List.length_take_of_le (symbolRun_le_length x t), x.isSymbol_of_mem_symbolRun t, ?_⟩
  induction t with
  | nil => simp
  | cons d rest ih =>
    rw [symbolRun]
    split
    · rw [Nat.add_comm, List.drop_succ_cons]
      exact ih
    · next hstop =>
      intro c hc hsymbol
      obtain rfl : d = c := by simpa using hc
      rw [List.drop_zero]
      simpa [hsymbol] using hstop

/-! ## The forms of well-formed lexemes -/

section Forms

variable {x : Lexicon} {a after : Text}

theorem wellFormed_blank (hne : a ≠ []) (hall : ∀ c ∈ a, Text.isBlank c = true)
    (hnext : ∀ c ∈ after.head?, Text.isBlank c = false) :
    x.WellFormed ⟨a, .whitespace⟩ after := by
  constructor
  case nonempty => exact hne
  case blank => exact fun _ => ⟨hall, hnext⟩
  case symbols =>
    intro c hc hsymbol
    rw [not_isSymbol_of_isBlank (hall c (List.mem_of_mem_head? hc))] at hsymbol
    exact absurd hsymbol Bool.false_ne_true
  all_goals simp [TokenClass.isWord]

theorem wellFormed_word (ha : Word.IsIdentifier a)
    (hnext : ∀ c ∈ after.head?, Word.isContinue c = false) :
    x.WellFormed ⟨a, x.classifyWord a⟩ after := by
  have hne : ∀ cls : TokenClass, cls.isWord = false → x.classifyWord a ≠ cls := by
    rintro cls hcls rfl
    rw [classifyWord, TokenClass.isWord_ofSymbol?] at hcls
    simp at hcls
  constructor
  case nonempty =>
    obtain ⟨c, w, rfl, -⟩ := ha
    exact List.cons_ne_nil c w
  case word => exact fun _ => ⟨ha, hnext, rfl⟩
  case symbols =>
    intro c hc hsymbol
    rw [not_isSymbol_of_isContinue (ha.isContinue c (List.mem_of_mem_head? hc))] at hsymbol
    exact absurd hsymbol Bool.false_ne_true
  case single => rintro (h | h | h) <;> exact absurd h (hne _ rfl)
  case point => exact fun h => absurd (congrArg Lexeme.tokenClass h) (hne _ rfl)
  all_goals exact fun h => absurd h (hne _ rfl)

theorem wellFormed_integer (ha : Number.IsDigits a)
    (hnext : ∀ c ∈ after.head?, c.isDigit = false)
    (hfraction : ∀ c rest, after = '.' :: c :: rest → c.isDigit = false) :
    x.WellFormed ⟨a, .numberInt⟩ after := by
  constructor
  case nonempty => exact ha.1
  case integer => exact fun _ => ⟨ha, hnext, hfraction⟩
  case symbols =>
    intro c hc hsymbol
    rw [not_isSymbol_of_isDigit (ha.2 c (List.mem_of_mem_head? hc))] at hsymbol
    exact absurd hsymbol Bool.false_ne_true
  all_goals simp [TokenClass.isWord]

theorem wellFormed_float (ha : Number.IsFloat a)
    (hlongest : ∀ b, b <+: a ++ after → Number.IsFloat b → b.length ≤ a.length) :
    x.WellFormed ⟨a, .numberFloat⟩ after := by
  constructor
  case nonempty => exact ha.ne_nil
  case float => exact fun _ => ⟨ha, hlongest⟩
  case symbols =>
    intro c hc hsymbol
    rcases ha.head? c hc with hdigit | rfl
    · rw [not_isSymbol_of_isDigit hdigit] at hsymbol
      exact absurd hsymbol Bool.false_ne_true
    · exact absurd hsymbol (by decide)
  all_goals simp [TokenClass.isWord]

theorem wellFormed_symbols (hne : a ≠ []) (hall : ∀ c ∈ a, isSymbol c = true)
    (hnext : ∀ c ∈ after.head?, isSymbol c = true → x.comments.opensAt after = true) :
    x.WellFormed ⟨a, if x.operators.contains a then .operator else .default⟩ after := by
  have hhead : ∃ c ∈ a.head?, isSymbol c = true := by
    cases a with
    | nil => exact absurd rfl hne
    | cons c w => exact ⟨c, rfl, hall c List.mem_cons_self⟩
  constructor
  case nonempty => exact hne
  case symbols => exact fun _ _ _ => ⟨hall, hnext, rfl⟩
  case operator => exact fun _ c hc => hall c (List.mem_of_mem_head? hc)
  case single =>
    intro _ hnone
    obtain ⟨c, hc, hsymbol⟩ := hhead
    rw [hnone c hc] at hsymbol
    exact absurd hsymbol Bool.false_ne_true
  case point =>
    rintro h
    obtain ⟨rfl, -⟩ : a = ['.'] ∧ _ := by simpa using h
    exact absurd (hall '.' List.mem_cons_self) (by decide)
  all_goals
    simp only
    split <;> simp [TokenClass.isWord]

theorem wellFormed_single {c : Char} (hsymbol : isSymbol c = false)
    (hpoint : c = '.' → ∀ d ∈ after.head?, d.isDigit = false)
    (hother : isBracket c = false → isDelimiter c = false → x.Unmatched c after) :
    x.WellFormed ⟨[c], if isBracket c then .bracket else if isDelimiter c then .delimiter
      else .default⟩ after := by
  constructor
  case nonempty => exact List.cons_ne_nil c []
  case symbols =>
    intro d hd hd'
    obtain rfl : c = d := by simpa using hd
    rw [hsymbol] at hd'
    exact absurd hd' Bool.false_ne_true
  case single =>
    refine fun _ _ => ⟨c, rfl, ?_, ?_, ?_⟩
    all_goals
      simp only
      cases hbracket : isBracket c <;> cases hdelimiter : isDelimiter c <;> simp
    exact hother hbracket hdelimiter
  case point =>
    intro h
    obtain ⟨rfl, -⟩ : c = '.' ∧ _ := by simpa using h
    exact hpoint rfl
  all_goals
    simp only
    split
    · simp [TokenClass.isWord]
    · split <;> simp [TokenClass.isWord]

end Forms

/-! ## Each rule cuts off a well-formed lexeme -/

/-- A point with a digit behind it is the start or the middle of a float. -/
theorem not_isDigit_of_point (whole : Text) {rest : Text}
    (hwhole : ∀ c ∈ whole, c.isDigit = true)
    (hnone : Number.floatLength? (whole ++ '.' :: rest) = none) :
    ∀ c ∈ rest.head?, c.isDigit = false := by
  intro c hc
  cases rest with
  | nil => simp at hc
  | cons d rest =>
    obtain rfl : d = c := by simpa using hc
    refine Bool.eq_false_iff.2 fun hdigit => ?_
    exact Number.floatLength?_eq_none hnone ⟨rest, by simp⟩ (Number.isFloat_point hwhole hdigit)

theorem RootRule.wellFormed {x : Lexicon} {c : Char} {rest : Text} {k : Cut}
    (h : RootRule x c rest k) (hvisible : k.tokenClass.isOpaque = false) :
    x.WellFormed ⟨(c :: rest).take k.length, k.tokenClass⟩ ((c :: rest).drop k.length) := by
  cases h with
  | lineComment => exact absurd hvisible Bool.noConfusion
  | closedComment => exact absurd hvisible Bool.noConfusion
  | openComment => exact absurd hvisible Bool.noConfusion
  | brokenLiteral => exact absurd hvisible Bool.noConfusion
  | literal => exact absurd hvisible Bool.noConfusion
  | blank plain blank =>
    obtain ⟨a, b, ht, hrun, hall, hnext⟩ := Text.exists_run Text.isBlank (c :: rest)
    obtain ⟨htake, hdrop⟩ := Text.take_drop_of_append ht (congrArg List.length hrun.symm)
    have hne : a ≠ [] := by
      rw [← hrun, List.takeWhile_cons_of_pos blank]
      exact List.cons_ne_nil _ _
    simp only [htake, hdrop]
    exact wellFormed_blank hne hall hnext
  | number plain notBlank noQuote matched =>
    -- a float is tried first, so that an integer is what is left when there is none
    rcases Number.match?_cases matched with ⟨hfloat, rfl⟩ | ⟨hnone, rfl, hpos, rfl⟩
    · obtain ⟨a, b, ht, hlength, ha⟩ := Number.exists_float hfloat
      obtain ⟨htake, hdrop⟩ := Text.take_drop_of_append ht hlength
      rw [ht, ← hlength] at hfloat
      simp only [htake, hdrop]
      exact wellFormed_float ha fun a' => Number.length_le_of_floatLength? hfloat
    · obtain ⟨a, b, ht, hlength, hall, hnext⟩ := Number.exists_digitRun (c :: rest)
      obtain ⟨htake, hdrop⟩ := Text.take_drop_of_append ht hlength
      rw [← hlength, List.length_pos_iff] at hpos
      simp only [htake, hdrop]
      refine wellFormed_integer ⟨hpos, hall⟩ hnext fun d w hb => ?_
      rw [ht, hb] at hnone
      exact not_isDigit_of_point a hall hnone d rfl
  | word plain notBlank noQuote noNumber starts =>
    obtain ⟨a, b, ht, hlength, ha, hnext⟩ := Word.exists_identifier starts rest
    obtain ⟨htake, hdrop⟩ := Text.take_drop_of_append ht hlength
    simp only [htake, hdrop]
    exact wellFormed_word ha hnext
  | symbols plain notBlank noQuote noNumber noWord symbol =>
    obtain ⟨a, b, ht, hrun, hall, hnext⟩ := x.exists_symbolRun rest
    have hlength : (c :: a).length = 1 + x.symbolRun rest := by
      rw [← hrun, Nat.add_comm, List.length_cons]
    obtain ⟨htake, hdrop⟩ := Text.take_drop_of_append (congrArg (List.cons c) ht) hlength
    simp only [htake, hdrop]
    exact wellFormed_symbols (List.cons_ne_nil c a) (List.forall_mem_cons.2 ⟨symbol, hall⟩) hnext
  | single plain notBlank noQuote noNumber noWord noSymbol =>
    refine wellFormed_single noSymbol ?_ fun noBracket noDelimiter =>
      ⟨plain, notBlank, noQuote, noNumber, noWord, noSymbol, noBracket, noDelimiter⟩
    rintro rfl
    exact not_isDigit_of_point [] (by simp) (Number.match?_eq_none_iff.1 noNumber).1

/-! ## The tokens of a line -/

theorem cut_isOpaque {x : Lexicon} {state : LineState} {c : Char} {rest : Text}
    (h : state ≠ .root) : (x.cut state c rest).tokenClass.isOpaque = true := by
  cases state with
  | root => exact absurd rfl h
  | blockComment =>
    simp only [cut, commentBodyCut]
    split <;> rfl
  | literal quote => exact (literalCut_rule quote c rest).isOpaque

/-- The rule that cuts off a token outside of comments and literals, and the text it is applied
to. -/
theorem exists_rootRule {x : Lexicon} {entry : LineState} {line : Text} {t : Token}
    (ht : t ∈ (x.lineTokens entry line).tokens) (hvisible : t.tokenClass.isOpaque = false) :
    ∃ (before : Text) (c : Char) (rest : Text) (k : Cut), line = before ++ c :: rest ∧
      t.start = before.width ∧ RootRule x c rest k ∧ t.text = (c :: rest).take k.length ∧
      t.tokenClass = k.tokenClass := by
  obtain ⟨a, l, b, hlexemes, rfl⟩ := Token.mem_place ht
  rcases ended_or_broken entry line with hended | ⟨quote, rfl, hbroken⟩
  · rw [scanLine_of_ended hended] at hlexemes
    obtain ⟨s', t', run⟩ := x.exists_steps_scanFrom entry line
    rw [hlexemes] at run
    obtain ⟨s, c, rest, hfront, rfl⟩ := run.exists_cut
    -- the rules of the other two states cut off comments and literals only
    have hroot : s = .root := Decidable.byContradiction fun hs => by
      have hopaque : (x.cut s c rest).tokenClass.isOpaque = true := cut_isOpaque hs
      rw [hvisible] at hopaque
      exact absurd hopaque Bool.false_ne_true
    subst hroot
    exact ⟨_, c, rest, _, hfront.text_eq, Nat.zero_add _, x.rootCut_rule c rest, rfl, rfl⟩
  · have hl : l ∈ (x.scanLine (.literal quote) line).lexemes := by
      rw [hlexemes]
      exact List.mem_append_right _ List.mem_cons_self
    rw [scanLine_of_broken hbroken] at hl
    simp only at hl
    split at hl
    · simp at hl
    · rw [List.mem_singleton.1 hl] at hvisible
      exact absurd hvisible Bool.noConfusion

/-- A word token has the class that the dialect gives its text. -/
theorem tokenClass_of_isWord {x : Lexicon} {entry : LineState} {line : Text} {t : Token}
    (ht : t ∈ (x.lineTokens entry line).tokens) (hword : t.tokenClass.isWord = true) :
    t.tokenClass = x.classifyWord t.text := by
  have hvisible := TokenClass.isOpaque_of_isWord hword
  obtain ⟨-, c, rest, k, -, -, hrule, htext, hclass⟩ := exists_rootRule ht hvisible
  rw [hclass] at hvisible hword
  rw [htext, hclass]
  exact ((hrule.wellFormed hvisible).word hword).2.2

/-- Every token outside of comments and literals is well formed and cannot be extended, on every
line and whatever state the line is entered in. -/
theorem wellFormed_of_visible {x : Lexicon} {entry : LineState} {line : Text} {t : Token}
    (ht : t ∈ (x.lineTokens entry line).tokens) (hvisible : t.tokenClass.isOpaque = false) :
    ∃ before after, line = before ++ t.text ++ after ∧ t.start = before.width ∧
      x.WellFormed ⟨t.text, t.tokenClass⟩ after := by
  obtain ⟨before, c, rest, k, hline, hstart, hrule, htext, hclass⟩ :=
    exists_rootRule ht hvisible
  refine ⟨before, (c :: rest).drop k.length, ?_, hstart, ?_⟩
  · rw [htext, List.append_assoc, List.take_append_drop, hline]
  · rw [hclass] at hvisible
    rw [htext, hclass]
    exact hrule.wellFormed hvisible

/-- A run of symbols that is an operator, in front of a comment that opens with a symbol. -/
theorem wellFormed_operator :
    ∃ before after, "a<=--b".toList = before ++ ['<', '='] ++ after ∧ 1 = Text.width before ∧
      WellFormed { operators := [['<', '=']] } ⟨['<', '='], .operator⟩ after :=
  @wellFormed_of_visible { operators := [['<', '=']] } .root "a<=--b".toList
    ⟨['<', '='], .operator, 1⟩ (by decide +kernel) rfl

end Lexicon
end SqlAssist
