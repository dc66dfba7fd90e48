import SqlAssist.Proofs.Token.Rules

/-!
Runs of the scanner.

`scanFrom` is a loop with an accumulator turned inside out.  `Steps` is that loop as a relation:
it says that the scanner comes from one state and text to another, and what it cuts off on the
way.  A cut without characters is no step, so a finite run to the empty text is termination and
progress in one.  `Reaches` adds what happens before the loop, when a literal is carried into the
line, and so describes the whole scan of a line.
-/

namespace SqlAssist
namespace Lexicon

/-- The scanner's loop comes from `state`, with `t` left of the line, to `state'`, with `t'`
left, and cuts off `lexemes` on the way. -/
inductive Steps (x : Lexicon) : LineState → Text → List Lexeme → LineState → Text → Prop
  | refl (state : LineState) (t : Text) : Steps x state t [] state t
  | cut {state state' : LineState} {c : Char} {rest t' : Text} {lexemes : List Lexeme}
      (progress : 0 < (x.cut state c rest).length)
      (more : Steps x (x.cut state c rest).next
        ((c :: rest).drop (x.cut state c rest).length) lexemes state' t') :
      Steps x state (c :: rest)
        (⟨(c :: rest).take (x.cut state c rest).length, (x.cut state c rest).tokenClass⟩ ::
          lexemes) state' t'

namespace Steps

variable {x : Lexicon} {s s' s'' : LineState} {t t' t'' : Text} {a b : List Lexeme}

theorem single {c : Char} {rest : Text} {k : Cut} (hk : x.cut s c rest = k)
    (hpos : 0 < k.length) :
    Steps x s (c :: rest) [⟨(c :: rest).take k.length, k.tokenClass⟩] k.next
      ((c :: rest).drop k.length) := by
  subst hk
  exact .cut hpos (.refl _ _)

theorem trans (h : Steps x s t a s' t') (h' : Steps x s' t' b s'' t'') :
    Steps x s t (a ++ b) s'' t'' := by
  induction h with
  | refl => exact h'
  | cut progress _ ih => exact .cut progress (ih h')

theorem text_eq (h : Steps x s t a s' t') : t = a.flatMap Lexeme.text ++ t' := by
  induction h with
  | refl => rfl
  | cut progress more ih =>
    rw [List.flatMap_cons, List.append_assoc, ← ih, List.take_append_drop]

theorem ne_nil (h : Steps x s t a s' t') : ∀ l ∈ a, l.text ≠ [] := by
  induction h with
  | refl => simp
  | @cut state state' c rest t' lexemes progress more ih =>
    intro l hl
    rcases List.mem_cons.1 hl with rfl | hl
    · intro hnil
      have hlen := congrArg List.length hnil
      simp only [List.length_take, List.length_cons, List.length_nil] at hlen
      omega
    · exact ih l hl

theorem of_nil (h : Steps x s [] a s' t') : a = [] ∧ s' = s ∧ t' = [] := by
  cases h with
  | refl => exact ⟨rfl, rfl, rfl⟩

theorem progresses (h : Steps x s t a s' t') (hs : x.Progresses s) : x.Progresses s' := by
  induction h with
  | refl => exact hs
  | cut progress more ih => exact ih (progresses_next hs _ _)

/-- The cut that a lexeme of a run comes from. -/
theorem exists_cut {l : Lexeme} (h : Steps x s t (a ++ l :: b) s' t') :
    ∃ (s₁ : LineState) (c : Char) (rest : Text), Steps x s t a s₁ (c :: rest) ∧
      l = ⟨(c :: rest).take (x.cut s₁ c rest).length, (x.cut s₁ c rest).tokenClass⟩ := by
  induction a generalizing s t with
  | nil =>
    cases h with
    | cut progress more => exact ⟨_, _, _, .refl _ _, rfl⟩
  | cons l' a ih =>
    cases h with
    | cut progress more =>
      obtain ⟨s₁, c, rest, run, hl⟩ := ih more
      exact ⟨s₁, c, rest, .cut progress run, hl⟩

end Steps

theorem scanFrom_nil (x : Lexicon) (state : LineState) : x.scanFrom state [] = ⟨[], state⟩ := by
  rw [scanFrom]

theorem scanFrom_cons {x : Lexicon} {state : LineState} {c : Char} {rest : Text}
    (h : 0 < (x.cut state c rest).length) :
    x.scanFrom state (c :: rest) =
      ⟨⟨(c :: rest).take (x.cut state c rest).length, (x.cut state c rest).tokenClass⟩ ::
          (x.scanFrom (x.cut state c rest).next
            ((c :: rest).drop (x.cut state c rest).length)).lexemes,
        (x.scanFrom (x.cut state c rest).next
          ((c :: rest).drop (x.cut state c rest).length)).endState⟩ := by
  rw [scanFrom]
  simp only [Nat.ne_of_gt h, dite_false]

/-- The scan from the start of a run is the run and then the scan from its end. -/
theorem Steps.scanFrom_eq {x : Lexicon} {s s' : LineState} {t t' : Text} {a : List Lexeme}
    (h : Steps x s t a s' t') :
    x.scanFrom s t = ⟨a ++ (x.scanFrom s' t').lexemes, (x.scanFrom s' t').endState⟩ := by
  induction h with
  | refl => rfl
  | cut progress more ih => rw [scanFrom_cons progress, ih]; rfl

/-- Where the scanner makes progress, it runs to the end of the line. -/
theorem steps_scanFrom {x : Lexicon} {s : LineState} (h : x.Progresses s) (t : Text) :
    Steps x s t (x.scanFrom s t).lexemes (x.scanFrom s t).endState [] := by
  match t with
  | [] =>
    rw [scanFrom_nil]
    exact .refl s []
  | c :: rest =>
    have hpos := cut_length_pos h c rest
    rw [scanFrom_cons hpos]
    exact .cut hpos (steps_scanFrom (progresses_next h c rest) _)
termination_by t.length
decreasing_by
  simp only [List.length_drop, List.length_cons]
  omega

/-- In any case it runs as far as it makes progress. -/
theorem exists_steps_scanFrom (x : Lexicon) (s : LineState) (t : Text) :
    ∃ s' t', Steps x s t (x.scanFrom s t).lexemes s' t' := by
  match t with
  | [] => exact ⟨s, [], by rw [scanFrom_nil]; exact .refl s []⟩
  | c :: rest =>
    by_cases hpos : 0 < (x.cut s c rest).length
    · obtain ⟨s', t', run⟩ := exists_steps_scanFrom x (x.cut s c rest).next
        ((c :: rest).drop (x.cut s c rest).length)
      exact ⟨s', t', by rw [scanFrom_cons hpos]; exact .cut hpos run⟩
    · refine ⟨s, c :: rest, ?_⟩
      rw [scanFrom]
      simp only [Nat.eq_zero_of_not_pos hpos, dite_true]
      exact .refl s (c :: rest)
termination_by t.length
decreasing_by
  simp only [List.length_drop, List.length_cons]
  omega

/-- The scanner's lexemes are a front part of the line. -/
theorem scanFrom_prefix (x : Lexicon) (s : LineState) (t : Text) :
    (x.scanFrom s t).lexemes.flatMap Lexeme.text <+: t := by
  obtain ⟨s', t', run⟩ := x.exists_steps_scanFrom s t
  exact ⟨t', run.text_eq.symm⟩

/-! ## The scan of a line -/

/-- The scan of `line` from `entry` comes to `state`, with `rest` left of the line and `lexemes`
behind it. -/
inductive Reaches (x : Lexicon) (entry : LineState) (line : Text) :
    List Lexeme → LineState → Text → Prop
  /-- A literal that is carried into the line and has no end there takes all of it. -/
  | broken {quote : Quote} (carried : entry = .literal quote)
      (unended : Literal.lookAhead quote line = .unterminated) :
      Reaches x entry line (if line.isEmpty then [] else [⟨line, .stringInvalid⟩]) .root []
  | steps {lexemes : List Lexeme} {state : LineState} {rest : Text}
      (ended : ∀ quote, entry = .literal quote → Literal.lookAhead quote line ≠ .unterminated)
      (run : Steps x entry line lexemes state rest) : Reaches x entry line lexemes state rest

theorem scanLine_of_ended {x : Lexicon} {entry : LineState} {line : Text}
    (h : ∀ quote, entry = .literal quote → Literal.lookAhead quote line ≠ .unterminated) :
    x.scanLine entry line = x.scanFrom entry line := by
  cases entry with
  | root => rfl
  | blockComment => rfl
  | literal quote => simp only [scanLine, h quote rfl, if_false]

theorem scanLine_of_broken {x : Lexicon} {quote : Quote} {line : Text}
    (h : Literal.lookAhead quote line = .unterminated) :
    x.scanLine (.literal quote) line =
      ⟨if line.isEmpty then [] else [⟨line, .stringInvalid⟩], .root⟩ := by
  simp only [scanLine, h, if_true]

theorem scanLine_literal {x : Lexicon} {quote : Quote} {line : Text}
    (h : Literal.lookAhead quote line ≠ .unterminated) :
    x.scanLine (.literal quote) line = x.scanFrom (.literal quote) line := by
  simp only [scanLine, h, if_false]

theorem ended_or_broken (entry : LineState) (line : Text) :
    (∀ quote, entry = .literal quote → Literal.lookAhead quote line ≠ .unterminated) ∨
      ∃ quote, entry = .literal quote ∧ Literal.lookAhead quote line = .unterminated := by
  cases entry with
  | root => exact Or.inl fun quote h => by simp at h
  | blockComment => exact Or.inl fun quote h => by simp at h
  | literal quote =>
    by_cases h : Literal.lookAhead quote line = .unterminated
    · exact Or.inr ⟨quote, rfl, h⟩
    · refine Or.inl fun quote' h' => ?_
      obtain rfl : quote = quote' := by simpa using h'
      exact h

namespace Reaches

variable {x : Lexicon} {entry s s' : LineState} {line t t' : Text} {a b : List Lexeme}

theorem trans (h : Reaches x entry line a s t) (h' : Steps x s t b s' t') :
    Reaches x entry line (a ++ b) s' t' := by
  cases h with
  | broken carried unended =>
    obtain ⟨rfl, rfl, rfl⟩ := h'.of_nil
    rw [List.append_nil]
    exact .broken carried unended
  | steps ended run => exact .steps ended (run.trans h')

theorem text_eq (h : Reaches x entry line a s t) : line = a.flatMap Lexeme.text ++ t := by
  cases h with
  | broken carried unended => cases line <;> simp
  | steps ended run => exact run.text_eq

theorem ne_nil (h : Reaches x entry line a s t) : ∀ l ∈ a, l.text ≠ [] := by
  cases h with
  | broken carried unended => cases line <;> simp
  | steps ended run => exact run.ne_nil

theorem progresses (h : Reaches x entry line a s t) (hentry : x.Progresses entry) :
    x.Progresses s := by
  cases h with
  | broken carried unended =>
    rcases hentry with hend | ⟨hstart, -⟩
    · exact Or.inl hend
    · exact Or.inr ⟨hstart, by simp⟩
  | steps ended run => exact run.progresses hentry

theorem scanLine_eq (h : Reaches x entry line a s t) :
    x.scanLine entry line = ⟨a ++ (x.scanFrom s t).lexemes, (x.scanFrom s t).endState⟩ := by
  cases h with
  | broken carried unended =>
    rw [carried, scanLine_of_broken unended, scanFrom_nil, List.append_nil]
  | steps ended run => rw [scanLine_of_ended ended, run.scanFrom_eq]

/-- A scan that comes to the end of the line is the scan of the line, and leaves out nothing. -/
theorem scanLine_of_end (h : Reaches x entry line a s []) : x.scanLine entry line = ⟨a, s⟩ := by
  rw [h.scanLine_eq, scanFrom_nil, List.append_nil]

theorem join_of_end (h : Reaches x entry line a s []) : a.flatMap Lexeme.text = line := by
  rw [h.text_eq, List.append_nil]

theorem lineTokens_eq (h : Reaches x entry line a s t) :
    x.lineTokens entry line =
      ⟨Token.place 0 a ++
          Token.place (Text.width (a.flatMap Lexeme.text)) (x.scanFrom s t).lexemes,
        (x.scanFrom s t).endState⟩ := by
  rw [lineTokens, h.scanLine_eq, Token.place_append, Nat.zero_add]

end Reaches

/-- Where the scanner makes progress, the scan of a line comes to its end. -/
theorem reaches_scanLine {x : Lexicon} {entry : LineState} (h : x.Progresses entry)
    (line : Text) :
    Reaches x entry line (x.scanLine entry line).lexemes (x.scanLine entry line).endState [] := by
  rcases ended_or_broken entry line with hended | ⟨quote, rfl, hbroken⟩
  · rw [scanLine_of_ended hended]
    exact .steps hended (steps_scanFrom h line)
  · rw [scanLine_of_broken hbroken]
    exact .broken rfl hbroken

theorem scanLine_prefix (x : Lexicon) (entry : LineState) (line : Text) :
    (x.scanLine entry line).lexemes.flatMap Lexeme.text <+: line := by
  rcases ended_or_broken entry line with hended | ⟨quote, rfl, hbroken⟩
  · rw [scanLine_of_ended hended]
    exact scanFrom_prefix x entry line
  · rw [scanLine_of_broken hbroken]
    cases line <;> simp

end Lexicon
end SqlAssist
