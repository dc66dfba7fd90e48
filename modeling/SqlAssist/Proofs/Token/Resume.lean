import SqlAssist.Proofs.Token.Document

/-!
Resuming a scan at the start of a line.

A walk over the lines of a document looks at the text from its place on, and from the lines behind
it knows the offset and the state.  The offset is only added to the places of tokens
(`Lines.scanned_add`), and a text that ends in a line feed falls into the same lines whatever comes
after it (`Lines.scanned_append`).  So the state at the start of a line is all that the tokens from
there on take from the text above, and a scan can be resumed there.

The end of a text is no line of its own behind a last line feed.  That is why the state to resume
from is the one that the walk ends in: the empty line that `Text.lines` has there would break a
literal that goes on.
-/

namespace SqlAssist

namespace Text

/-- Whether a text is empty or ends in a line feed, so that a line starts behind it. -/
def EndsLine (t : Text) : Prop := t = [] ∨ t.getLast? = some '\n'

instance (t : Text) : Decidable t.EndsLine := inferInstanceAs (Decidable (_ ∨ _))

theorem EndsLine.eq_nil {t : Text} (h : t.EndsLine) (hfeed : '\n' ∉ t) : t = [] := by
  rcases h with hnil | hlast
  · exact hnil
  · exact absurd (List.mem_of_getLast? hlast) hfeed

theorem EndsLine.rest {body rest : Text} (h : EndsLine (body ++ '\n' :: rest)) :
    rest.EndsLine := by
  rcases h with hnil | hlast
  · simp at hnil
  · rw [List.getLast?_append, List.getLast?_cons] at hlast
    cases hrest : rest.getLast? with
    | none => exact Or.inl (List.getLast?_eq_none_iff.1 hrest)
    | some c => exact Or.inr (by simpa [hrest] using hlast)

end Text

def Token.shift (offset : Nat) (t : Token) : Token := { t with start := offset + t.start }

def LineTokens.shift (offset : Nat) (l : LineTokens) : LineTokens :=
  { l with tokens := l.tokens.map (Token.shift offset) }

namespace Lexicon

theorem tokensOfLine_add (x : Lexicon) (offset k : Nat) (entry : LineState) (l : Line) :
    x.tokensOfLine (offset + k) entry l = (x.tokensOfLine k entry l).map (Token.shift offset) := by
  rw [tokensOfLine, tokensOfLine, Token.place_add, Nat.add_assoc, Token.place_add, List.map_append]
  rfl

end Lexicon

namespace Lines

variable {x : Lexicon} {offset : Nat} {state : LineState}

def scanned (x : Lexicon) (s : Lines) : List LineTokens := (s.all x).map Prod.fst

theorem scanned_nil : scanned x ⟨[], offset, state⟩ = [] := by
  rw [scanned, all_of_none (next?_of_nil rfl)]
  rfl

theorem scanned_last {t : Text} (hne : t ≠ []) (h : '\n' ∉ t) :
    scanned x ⟨t, offset, state⟩ =
      [⟨x.tokensOfLine offset state ⟨t, []⟩, (x.scanLine state t).endState⟩] := by
  rw [scanned, all_of_some (next?_eq hne (Text.firstLine_of_not_mem h)),
    all_of_none (next?_of_nil rfl)]
  rfl

theorem next?_line {body : Text} (h : '\n' ∉ body) (rest : Text) :
    (⟨body ++ '\n' :: rest, offset, state⟩ : Lines).next? x =
      some (⟨x.tokensOfLine offset state (.terminated body),
          (x.scanLine state (Line.terminated body).content).endState⟩,
        ⟨rest, offset + (Line.terminated body).full.width,
          (x.scanLine state (Line.terminated body).content).endState⟩) := by
  have hne : body ++ '\n' :: rest ≠ [] := by simp
  exact next?_eq (s := ⟨body ++ '\n' :: rest, offset, state⟩) hne (Text.firstLine_append h rest)

theorem scanned_next {body : Text} (h : '\n' ∉ body) (rest : Text) :
    scanned x ⟨body ++ '\n' :: rest, offset, state⟩ =
      ⟨x.tokensOfLine offset state (.terminated body),
          (x.scanLine state (Line.terminated body).content).endState⟩ ::
        scanned x ⟨rest, offset + (Line.terminated body).full.width,
          (x.scanLine state (Line.terminated body).content).endState⟩ := by
  rw [scanned, all_of_some (next?_line h rest)]
  rfl

/-- Bytes above the text move its tokens and change nothing else. -/
theorem scanned_add (k : Nat) (t : Text) :
    scanned x ⟨t, offset + k, state⟩ = (scanned x ⟨t, k, state⟩).map (LineTokens.shift offset) := by
  induction t using Text.linesInduction generalizing k state with
  | last t ht =>
    by_cases hnil : t = []
    · rw [hnil, scanned_nil, scanned_nil]
      rfl
    · rw [scanned_last hnil ht, scanned_last hnil ht, Lexicon.tokensOfLine_add]
      rfl
  | next body rest hb ih =>
    rw [scanned_next hb, scanned_next hb, Lexicon.tokensOfLine_add, Nat.add_assoc, ih]
    rfl

/-- The walk over a text that ends in a line feed goes on behind it from where it ended. -/
theorem scanned_append {a : Text} (ha : a.EndsLine) (b : Text) :
    scanned x ⟨a ++ b, offset, state⟩ =
      scanned x ⟨a, offset, state⟩ ++
        scanned x ⟨b, offset + a.width, (⟨a, offset, state⟩ : Lines).endState x⟩ := by
  induction a using Text.linesInduction generalizing offset state with
  | last a hfeed =>
    obtain rfl := ha.eq_nil hfeed
    have hall : (⟨[], offset, state⟩ : Lines).all x = [] := all_of_none (next?_of_nil rfl)
    rw [scanned_nil, endState, hall]
    rfl
  | next body rest hb ih =>
    have hwidth : Text.width (body ++ '\n' :: rest) =
        (Line.terminated body).full.width + rest.width := by
      rw [Line.full_terminated, ← Text.width_append, List.append_assoc]
      rfl
    rw [List.append_assoc, List.cons_append, scanned_next hb, scanned_next hb, ih ha.rest,
      endState_of_next? (next?_line hb rest), hwidth, Nat.add_assoc]
    rfl

end Lines

namespace Lexicon

theorem flatMap_tokens_shift (offset : Nat) (ls : List LineTokens) :
    (ls.map (LineTokens.shift offset)).flatMap LineTokens.tokens =
      (ls.flatMap LineTokens.tokens).map (Token.shift offset) := by
  rw [List.flatMap_map, List.map_flatMap]
  rfl

/-- What is scanned of a text that starts on a line of its own, below one that ends in `state`. -/
theorem scan_below (x : Lexicon) {a : Text} (ha : a.EndsLine) (b : Text) {state : LineState}
    (hstate : x.endState a = state) :
    x.lines (a ++ b) =
      x.lines a ++ (Lines.scanned x ⟨b, 0, state⟩).map (LineTokens.shift a.width) ∧
    x.tokens (a ++ b) =
      x.tokens a ++ ((Lines.scanned x ⟨b, 0, state⟩).flatMap LineTokens.tokens).map
        (Token.shift a.width) := by
  have hlines : x.lines (a ++ b) =
      x.lines a ++ (Lines.scanned x ⟨b, 0, state⟩).map (LineTokens.shift a.width) := by
    rw [← Lines.scanned_add, Nat.add_comm, ← hstate]
    exact Lines.scanned_append ha b
  refine ⟨hlines, ?_⟩
  rw [tokens, hlines, List.flatMap_append, flatMap_tokens_shift]
  rfl

/-- The tokens of a text that starts behind a line feed are those of the text above and then its
own, scanned line by line from the state that the text above ends in.  So below all texts that end
in one state the same lines follow, in their tokens and in the states they end in. -/
theorem tokens_append_of_endsLine (x : Lexicon) {a : Text} (ha : a.EndsLine) (b : Text) :
    let below := Lines.scanned x ⟨b, 0, x.endState a⟩
    x.tokens (a ++ b) =
      x.tokens a ++ (below.flatMap LineTokens.tokens).map (Token.shift a.width) ∧
    x.lines (a ++ b) = x.lines a ++ below.map (LineTokens.shift a.width) ∧
    ∀ a' : Text, a'.EndsLine → x.endState a' = x.endState a →
      x.tokens (a' ++ b) =
        x.tokens a' ++ (below.flatMap LineTokens.tokens).map (Token.shift a'.width) ∧
      x.lines (a' ++ b) = x.lines a' ++ below.map (LineTokens.shift a'.width) := by
  intro below
  obtain ⟨hlines, htokens⟩ := x.scan_below ha b rfl
  refine ⟨htokens, hlines, fun a' ha' hstate => ?_⟩
  exact (x.scan_below ha' b hstate).symm

/-- Below a literal that goes on, and below another one. -/
theorem tokens_append_of_endsLine_literal :
    let above : Text := "SELECT 'x\\\r\n".toList
    let other : Text := "-- '\n'\\\n".toList
    let below := Lines.scanned {} ⟨"y' z".toList, 0, .literal .single⟩
    above.EndsLine ∧ other.EndsLine ∧
      ({} : Lexicon).endState above = .literal .single ∧
      ({} : Lexicon).endState other = ({} : Lexicon).endState above ∧
      ({} : Lexicon).lines (above ++ "y' z".toList) =
        ({} : Lexicon).lines above ++ below.map (LineTokens.shift 12) ∧
      ({} : Lexicon).lines (other ++ "y' z".toList) =
        ({} : Lexicon).lines other ++ below.map (LineTokens.shift 8) := by
  intro above other below
  have habove : above.EndsLine := by decide
  have hother : other.EndsLine := by decide
  have hcarried : ({} : Lexicon).endState above = .literal .single := by decide +kernel
  have hstate : ({} : Lexicon).endState other = ({} : Lexicon).endState above := by decide +kernel
  have h := ({} : Lexicon).tokens_append_of_endsLine habove "y' z".toList
  rw [hcarried] at h
  exact ⟨habove, hother, hcarried, hstate, h.2.1, (h.2.2 other hother (hstate.trans hcarried)).2⟩

end Lexicon
end SqlAssist
