import SqlAssist.Proofs.Text.Cut
import SqlAssist.Token.Scanner

/-!
What one step of the scanner can do.

`rootCut` and `literalCut` try their rules in a fixed order.  `RootRule` and `LiteralRule` list
the rules with the conditions under which each is reached, so that a property of the scanner is
proved by one case for each rule and without opening the functions again.

The first use is that a cut is never longer than the text and, unless the comment markers are
degenerate, never empty.
-/

namespace SqlAssist

/-! ## Lengths of the pieces that are matched by their form -/

namespace Number

theorem digitRun_le_length (t : Text) : digitRun t ≤ t.length :=
  (List.takeWhile_prefix _).length_le

theorem signLength_le_length (t : Text) : signLength t ≤ t.length := by
  unfold signLength
  split
  · exact Nat.le_add_left 1 _
  · exact Nat.le_add_left 1 _
  · exact Nat.zero_le _

theorem exponentLength_le_length (t : Text) : exponentLength t ≤ t.length := by
  cases t with
  | nil => exact Nat.le_refl 0
  | cons c rest =>
    rw [exponentLength]
    split
    · have hsign := signLength_le_length rest
      have hdigits := digitRun_le_length (rest.drop (signLength rest))
      rw [List.length_drop] at hdigits
      simp only [List.length_cons]
      split <;> omega
    · exact Nat.zero_le _

theorem floatLength?_le_length {t : Text} {n : Nat} (h : floatLength? t = some n) :
    n ≤ t.length := by
  simp only [floatLength?] at h
  split at h
  · next rest hdrop =>
    split at h
    · simp at h
    · obtain rfl := Option.some.inj h
      have hlen := congrArg List.length hdrop
      have hfraction := digitRun_le_length rest
      have hexponent := exponentLength_le_length (rest.drop (digitRun rest))
      rw [List.length_drop, List.length_cons] at hlen
      rw [List.length_drop] at hexponent
      omega
  · simp at h

theorem match?_le_length {t : Text} {n : Nat} {cls : TokenClass}
    (h : match? t = some (n, cls)) : n ≤ t.length := by
  simp only [match?] at h
  split at h
  · next k hk =>
    obtain ⟨rfl, -⟩ : k = n ∧ _ = cls := by simpa using h
    exact floatLength?_le_length hk
  · split at h
    · simp at h
    · obtain ⟨rfl, -⟩ : digitRun t = n ∧ _ = cls := by simpa using h
      exact digitRun_le_length t

theorem class_of_match? {t : Text} {n : Nat} {cls : TokenClass}
    (h : match? t = some (n, cls)) : cls = .numberInt ∨ cls = .numberFloat := by
  simp only [match?] at h
  split at h
  · exact Or.inr (by simpa using h.symm : _ ∧ _).2
  · split at h
    · simp at h
    · exact Or.inl (by simpa using h.symm : _ ∧ _).2

end Number

namespace Word

theorem lengthAt_pos (t : Text) : 0 < lengthAt t := by
  rw [lengthAt]
  omega

theorem lengthAt_le_length (c : Char) (rest : Text) :
    lengthAt (c :: rest) ≤ (c :: rest).length := by
  have := (List.takeWhile_prefix (l := rest) isContinue).length_le
  rw [lengthAt, List.drop_one, List.tail_cons, List.length_cons]
  omega

end Word

namespace Literal

/-- An escape code is one character and then hexadecimal digits only. -/
theorem eq_of_escapeLength? {t : Text} {n : Nat} (h : escapeLength? t = some n) :
    ∃ c rest m, t = c :: rest ∧ n = 1 + m ∧ m ≤ rest.length ∧
      ∀ d ∈ rest.take m, isHexDigit d = true := by
  have hhex : ∀ (limit : Nat) (rest : Text),
      hexRun limit rest ≤ rest.length ∧
        ∀ d ∈ rest.take (hexRun limit rest), isHexDigit d = true := by
    intro limit rest
    have hfront : (rest.take limit).takeWhile isHexDigit <+: rest :=
      (List.takeWhile_prefix _).trans (List.take_prefix limit rest)
    refine ⟨hfront.length_le, fun d hd => ?_⟩
    rw [hexRun, ← List.prefix_iff_eq_take.1 hfront] at hd
    exact List.all_eq_true.1 List.all_takeWhile d hd
  cases t with
  | nil => simp [escapeLength?] at h
  | cons c rest =>
    simp only [escapeLength?] at h
    split at h
    · exact ⟨c, rest, 0, rfl, (Option.some.inj h).symm, Nat.zero_le _, by simp⟩
    · split at h
      · split at h
        · simp at h
        · obtain rfl := Option.some.inj h
          exact ⟨c, rest, hexRun 4 rest, rfl, rfl, hhex 4 rest⟩
      · split at h
        · split at h
          · next h4 =>
            obtain rfl := Option.some.inj h
            have := hhex 4 rest
            rw [h4] at this
            exact ⟨c, rest, 4, rfl, rfl, this⟩
          · simp at h
        · split at h
          · split at h
            · next h8 =>
              obtain rfl := Option.some.inj h
              have := hhex 8 rest
              rw [h8] at this
              exact ⟨c, rest, 8, rfl, rfl, this⟩
            · simp at h
          · simp at h

end Literal

namespace Lexicon

/-! ## The rules outside of comments and literals -/

/-- The rules at `c :: rest`, each with what has to hold for it to be the first that applies. -/
inductive RootRule (x : Lexicon) (c : Char) (rest : Text) : Cut → Prop
  | lineComment (opens : x.comments.line <+: c :: rest) :
      RootRule x c rest ⟨(c :: rest).length, .comment, .root⟩
  | closedComment (noLine : ¬ x.comments.line <+: c :: rest)
      (opens : x.comments.blockStart <+: c :: rest) {i : Nat}
      (ends : Text.search? x.comments.blockEnd
        ((c :: rest).drop x.comments.blockStart.length) = some i) :
      RootRule x c rest
        ⟨x.comments.blockStart.length + i + x.comments.blockEnd.length, .comment, .root⟩
  | openComment (noLine : ¬ x.comments.line <+: c :: rest)
      (opens : x.comments.blockStart <+: c :: rest)
      (endless : Text.search? x.comments.blockEnd
        ((c :: rest).drop x.comments.blockStart.length) = none) :
      RootRule x c rest ⟨(c :: rest).length, .comment, .blockComment⟩
  | blank (plain : x.comments.opensAt (c :: rest) = false) (blank : Text.isBlank c = true) :
      RootRule x c rest ⟨((c :: rest).takeWhile Text.isBlank).length, .whitespace, .root⟩
  | brokenLiteral (plain : x.comments.opensAt (c :: rest) = false) {quote : Quote}
      (opens : Quote.ofChar? c = some quote)
      (broken : Literal.lookAhead quote rest = .unterminated) :
      RootRule x c rest ⟨(c :: rest).length, .stringInvalid, .root⟩
  | literal (plain : x.comments.opensAt (c :: rest) = false) {quote : Quote}
      (opens : Quote.ofChar? c = some quote)
      (ends : Literal.lookAhead quote rest ≠ .unterminated) :
      RootRule x c rest ⟨1, .string, .literal quote⟩
  | number (plain : x.comments.opensAt (c :: rest) = false)
      (notBlank : Text.isBlank c = false) (noQuote : Quote.ofChar? c = none)
      {n : Nat} {cls : TokenClass} (matched : Number.match? (c :: rest) = some (n, cls)) :
      RootRule x c rest ⟨n, cls, .root⟩
  | word (plain : x.comments.opensAt (c :: rest) = false)
      (notBlank : Text.isBlank c = false) (noQuote : Quote.ofChar? c = none)
      (noNumber : Number.match? (c :: rest) = none) (starts : Word.isStart c = true) :
      RootRule x c rest ⟨Word.lengthAt (c :: rest),
        x.classifyWord ((c :: rest).take (Word.lengthAt (c :: rest))), .root⟩
  | symbols (plain : x.comments.opensAt (c :: rest) = false)
      (notBlank : Text.isBlank c = false) (noQuote : Quote.ofChar? c = none)
      (noNumber : Number.match? (c :: rest) = none) (noWord : Word.isStart c = false)
      (symbol : isSymbol c = true) :
      RootRule x c rest ⟨1 + x.symbolRun rest,
        if x.operators.contains ((c :: rest).take (1 + x.symbolRun rest)) then .operator
        else .default, .root⟩
  | single (plain : x.comments.opensAt (c :: rest) = false)
      (notBlank : Text.isBlank c = false) (noQuote : Quote.ofChar? c = none)
      (noNumber : Number.match? (c :: rest) = none) (noWord : Word.isStart c = false)
      (noSymbol : isSymbol c = false) :
      RootRule x c rest ⟨1, if isBracket c then .bracket
        else if isDelimiter c then .delimiter else .default, .root⟩

theorem commentCut?_rule {x : Lexicon} {c : Char} {rest : Text} {k : Cut}
    (h : x.commentCut? (c :: rest) = some k) : RootRule x c rest k := by
  simp only [commentCut?] at h
  split at h
  · next hline =>
    obtain rfl := Option.some.inj h
    exact .lineComment (List.isPrefixOf_iff_prefix.1 hline)
  · next hline =>
    have hline' : ¬ x.comments.line <+: c :: rest := fun hp =>
      hline (List.isPrefixOf_iff_prefix.2 hp)
    split at h
    · next hopen =>
      have hopen' := List.isPrefixOf_iff_prefix.1 hopen
      split at h
      · next i hi =>
        obtain rfl := Option.some.inj h
        exact .closedComment hline' hopen' hi
      · next hi =>
        obtain rfl := Option.some.inj h
        exact .openComment hline' hopen' hi
    · simp at h

theorem commentCut?_eq_none {x : Lexicon} {t : Text} (h : x.commentCut? t = none) :
    x.comments.opensAt t = false := by
  simp only [commentCut?] at h
  rw [CommentMarkers.opensAt]
  split at h
  · simp at h
  · next hline =>
    split at h
    · split at h <;> simp at h
    · next hblock =>
      rw [Bool.eq_false_iff.2 hline, Bool.eq_false_iff.2 hblock]
      rfl

theorem commentCut?_of_not_opensAt {x : Lexicon} {t : Text}
    (h : x.comments.opensAt t = false) : x.commentCut? t = none := by
  rw [CommentMarkers.opensAt, Bool.or_eq_false_iff] at h
  simp only [commentCut?, h.1, h.2, Bool.false_eq_true, if_false]

/-- Every cut outside of comments and literals is made by one of the rules. -/
theorem rootCut_rule (x : Lexicon) (c : Char) (rest : Text) :
    RootRule x c rest (x.rootCut c rest) := by
  simp only [rootCut]
  split
  · next k hk => exact commentCut?_rule hk
  · next hnone =>
    have plain := commentCut?_eq_none hnone
    split
    · next hblank => exact .blank plain hblank
    · next hblank =>
      have notBlank := Bool.eq_false_iff.2 hblank
      split
      · next quote hquote =>
        simp only [quoteCut, List.drop_one, List.tail_cons]
        split
        · next hend => exact .brokenLiteral plain hquote hend
        · next hend => exact .literal plain hquote (by rw [hend]; simp)
        · next hend => exact .literal plain hquote (by rw [hend]; simp)
      · next hquote =>
        split
        · next n cls hn => exact .number plain notBlank hquote hn
        · next hn =>
          split
          · next hw => exact .word plain notBlank hquote hn hw
          · next hw =>
            have noWord := Bool.eq_false_iff.2 hw
            split
            · next hs => exact .symbols plain notBlank hquote hn noWord hs
            · next hs =>
              have hsingle := RootRule.single plain notBlank hquote hn noWord
                (Bool.eq_false_iff.2 hs)
              split
              · next hb => simpa only [hb, if_true] using hsingle
              · next hb =>
                split
                · next hd =>
                  simpa only [hb, hd, Bool.false_eq_true, if_true, if_false] using hsingle
                · next hd => simpa only [hb, hd, Bool.false_eq_true, if_false] using hsingle

/-! ## The rules inside of a literal -/

inductive LiteralRule (quote : Quote) (c : Char) (rest : Text) : Cut → Prop
  | closes (closing : c = quote.char) : LiteralRule quote c rest ⟨1, .string, .root⟩
  | carries (hides : c = '\\') (last : rest = []) :
      LiteralRule quote c rest ⟨1, .stringEscape, .literal quote⟩
  | escape (hides : c = '\\') {n : Nat} (code : Literal.escapeLength? rest = some n) :
      LiteralRule quote c rest ⟨1 + n, .stringEscape, .literal quote⟩
  | invalidEscape (hides : c = '\\') (more : rest ≠ [])
      (noCode : Literal.escapeLength? rest = none) :
      LiteralRule quote c rest ⟨2, .stringEscapeInvalid, .literal quote⟩
  | plain (notClosing : c ≠ quote.char) (notHiding : c ≠ '\\') :
      LiteralRule quote c rest
        ⟨((c :: rest).takeWhile fun d => d ≠ '\\' ∧ d ≠ quote.char).length, .string,
          .literal quote⟩

theorem literalCut_rule (quote : Quote) (c : Char) (rest : Text) :
    LiteralRule quote c rest (literalCut quote c rest) := by
  simp only [literalCut]
  split
  · next hclose => exact .closes hclose
  · next hclose =>
    split
    · next hhide =>
      split
      · next hlast => exact .carries hhide (List.isEmpty_iff.1 hlast)
      · next hlast =>
        split
        · next n hn => exact .escape hhide hn
        · next hn => exact .invalidEscape hhide (fun e => hlast (List.isEmpty_iff.2 e)) hn
    · next hhide => exact .plain hclose hhide

/-! ## No cut is too long, and none is empty -/

theorem symbolRun_le_length (x : Lexicon) (t : Text) : x.symbolRun t ≤ t.length := by
  induction t with
  | nil => exact Nat.le_refl 0
  | cons c rest ih =>
    rw [symbolRun]
    split
    · rw [List.length_cons]
      omega
    · exact Nat.zero_le _

theorem RootRule.length_le {x : Lexicon} {c : Char} {rest : Text} {k : Cut}
    (h : RootRule x c rest k) : k.length ≤ (c :: rest).length := by
  cases h with
  | lineComment => exact Nat.le_refl _
  | closedComment noLine opens ends =>
    obtain ⟨a, b, ha, hsplit⟩ := Text.search?_eq_some ends
    have hlen := congrArg List.length hsplit
    have hopen := opens.length_le
    simp only [List.length_append, List.length_drop] at hlen
    simp only
    omega
  | openComment => exact Nat.le_refl _
  | blank => exact (List.takeWhile_prefix _).length_le
  | brokenLiteral => exact Nat.le_refl _
  | literal => exact Nat.succ_le_succ (Nat.zero_le _)
  | number _ _ _ matched => exact Number.match?_le_length matched
  | word => exact Word.lengthAt_le_length c rest
  | symbols =>
    have := symbolRun_le_length x rest
    rw [List.length_cons]
    simp only
    omega
  | single => exact Nat.succ_le_succ (Nat.zero_le _)

theorem LiteralRule.length_le {quote : Quote} {c : Char} {rest : Text} {k : Cut}
    (h : LiteralRule quote c rest k) : k.length ≤ (c :: rest).length := by
  cases h with
  | closes => exact Nat.succ_le_succ (Nat.zero_le _)
  | carries => exact Nat.succ_le_succ (Nat.zero_le _)
  | escape hides code =>
    obtain ⟨d, tail, m, rfl, rfl, hm, -⟩ := Literal.eq_of_escapeLength? code
    simp only [List.length_cons]
    omega
  | invalidEscape hides more =>
    have := List.length_pos_iff.2 more
    rw [List.length_cons]
    simp only
    omega
  | plain => exact (List.takeWhile_prefix _).length_le

/-- A cut stays inside the text. -/
theorem cut_length_le (x : Lexicon) (state : LineState) (c : Char) (rest : Text) :
    (x.cut state c rest).length ≤ (c :: rest).length := by
  cases state with
  | root => exact (x.rootCut_rule c rest).length_le
  | blockComment =>
    simp only [cut, commentBodyCut]
    split
    · next i hi =>
      obtain ⟨a, b, ha, hsplit⟩ := Text.search?_eq_some hi
      have hlen := congrArg List.length hsplit
      simp only [List.length_append] at hlen
      simp only
      omega
    · exact Nat.le_refl _
  | literal quote => exact (literalCut_rule quote c rest).length_le

/-- Whether the scanner makes progress in a state.  A cut takes no characters only where a block
comment could end before it began: with an empty end marker, inside of a comment that has no opener
of its own.  An opener on the same line makes up for the empty end.  The scan counts as stuck at any
such cut, also inside of a comment, where a loop that takes empty pieces would come through. -/
def Progresses (x : Lexicon) (state : LineState) : Prop :=
  x.comments.blockEnd ≠ [] ∨ x.comments.blockStart ≠ [] ∧ state ≠ .blockComment

theorem RootRule.length_pos {x : Lexicon} {c : Char} {rest : Text} {k : Cut}
    (h : RootRule x c rest k) (hmarkers : x.comments.blockEnd ≠ [] ∨ x.comments.blockStart ≠ []) :
    0 < k.length := by
  cases h with
  | lineComment => exact Nat.succ_pos _
  | closedComment =>
    simp only
    rcases hmarkers with hend | hstart
    · have := List.length_pos_iff.2 hend
      omega
    · have := List.length_pos_iff.2 hstart
      omega
  | openComment => exact Nat.succ_pos _
  | blank plain blank =>
    rw [List.takeWhile_cons_of_pos blank]
    exact Nat.succ_pos _
  | brokenLiteral => exact Nat.succ_pos _
  | literal => exact Nat.one_pos
  | number _ _ _ matched => exact Number.match?_pos matched
  | word => exact Word.lengthAt_pos _
  | symbols =>
    simp only
    omega
  | single => exact Nat.one_pos

theorem LiteralRule.length_pos {quote : Quote} {c : Char} {rest : Text} {k : Cut}
    (h : LiteralRule quote c rest k) : 0 < k.length := by
  cases h with
  | closes => exact Nat.one_pos
  | carries => exact Nat.one_pos
  | escape hides code =>
    simp only
    omega
  | invalidEscape => exact Nat.two_pos
  | plain notClosing notHiding =>
    rw [List.takeWhile_cons_of_pos (by simp [notClosing, notHiding])]
    exact Nat.succ_pos _

theorem cut_length_pos {x : Lexicon} {state : LineState} (h : x.Progresses state) (c : Char)
    (rest : Text) : 0 < (x.cut state c rest).length := by
  cases state with
  | root =>
    refine (x.rootCut_rule c rest).length_pos ?_
    rcases h with hend | ⟨hstart, -⟩
    · exact Or.inl hend
    · exact Or.inr hstart
  | blockComment =>
    rcases h with hend | ⟨-, hstate⟩
    · simp only [cut, commentBodyCut]
      split
      · have := List.length_pos_iff.2 hend
        simp only
        omega
      · exact Nat.succ_pos _
    · exact absurd rfl hstate
  | literal quote => exact (literalCut_rule quote c rest).length_pos

/-- With an empty end marker a block comment ends where it is opened. -/
theorem RootRule.next_ne_blockComment {x : Lexicon} {c : Char} {rest : Text} {k : Cut}
    (h : RootRule x c rest k) (hend : x.comments.blockEnd = []) : k.next ≠ .blockComment := by
  cases h with
  | openComment noLine opens endless =>
    rw [hend, Text.search?_nil] at endless
    simp at endless
  | _ => simp

theorem LiteralRule.next_ne_blockComment {quote : Quote} {c : Char} {rest : Text} {k : Cut}
    (h : LiteralRule quote c rest k) : k.next ≠ .blockComment := by
  cases h <;> simp

theorem progresses_next {x : Lexicon} {state : LineState} (h : x.Progresses state) (c : Char)
    (rest : Text) : x.Progresses (x.cut state c rest).next := by
  rcases h with hend | ⟨hstart, hstate⟩
  · exact Or.inl hend
  · by_cases hend : x.comments.blockEnd = []
    · refine Or.inr ⟨hstart, ?_⟩
      cases state with
      | root => exact (x.rootCut_rule c rest).next_ne_blockComment hend
      | blockComment => exact absurd rfl hstate
      | literal quote => exact (literalCut_rule quote c rest).next_ne_blockComment
    · exact Or.inl hend

end Lexicon
end SqlAssist
