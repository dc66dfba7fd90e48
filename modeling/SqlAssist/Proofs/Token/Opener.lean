import SqlAssist.Proofs.Token.Document
import SqlAssist.Proofs.Token.Munch

/-!
Comment openers are never overlooked.

The scanner asks for a comment where a token starts and at each character of a run of symbols.
That is enough for openers of two symbols or more.  Of the other tokens outside of comments and
literals only a float can hold a symbol, the sign of its exponent, and behind that stands a digit.
So wherever an opener stands, the token over its first character is a comment or a literal.
-/

namespace SqlAssist

/-! ## Symbols in numbers -/

namespace Text

variable {t u w : Text} {d : Char}

theorem not_split_of_not_isSymbol (ht : ∀ c ∈ t, Lexicon.isSymbol c = false)
    (hd : Lexicon.isSymbol d = true) : t ≠ u ++ d :: w := by
  rintro rfl
  rw [ht d (List.mem_append_right u List.mem_cons_self)] at hd
  exact absurd hd Bool.false_ne_true

/-- Where there are no symbols in the front part of a text, a symbol stands behind it. -/
theorem exists_split_of_isSymbol {a : Text} (ha : ∀ c ∈ a, Lexicon.isSymbol c = false)
    (hd : Lexicon.isSymbol d = true) (h : a ++ t = u ++ d :: w) : ∃ u', t = u' ++ d :: w := by
  rcases List.append_eq_append_iff.1 h with ⟨u', -, ht⟩ | ⟨a', hsplit, ht⟩
  · exact ⟨u', ht⟩
  · cases a' with
    | nil => exact ⟨[], ht.symm⟩
    | cons e a' =>
      obtain rfl : d = e := (List.cons.inj ht).1
      exact absurd hsplit (not_split_of_not_isSymbol ha hd)

end Text

namespace Number

variable {u w : Text} {d : Char}

theorem IsDigits.not_isSymbol {t : Text} (h : IsDigits t) :
    ∀ c ∈ t, Lexicon.isSymbol c = false := fun c hc =>
  Lexicon.not_isSymbol_of_isDigit (h.2 c hc)

theorem IsExponent.isDigit_of_isSymbol {t : Text} (h : IsExponent t) (ht : t = u ++ d :: w)
    (hd : Lexicon.isSymbol d = true) : ∃ e w', w = e :: w' ∧ e.isDigit = true := by
  obtain @⟨letter, sign, digits, hletter, hsign, hdigits⟩ := h
  have hplain : ∀ c ∈ [letter], Lexicon.isSymbol c = false := by
    rw [List.forall_mem_singleton]
    rcases hletter with rfl | rfl <;> rfl
  obtain ⟨u, hu⟩ := Text.exists_split_of_isSymbol (a := [letter]) hplain hd ht
  -- a symbol behind the letter is the sign: it cannot be one of the digits
  have hsigned : ∀ s, s :: digits = u ++ d :: w → ∃ e w', w = e :: w' ∧ e.isDigit = true := by
    intro s hs
    cases u with
    | nil =>
      obtain ⟨rfl, rfl⟩ := List.cons.inj hs
      obtain ⟨e, w', rfl⟩ := List.exists_cons_of_ne_nil hdigits.1
      exact ⟨e, w', rfl, hdigits.2 e List.mem_cons_self⟩
    | cons _ u =>
      exact absurd (List.cons.inj hs).2 (Text.not_split_of_not_isSymbol hdigits.not_isSymbol hd)
  rcases hsign with rfl | rfl | rfl
  · exact absurd hu (Text.not_split_of_not_isSymbol hdigits.not_isSymbol hd)
  · exact hsigned '+' hu
  · exact hsigned '-' hu

/-- The only symbol in a float is the sign of its exponent. -/
theorem IsFloat.isDigit_of_isSymbol {t : Text} (h : IsFloat t) (ht : t = u ++ d :: w)
    (hd : Lexicon.isSymbol d = true) : ∃ e w', w = e :: w' ∧ e.isDigit = true := by
  obtain @⟨whole, fraction, exponent, hwhole, hfraction, hexponent⟩ := h
  have hplain : ∀ c ∈ whole ++ '.' :: fraction, Lexicon.isSymbol c = false :=
    List.forall_mem_append.2 ⟨fun c hc => Lexicon.not_isSymbol_of_isDigit (hwhole c hc),
      List.forall_mem_cons.2 ⟨rfl, hfraction.not_isSymbol⟩⟩
  rw [← List.cons_append, ← List.append_assoc] at ht
  obtain ⟨u, hu⟩ := Text.exists_split_of_isSymbol hplain hd ht
  rcases hexponent with rfl | hexponent
  · simp at hu
  · exact hexponent.isDigit_of_isSymbol hu hd

end Number

namespace Lexicon

/-! ## No other token steps over an opener -/

/-- A comment opener of two symbols or more. -/
structure IsOpener (marker : Text) : Prop where
  two_le : 2 ≤ marker.length
  symbols : ∀ c ∈ marker, isSymbol c = true

structure OpensBySymbols (x : Lexicon) : Prop where
  line : IsOpener x.comments.line
  blockStart : IsOpener x.comments.blockStart

theorem IsOpener.inLine {marker : Text} (h : IsOpener marker) : Text.InLine marker := by
  have hsymbol : ∀ c, isSymbol c = false → c ∉ marker := by
    intro c hc hmem
    rw [h.symbols c hmem] at hc
    exact Bool.noConfusion hc
  refine ⟨?_, hsymbol '\n' rfl, hsymbol '\r' rfl⟩
  rintro rfl
  exact absurd h.two_le (by decide)

theorem IsOpener.exists_symbols {marker v : Text} (h : IsOpener marker) (hv : marker <+: v) :
    ∃ d e w, v = d :: e :: w ∧ isSymbol d = true ∧ isSymbol e = true := by
  obtain ⟨htwo, hsymbols⟩ := h
  obtain ⟨w, rfl⟩ := hv
  match marker, htwo, hsymbols with
  | d :: e :: marker, _, hsymbols =>
    exact ⟨d, e, marker ++ w, rfl, hsymbols d (by simp), hsymbols e (by simp)⟩

variable {x : Lexicon}

theorem OpensBySymbols.exists_of_opensAt (hx : x.OpensBySymbols) {v : Text}
    (h : x.comments.opensAt v = true) :
    ∃ d e w, v = d :: e :: w ∧ isSymbol d = true ∧ isSymbol e = true := by
  rw [CommentMarkers.opensAt, Bool.or_eq_true, List.isPrefixOf_iff_prefix,
    List.isPrefixOf_iff_prefix] at h
  rcases h with hline | hblock
  · exact hx.line.exists_symbols hline
  · exact hx.blockStart.exists_symbols hblock

theorem not_opensAt_of_lt_symbolRun {u v : Text} (h : u.length < x.symbolRun (u ++ v)) :
    x.comments.opensAt v = false := by
  induction u with
  | nil =>
    cases v with
    | nil => simp [symbolRun] at h
    | cons c rest =>
      rw [List.nil_append, symbolRun] at h
      split at h
      · next hc => simpa using (Bool.and_eq_true_iff.1 hc).2
      · simp at h
  | cons c u ih =>
    rw [List.cons_append, symbolRun] at h
    split at h
    · rw [List.length_cons] at h
      exact ih (by omega)
    · simp at h

/-- No comment opens at a character of a lexeme that is neither comment nor literal. -/
theorem RootRule.not_opensAt (hx : x.OpensBySymbols) {c : Char} {rest : Text} {k : Cut}
    (h : RootRule x c rest k) (hvisible : k.tokenClass.isOpaque = false) {u v : Text}
    (ht : c :: rest = u ++ v) (hu : u.length < k.length) : x.comments.opensAt v = false := by
  refine Bool.eq_false_iff.2 fun hopens => ?_
  obtain ⟨d, e, w, rfl, hd, he⟩ := hx.exists_of_opensAt hopens
  have hform := h.wellFormed hvisible
  obtain ⟨m, hm⟩ : ∃ m, k.length - u.length = m + 1 := ⟨k.length - u.length - 1, by omega⟩
  have htext : (c :: rest).take k.length = u ++ d :: (e :: w).take m := by
    rw [ht, List.take_append, List.take_of_length_le (Nat.le_of_lt hu), hm, List.take_succ_cons]
  have hmem : d ∈ (c :: rest).take k.length := by
    rw [htext]
    exact List.mem_append_right u List.mem_cons_self
  have hfirst : x.comments.opensAt (c :: rest) = false → u ≠ [] := by
    rintro hplain rfl
    rw [ht, List.nil_append, hopens] at hplain
    exact Bool.noConfusion hplain
  cases h with
  | lineComment => exact absurd hvisible Bool.noConfusion
  | closedComment => exact absurd hvisible Bool.noConfusion
  | openComment => exact absurd hvisible Bool.noConfusion
  | brokenLiteral => exact absurd hvisible Bool.noConfusion
  | literal => exact absurd hvisible Bool.noConfusion
  | blank =>
    rw [not_isSymbol_of_isBlank ((hform.blank rfl).1 d hmem)] at hd
    exact Bool.noConfusion hd
  | number plain notBlank noQuote matched =>
    rcases Number.class_of_match? matched with rfl | rfl
    · rw [(hform.integer rfl).1.not_isSymbol d hmem] at hd
      exact Bool.noConfusion hd
    · obtain ⟨e', w', hw, hdigit⟩ := (hform.float rfl).1.isDigit_of_isSymbol htext hd
      cases m with
      | zero => simp at hw
      | succ m =>
        obtain rfl : e = e' := by
          rw [List.take_succ_cons] at hw
          exact (List.cons.inj hw).1
        rw [not_isSymbol_of_isDigit hdigit] at he
        exact Bool.noConfusion he
  | word =>
    have hword := (hform.word (TokenClass.isWord_ofSymbol? _)).1
    rw [not_isSymbol_of_isContinue (hword.isContinue d hmem)] at hd
    exact Bool.noConfusion hd
  | symbols plain =>
    -- the run goes over this place, so that the scanner has asked for a comment here
    obtain ⟨c', u, rfl⟩ := List.exists_cons_of_ne_nil (hfirst plain)
    rw [List.cons_append] at ht
    have hrun : u.length < x.symbolRun (u ++ d :: e :: w) := by
      rw [← (List.cons.inj ht).2]
      simp only [List.length_cons] at hu
      omega
    rw [not_opensAt_of_lt_symbolRun hrun] at hopens
    exact Bool.noConfusion hopens
  | single plain =>
    exact hfirst plain (List.length_eq_zero_iff.1 (Nat.lt_one_iff.1 hu))

/-- A token of a line over the first character of an opener is a comment or a literal, whatever
state the line is entered in. -/
theorem isOpaque_of_opensAt (hx : x.OpensBySymbols) {entry : LineState} {u v : Text} {t : Token}
    (ht : t ∈ (x.lineTokens entry (u ++ v)).tokens) (hto : t.contains u.width = true)
    (hopens : x.comments.opensAt v = true) : t.tokenClass.isOpaque = true := by
  rw [← Bool.not_eq_false]
  intro hvisible
  obtain ⟨before, c, rest, k, hline, hstart, hrule, htext, hclass⟩ :=
    exists_rootRule ht hvisible
  rw [hclass] at hvisible
  rw [Token.contains_iff, Token.stop, hstart] at hto
  have hsplit : before ++ (t.text ++ (c :: rest).drop k.length) = u ++ v := by
    rw [htext, List.take_append_drop, ← hline]
  obtain ⟨a, b, hab, rfl⟩ := Text.exists_split_of_between hsplit hto.1 (Nat.le_of_lt hto.2)
  have hrest : c :: rest = a ++ v := by
    rw [List.append_assoc] at hline
    exact (List.append_cancel_left hline).symm
  have hlength : a.length < k.length := by
    have hb : b ≠ [] := by
      rintro rfl
      rw [hab, List.append_nil, Text.width_append] at hto
      exact Nat.lt_irrefl _ hto.2
    have hpos := List.length_pos_iff.2 hb
    have hle := List.length_take_le k.length (c :: rest)
    rw [← htext, hab, List.length_append] at hle
    omega
  have hplain := hrule.not_opensAt hx hvisible hrest hlength
  rw [hopens] at hplain
  exact Bool.noConfusion hplain

/-! ## The token over an opener in a document -/

theorem opensAt_of_marker {marker v : Text}
    (hmarker : marker = x.comments.line ∨ marker = x.comments.blockStart) (h : marker <+: v) :
    x.comments.opensAt v = true := by
  rw [CommentMarkers.opensAt, Bool.or_eq_true, List.isPrefixOf_iff_prefix,
    List.isPrefixOf_iff_prefix]
  rcases hmarker with rfl | rfl
  · exact Or.inl h
  · exact Or.inr h

/-- Wherever an opener stands in a document, the one token over its first character is a comment
or a piece of a literal. -/
theorem covers_opener (hx : x.OpensBySymbols) (hend : x.comments.blockEnd ≠ []) {marker : Text}
    (hmarker : marker = x.comments.line ∨ marker = x.comments.blockStart) {text : Text} {o : Nat}
    (ho : Text.OccursAt marker text o) :
    ∃ t ∈ x.tokens text, t.contains o = true ∧
      (t.tokenClass = .comment ∨ t.tokenClass.isLiteral = true) ∧
      ∀ u ∈ x.tokens text, u.contains o = true → u = t := by
  have hopener : IsOpener marker := by
    rcases hmarker with rfl | rfl
    · exact hx.line
    · exact hx.blockStart
  have hprogress : x.Progresses .root := Or.inl hend
  obtain ⟨a, b, htext, rfl⟩ := ho
  obtain ⟨i, l, u, v, hl, hcontent, rfl⟩ := hopener.inLine.exists_line htext
  have hne : marker ++ v ≠ [] := List.append_ne_nil_of_left_ne_nil hopener.inLine.nonempty v
  obtain ⟨t, ht, hto, hmem⟩ := exists_token_of_content hprogress hl hcontent hne
  have hplaced : { t with start := (Text.beforeLine text i).width + t.start }.contains
      (Text.width (Text.beforeLine text i ++ u)) = true := by
    rwa [Text.width_append, Token.contains_move]
  refine ⟨_, hmem, hplaced, ?_, fun t' ht' hto' => ?_⟩
  · rw [hcontent] at ht
    have hopaque := isOpaque_of_opensAt hx ht hto
      (opensAt_of_marker hmarker (List.prefix_append marker v))
    rwa [TokenClass.isOpaque, Bool.or_eq_true, beq_iff_eq] at hopaque
  · rw [tokens_eq_place hprogress] at ht' hmem
    exact Token.eq_of_contains ht' hmem hto' hplaced

/-- Behind a number that could go on with an exponent. -/
theorem covers_opener_behind_number :
    ∃ t ∈ ({} : Lexicon).tokens "1.5e--2".toList, t.contains 4 = true ∧
      (t.tokenClass = .comment ∨ t.tokenClass.isLiteral = true) ∧
      ∀ u ∈ ({} : Lexicon).tokens "1.5e--2".toList, u.contains 4 = true → u = t :=
  covers_opener (x := {})
    ⟨⟨by decide, List.all_eq_true.1 rfl⟩, ⟨by decide, List.all_eq_true.1 rfl⟩⟩ (by decide)
    (Or.inl rfl) ⟨"1.5e".toList, ['2'], by decide, by decide⟩

end Lexicon
end SqlAssist
