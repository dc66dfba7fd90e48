import SqlAssist.Highlight.Basic
import SqlAssist.Proofs.Token.Document

/-!
The highlight at a point.

`highlights` leaves out the blank tokens, and `highlightAt` looks for the first token at an offset,
blank or not.  They agree because the tokens of a text have all its bytes and no byte twice: the
token that is found is the only one, and when no highlight covers an offset within the text, a
blank token does.  Offsets count bytes, so one may also lie inside of a character.
-/

namespace SqlAssist

namespace Highlight

def Covers (h : Highlight) (offset : Nat) : Prop := h.start ≤ offset ∧ offset < h.stop

/-- Highlights of a text of `width` bytes, in order, of which no two share a byte. -/
structure InOrder (width : Nat) (hs : List Highlight) : Prop where
  ordered : hs.Pairwise fun a b => a.start < b.start
  disjoint : hs.Pairwise fun a b => a.stop ≤ b.start
  nonempty : ∀ a ∈ hs, a.start < a.stop
  within : ∀ a ∈ hs, a.stop ≤ width

theorem mem_ofTokens_iff {tokens : List Token} {a : Highlight} :
    a ∈ ofTokens tokens ↔ ∃ t ∈ tokens, t.tokenClass ≠ .whitespace ∧ ofToken t = a := by
  rw [ofTokens, List.mem_map]
  simp only [List.mem_filter, decide_eq_true_iff, and_assoc]

theorem covers_ofToken_iff {t : Token} {offset : Nat} :
    (ofToken t).Covers offset ↔ t.contains offset = true :=
  Token.contains_iff.symm

end Highlight

namespace Lexicon

variable {x : Lexicon} {text : Text}

theorem stop_le_of_mem_tokens {t : Token} (ht : t ∈ x.tokens text) : t.stop ≤ text.width := by
  rw [tokens_eq_tokensOfLines] at ht
  have hstop := stop_le_of_mem_tokensOfLines ht
  rwa [Text.flatMap_full_lines, Nat.zero_add] at hstop

theorem highlightAt_of_width_le {offset : Nat} (h : text.width ≤ offset) :
    x.highlightAt text offset = .default := by
  have hnone : (x.tokens text).find? (·.contains offset) = none := by
    refine List.find?_eq_none.2 fun t ht hto => ?_
    have hstop := stop_le_of_mem_tokens ht
    have hoffset := (Token.contains_iff.1 hto).2
    omega
  rw [highlightAt, hnone]

namespace Finishes

theorem start_lt_stop (h : x.Finishes .root (Text.lines text)) {t : Token}
    (ht : t ∈ x.tokens text) : t.start < t.stop := by
  rw [h.tokens_eq_place] at ht
  exact Token.start_lt_stop_of_mem_place h.ne_nil ht

theorem inOrder_highlights (h : x.Finishes .root (Text.lines text)) :
    Highlight.InOrder text.width (x.highlights text) := by
  have hnonempty : ∀ a ∈ x.highlights text, a.start < a.stop := by
    intro a ha
    obtain ⟨t, ht, -, rfl⟩ := Highlight.mem_ofTokens_iff.1 ha
    exact h.start_lt_stop ht
  have hdisjoint : (x.highlights text).Pairwise fun a b => a.stop ≤ b.start := by
    have htokens := Token.pairwise_place 0 (x.lexemesOfLines .root (Text.lines text))
    rw [← h.tokens_eq_place] at htokens
    exact List.pairwise_map.2 (htokens.filter _)
  refine ⟨?_, hdisjoint, hnonempty, ?_⟩
  · exact hdisjoint.imp_of_mem fun ha _ hab => Nat.lt_of_lt_of_le (hnonempty _ ha) hab
  · intro a ha
    obtain ⟨t, ht, -, rfl⟩ := Highlight.mem_ofTokens_iff.1 ha
    exact stop_le_of_mem_tokens ht

theorem eq_of_contains (h : x.Finishes .root (Text.lines text)) {t u : Token} {offset : Nat}
    (ht : t ∈ x.tokens text) (hu : u ∈ x.tokens text) (hto : t.contains offset = true)
    (huo : u.contains offset = true) : t = u := by
  rw [h.tokens_eq_place] at ht hu
  exact Token.eq_of_contains ht hu hto huo

/-- The token that is found at an offset is the one that lies there. -/
theorem highlightAt_of_contains (h : x.Finishes .root (Text.lines text)) {t : Token} {offset : Nat}
    (ht : t ∈ x.tokens text) (hto : t.contains offset = true) :
    x.highlightAt text offset = t.tokenClass.highlightKind := by
  rw [highlightAt]
  split
  · next u hfound =>
    have hu := List.mem_of_find?_eq_some hfound
    have huo : u.contains offset = true :=
      List.find?_some (p := fun v : Token => v.contains offset) hfound
    rw [h.eq_of_contains hu ht huo hto]
  · next hnone => exact absurd hto (List.find?_eq_none.1 hnone t ht)

theorem exists_contains (h : x.Finishes .root (Text.lines text)) {offset : Nat}
    (hoffset : offset < text.width) : ∃ t ∈ x.tokens text, t.contains offset = true := by
  rw [h.tokens_eq_place]
  refine Token.exists_contains (Nat.zero_le _) ?_
  rwa [h.join_lexemesOfLines_lines, Nat.zero_add]

end Finishes

/-- Wherever the scanner comes to the end of the lines, a point is highlighted as the list of
highlights says.  The highlights lie in the text in order, none is empty and no two overlap.  The
one that covers a point gives the kind there; a point in the text that none covers is blank, and
behind the text there is nothing to style. -/
theorem highlightAt_of_finishes (h : x.Finishes .root (Text.lines text)) :
    Highlight.InOrder text.width (x.highlights text) ∧
    ∀ offset,
      (∀ a ∈ x.highlights text, a.Covers offset →
        x.highlightAt text offset = a.kind ∧
          ∀ b ∈ x.highlights text, b.Covers offset → b = a) ∧
      ((∀ a ∈ x.highlights text, ¬ a.Covers offset) → offset < text.width →
        x.highlightAt text offset = .whitespace) ∧
      (text.width ≤ offset → x.highlightAt text offset = .default) := by
  refine ⟨h.inOrder_highlights, fun offset => ⟨?_, ?_, highlightAt_of_width_le⟩⟩
  · intro a ha hcovers
    obtain ⟨t, ht, -, rfl⟩ := Highlight.mem_ofTokens_iff.1 ha
    have hto := Highlight.covers_ofToken_iff.1 hcovers
    refine ⟨h.highlightAt_of_contains ht hto, fun b hb hb' => ?_⟩
    obtain ⟨u, hu, -, rfl⟩ := Highlight.mem_ofTokens_iff.1 hb
    rw [h.eq_of_contains hu ht (Highlight.covers_ofToken_iff.1 hb') hto]
  · intro hbare hoffset
    obtain ⟨t, ht, hto⟩ := h.exists_contains hoffset
    have hblank : t.tokenClass = .whitespace := by
      by_contra hclass
      exact hbare _ (Highlight.mem_ofTokens_iff.2 ⟨t, ht, hclass, rfl⟩)
        (Highlight.covers_ofToken_iff.2 hto)
    rw [h.highlightAt_of_contains ht hto, hblank]
    rfl

/-- An offset inside of a character, one on a terminator and the end of the text. -/
theorem highlightAt_of_finishes_literal :
    let text : Text := "a\r\n'é".toList
    ({} : Lexicon).Finishes .root (Text.lines text) ∧
      Highlight.InOrder 6 (({} : Lexicon).highlights text) ∧
      ({} : Lexicon).highlightAt text 5 = .stringInvalid ∧
      ({} : Lexicon).highlightAt text 2 = .whitespace ∧
      ({} : Lexicon).highlightAt text 6 = .default := by
  intro text
  have h : ({} : Lexicon).Finishes .root (Text.lines text) :=
    finishes_of_progresses (Or.inl (by decide)) _
  have hlist : ({} : Lexicon).highlights text = [⟨0, 1, .identifier⟩, ⟨3, 6, .stringInvalid⟩] := by
    decide +kernel
  obtain ⟨horder, hpoint⟩ := highlightAt_of_finishes h
  rw [hlist] at hpoint
  refine ⟨h, horder, ?_, ?_, ?_⟩
  · exact ((hpoint 5).1 ⟨3, 6, .stringInvalid⟩ (by simp) (by simp [Highlight.Covers])).1
  · exact (hpoint 2).2.1 (by simp [Highlight.Covers]) (by decide)
  · exact (hpoint 6).2.2 (by decide)

end Lexicon
end SqlAssist
