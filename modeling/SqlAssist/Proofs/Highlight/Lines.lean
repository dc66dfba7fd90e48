import SqlAssist.Highlight.Basic
import SqlAssist.Proofs.Token.Alongside
import SqlAssist.Proofs.Token.Document

/-!
Highlights by line.

No token crosses the end of a line and a terminator is not highlighted, so every highlight of a
document starts in the content of one line.  The highlights on a line are therefore well defined
by where they start, and they are what a scan of that line alone gives, moved to its offset.
-/

namespace SqlAssist

theorem Highlight.ofTokens_append (a b : List Token) :
    ofTokens (a ++ b) = ofTokens a ++ ofTokens b := by
  rw [ofTokens, List.filter_append, List.map_append]
  rfl

theorem Highlight.ofTokens_place_add (offset k : Nat) (ls : List Lexeme) :
    ofTokens (Token.place (offset + k) ls) = (ofTokens (Token.place k ls)).map (shift offset) := by
  rw [Token.place_add, ofTokens, ofTokens, List.filter_map, List.map_map, List.map_map]
  refine List.map_congr_left fun t _ => ?_
  simp only [Function.comp_apply, ofToken, shift, Token.stop, Nat.add_assoc]

theorem Highlight.ofTokens_ending (offset : Nat) (l : Line) :
    ofTokens (Token.place offset l.ending) = [] := by
  rw [Line.ending]
  split <;> rfl

namespace Lexicon

def highlightsOn (x : Lexicon) (text : Text) (line : Nat) : List Highlight :=
  Highlight.ofTokens (x.tokensOn text line)

theorem highlights_eq_flatMap (x : Lexicon) (text : Text) :
    x.highlights text = (List.range (Text.lineCount text)).flatMap (x.highlightsOn text) := by
  rw [highlights, tokens_eq_flatMap]
  induction List.range (Text.lineCount text) with
  | nil => rfl
  | cons i rest ih => rw [List.flatMap_cons, List.flatMap_cons, Highlight.ofTokens_append, ih]; rfl

/-- The line is scanned on its own, and its highlights are then moved to where it starts. -/
theorem highlightsOn_of_getElem? {x : Lexicon} {text : Text} {line : Nat} {l : Line}
    (h : (Text.lines text)[line]? = some l) :
    x.highlightsOn text line =
      (x.lineHighlights (x.entryState text line) l.content).1.map
        (Highlight.shift (Text.beforeLine text line).width) := by
  rw [highlightsOn, tokensOn_of_getElem? h, tokensOfLine, Highlight.ofTokens_append,
    Highlight.ofTokens_ending, List.append_nil, ← Nat.add_zero (Text.beforeLine text line).width,
    Highlight.ofTokens_place_add]
  rfl

theorem lineOf_of_mem_highlightsOn {x : Lexicon} {text : Text} {line : Nat} {h : Highlight}
    (hh : h ∈ x.highlightsOn text line) : Text.lineOf text h.start = line := by
  cases hl : (Text.lines text)[line]? with
  | none =>
    rw [highlightsOn, tokensOn, hl] at hh
    simp [Highlight.ofTokens] at hh
  | some l =>
    rw [highlightsOn_of_getElem? hl, List.mem_map] at hh
    obtain ⟨h', hh', rfl⟩ := hh
    rw [lineHighlights, Highlight.ofTokens, List.mem_map] at hh'
    obtain ⟨t, ht, rfl⟩ := hh'
    obtain ⟨a, b, hsplit, hstart⟩ := exists_split_of_mem_place (List.mem_filter.1 ht).1
    rw [List.append_assoc] at hsplit
    show Text.lineOf text ((Text.beforeLine text line).width + t.start) = line
    rw [hstart]
    exact Text.lineOf_content hl hsplit

/-- The highlights on a line of the document are those of the line. -/
theorem filter_highlights (x : Lexicon) {text : Text} {line : Nat}
    (hline : line < Text.lineCount text) :
    (x.highlights text).filter (fun h => Text.lineOf text h.start = line) =
      x.highlightsOn text line := by
  have hpiece : ∀ i, (x.highlightsOn text i).filter (fun h => Text.lineOf text h.start = line) =
      if i = line then x.highlightsOn text i else [] := by
    intro i
    by_cases hi : i = line
    · rw [if_pos hi]
      refine List.filter_eq_self.2 fun h hh => ?_
      rw [lineOf_of_mem_highlightsOn hh, hi]
      exact decide_eq_true rfl
    · rw [if_neg hi]
      refine List.filter_eq_nil_iff.2 fun h hh => ?_
      rw [lineOf_of_mem_highlightsOn hh]
      simpa using hi
  have hrange : ∀ n, (List.range n).flatMap
      (fun i => if i = line then x.highlightsOn text i else []) =
        if line < n then x.highlightsOn text line else [] := by
    intro n
    induction n with
    | zero => rfl
    | succ n ih =>
      rw [List.range_succ, List.flatMap_append, ih, List.flatMap_singleton]
      by_cases hn : n = line
      · rw [if_neg (by omega), if_pos hn, if_pos (by omega), hn, List.nil_append]
      · rw [if_neg hn, List.append_nil]
        by_cases hlt : line < n
        · rw [if_pos hlt, if_pos (by omega)]
        · rw [if_neg hlt, if_neg (by omega)]
  rw [highlights_eq_flatMap, List.filter_flatMap]
  calc (List.range (Text.lineCount text)).flatMap
        (fun i => (x.highlightsOn text i).filter fun h => Text.lineOf text h.start = line)
      = (List.range (Text.lineCount text)).flatMap
        (fun i => if i = line then x.highlightsOn text i else []) := by simp only [hpiece]
    _ = x.highlightsOn text line := by rw [hrange, if_pos hline]

end Lexicon

end SqlAssist
