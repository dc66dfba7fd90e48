import SqlAssist.Dialect.File
import SqlAssist.Proofs.Token.Document

/-!
The tokens of a text tile it.

Placed lexemes tile a text as soon as their texts add up to it and none is empty.  Both hold
where the scanner makes progress.  It does from every state when the end marker of block comments
is not empty.  When it is empty, a comment opener that is not still ends every comment on the
spot, and then the one state without progress is not entered.
-/

namespace SqlAssist
namespace Lexicon

/-- Scanning from the states in `entries` comes to its end and leaves nothing out. -/
structure Complete (x : Lexicon) (entries : LineState → Prop) : Prop where
  tiles_text : ∀ text, Token.Tiles text (x.tokens text)
  tiles_line : ∀ entry line, entries entry → Token.Tiles line (x.lineTokens entry line).tokens
  /-- Finitely many steps, each of a character at least, come to the end of the line. -/
  finishes : ∀ entry line, entries entry →
    x.Reaches entry line (x.scanLine entry line).lexemes (x.scanLine entry line).endState []
  /-- The states of `entries` are not left within a line. -/
  stays : ∀ entry line, entries entry → ∀ before state rest,
    x.Reaches entry line before state rest → entries state
  /-- Every line of a document begins in one of them. -/
  begins : ∀ text line, entries (x.entryState text line)

theorem Finishes.tiles_tokens {x : Lexicon} {text : Text}
    (h : x.Finishes .root (Text.lines text)) : Token.Tiles text (x.tokens text) := by
  have htiles := Token.tiles_place h.ne_nil
  rwa [h.join_lexemesOfLines_lines, ← h.tokens_eq_place] at htiles

theorem tiles_lineTokens {x : Lexicon} {entry : LineState} (h : x.Progresses entry)
    (line : Text) : Token.Tiles line (x.lineTokens entry line).tokens := by
  have hreach := reaches_scanLine h line
  have htiles := Token.tiles_place hreach.ne_nil
  rwa [hreach.join_of_end] at htiles

/-- Scanning is complete on any states that are closed under it, if it makes progress there. -/
theorem complete_of_progresses {x : Lexicon} {entries : LineState → Prop}
    (hentries : ∀ state, entries state ↔ x.Progresses state) (hroot : entries .root) :
    x.Complete entries where
  tiles_text _ := (finishes_of_progresses ((hentries _).1 hroot) _).tiles_tokens
  tiles_line _ line h := tiles_lineTokens ((hentries _).1 h) line
  finishes _ line h := reaches_scanLine ((hentries _).1 h) line
  stays _ _ h _ _ _ hreach := (hentries _).2 (hreach.progresses ((hentries _).1 h))
  begins _ _ := (hentries _).2 (progresses_stateAfter ((hentries _).1 hroot) _)

end Lexicon

/-- A dialect that is read from its files has an end marker for its block comments. -/
theorem Dialect.blockEnd_ne_nil_of_parse {settings declarations : Text} {d : Dialect}
    (h : Dialect.parse settings declarations = .ok d) : d.lexicon.comments.blockEnd ≠ [] := by
  rw [parse] at h
  split at h
  · next config names _ _ =>
    rw [validate] at h
    split at h
    · simp at h
    · next hmarkers =>
      split at h
      · simp at h
      · obtain rfl : ofDeclarations config names = d := by simpa using h
        intro hend
        apply hmarkers
        rw [CommentMarkers.hasEmpty, show config.comments.blockEnd = [] from hend]
        simp
  · simp at h

/-- The tokens of every text tile it, and so do those of every line from every state, when block
comments have an end marker; a dialect read from its files has one.  With an empty end marker the
same holds outside of block comments as long as the opener is not empty, and block comments are
then never entered. -/
theorem Lexicon.complete_of_markers :
    (∀ x : Lexicon, x.comments.blockEnd ≠ [] → x.Complete fun _ => True) ∧
    (∀ x : Lexicon, x.comments.blockEnd = [] → x.comments.blockStart ≠ [] →
      x.Complete fun state => state ≠ .blockComment) ∧
    ∀ (settings declarations : Text) (d : Dialect),
      Dialect.parse settings declarations = .ok d → d.lexicon.Complete fun _ => True := by
  have hended : ∀ x : Lexicon, x.comments.blockEnd ≠ [] → x.Complete fun _ => True := by
    intro x hend
    refine complete_of_progresses (fun state => ?_) trivial
    exact ⟨fun _ => Or.inl hend, fun _ => trivial⟩
  refine ⟨hended, ?_, fun settings declarations d h => ?_⟩
  · intro x hend hstart
    refine complete_of_progresses (fun state => ?_) (by simp)
    rw [Progresses, hend]
    simp [hstart]
  · exact hended _ (Dialect.blockEnd_ne_nil_of_parse h)

/-- The built-in markers, an empty end marker behind an opener, and a dialect of two settings. -/
theorem Lexicon.complete_examples :
    ({} : Lexicon).Complete (fun _ => True) ∧
    ({ comments := { blockEnd := [] } } : Lexicon).Complete (fun state => state ≠ .blockComment) ∧
    ∃ d, Dialect.parse "id = 's'\ndisplay_name = 'S'".toList [] = .ok d ∧
      d.lexicon.Complete fun _ => True := by
  have hparse : Dialect.parse "id = 's'\ndisplay_name = 'S'".toList [] =
      .ok (Dialect.ofDeclarations { id := ['s'], displayName := ['S'] } {}) := by
    have hsettings : DialectConfig.parse? "id = 's'\ndisplay_name = 'S'".toList =
        some { id := ['s'], displayName := ['S'] } := by decide +kernel
    have hdeclarations : Declarations.parse? [] = some {} := by decide +kernel
    rw [Dialect.parse, hsettings, hdeclarations]
    rfl
  exact ⟨complete_of_markers.1 _ (by decide), complete_of_markers.2.1 _ rfl (by decide),
    _, hparse, complete_of_markers.2.2 _ _ _ hparse⟩

end SqlAssist
