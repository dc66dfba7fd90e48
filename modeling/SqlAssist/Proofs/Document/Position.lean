import Mathlib.Logic.ExistsUnique
import SqlAssist.Document.Buffer
import SqlAssist.Highlight.Basic
import SqlAssist.Proofs.Document.Cursor
import SqlAssist.Proofs.Token.Document

/-!
Positions and byte offsets.

A position has an offset if it is on a line of the document and not behind the content of that
line, and the offset is the width of the text before it.  Two texts before places of one document
are comparable, and the number of line feeds in such a text is the line of the place.  So the
order of offsets is the order of positions, and no two positions share an offset.  The other way
around, every place between two characters is the place of a position, unless it lies inside of
a terminator: a carriage return that belongs to a line feed has no column of its own.
-/

namespace SqlAssist

/-! ## The text before a position -/

namespace Position

structure IsIn (p : Position) (text : Text) : Prop where
  line_lt : p.line.toNat < Text.lineCount text
  character_le : ∀ content ∈ Text.lineContent? text p.line.toNat,
    p.character.toNat ≤ content.length

def Before (p q : Position) : Prop :=
  p.line < q.line ∨ p.line = q.line ∧ p.character < q.character

/-- The offset of a position is the width of the lines above it and of as many characters of its
line as it has in front of it. -/
theorem offset?_eq_some_iff {text : Text} {p : Position} {o : Nat} :
    p.offset? text = some o ↔
      ∃ (l : Line) (a b : Text), (Text.lines text)[p.line.toNat]? = some l ∧ l.content = a ++ b ∧
        a.length = p.character.toNat ∧
        Text.width (Text.beforeLine text p.line.toNat ++ a) = o := by
  constructor
  · intro h
    obtain ⟨l, c, hl, hat, -, hcontent, rfl⟩ := offset?_eq_some h
    obtain ⟨_, _, _, _, hcolumn⟩ := Cursor.at?_eq_some hat
    refine ⟨l, c.content.take c.column, c.content.drop c.column, hl, ?_, ?_, ?_⟩
    · rw [List.take_append_drop, hcontent]
    · rw [List.length_take_of_le c.column_le_length, hcolumn]
    · rw [Text.width_append]
      rfl
  · rintro ⟨l, a, b, hl, hcontent, hlength, rfl⟩
    rw [Text.width_append]
    exact offset?_content hl hcontent hlength.symm

theorem isIn_iff {text : Text} {p : Position} :
    p.IsIn text ↔ ∃ o, p.offset? text = some o := by
  constructor
  · rintro ⟨hline, hcharacter⟩
    obtain ⟨l, hl⟩ : ∃ l, (Text.lines text)[p.line.toNat]? = some l :=
      ⟨_, List.getElem?_eq_getElem hline⟩
    have hle := hcharacter l.content (by rw [Text.lineContent?, hl]; rfl)
    exact ⟨_, offset?_eq_some_iff.2 ⟨l, l.content.take p.character.toNat, _, hl,
      (List.take_append_drop _ _).symm, List.length_take_of_le hle, rfl⟩⟩
  · rintro ⟨o, ho⟩
    obtain ⟨l, a, b, hl, hcontent, hlength, -⟩ := offset?_eq_some_iff.1 ho
    refine ⟨Text.lt_lineCount_of_getElem? hl, fun content hmem => ?_⟩
    rw [Text.lineContent?, hl] at hmem
    obtain rfl : l.content = content := Option.some.inj hmem
    rw [hcontent, List.length_append, hlength]
    exact Nat.le_add_right _ _

/-! ## Order -/

section Order

variable {text : Text} {p q : Position} {o o' : Nat}

theorem lineOf_offset? (h : p.offset? text = some o) : Text.lineOf text o = p.line.toNat := by
  obtain ⟨l, a, b, hl, hcontent, -, rfl⟩ := offset?_eq_some_iff.1 h
  rw [Text.width_append]
  exact Text.lineOf_content hl hcontent

/-- The text before the position with the lower offset is a front part of the other text, so that
it has no more line feeds and, on the same line, no more characters. -/
theorem not_before_of_le (hp : p.offset? text = some o) (hq : q.offset? text = some o')
    (h : o ≤ o') : ¬ q.Before p := by
  obtain ⟨l, a, b, hl, hcontent, hlength, rfl⟩ := offset?_eq_some_iff.1 hp
  obtain ⟨l', a', b', hl', hcontent', hlength', rfl⟩ := offset?_eq_some_iff.1 hq
  have hfront : ∀ {i : Nat} {l : Line} {a b : Text}, (Text.lines text)[i]? = some l →
      l.content = a ++ b → Text.beforeLine text i ++ a <+: text := by
    intro i l a b hl hcontent
    obtain ⟨after, htext⟩ := Text.eq_beforeLine_append hl
    rw [hcontent, List.append_assoc, ← List.append_assoc] at htext
    exact ⟨_, htext.symm⟩
  have hprefix := Text.prefix_of_width_le (hfront hl hcontent) (hfront hl' hcontent') h
  rintro (hline | ⟨hline, hcharacter⟩)
  -- the text before a place on a line has as many line feeds as there are lines above it
  · have hcount := hprefix.sublist.count_le '\n'
    rw [Text.count_of_content hl hcontent, Text.count_of_content hl' hcontent'] at hcount
    exact Nat.not_lt.2 hcount (UInt32.lt_iff_toNat_lt.1 hline)
  · rw [hline, List.prefix_append_right_inj] at hprefix
    have hle := hprefix.length_le
    rw [hlength, hlength'] at hle
    exact Nat.not_lt.2 hle (UInt32.lt_iff_toNat_lt.1 hcharacter)

theorem eq_of_not_before (h : ¬ p.Before q) (h' : ¬ q.Before p) : p = q := by
  simp only [Before, UInt32.lt_iff_toNat_lt, ← UInt32.toNat_inj] at h h'
  have hline : p.line = q.line := UInt32.toNat_inj.1 (by omega)
  have hcharacter : p.character = q.character := UInt32.toNat_inj.1 (by omega)
  cases p
  cases q
  rw [Position.mk.injEq]
  exact ⟨hline, hcharacter⟩

theorem eq_of_offset?_eq (hp : p.offset? text = some o) (hq : q.offset? text = some o) : p = q :=
  eq_of_not_before (not_before_of_le hq hp (Nat.le_refl o)) (not_before_of_le hp hq (Nat.le_refl o))

end Order

/-! ## Every place has a position -/

/-- In a document of less than four gigabytes every line and every column fits into its word. -/
theorem exists_offset?_of_content {text : Text} (hwidth : text.width < UInt32.size) {i : Nat}
    {l : Line} (hl : (Text.lines text)[i]? = some l) {a b : Text} (hcontent : l.content = a ++ b) :
    ∃ p : Position, p.offset? text = some (Text.width (Text.beforeLine text i ++ a)) := by
  obtain ⟨after, htext⟩ := Text.eq_beforeLine_append hl
  have hlength := Text.length_le_width text
  have hline : i ≤ (Text.beforeLine text i).length := by
    have hcount := Text.count_beforeLine (Text.lt_lineCount_of_getElem? hl)
    exact hcount.symm.le.trans List.count_le_length
  have hsize : (Text.beforeLine text i).length + a.length < UInt32.size := by
    have := congrArg List.length (htext.trans (by rw [hcontent]))
    simp only [List.length_append] at this
    omega
  have hi : i.toUInt32.toNat = i := UInt32.toNat_ofNat_of_lt' (by omega)
  have ha : a.length.toUInt32.toNat = a.length := UInt32.toNat_ofNat_of_lt' (by omega)
  refine ⟨⟨i.toUInt32, a.length.toUInt32⟩,
    offset?_eq_some_iff.2 ⟨l, a, b, ?_, hcontent, ha.symm, ?_⟩⟩
  · rwa [hi]
  · rw [hi]

/-- The offsets of positions are the places of a document but for those inside of a terminator. -/
theorem exists_offset?_iff {text : Text} (hwidth : text.width < UInt32.size) {o : Nat} :
    (∃ p : Position, p.offset? text = some o) ↔
      text.IsBoundary o ∧ ¬ text.SplitsTerminator o := by
  constructor
  · rintro ⟨p, hp⟩
    obtain ⟨l, a, b, hl, hcontent, -, rfl⟩ := offset?_eq_some_iff.1 hp
    obtain ⟨after, htext⟩ := Text.eq_beforeLine_append hl
    rw [hcontent, List.append_assoc, ← List.append_assoc] at htext
    exact ⟨⟨_, _, htext, rfl⟩, Text.not_splitsTerminator_of_content hl hcontent⟩
  · rintro ⟨⟨a, b, htext, rfl⟩, hsplits⟩
    obtain ⟨i, l, u, v, hl, hcontent, rfl⟩ := Text.exists_line_of_append htext
      fun hinside => hsplits ⟨a, b, htext, rfl, hinside⟩
    exact exists_offset?_of_content hwidth hl hcontent

end Position

/-- A token starts in the content of a line or, if it is a terminator, at the end of one. -/
theorem Lexicon.exists_content_of_mem_tokens {x : Lexicon} {text : Text} {t : Token}
    (h : t ∈ x.tokens text) :
    ∃ (i : Nat) (l : Line) (a b : Text), (Text.lines text)[i]? = some l ∧ l.content = a ++ b ∧
      t.start = Text.width (Text.beforeLine text i ++ a) := by
  obtain ⟨i, l, hl, ht⟩ := exists_line_of_mem_tokens h
  rcases (mem_tokensOn_iff hl).1 ht with ⟨u, hu, rfl⟩ | ⟨-, rfl⟩
  · obtain ⟨a, b, hsplit, hstart⟩ := exists_split_of_mem_place hu
    rw [List.append_assoc] at hsplit
    exact ⟨i, l, a, _, hl, hsplit, by rw [Text.width_append, ← hstart]⟩
  · exact ⟨i, l, l.content, [], hl, (List.append_nil _).symm, (Text.width_append _ _).symm⟩

namespace Buffer

structure PositionsCorrespond (b : Buffer) : Prop where
  succeeds_iff : ∀ p : Position, (∃ o, b.positionToOffset p = .ok o) ↔ p.IsIn b.text
  fails : ∀ p : Position, ¬ p.IsIn b.text → b.positionToOffset p = .error (.invalidPosition p)
  increasing : ∀ (p q : Position) (o o' : Nat), b.positionToOffset p = .ok o →
    b.positionToOffset q = .ok o' → p.Before q → o < o'
  line : ∀ (p : Position) (o : Nat), b.positionToOffset p = .ok o →
    b.lineOf? o = some p.line.toNat
  image : ∀ o, (∃ p, b.positionToOffset p = .ok o) ↔
    b.text.IsBoundary o ∧ ¬ b.text.SplitsTerminator o
  /-- The start of a token has exactly one position, whatever the dialect. -/
  token : ∀ (x : Lexicon), ∀ t ∈ x.tokens b.text, ∃! p, b.positionToOffset p = .ok t.start
  highlight : ∀ (x : Lexicon), ∀ h ∈ x.highlights b.text, ∃! p, b.positionToOffset p = .ok h.start

variable {b : Buffer}

theorem positionToOffset_eq_ok_iff {p : Position} {o : Nat} :
    b.positionToOffset p = .ok o ↔ p.offset? b.text = some o := by
  rw [positionToOffset]
  cases p.offset? b.text <;> simp

/-- Positions and offsets correspond one to one.  A position has an offset if it is on a line and
not behind its content; offsets are in the order of positions and lie on their lines; and they are
all places between characters but those inside of a terminator, so that every token and every
highlight starts at one position. -/
theorem positions_correspond (hwidth : b.text.width < UInt32.size) : b.PositionsCorrespond := by
  have hunique : ∀ {p : Position} {o : Nat}, p.offset? b.text = some o →
      ∃! p, b.positionToOffset p = .ok o := by
    intro p o hp
    refine ⟨p, positionToOffset_eq_ok_iff.2 hp, fun q hq => ?_⟩
    exact Position.eq_of_offset?_eq (positionToOffset_eq_ok_iff.1 hq) hp
  have htoken : ∀ (x : Lexicon), ∀ t ∈ x.tokens b.text,
      ∃! p, b.positionToOffset p = .ok t.start := by
    intro x t ht
    obtain ⟨i, l, u, v, hl, hcontent, hstart⟩ := x.exists_content_of_mem_tokens ht
    obtain ⟨p, hp⟩ := Position.exists_offset?_of_content hwidth hl hcontent
    rw [hstart]
    exact hunique hp
  refine ⟨fun p => ?_, fun p hp => ?_, fun p q o o' hp hq hbefore => ?_, fun p o hp => ?_,
    fun o => ?_, htoken, fun x h hh => ?_⟩
  · simp only [positionToOffset_eq_ok_iff, Position.isIn_iff]
  · rw [Position.isIn_iff] at hp
    rw [positionToOffset]
    cases ho : p.offset? b.text with
    | none => rfl
    | some o => exact absurd ⟨o, ho⟩ hp
  · rw [positionToOffset_eq_ok_iff] at hp hq
    refine Nat.lt_of_not_le fun hle => ?_
    exact Position.not_before_of_le hq hp hle hbefore
  · rw [positionToOffset_eq_ok_iff] at hp
    obtain ⟨⟨front, back, htext, rfl⟩, -⟩ := (Position.exists_offset?_iff hwidth).1 ⟨p, hp⟩
    have hle : front.width ≤ b.length := by
      rw [length, htext, Text.width_append]
      exact Nat.le_add_right _ _
    rw [lineOf?, if_pos hle, Position.lineOf_offset? hp]
  · simp only [positionToOffset_eq_ok_iff]
    exact Position.exists_offset?_iff hwidth
  · rw [Lexicon.highlights, Highlight.ofTokens, List.mem_map] at hh
    obtain ⟨t, ht, rfl⟩ := hh
    exact htoken x t (List.mem_filter.1 ht).1

/-- The carriage return at the end of a document is a character of its line, and the one of a
terminator is not: there is no position between it and the line feed. -/
theorem positions_of_carriage_returns :
    (ofText "é\r\n\r".toList).lineOf? 5 = some 1 ∧
      ¬ ∃ p, (ofText "é\r\n\r".toList).positionToOffset p = .ok 3 := by
  have h := positions_correspond (b := ofText "é\r\n\r".toList) (by decide)
  constructor
  · exact h.line ⟨1, 1⟩ 5 (positionToOffset_eq_ok_iff.2 (by decide +kernel))
  · intro hthree
    exact ((h.image 3).1 hthree).2 ⟨['é', '\r'], ['\n', '\r'], by decide, by decide, rfl, rfl⟩

end Buffer

end SqlAssist
