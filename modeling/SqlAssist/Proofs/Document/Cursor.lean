import SqlAssist.Document.Cursor
import SqlAssist.Proofs.Text.Lines
import SqlAssist.Proofs.Token.Alongside

/-!
Cursors and the tokens they stand on.

A cursor counts in its line only: characters for a host, bytes for the words.  The byte offset of
its position in the document is that of the line and the cursor's own together.
-/

namespace SqlAssist

/-! ## Positions and byte offsets -/

/-- A cursor stands on the line that its position names, behind as many characters. -/
theorem Cursor.at?_eq_some {text : Text} {p : Position} {c : Cursor}
    (h : Cursor.at? text p = some c) :
    ∃ l, (Text.lines text)[p.line.toNat]? = some l ∧ c.line = p.line ∧ c.content = l.content ∧
      c.column = p.character.toNat := by
  rw [Cursor.at?, Text.lineContent?] at h
  cases hl : (Text.lines text)[p.line.toNat]? with
  | none => simp [hl] at h
  | some l =>
    simp only [hl, Option.map_some] at h
    split at h
    · obtain rfl := Option.some.inj h
      exact ⟨l, rfl, rfl, rfl, rfl⟩
    · simp at h

namespace Position

/-- A position with a byte offset is looked up on its line, and the offset is that of the line's
start and the cursor's together. -/
theorem offset?_eq_some {text : Text} {p : Position} {o : Nat} (h : p.offset? text = some o) :
    ∃ (l : Line) (c : Cursor), (Text.lines text)[p.line.toNat]? = some l ∧
      Cursor.at? text p = some c ∧ c.line = p.line ∧ c.content = l.content ∧
      o = (Text.beforeLine text p.line.toNat).width + c.offset := by
  rw [offset?, charIndex?, Option.map_map, Option.map_eq_some_iff] at h
  obtain ⟨c, hc, ho⟩ := h
  obtain ⟨l, hl, hline, hcontent, hcolumn⟩ := Cursor.at?_eq_some hc
  obtain ⟨after, htext⟩ := Text.eq_beforeLine_append hl
  refine ⟨l, c, hl, hc, hline, hcontent, ?_⟩
  rw [← ho, Function.comp_apply, Cursor.offset, hcolumn]
  have hle := c.column_le_length
  rw [hcolumn] at hle
  generalize Text.beforeLine text p.line.toNat = before at htext ⊢
  rw [htext, ← hcontent, List.take_length_add_append, Text.width_append,
    List.take_append_of_le_length hle]

/-- A position with a byte offset stands between two parts of the content of its line, and the
text in front of it is that of the lines above and the first of the two. -/
theorem exists_index {text : Text} {p : Position} {o : Nat} (h : p.offset? text = some o) :
    ∃ (l : Line) (a b : Text), (Text.lines text)[p.line.toNat]? = some l ∧ l.content = a ++ b ∧
      p.charIndex? text = some ((Text.beforeLine text p.line.toNat).length + a.length) ∧
      text.take ((Text.beforeLine text p.line.toNat).length + a.length) =
        Text.beforeLine text p.line.toNat ++ a ∧
      o = (Text.beforeLine text p.line.toNat).width + a.width := by
  obtain ⟨l, c, hl, hat, -, hcontent, ho⟩ := offset?_eq_some h
  obtain ⟨_, _, _, _, hcolumn⟩ := Cursor.at?_eq_some hat
  obtain ⟨after, htext⟩ := Text.eq_beforeLine_append hl
  have hlength : (c.content.take c.column).length = c.column := by
    rw [List.length_take, Nat.min_eq_left c.column_le_length]
  refine ⟨l, c.content.take c.column, c.content.drop c.column, hl, ?_, ?_, ?_, ho⟩
  · rw [List.take_append_drop, hcontent]
  · rw [charIndex?, hat, hlength, hcolumn]
    rfl
  · generalize Text.beforeLine text p.line.toNat = before at htext ⊢
    rw [htext, List.take_length_add_append, hlength, ← hcontent,
      List.take_append_of_le_length c.column_le_length]

theorem offset?_content {text : Text} {line column : UInt32} {l : Line}
    (h : (Text.lines text)[line.toNat]? = some l) {a b : Text} (hl : l.content = a ++ b)
    (hcolumn : column.toNat = a.length) :
    (⟨line, column⟩ : Position).offset? text =
      some ((Text.beforeLine text line.toNat).width + a.width) := by
  obtain ⟨after, htext⟩ := Text.eq_beforeLine_append h
  have hle : column.toNat ≤ l.content.length := by
    rw [hcolumn, hl, List.length_append]
    exact Nat.le_add_right _ _
  rw [offset?, charIndex?, Cursor.at?, Text.lineContent?, h]
  simp only [Option.map_some, dif_pos hle]
  generalize Text.beforeLine text line.toNat = before at htext ⊢
  rw [hcolumn, htext, hl, List.take_length_add_append, Text.width_append, List.append_assoc,
    List.take_left]

end Position

/-- Whether a range goes from one byte offset to another, both on the given line. -/
structure Range.Covers (r : Range) (text : Text) (line : UInt32) (start stop : Nat) : Prop where
  start_line : r.start.line = line
  stop_line : r.stop.line = line
  start_offset : r.start.offset? text = some start
  stop_offset : r.stop.offset? text = some stop

namespace Cursor

theorem exists_split (c : Cursor) : ∃ a b, c.content = a ++ b ∧ c.offset = Text.width a :=
  ⟨c.content.take c.column, c.content.drop c.column, (List.take_append_drop _ _).symm, rfl⟩

theorem toNat_add_toUInt32 {a b : Text} (h : a.length + b.length < UInt32.size) :
    (a.length.toUInt32 + b.length.toUInt32).toNat = (a ++ b).length := by
  have ha : a.length.toUInt32.toNat = a.length := UInt32.toNat_ofNat_of_lt' (by omega)
  have hb : b.length.toUInt32.toNat = b.length := UInt32.toNat_ofNat_of_lt' (by omega)
  rw [UInt32.toNat_add, ha, hb, Nat.mod_eq_of_lt h, List.length_append]

theorem rangeOf_append (c : Cursor) {a b rest : Text} (h : c.content = a ++ b ++ rest) :
    c.rangeOf (Text.width a) (Text.width a + Text.width b) =
      { start := ⟨c.line, a.length.toUInt32⟩,
        stop := ⟨c.line, a.length.toUInt32 + b.length.toUInt32⟩ } := by
  rw [rangeOf, h, Text.slice_append, List.append_assoc, Text.charsBefore_width_append]

/-- The range of a piece of a line is exact as long as the columns up to its end fit into their
words: its two positions stand at the byte offsets of the piece. -/
theorem covers_rangeOf_of_length_lt {text : Text} {c : Cursor} {l : Line}
    (hl : (Text.lines text)[c.line.toNat]? = some l) (hcontent : c.content = l.content)
    {a b rest : Text} (hsplit : c.content = a ++ b ++ rest)
    (hlength : a.length + b.length < UInt32.size) :
    (c.rangeOf (Text.width a) (Text.width a + Text.width b)).Covers text c.line
      ((Text.beforeLine text c.line.toNat).width + a.width)
      ((Text.beforeLine text c.line.toNat).width + a.width + b.width) := by
  have ha : a.length.toUInt32.toNat = a.length :=
    UInt32.toNat_ofNat_of_lt' (by omega)
  have hcolumn : (a.length.toUInt32 + b.length.toUInt32).toNat = (a ++ b).length :=
    toNat_add_toUInt32 hlength
  rw [c.rangeOf_append hsplit]
  refine ⟨rfl, rfl, ?_, ?_⟩
  · refine Position.offset?_content hl (b := b ++ rest) ?_ ha
    rw [← hcontent, hsplit, List.append_assoc]
  · have hstop := Position.offset?_content hl (hcontent.symm.trans hsplit) hcolumn
    rwa [Text.width_append, ← Nat.add_assoc] at hstop

/-- In a document of less than four gigabytes all columns fit. -/
theorem covers_rangeOf {text : Text} (hwidth : text.width < UInt32.size) {c : Cursor} {l : Line}
    (hl : (Text.lines text)[c.line.toNat]? = some l) (hcontent : c.content = l.content)
    {a b rest : Text} (hsplit : c.content = a ++ b ++ rest) :
    (c.rangeOf (Text.width a) (Text.width a + Text.width b)).Covers text c.line
      ((Text.beforeLine text c.line.toNat).width + a.width)
      ((Text.beforeLine text c.line.toNat).width + a.width + b.width) := by
  refine covers_rangeOf_of_length_lt hl hcontent hsplit ?_
  obtain ⟨after, htext⟩ := Text.eq_beforeLine_append hl
  have hle := Text.length_le_width text
  rw [htext, ← hcontent, hsplit] at hle hwidth
  simp only [List.length_append] at hle
  omega

/-! ## The word under the cursor -/

section PointedWord

variable {x : Lexicon} {c : Cursor} {entry : LineState} {t : Token}

/-- On a word token the cursor points at its word. -/
theorem pointedWord?_of_isWord (hx : x.SeparatesComments)
    (ht : t ∈ Token.place 0 (x.scanLine entry c.content).lexemes)
    (hc : t.contains c.offset = true) (hword : t.tokenClass.isWord = true) :
    c.pointedWord? = some ⟨t.text, t.start⟩ := by
  have halong := Lexicon.alongside_scanLine hx entry c.content
  have hmem := halong.mem_of_isWord ht hword
  obtain ⟨hstart, hstop⟩ := Token.contains_iff.1 hc
  have hsome : c.pointedWord?.isSome = true := by
    rw [pointedWord?, List.find?_isSome]
    refine ⟨_, hmem, ?_⟩
    rw [Bool.and_eq_true, decide_eq_true_iff, decide_eq_true_iff]
    exact ⟨hstart, hstop⟩
  obtain ⟨w, hw⟩ := Option.isSome_iff_exists.1 hsome
  have hpoint := List.find?_some hw
  rw [Bool.and_eq_true, decide_eq_true_iff, decide_eq_true_iff] at hpoint
  rcases halong.isOpaque_of_mem (List.mem_of_find?_eq_some hw) with ⟨u, hu, -, rfl⟩ | hall
  · have huc : u.contains c.offset = true := Token.contains_iff.2 hpoint
    rw [hw, Token.eq_of_contains ht hu hc huc]
  · have hhidden := hall t ht c.offset hpoint.1 hpoint.2 hc
    rw [TokenClass.isOpaque_of_isWord hword] at hhidden
    exact absurd hhidden Bool.false_ne_true

/-- On any other token outside of comments and literals it points at none. -/
theorem isWord_of_pointedWord? (hx : x.SeparatesComments)
    (ht : t ∈ Token.place 0 (x.scanLine entry c.content).lexemes)
    (hc : t.contains c.offset = true) (hvisible : t.tokenClass.isOpaque = false)
    {w : Word} (hw : c.pointedWord? = some w) : t.tokenClass.isWord = true := by
  have halong := Lexicon.alongside_scanLine hx entry c.content
  have hpoint := List.find?_some hw
  rw [Bool.and_eq_true, decide_eq_true_iff, decide_eq_true_iff] at hpoint
  rcases halong.isOpaque_of_mem (List.mem_of_find?_eq_some hw) with ⟨u, hu, huw, rfl⟩ | hall
  · rw [Token.eq_of_contains ht hu hc (Token.contains_iff.2 hpoint)]
    exact huw
  · have hhidden := hall t ht c.offset hpoint.1 hpoint.2 hc
    rw [hvisible] at hhidden
    exact absurd hhidden Bool.false_ne_true

end PointedWord

/-! ## The word that is being typed -/

/-- The typed part of a word ends at the cursor. -/
theorem exists_typed (c : Cursor) :
    ∃ a b rest, c.content = a ++ b ++ rest ∧ c.typedStart = a.width ∧
      c.offset = a.width + b.width ∧ c.column = a.length + b.length := by
  have hcontent := (List.take_append_drop c.column c.content).symm
  have hcolumn : c.column = (c.content.take c.column).length :=
    (List.length_take_of_le c.column_le_length).symm
  rw [typedStart]
  cases hw : c.typedWord? with
  | none =>
    refine ⟨c.content.take c.column, [], c.content.drop c.column, ?_, rfl, rfl, hcolumn⟩
    rw [List.append_nil]
    exact hcontent
  | some w =>
    have hpoint := List.find?_some hw
    rw [Bool.and_eq_true, decide_eq_true_iff, decide_eq_true_iff] at hpoint
    obtain ⟨a, tail, hsplit, hstart⟩ :=
      (Word.splits_allFrom 0 c.content).exists_split (List.mem_of_find?_eq_some hw)
    rw [Nat.zero_add] at hstart
    have hsame : a ++ (w.text ++ tail) =
        c.content.take c.column ++ c.content.drop c.column := by
      rw [List.take_append_drop, hsplit, List.append_assoc]
    obtain ⟨b, behind, hword, hfront⟩ := Text.exists_split_of_between hsame
      (by rw [← hstart]; exact Nat.le_of_lt hpoint.1) (by rw [← hstart]; exact hpoint.2)
    refine ⟨a, b, behind ++ tail, ?_, hstart, ?_, ?_⟩
    · rw [hsplit, hword]
      simp only [List.append_assoc]
    · rw [offset, hfront, Text.width_append]
    · rw [hcolumn, hfront, List.length_append]

theorem typed_eq {c : Cursor} {a b rest : Text} (hsplit : c.content = a ++ b ++ rest)
    (hstart : c.typedStart = a.width) (hoffset : c.offset = a.width + b.width) :
    c.typed = b := by
  rw [typed, hstart, hoffset, hsplit, Text.slice_append]

/-- What is typed starts with the word that the cursor is inside of or behind. -/
theorem typedStart_of_mem {c : Cursor} {w : Word} (hw : w ∈ Word.all c.content)
    (htouch : w.start < c.offset ∧ c.offset ≤ w.stop) : c.typedStart = w.start := by
  have hsome : c.typedWord?.isSome = true := by
    rw [typedWord?, List.find?_isSome]
    refine ⟨w, hw, ?_⟩
    rw [Bool.and_eq_true, decide_eq_true_iff, decide_eq_true_iff]
    exact htouch
  obtain ⟨v, hv⟩ := Option.isSome_iff_exists.1 hsome
  have hpoint := List.find?_some hv
  rw [Bool.and_eq_true, decide_eq_true_iff, decide_eq_true_iff] at hpoint
  rw [typedStart, hv, Word.eq_of_touches hw (List.mem_of_find?_eq_some hv) htouch hpoint]

theorem typedStart_of_forall {c : Cursor}
    (h : ∀ w ∈ Word.all c.content, ¬ (w.start < c.offset ∧ c.offset ≤ w.stop)) :
    c.typedStart = c.offset := by
  have hnone : c.typedWord? = none := by
    rw [typedWord?, List.find?_eq_none]
    intro w hw htouch
    rw [Bool.and_eq_true, decide_eq_true_iff, decide_eq_true_iff] at htouch
    exact h w hw htouch
  rw [typedStart, hnone]

end Cursor

end SqlAssist
