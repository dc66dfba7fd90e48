import SqlAssist.Proofs.Document.Cursor
import SqlAssist.Proofs.Document.Edit
import SqlAssist.Proofs.Symbol.Catalog
import SqlAssist.Session.Basic

/-!
Accepting a completion.

An item is tied to a range of columns, and accepting it looks the two ends of the range up again,
as places in the document.  The typed part of a word is found by bytes in its line, so that it
takes three conversions to get back to where the cursor was.  They lose nothing, because the
typed part ends at a cursor whose column was a 32-bit word in the first place, and its start is
in front of that.
-/

namespace SqlAssist

/-! ## What an item is made from -/

theorem Catalog.exists_ofSymbol {c : Catalog} {range : Range} {item : CompletionItem}
    (h : item ∈ c.completionItems range) :
    ∃ k name e? index, item = .ofSymbol range k name e? index ∧
      ∀ e, e? = some e → e ∈ c.documentedIn k ∧ name = e.name := by
  have hnames : ∀ k names, item ∈ CompletionItem.ofNames range k names →
      ∃ k name e? index, item = .ofSymbol range k name e? index ∧
        ∀ e, e? = some e → e ∈ c.documentedIn k ∧ name = e.name := by
    intro k names hitem
    obtain ⟨⟨name, index⟩, -, rfl⟩ := List.mem_map.1 hitem
    exact ⟨k, name, none, index, rfl, by simp⟩
  have hentries : ∀ k, item ∈ CompletionItem.ofEntries range k (c.documentedIn k) →
      ∃ k name e? index, item = .ofSymbol range k name e? index ∧
        ∀ e, e? = some e → e ∈ c.documentedIn k ∧ name = e.name := by
    intro k hitem
    obtain ⟨⟨e, index⟩, he, rfl⟩ := List.mem_map.1 hitem
    refine ⟨k, e.name, some e, index, rfl, ?_⟩
    intro e' he'
    obtain rfl := Option.some.inj he'
    exact ⟨(List.mem_zipIdx' he).2 ▸ List.getElem_mem _, rfl⟩
  simp only [completionItems, List.mem_append] at h
  rcases h with (((h | h) | h) | h) | h
  · exact hnames _ _ h
  · exact hnames _ _ h
  · exact hnames _ _ h
  · exact hentries .function h
  · exact hentries .windowFunction h

theorem Dialect.edit_of_mem_completions {d : Dialect} {text : Text} {p : Position} {c : Cursor}
    (hat : Cursor.at? text p = some c) {item : CompletionItem} (h : item ∈ d.completions text p) :
    item.edit = ⟨c.typedRange, item.insertText⟩ := by
  rw [completions, hat] at h
  obtain ⟨k, name, e?, index, rfl, -⟩ := Catalog.exists_ofSymbol h
  rfl

/-- An item that has documentation shows the entry that it is labelled with. -/
theorem Dialect.shownIn_documentation {d : Dialect} {text : Text} {p : Position}
    {item : CompletionItem} (h : item ∈ d.completions text p) {shown : Text}
    (hshown : item.documentation? = some shown) :
    ∃ k, ∃ e ∈ d.catalog.documentedIn k, item.label = e.name ∧ e.ShownIn k shown := by
  rw [completions] at h
  split at h
  · simp at h
  · obtain ⟨k, name, e?, index, rfl, hentry⟩ := Catalog.exists_ofSymbol h
    obtain ⟨e, he, rfl⟩ := Option.map_eq_some_iff.1 hshown
    obtain ⟨hmem, hname⟩ := hentry e he
    exact ⟨k, e, hmem, hname, e.shownIn_markdown k⟩

namespace Cursor

/-- Whether a document falls into the part of a word that is typed at a cursor, the text before
it and the text after it. -/
structure Types (c : Cursor) (text before typed after : Text) : Prop where
  split : text = before ++ typed ++ after
  stop : (before ++ typed).width = (Text.beforeLine text c.line.toNat).width + c.offset
  /-- The typed part starts where the word starts that the cursor is inside of or behind. -/
  word : ∀ w ∈ Word.all c.content, w.start < c.offset → c.offset ≤ w.stop →
    before.width = (Text.beforeLine text c.line.toNat).width + w.start
  noWord : (∀ w ∈ Word.all c.content, ¬ (w.start < c.offset ∧ c.offset ≤ w.stop)) → typed = []

/-- The document around a cursor, and the range of what is typed there.  No length is too large
for the range, because it ends in the column that the cursor was asked for. -/
theorem exists_types {text : Text} {p : Position} {c : Cursor} (h : Cursor.at? text p = some c) :
    ∃ before after, c.Types text before c.typed after ∧ c.typedRange.stop = p ∧
      c.typedRange.Covers text p.line before.width
        ((Text.beforeLine text p.line.toNat).width + c.offset) := by
  obtain ⟨l, hl, hline, hcontent, hcolumn⟩ := at?_eq_some h
  obtain ⟨a, b, rest, hsplit, hstart, hoffset, hlength⟩ := c.exists_typed
  obtain ⟨after, htext⟩ := Text.eq_beforeLine_append hl
  have htyped := typed_eq hsplit hstart hoffset
  have hsize : a.length + b.length < UInt32.size := by
    rw [← hlength, hcolumn]
    exact p.character.toNat_lt
  have hrange : c.typedRange = c.rangeOf a.width (a.width + b.width) := by
    rw [typedRange, hstart, hoffset]
  rw [← hline] at hl
  have hcovers := covers_rangeOf_of_length_lt hl hcontent hsplit hsize
  rw [← hrange, hline, Nat.add_assoc, ← hoffset, ← Text.width_append] at hcovers
  refine ⟨Text.beforeLine text p.line.toNat ++ a, rest ++ (l.terminator ++ after), ?_, ?_, hcovers⟩
  · refine ⟨?_, ?_, fun w hw hbefore htouch => ?_, fun hnone => ?_⟩
    · rw [htyped]
      conv_lhs => rw [htext, ← hcontent, hsplit]
      simp only [List.append_assoc]
    · rw [htyped, hline, hoffset, Text.width_append, Text.width_append, Nat.add_assoc]
    · rw [hline, Text.width_append, ← hstart, typedStart_of_mem hw ⟨hbefore, htouch⟩]
    · have hsame := typedStart_of_forall hnone
      rw [htyped]
      by_contra hne
      have := Text.width_pos hne
      omega
  · rw [hrange, c.rangeOf_append hsplit, hline]
    have hstop : a.length.toUInt32 + b.length.toUInt32 = p.character := by
      rw [← UInt32.toNat_inj, toNat_add_toUInt32 hsize, List.length_append, ← hlength, hcolumn]
    rw [hstop]

end Cursor

/-! ## Edits by positions -/

namespace Session

variable {μ : Type} {s : Session μ}

theorem positionToOffset_of_offset? {b : Buffer} {p : Position} {o : Nat}
    (h : p.offset? b.text = some o) : b.positionToOffset p = .ok o := by
  rw [Buffer.positionToOffset, h]

/-- An edit of a range that covers a piece of the text replaces that piece. -/
theorem applyTextEdit_of_covers {before was after : Text} (hsplit : s.text = before ++ was ++ after)
    {e : TextEdit} {line : UInt32}
    (hcovers : e.range.Covers s.text line before.width (before ++ was).width) :
    ∃ s', s.applyTextEdit e = .ok s' ∧ s'.text = before ++ e.newText ++ after ∧
      s'.buffer.changes = s.buffer.changes ++ [⟨before.width, was, e.newText⟩] := by
  obtain ⟨b, hreplace, htext, hchanges⟩ : ∃ b,
      s.buffer.replace before.width (before ++ was).width e.newText = .ok b ∧
        b.text = before ++ e.newText ++ after ∧
        b.changes = s.buffer.changes ++ [⟨before.width, was, e.newText⟩] :=
    ⟨_, Buffer.replace_eq_ok_iff.2 ⟨before, was, after, hsplit, rfl, rfl, rfl⟩, rfl, rfl⟩
  have hstart : s.buffer.positionToOffset e.range.start = .ok before.width :=
    positionToOffset_of_offset? hcovers.start_offset
  have hstop : s.buffer.positionToOffset e.range.stop = .ok (before ++ was).width :=
    positionToOffset_of_offset? hcovers.stop_offset
  refine ⟨s.edited before.width b, ?_, htext, hchanges⟩
  rw [applyTextEdit, hstart, hstop]
  show s.replace before.width (before ++ was).width e.newText = _
  rw [replace, hreplace]
  rfl

/-- Accepting a completion replaces exactly what is typed.  All completions at a place of the
document have the same range, which ends at that place and lies on its line, and accepting any of
them puts its text where the typed part of the word was.  One change is recorded. -/
theorem applyTextEdit_completion {d : Dialect}
    (hstock : s.providers.completion? = some d.completionProvider) {p : Position} {o : Nat}
    (hp : p.offset? s.text = some o) :
    ∃ c before after, Cursor.at? s.text p = some c ∧ c.Types s.text before c.typed after ∧
      (before ++ c.typed).width = o ∧
      ∀ item ∈ s.completions p,
        item.edit.range = c.typedRange ∧ c.typedRange.Covers s.text p.line before.width o ∧
        c.typedRange.stop = p ∧
        ∃ s', s.applyTextEdit item.edit = .ok s' ∧
          s'.text = before ++ item.edit.newText ++ after ∧
          s'.buffer.changes =
            s.buffer.changes ++ [⟨before.width, c.typed, item.insertText⟩] := by
  obtain ⟨l, c, -, hat, hline, -, rfl⟩ := Position.offset?_eq_some hp
  obtain ⟨before, after, htypes, hstop, hcovers⟩ := Cursor.exists_types hat
  have hwidth : (before ++ c.typed).width =
      (Text.beforeLine s.text p.line.toNat).width + c.offset := by rw [htypes.stop, hline]
  refine ⟨c, before, after, hat, htypes, hwidth, fun item hitem => ?_⟩
  rw [completions, hstock] at hitem
  have hedit : item.edit = ⟨c.typedRange, item.insertText⟩ :=
    Dialect.edit_of_mem_completions (d := d) hat hitem
  refine ⟨by rw [hedit], hcovers, hstop, ?_⟩
  rw [← hwidth] at hcovers
  rw [hedit]
  exact applyTextEdit_of_covers htypes.split hcovers

/-- The end of a name is typed behind a character of two bytes. -/
theorem applyTextEdit_completion_averaging :
    let d : Dialect := .ofDeclarations {}
      { functions := [⟨['a', 'v', 'g'], "avg(x)".toList, "The mean.".toList, none, .aggregate⟩] }
    let s : Session Unit := ofText "SELECT 'é', ag FROM demo".toList d
    s.providers.completion? = some d.completionProvider ∧
      (⟨0, 14⟩ : Position).offset? s.text = some 15 ∧
      ∃ item ∈ s.completions ⟨0, 14⟩, ∃ s', s.applyTextEdit item.edit = .ok s' ∧
        s'.buffer.changes = [⟨13, ['a', 'g'], "avg($1)".toList⟩] := by
  intro d s
  have hp : (⟨0, 14⟩ : Position).offset? s.text = some 15 := by decide +kernel
  have htyped : (Cursor.at? s.text ⟨0, 14⟩).map Cursor.typed = some ['a', 'g'] := by
    decide +kernel
  have hitem : ∃ item ∈ s.completions ⟨0, 14⟩, item.insertText = "avg($1)".toList := by
    decide +kernel
  obtain ⟨c, before, after, hat, htypes, hwidth, hall⟩ :=
    applyTextEdit_completion (s := s) (d := d) rfl hp
  obtain ⟨item, hmem, htext⟩ := hitem
  obtain ⟨-, -, -, s', hs', -, hchanges⟩ := hall item hmem
  refine ⟨rfl, hp, item, hmem, s', hs', ?_⟩
  rw [hat] at htyped
  have hc : c.typed = ['a', 'g'] := Option.some.inj htyped
  have hbefore : before.width = 13 := by
    rw [hc, Text.width_append] at hwidth
    exact Nat.add_right_cancel hwidth
  rw [hchanges, hc, htext, hbefore]
  rfl

end Session

end SqlAssist
