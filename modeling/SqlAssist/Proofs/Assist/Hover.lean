import SqlAssist.Assist.Hover
import SqlAssist.Proofs.Document.Cursor
import SqlAssist.Proofs.Symbol.Catalog
import SqlAssist.Proofs.Token.Document
import SqlAssist.Proofs.Token.Munch

/-!
Hovers and tokens.

A hover is found in three searches that the scanner takes no part in: a position is looked up in
its line, a word is looked up at the cursor and an entry is looked up under the word.  Each of
them is brought to the token that the position lies in.  The token stands on the line of the
position, unless it is a terminator; the word at the cursor is the token's text, or there is
none; and the entry is the one that gave the token its class.
-/

namespace SqlAssist

/-! ## The token on the line of a position -/

namespace Lexicon

/-- A token other than a terminator that contains a place of a line is one of that line's. -/
theorem mem_place_of_contains {x : Lexicon} {text : Text} {t : Token} (ht : t ∈ x.tokens text)
    (hterm : ¬ t.IsTerminator) {line : Nat} {l : Line} (hl : (Text.lines text)[line]? = some l)
    {a b : Text} (hab : l.content = a ++ b)
    (hto : t.contains ((Text.beforeLine text line).width + a.width) = true) :
    ∃ u ∈ Token.place 0 (x.scanLine (x.entryState text line) l.content).lexemes,
      t = { u with start := (Text.beforeLine text line).width + u.start } := by
  obtain ⟨i, l', hl', hi⟩ := exists_line_of_mem_tokens ht
  rcases (mem_tokensOn_iff hl').1 hi with ⟨u, hu, rfl⟩ | ⟨hne, rfl⟩
  · obtain ⟨a', b', hsplit, hstart⟩ := exists_split_of_mem_place hu
    rw [Token.contains_iff, Token.stop] at hto
    simp only [hstart] at hto
    obtain rfl : line = i := Text.line_unique hl hl' hab hsplit hto.1 (Nat.le_of_lt hto.2)
    obtain rfl : l' = l := Option.some.inj (hl'.symm.trans hl)
    exact ⟨u, hu, rfl⟩
  · rcases Text.terminator_cases (List.mem_of_getElem? hl') with h | h | h
    · exact absurd h hne
    · exact absurd (Or.inl h) hterm
    · exact absurd (Or.inr h) hterm

end Lexicon

/-! ## What a hover shows -/

namespace Dialect

theorem hover?_eq_some_iff {d : Dialect} {text : Text} {p : Position} {h : Hover} :
    d.hover? text p = some h ↔
      ∃ c w kind e, Cursor.at? text p = some c ∧ c.pointedWord? = some w ∧
        d.catalog.documented? w.text = some (kind, e) ∧
        h = { markdown := e.markdown kind, range := c.wordRange w } := by
  constructor
  · intro hh
    rw [hover?] at hh
    obtain ⟨c, hc, hh⟩ := Option.bind_eq_some_iff.1 hh
    obtain ⟨w, hw, hh⟩ := Option.bind_eq_some_iff.1 hh
    obtain ⟨⟨kind, e⟩, he, hh⟩ := Option.bind_eq_some_iff.1 hh
    exact ⟨c, w, kind, e, hc, hw, he, (Option.some.inj hh).symm⟩
  · rintro ⟨c, w, kind, e, hc, hw, he, rfl⟩
    rw [hover?, hc, Option.bind_eq_bind, Option.bind_some, hw, Option.bind_eq_bind,
      Option.bind_some, he]
    rfl

/-- Whether the hover at a position shows the token's entry in one role, over the token. -/
def HoversAs (d : Dialect) (kind : SymbolKind) (text : Text) (p : Position) (t : Token) : Prop :=
  ∃ e h, d.catalog.Documents kind t.text e ∧ d.hover? text p = some h ∧
    h.markdown = e.markdown kind ∧ e.ShownIn kind h.markdown ∧
    h.range.Covers text p.line t.start t.stop

/-- A position in a word token hovers over it as what the scanner takes it for, if that is
documented.  No overlap in the catalog makes a difference, because a role that would hide the
documentation also takes the class away. -/
theorem hoversAs_of_classify {d : Dialect} (hd : d.catalog.Built)
    {kind : SymbolKind} (hkind : kind = .function ∨ kind = .windowFunction)
    {text : Text} (hwidth : text.width < UInt32.size) {p : Position} {c : Cursor} {l : Line}
    (hl : (Text.lines text)[c.line.toNat]? = some l) (hat : Cursor.at? text p = some c)
    (hline : c.line = p.line) (hcontent : c.content = l.content) {a b : Text} {u : Token}
    (hsplit : c.content = a ++ u.text ++ b) (hstart : u.start = a.width)
    (hpoint : c.pointedWord? = some ⟨u.text, u.start⟩)
    (hclass : d.catalog.classify u.text = some kind) :
    d.HoversAs kind text p
      { u with start := (Text.beforeLine text c.line.toNat).width + u.start } := by
  obtain ⟨e, he⟩ := Catalog.documented?_of_classify hkind hclass
  refine ⟨e, _, (hd.keyed.documents he).1,
    hover?_eq_some_iff.2 ⟨c, _, kind, e, hat, hpoint, he, rfl⟩, rfl, e.shownIn_markdown kind, ?_⟩
  rw [Cursor.wordRange, Word.stop, Token.stop]
  simp only [hstart, ← hline]
  exact Cursor.covers_rangeOf hwidth hl hcontent hsplit

end Dialect

theorem Catalog.Documents.kind_cases {c : Catalog} {kind : SymbolKind} {word : Text}
    {e : SymbolEntry} (h : c.Documents kind word e) :
    kind = .function ∨ kind = .windowFunction := by
  have hmem := h.declared
  cases kind with
  | function => exact Or.inl rfl
  | windowFunction => exact Or.inr rfl
  | keyword => simp [documentedIn] at hmem
  | dataType => simp [documentedIn] at hmem
  | streamOption => simp [documentedIn] at hmem

theorem TokenClass.ofSymbol?_injective {k? k?' : Option SymbolKind}
    (h : ofSymbol? k? = ofSymbol? k?') : k? = k?' := by
  rcases k? with _ | k
  · rcases k?' with _ | k'
    · rfl
    · cases k' <;> cases h
  · rcases k?' with _ | k'
    · cases k <;> cases h
    · cases k <;> cases k' <;> first | rfl | cases h

/-- Hovers agree with the scanner.  A position in the token of a function or a window function
shows the one entry of that name and role, with the range of the token, and in a catalog without
overlaps a position outside of comments and literals shows nothing else. -/
theorem Dialect.hover_of_token {d : Dialect} (hd : d.catalog.Built)
    (hx : d.lexicon.SeparatesComments) {text : Text} (hwidth : text.width < UInt32.size)
    {p : Position} {o : Nat} (hp : p.offset? text = some o) {t : Token}
    (ht : t ∈ d.lexicon.tokens text) (hto : t.contains o = true) (hterm : ¬ t.IsTerminator) :
    (t.tokenClass = .function → d.HoversAs .function text p t) ∧
    (t.tokenClass = .windowFunction → d.HoversAs .windowFunction text p t) ∧
    (d.catalog.overlaps = [] → t.tokenClass.isOpaque = false →
      (d.hover? text p).isSome = true →
        t.tokenClass = .function ∨ t.tokenClass = .windowFunction) := by
  obtain ⟨l, c, hl, hat, hline, hcontent, rfl⟩ := Position.offset?_eq_some hp
  obtain ⟨front, back, hcursor, hoffset⟩ := c.exists_split
  rw [hoffset] at hto
  obtain ⟨u, hu, rfl⟩ := Lexicon.mem_place_of_contains ht hterm hl (hcontent ▸ hcursor) hto
  rw [← hcontent] at hu
  have huc : u.contains c.offset = true := by rwa [Token.contains_move, ← hoffset] at hto
  have hclass : u.tokenClass.isWord = true →
      u.tokenClass = .ofSymbol? (d.catalog.classify u.text) := fun hword =>
    Lexicon.tokenClass_of_isWord hu hword
  obtain ⟨a, b, hsplit, hstart⟩ := Lexicon.exists_split_of_mem_place hu
  rw [← hline] at hl
  have hshown : ∀ kind, kind = .function ∨ kind = .windowFunction →
      u.tokenClass = .ofSymbol? (some kind) → d.HoversAs kind text p
        { u with start := (Text.beforeLine text p.line.toNat).width + u.start } := by
    intro kind hkind hu'
    have hword : u.tokenClass.isWord = true := hu' ▸ TokenClass.isWord_ofSymbol? _
    rw [← hline]
    exact hoversAs_of_classify hd hkind hwidth hl hat hline hcontent hsplit hstart
      (Cursor.pointedWord?_of_isWord hx hu huc hword)
      (TokenClass.ofSymbol?_injective ((hclass hword).symm.trans hu'))
  refine ⟨hshown .function (Or.inl rfl), hshown .windowFunction (Or.inr rfl), ?_⟩
  intro hoverlaps hvisible hsome
  obtain ⟨h, hh⟩ := Option.isSome_iff_exists.1 hsome
  obtain ⟨c', w, kind, e, hat', hw, he, -⟩ := hover?_eq_some_iff.1 hh
  obtain rfl : c = c' := Option.some.inj (hat.symm.trans hat')
  have hword := Cursor.isWord_of_pointedWord? hx hu huc hvisible hw
  obtain rfl : ⟨u.text, u.start⟩ = w :=
    Option.some.inj ((Cursor.pointedWord?_of_isWord hx hu huc hword).symm.trans hw)
  obtain ⟨hdocuments, hdeclares⟩ := hd.keyed.documents he
  have hkind := hclass hword
  rw [Catalog.classify_of_declares hoverlaps hdeclares] at hkind
  rcases hdocuments.kind_cases with rfl | rfl
  · exact Or.inl hkind
  · exact Or.inr hkind

def Dialect.averaging (windowFunctions : List SymbolEntry) : Dialect :=
  .ofDeclarations {}
    { functions := [⟨['a', 'v', 'g'], "avg(x)".toList, "The mean.".toList, none, .aggregate⟩]
      windowFunctions }

/-- The function behind a number and below a literal that holds its name, although a window
function has the same name; and nothing at the number, when none has. -/
theorem Dialect.averaging_hovers :
    (averaging [⟨['A', 'V', 'G'], [], [], none, .window⟩]).HoversAs .function
      "'avg'\n2Avg(1)".toList ⟨1, 3⟩ ⟨['A', 'v', 'g'], .function, 7⟩ ∧
    ((averaging []).hover? "2avg".toList ⟨0, 0⟩).isSome = false := by
  constructor
  · have hmem : ⟨['A', 'v', 'g'], .function, 7⟩ ∈
        (averaging [⟨['A', 'V', 'G'], [], [], none, .window⟩]).lexicon.tokens
          "'avg'\n2Avg(1)".toList := by
      decide +kernel
    have hoffset : (⟨1, 3⟩ : Position).offset? "'avg'\n2Avg(1)".toList = some 9 := by decide +kernel
    exact (hover_of_token (Catalog.built_toCatalog _) ⟨['*'], '/', rfl, by decide⟩ (by decide)
      hoffset hmem (by decide) (by simp [Token.IsTerminator])).1 rfl
  · have hmem : ⟨['2'], .numberInt, 0⟩ ∈ (averaging []).lexicon.tokens "2avg".toList := by
      decide +kernel
    have hoffset : (⟨0, 0⟩ : Position).offset? "2avg".toList = some 0 := by decide +kernel
    have hoverlaps : (averaging []).catalog.overlaps = [] := by decide +kernel
    refine Bool.eq_false_iff.2 fun hsome => ?_
    have := (hover_of_token (Catalog.built_toCatalog _) ⟨['*'], '/', rfl, by decide⟩
      (by decide) hoffset hmem (by decide) (by simp [Token.IsTerminator])).2.2 hoverlaps rfl hsome
    simp at this

end SqlAssist
