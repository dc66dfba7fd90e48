import Mathlib.Algebra.GroupWithZero.Nat
import Mathlib.Data.List.Nodup
import SqlAssist.Assist.Completion
import SqlAssist.Proofs.Document.Position
import SqlAssist.Proofs.Symbol.Catalog
import SqlAssist.Proofs.Text.Fold

/-!
The order of completions.

Hosts compare sort keys byte by byte.  A key is made of numbers in decimal, and decimal numbers
are in the order of their bytes only where they have the same number of digits.  The group of an
item always has one digit.  Its index is filled up to four, so that the keys keep the order of the
catalog as long as no set has more than ten thousand names: the next index has five digits and
sorts between those of 1000 and 1001.
-/

namespace SqlAssist

/-! ## The order of digits -/

namespace Text

def bytes (t : Text) : List UInt8 := t.flatMap String.utf8EncodeChar

theorem bytes_cons_of_isAscii {c : Char} (hc : c.toNat < 128) (t : Text) :
    bytes (c :: t) = UInt8.ofNat c.toNat :: bytes t := by
  have hle : c.val.toNat ≤ 127 := Nat.le_of_lt_succ hc
  rw [bytes, List.flatMap_cons, String.utf8EncodeChar, if_pos hle]
  rfl

theorem bytes_lt_of_head {c d : Char} (hd : d.toNat < 128) (h : c.toNat < d.toNat) (s t : Text) :
    bytes (c :: s) < bytes (d :: t) := by
  have hc := Nat.lt_trans h hd
  rw [bytes_cons_of_isAscii hc, bytes_cons_of_isAscii hd, List.cons_lt_cons_iff]
  exact Or.inl ((UInt8.ofNat_lt_iff_lt (Nat.lt_trans hc (by decide))
    (Nat.lt_trans hd (by decide))).2 h)

theorem bytes_cons_lt_iff {c : Char} (hc : c.toNat < 128) {s t : Text} :
    bytes (c :: s) < bytes (c :: t) ↔ bytes s < bytes t := by
  rw [bytes_cons_of_isAscii hc, bytes_cons_of_isAscii hc, List.cons_lt_cons_iff]
  simp

theorem ofDigitChars_cons (c : Char) (t : Text) :
    Nat.ofDigitChars 10 (c :: t) 0 = 10 ^ t.length * (c.toNat - 48) + Nat.ofDigitChars 10 t 0 := by
  rw [Nat.ofDigitChars_cons, Nat.ofDigitChars_eq_ofDigitChars_zero, Nat.mul_zero, Nat.zero_add]
  rfl

theorem ofDigitChars_lt {t : Text} (ht : ∀ c ∈ t, c.isDigit = true) :
    Nat.ofDigitChars 10 t 0 < 10 ^ t.length := by
  induction t with
  | nil => exact Nat.one_pos
  | cons c t ih =>
    have hc := Word.isDigit_iff.1 (ht c List.mem_cons_self)
    have ih := ih fun d hd => ht d (List.mem_cons_of_mem c hd)
    have hle : 10 ^ t.length * (c.toNat - 48) ≤ 10 ^ t.length * 9 :=
      Nat.mul_le_mul_left _ (by omega)
    rw [ofDigitChars_cons, List.length_cons, Nat.pow_succ]
    omega

/-- Numbers with the same number of digits are in the order of their bytes. -/
theorem bytes_lt_of_ofDigitChars_lt {s t : Text} (hs : ∀ c ∈ s, c.isDigit = true)
    (ht : ∀ c ∈ t, c.isDigit = true) (hlength : s.length = t.length)
    (h : Nat.ofDigitChars 10 s 0 < Nat.ofDigitChars 10 t 0) : bytes s < bytes t := by
  induction s generalizing t with
  | nil =>
    rw [List.length_eq_zero_iff.1 hlength.symm] at h
    exact absurd h (Nat.lt_irrefl _)
  | cons c s ih =>
    obtain ⟨d, t, rfl⟩ := List.exists_cons_of_length_eq_add_one hlength.symm
    have hc := Word.isDigit_iff.1 (hs c List.mem_cons_self)
    have hd := Word.isDigit_iff.1 (ht d List.mem_cons_self)
    have hs' : ∀ e ∈ s, e.isDigit = true := fun e he => hs e (List.mem_cons_of_mem c he)
    have ht' : ∀ e ∈ t, e.isDigit = true := fun e he => ht e (List.mem_cons_of_mem d he)
    have hlength' : s.length = t.length := Nat.succ.inj hlength
    rw [ofDigitChars_cons, ofDigitChars_cons, hlength'] at h
    rcases Nat.lt_trichotomy c.toNat d.toNat with hlt | heq | hgt
    · exact bytes_lt_of_head (by omega) hlt s t
    · obtain rfl : c = d := Char.toNat_inj.1 heq
      exact (bytes_cons_lt_iff (by omega)).2 (ih hs' ht' hlength' (by omega))
    -- a greater first digit outweighs all digits behind it
    · have hle : 10 ^ t.length * (d.toNat - 48 + 1) ≤ 10 ^ t.length * (c.toNat - 48) :=
        Nat.mul_le_mul_left _ (by omega)
      have hrest := ofDigitChars_lt ht'
      rw [Nat.mul_add] at hle
      omega

end Text

/-! ## Sort keys -/

namespace CompletionItem

theorem isDigit_of_mem_paddedIndex {n : Nat} : ∀ c ∈ paddedIndex n, c.isDigit = true := by
  intro c hc
  rw [paddedIndex, List.leftpad, List.mem_append] at hc
  rcases hc with hc | hc
  · rw [List.eq_of_mem_replicate hc]
    rfl
  · exact Nat.isDigit_of_mem_toDigits (by decide) (by decide) hc

theorem ofDigitChars_paddedIndex (n : Nat) : Nat.ofDigitChars 10 (paddedIndex n) 0 = n := by
  rw [paddedIndex, List.leftpad, Nat.ofDigitChars_append, Nat.ofDigitChars_replicate_zero,
    Nat.mul_zero, Nat.ofDigitChars_ten_toDigits]

theorem length_paddedIndex {n : Nat} (h : n < 10000) : (paddedIndex n).length = 4 := by
  have hle := (Nat.length_toDigits_le_iff (b := 10) (k := 4) (by decide) (by decide)).2 h
  rw [paddedIndex, List.length_leftpad]
  exact Nat.max_eq_left hle

theorem paddedIndex_lt {i j : Nat} (h : i < j) (hj : j < 10000) :
    Text.bytes (paddedIndex i) < Text.bytes (paddedIndex j) := by
  refine Text.bytes_lt_of_ofDigitChars_lt isDigit_of_mem_paddedIndex isDigit_of_mem_paddedIndex
    ?_ ?_
  · rw [length_paddedIndex (Nat.lt_trans h hj), length_paddedIndex hj]
  · rwa [ofDigitChars_paddedIndex, ofDigitChars_paddedIndex]

theorem sortKey_eq (k : SymbolKind) (index : Nat) :
    sortKey k index = Nat.digitChar k.sortGroup :: '_' :: paddedIndex index := by
  cases k <;> rfl

theorem sortKey_lt_of_sortGroup_lt {k k' : SymbolKind} (h : k.sortGroup < k'.sortGroup)
    (i j : Nat) : (sortKey k i).bytes < (sortKey k' j).bytes := by
  rw [sortKey_eq, sortKey_eq]
  refine Text.bytes_lt_of_head ?_ ?_ _ _
  · cases k' <;> decide
  · revert h
    cases k <;> cases k' <;> decide

theorem sortKey_lt_iff (k : SymbolKind) (i j : Nat) : (sortKey k i).bytes < (sortKey k j).bytes ↔
    Text.bytes (paddedIndex i) < Text.bytes (paddedIndex j) := by
  have hgroup : (Nat.digitChar k.sortGroup).toNat < 128 := by cases k <;> decide
  rw [sortKey_eq, sortKey_eq, Text.bytes_cons_lt_iff hgroup, Text.bytes_cons_lt_iff (by decide)]

/-- The keys of a group are in order as long as all indices have four digits. -/
theorem pairwise_sortKey_iff (k : SymbolKind) (n : Nat) :
    (((List.range n).map (sortKey k)).Pairwise fun s t => s.bytes < t.bytes) ↔ n ≤ 10000 := by
  rw [List.pairwise_map]
  constructor
  · intro h
    refine Nat.le_of_not_lt fun hn => ?_
    -- the first index of five digits starts with a one, and the one before it with a nine
    have hlt := List.pairwise_iff_getElem.1 h 9999 10000 (by simp; omega) (by simp; omega)
      (by decide)
    rw [List.getElem_range, List.getElem_range, sortKey_lt_iff] at hlt
    exact absurd hlt (by decide +kernel)
  · intro hn
    refine List.pairwise_lt_range.imp_of_mem fun hi hj hlt => ?_
    rw [List.mem_range] at hj
    exact (sortKey_lt_iff k _ _).2 (paddedIndex_lt hlt (Nat.lt_of_lt_of_le hj hn))

theorem map_sortText_ofNames (range : Range) (k : SymbolKind) (names : List Text) :
    (ofNames range k names).map sortText = (List.range names.length).map (sortKey k) := by
  rw [List.range_eq_range', ← List.zipIdx_map_snd, ofNames, List.map_map, List.map_map]
  rfl

theorem map_sortText_ofEntries (range : Range) (k : SymbolKind) (entries : List SymbolEntry) :
    (ofEntries range k entries).map sortText = (List.range entries.length).map (sortKey k) := by
  rw [List.range_eq_range', ← List.zipIdx_map_snd, ofEntries, List.map_map, List.map_map]
  rfl

theorem map_label_ofNames (range : Range) (k : SymbolKind) (names : List Text) :
    (ofNames range k names).map label = names := by
  rw [ofNames, List.map_map]
  exact List.zipIdx_map_fst 0 names

theorem map_label_ofEntries (range : Range) (k : SymbolKind) (entries : List SymbolEntry) :
    (ofEntries range k entries).map label = entries.map SymbolEntry.name := by
  conv_rhs => rw [← List.zipIdx_map_fst 0 entries, List.map_map]
  rw [ofEntries, List.map_map]
  rfl

end CompletionItem

/-! ## Names that are declared for the first time -/

theorem NameTable.keys_foldl_declare {names : List Text} (t : NameTable Text)
    (h : (t.keys ++ names.map Text.fold).Nodup) :
    (names.foldl (fun t name => t.declare name name) t).keys = t.keys ++ names.map Text.fold := by
  induction names generalizing t with
  | nil => simp
  | cons name names ih =>
    rw [List.map_cons, List.append_cons] at h
    have hnew : Text.fold name ∉ t.keys := by
      intro hmem
      exact (List.nodup_append.1 (List.nodup_append.1 h).1).2.2 _ hmem _ List.mem_cons_self rfl
    have hkeys : (t.declare name name).keys = t.keys ++ [Text.fold name] := by
      rw [keys_declare, if_neg hnew]
    rw [List.foldl_cons, ih _ (by rwa [hkeys]), hkeys, ← List.append_cons, List.map_cons]

theorem Catalog.foldl_addKeyword (names : List Text) (c : Catalog) :
    names.foldl addKeyword c =
      { c with keywords := names.foldl (fun t name => t.declare name name) c.keywords } := by
  induction names generalizing c with
  | nil => rfl
  | cons name names ih => rw [List.foldl_cons, ih]; rfl

/-! ## The items of a catalog -/

namespace Catalog

def labels (c : Catalog) : SymbolKind → List Text
  | .keyword => c.keywords.values
  | .dataType => c.dataTypes.values
  | .streamOption => c.streamOptions.values
  | .function => c.functions.values.map SymbolEntry.name
  | .windowFunction => c.windowFunctions.values.map SymbolEntry.name

theorem length_labels (c : Catalog) (k : SymbolKind) :
    (c.labels k).length = (c.names k).length := by
  cases k <;> simp [labels, names, NameTable.values, NameTable.keys]

theorem map_sortText_completionItems (c : Catalog) (range : Range) :
    (c.completionItems range).map CompletionItem.sortText =
      SymbolKind.precedence.flatMap fun k =>
        (List.range (c.names k).length).map (CompletionItem.sortKey k) := by
  simp only [← length_labels, completionItems, List.map_append,
    CompletionItem.map_sortText_ofNames, CompletionItem.map_sortText_ofEntries,
    SymbolKind.precedence, List.flatMap_cons, List.flatMap_nil, List.append_nil, labels,
    List.length_map, List.append_assoc]

theorem map_label_completionItems (c : Catalog) (range : Range) :
    (c.completionItems range).map CompletionItem.label =
      SymbolKind.precedence.flatMap c.labels := by
  simp only [completionItems, List.map_append, CompletionItem.map_label_ofNames,
    CompletionItem.map_label_ofEntries, SymbolKind.precedence, List.flatMap_cons, List.flatMap_nil,
    List.append_nil, labels, List.append_assoc]

/-- Whether no set has so many names that an index is longer than its padding. -/
def FitsPadding (c : Catalog) : Prop := ∀ k, (c.names k).length ≤ 10000

theorem pairwise_sortText_iff (c : Catalog) (range : Range) :
    ((c.completionItems range).Pairwise fun a b => a.sortText.bytes < b.sortText.bytes) ↔
      c.FitsPadding := by
  have hgroups : SymbolKind.precedence.Pairwise fun k k' => k.sortGroup < k'.sortGroup := by decide
  have hmap := List.pairwise_map (f := CompletionItem.sortText) (l := c.completionItems range)
    (R := fun s t => s.bytes < t.bytes)
  rw [← hmap, map_sortText_completionItems, List.pairwise_flatMap]
  simp only [CompletionItem.pairwise_sortKey_iff]
  constructor
  · rintro ⟨hsizes, -⟩ k
    exact hsizes k k.mem_precedence
  · intro h
    refine ⟨fun k _ => h k, hgroups.imp fun hlt s hs t ht => ?_⟩
    obtain ⟨i, -, rfl⟩ := List.mem_map.1 hs
    obtain ⟨j, -, rfl⟩ := List.mem_map.1 ht
    exact CompletionItem.sortKey_lt_of_sortGroup_lt hlt i j

end Catalog

/-- Items in strict order are the one list of them that is sorted. -/
theorem CompletionItem.eq_of_perm_of_sorted {items shown : List CompletionItem}
    (hstrict : items.Pairwise fun a b => a.sortText.bytes < b.sortText.bytes)
    (hperm : shown.Perm items)
    (hsorted : shown.Pairwise fun a b => a.sortText.bytes ≤ b.sortText.bytes) : shown = items := by
  have hkeys : ∀ a ∈ items, ∀ b ∈ items, a.sortText.bytes = b.sortText.bytes → a = b := by
    refine List.Pairwise.forall_of_forall_of_flip (fun _ _ _ => rfl)
      (hstrict.imp fun hlt heq => ?_) (hstrict.imp fun hlt heq => ?_)
    · rw [heq] at hlt
      exact absurd hlt (List.lt_irrefl _)
    · rw [heq] at hlt
      exact absurd hlt (List.lt_irrefl _)
  refine hperm.eq_of_pairwise (fun a b ha hb hle hge => ?_) hsorted
    (hstrict.imp fun hlt => List.le_of_lt hlt)
  exact hkeys a (hperm.mem_iff.1 ha) b hb (List.le_antisymm hle hge)

/-! ## Completions at a position -/

namespace Dialect

theorem completions_of_isIn (d : Dialect) {document : Text} {p : Position} (h : p.IsIn document) :
    ∃ range, d.completions document p = d.catalog.completionItems range := by
  obtain ⟨o, ho⟩ := Position.isIn_iff.1 h
  obtain ⟨-, c, -, hat, -⟩ := Position.offset?_eq_some ho
  exact ⟨c.typedRange, by rw [completions, hat]⟩

/-- The completions at a position stand in the order of roles and, in each role, of declaration.
Their keys are strictly increasing exactly where no set has more than ten thousand names, and then
sorting the items by their keys, in whatever order they come, gives back the same order. -/
theorem completions_sorted_iff (d : Dialect) {document : Text} {p : Position}
    (hp : p.IsIn document) :
    (d.completions document p).map CompletionItem.label =
        SymbolKind.precedence.flatMap d.catalog.labels ∧
      (((d.completions document p).Pairwise fun a b => a.sortText.bytes < b.sortText.bytes) ↔
        d.catalog.FitsPadding) ∧
      (d.catalog.FitsPadding → ∀ shown : List CompletionItem,
        shown.Perm (d.completions document p) →
        (shown.Pairwise fun a b => a.sortText.bytes ≤ b.sortText.bytes) →
        shown = d.completions document p) := by
  obtain ⟨range, hitems⟩ := d.completions_of_isIn hp
  rw [hitems]
  have hiff := d.catalog.pairwise_sortText_iff range
  exact ⟨d.catalog.map_label_completionItems range, hiff, fun hfits shown hperm hsorted =>
    CompletionItem.eq_of_perm_of_sorted (hiff.2 hfits) hperm hsorted⟩

/-! ## As many names as the padding has room for, and one more -/

/-- A dialect of keywords that are a letter and a number. -/
def numbered (n : Nat) : Dialect :=
  .ofDeclarations {} { keywords := (List.range n).map fun i => 'k' :: Nat.toDigits 10 i }

theorem fold_numbered (i : Nat) :
    Text.fold ('k' :: Nat.toDigits 10 i) = 'k' :: Nat.toDigits 10 i := by
  have hcaseless : Text.Caseless (Nat.toDigits 10 i) := by
    intro c hc
    have hdigit := Word.isDigit_iff.1 (Nat.isDigit_of_mem_toDigits (by decide) (by decide) hc)
    refine Bool.eq_false_iff.2 fun halpha => ?_
    have hstart := Word.isStart_iff.1 (show Word.isStart c = true by rw [Word.isStart, halpha]; rfl)
    omega
  rw [Text.fold_cons, (Text.fold_eq_iff hcaseless).2 rfl]
  rfl

theorem names_numbered (n : Nat) :
    (numbered n).catalog.names .keyword = (List.range n).map fun i => 'k' :: Nat.toDigits 10 i := by
  have hkeys : ((List.range n).map fun i => 'k' :: Nat.toDigits 10 i).map Text.fold =
      (List.range n).map fun i => 'k' :: Nat.toDigits 10 i := by
    rw [List.map_map]
    exact List.map_congr_left fun i _ => fold_numbered i
  have hdistinct : ((List.range n).map fun i => 'k' :: Nat.toDigits 10 i).Nodup := by
    refine List.Nodup.map (fun i j h => ?_) List.nodup_range
    have hvalues := congrArg (fun t => Nat.ofDigitChars 10 t 0) (List.cons.inj h).2
    simpa using hvalues
  show (Catalog.keywords (List.foldl Catalog.addKeyword Catalog.empty _)).keys = _
  rw [Catalog.foldl_addKeyword, NameTable.keys_foldl_declare]
  · rw [hkeys]
    rfl
  · rw [hkeys]
    exact hdistinct

theorem fitsPadding_numbered_iff (n : Nat) : (numbered n).catalog.FitsPadding ↔ n ≤ 10000 := by
  have hlength : ((numbered n).catalog.names .keyword).length = n := by
    rw [names_numbered, List.length_map, List.length_range]
  have hempty : ∀ k, k ≠ .keyword → (numbered n).catalog.names k = [] := by
    intro k hk
    show (List.foldl Catalog.addKeyword Catalog.empty _).names k = []
    rw [Catalog.foldl_addKeyword]
    cases k <;> first | exact absurd rfl hk | rfl
  constructor
  · intro h
    rw [← hlength]
    exact h .keyword
  · intro h k
    by_cases hk : k = .keyword
    · rw [hk, hlength]
      exact h
    · rw [hempty k hk]
      exact Nat.zero_le _

theorem isIn_start (document : Text) : (⟨0, 0⟩ : Position).IsIn document :=
  ⟨Text.lineCount_pos document, fun _ _ => Nat.zero_le _⟩

/-- The last catalog of keywords whose keys are in order. -/
theorem completions_sorted_numbered :
    ((numbered 10000).completions [] ⟨0, 0⟩).Pairwise fun a b =>
      a.sortText.bytes < b.sortText.bytes :=
  ((numbered 10000).completions_sorted_iff (isIn_start [])).2.1.2
    ((fitsPadding_numbered_iff 10000).2 (Nat.le_refl _))

/-- With one keyword more they are not. -/
theorem not_completions_sorted : ¬ ∀ (d : Dialect) (document : Text) (p : Position),
    p.IsIn document → (d.completions document p).Pairwise fun a b =>
      a.sortText.bytes < b.sortText.bytes := by
  intro h
  have hsorted := h (numbered 10001) [] ⟨0, 0⟩ (isIn_start [])
  obtain ⟨range, hitems⟩ := (numbered 10001).completions_of_isIn (isIn_start [])
  rw [hitems, Catalog.pairwise_sortText_iff, fitsPadding_numbered_iff] at hsorted
  exact absurd hsorted (by decide)

end Dialect
end SqlAssist
