import SqlAssist.Proofs.Text.Lines

/-!
Lowering the letters of a text.

`fold` changes characters one by one and only the twenty-six upper-case letters of ASCII.  A
function of single characters is therefore blind to it as soon as it takes the same value on each
of these letters and on its lower form, which is a finite check (`apply_toLower`).  Lengths and
widths stay, so places in a folded text are places in the text itself, and a line feed stays a line
feed.  What is looked for in a text is found at the same places if it has no letter in it.
-/

namespace SqlAssist
namespace Text

/-! ## Characters -/

/-- The characters that folding changes. -/
def upperLetters : List Char := (List.range 26).map fun i => Char.ofNat (65 + i)

theorem toLower_eq_or_mem (c : Char) : c.toLower = c ∨ c ∈ upperLetters := by
  by_cases h : c.val ≥ 'A'.val ∧ c.val ≤ 'Z'.val
  · have hval : c.val.toNat = c.toNat := rfl
    simp only [ge_iff_le, UInt32.le_iff_toNat_le, hval, UInt32.reduceToNat, Char.reduceVal] at h
    refine Or.inr (List.mem_map.2 ⟨c.toNat - 65, List.mem_range.2 (by omega), ?_⟩)
    rw [Nat.add_sub_cancel' h.1, Char.ofNat_toNat]
  · exact Or.inl (dif_neg h)

/-- A function of characters that takes upper-case letters like their lower forms is blind to
folding. -/
theorem apply_toLower {α : Type} {f : Char → α}
    (h : upperLetters.map (fun c => f c.toLower) = upperLetters.map f) (c : Char) :
    f c.toLower = f c := by
  rcases toLower_eq_or_mem c with hsame | hupper
  · rw [hsame]
  · exact List.map_inj_left.1 h c hupper

theorem toLower_toLower (c : Char) : c.toLower.toLower = c.toLower :=
  apply_toLower (f := Char.toLower) (by decide) c

theorem utf8Size_toLower (c : Char) : c.toLower.utf8Size = c.utf8Size :=
  apply_toLower (f := Char.utf8Size) (by decide) c

theorem isDigit_toLower (c : Char) : c.toLower.isDigit = c.isDigit :=
  apply_toLower (f := Char.isDigit) (by decide) c

/-- Only itself is lowered to a character that is no letter. -/
theorem toLower_eq_iff {c d : Char} (hc : c.isAlpha = false) : d.toLower = c ↔ d = c := by
  have hletters : upperLetters.all (fun d => d.isAlpha && d.toLower.isAlpha) = true := by decide
  rcases toLower_eq_or_mem d with hsame | hupper
  · rw [hsame]
  · obtain ⟨hd, hlower⟩ := Bool.and_eq_true_iff.1 (List.all_eq_true.1 hletters d hupper)
    constructor
    · rintro rfl
      rw [hc] at hlower
      simp at hlower
    · rintro rfl
      rw [hc] at hd
      simp at hd

/-! ## Texts -/

/-- Whether a text has no letter of ASCII in it, so that folding leaves it alone. -/
def Caseless (t : Text) : Prop := ∀ c ∈ t, c.isAlpha = false

instance (t : Text) : Decidable t.Caseless := List.decidableBAll _ t

theorem fold_cons (c : Char) (t : Text) : fold (c :: t) = c.toLower :: fold t := rfl

theorem fold_append (a b : Text) : fold (a ++ b) = fold a ++ fold b := List.map_append

theorem fold_fold (t : Text) : fold (fold t) = fold t := by
  rw [fold, fold, List.map_map]
  exact List.map_congr_left fun c _ => toLower_toLower c

theorem take_fold (t : Text) (n : Nat) : (fold t).take n = fold (t.take n) :=
  List.map_take.symm

theorem drop_fold (t : Text) (n : Nat) : (fold t).drop n = fold (t.drop n) :=
  List.map_drop.symm

theorem mem_fold_iff {c : Char} (hc : c.isAlpha = false) {t : Text} : c ∈ fold t ↔ c ∈ t := by
  rw [fold, List.mem_map]
  constructor
  · rintro ⟨d, hd, hdc⟩
    rwa [← (toLower_eq_iff hc).1 hdc]
  · intro h
    exact ⟨c, h, (toLower_eq_iff hc).2 rfl⟩

theorem fold_eq_iff {t u : Text} (hu : u.Caseless) : fold t = u ↔ t = u := by
  induction u generalizing t with
  | nil => rw [fold, List.map_eq_nil_iff]
  | cons c u ih =>
    cases t with
    | nil => simp
    | cons d t =>
      rw [fold_cons, List.cons.injEq, List.cons.injEq, toLower_eq_iff (hu c List.mem_cons_self),
        ih fun e he => hu e (List.mem_cons_of_mem c he)]

theorem isEmpty_fold (t : Text) : (fold t).isEmpty = t.isEmpty := by cases t <;> rfl

theorem width_fold (t : Text) : width (fold t) = width t := by
  induction t with
  | nil => rfl
  | cons c rest ih => rw [fold_cons, width_cons, width_cons, utf8Size_toLower, ih]

theorem charsBefore_fold (t : Text) (offset : Nat) :
    charsBefore (fold t) offset = charsBefore t offset := by
  induction t generalizing offset with
  | nil => rfl
  | cons c rest ih =>
    cases offset with
    | zero => rfl
    | succ n => rw [fold_cons, charsBefore, charsBefore, utf8Size_toLower, ih]

theorem slice_fold (t : Text) (start stop : Nat) :
    slice (fold t) start stop = fold (slice t start stop) := by
  rw [slice, slice, charsBefore_fold, charsBefore_fold, take_fold, drop_fold]

theorem takeWhile_fold {p : Char → Bool} (h : ∀ c, p c.toLower = p c) (t : Text) :
    (fold t).takeWhile p = fold (t.takeWhile p) := by
  induction t with
  | nil => rfl
  | cons c rest ih =>
    rw [fold_cons, List.takeWhile_cons, List.takeWhile_cons, h]
    split
    · rw [ih, fold_cons]
    · rfl

/-! ## Looking for a text without letters -/

section Needle

variable {needle : Text}

theorem isPrefixOf_fold (h : needle.Caseless) (t : Text) :
    needle.isPrefixOf (fold t) = needle.isPrefixOf t := by
  induction needle generalizing t with
  | nil => rw [List.isPrefixOf, List.isPrefixOf]
  | cons c needle ih =>
    cases t with
    | nil => rfl
    | cons d t =>
      have hhead : (c == d.toLower) = (c == d) := by
        rw [Bool.eq_iff_iff, beq_iff_eq, beq_iff_eq, eq_comm,
          toLower_eq_iff (h c List.mem_cons_self), eq_comm]
      rw [fold_cons, List.isPrefixOf, List.isPrefixOf, hhead,
        ih fun e he => h e (List.mem_cons_of_mem c he)]

theorem search?_fold (h : needle.Caseless) (t : Text) :
    search? needle (fold t) = search? needle t := by
  induction t with
  | nil => rfl
  | cons c rest ih =>
    rw [fold_cons, search?, search?, ← fold_cons, isPrefixOf_fold h, ih]

end Needle

end Text

/-! ## Lines -/

namespace Line

def fold (l : Line) : Line := ⟨Text.fold l.content, Text.fold l.terminator⟩

theorem terminated_fold (body : Text) : terminated (Text.fold body) = (terminated body).fold := by
  have hlast : (Text.fold body).getLast? = some '\r' ↔ body.getLast? = some '\r' := by
    rw [Text.fold, List.getLast?_map, Option.map_eq_some_iff]
    constructor
    · rintro ⟨c, hc, hlower⟩
      rw [hc, (Text.toLower_eq_iff rfl).1 hlower]
    · intro h
      exact ⟨'\r', h, rfl⟩
  rw [terminated, terminated]
  by_cases h : body.getLast? = some '\r'
  · rw [if_pos h, if_pos (hlast.2 h), fold, Text.fold, Text.fold, List.map_dropLast]
    rfl
  · rw [if_neg h, if_neg (fun h' => h (hlast.1 h'))]
    rfl

theorem full_fold (l : Line) : l.fold.full = Text.fold l.full := (Text.fold_append _ _).symm

end Line

namespace Text

theorem feed_mem_fold_iff {t : Text} : '\n' ∈ fold t ↔ '\n' ∈ t := mem_fold_iff rfl

theorem lines_fold (t : Text) : lines (fold t) = (lines t).map Line.fold := by
  induction t using linesInduction with
  | last t h =>
    rw [lines_of_not_mem h, lines_of_not_mem fun h' => h (feed_mem_fold_iff.1 h')]
    rfl
  | next body rest h ih =>
    have hfeed : fold (body ++ '\n' :: rest) = fold body ++ '\n' :: fold rest :=
      fold_append body ('\n' :: rest)
    rw [hfeed, lines_append h, lines_append fun h' => h (feed_mem_fold_iff.1 h'), ih,
      Line.terminated_fold, List.map_cons]

theorem lineContent?_fold (t : Text) (line : Nat) :
    lineContent? (fold t) line = (lineContent? t line).map fold := by
  rw [lineContent?, lineContent?, lines_fold, List.getElem?_map, Option.map_map, Option.map_map]
  rfl

theorem beforeLine_fold (t : Text) (line : Nat) :
    beforeLine (fold t) line = fold (beforeLine t line) := by
  rw [beforeLine, beforeLine, lines_fold, ← List.map_take, List.flatMap_map]
  simp only [Line.full_fold]
  rw [fold, List.map_flatMap]
  rfl

end Text
end SqlAssist
