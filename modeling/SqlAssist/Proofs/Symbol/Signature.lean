import Mathlib.Data.List.Infix
import Mathlib.Data.List.TakeWhile
import SqlAssist.Symbol.Entry

/-!
Parameters of a signature that is put together from them.

The splitter counts round and square brackets alike.  A text in which these are paired and every
comma stands inside of a pair leaves the splitter as deep as it was, so it comes out as one piece,
whatever stands behind it (`IsPiece`).  That a text is such a piece can also be counted off its
front parts (`Balanced`), without the splitter's depth, which stops at zero.  Blanks around a comma
go to the pieces beside it, and are trimmed away there.
-/

namespace SqlAssist

namespace Text

theorem dropWhile_ne_append {c : Char} {a : Text} (h : c ∉ a) (b : Text) :
    (a ++ c :: b).dropWhile (fun d => d ≠ c) = c :: b := by
  rw [List.dropWhile_append_of_pos, List.dropWhile_cons_of_neg (by simp)]
  intro d hd
  exact decide_eq_true fun heq => h (heq ▸ hd)

theorem trim_of_not_isBlank {t : Text} (hfirst : ∀ c ∈ t.head?, isBlank c = false)
    (hlast : ∀ c ∈ t.getLast?, isBlank c = false) : trim t = t := by
  have hstays : ∀ u : Text, (∀ c ∈ u.head?, isBlank c = false) → u.dropWhile isBlank = u := by
    intro u hu
    cases u with
    | nil => rfl
    | cons c rest => exact List.dropWhile_cons_of_neg (by simp [hu c rfl])
  rw [trim, hstays t hfirst, hstays t.reverse (by rwa [List.head?_reverse]), List.reverse_reverse]

/-- A text that trimming keeps has no blank at either end. -/
theorem dropWhile_isBlank_of_trim {t : Text} (h : trim t = t) :
    t.dropWhile isBlank = t ∧ t.reverse.dropWhile isBlank = t.reverse := by
  have hfront := (List.dropWhile_suffix isBlank (l := t)).length_le
  have hback := (List.dropWhile_suffix isBlank (l := (t.dropWhile isBlank).reverse)).length_le
  have hlength : ((t.dropWhile isBlank).reverse.dropWhile isBlank).length = t.length := by
    rw [← List.length_reverse]
    exact congrArg List.length h
  rw [List.length_reverse] at hback
  have hkept : t.dropWhile isBlank = t :=
    (List.dropWhile_suffix isBlank).eq_of_length_le (Nat.le_trans (Nat.le_of_eq hlength.symm) hback)
  rw [trim, hkept, List.reverse_eq_iff] at h
  exact ⟨hkept, h⟩

theorem dropWhile_isBlank_append {t : Text} (h : t.dropWhile isBlank = t) (hne : t ≠ [])
    (rest : Text) : (t ++ rest).dropWhile isBlank = t ++ rest := by
  obtain ⟨c, tail, rfl⟩ := List.exists_cons_of_ne_nil hne
  exact List.dropWhile_cons_of_neg (List.dropWhile_eq_self_iff.1 h (by simp))

/-- Blanks around a text are trimmed away, and no more than that. -/
theorem trim_surrounded {t before after : Text} (h : trim t = t) (hne : t ≠ [])
    (hbefore : ∀ c ∈ before, isBlank c = true) (hafter : ∀ c ∈ after, isBlank c = true) :
    trim (before ++ t ++ after) = t := by
  obtain ⟨hfront, hback⟩ := dropWhile_isBlank_of_trim h
  rw [trim, List.append_assoc, List.dropWhile_append_of_pos hbefore,
    dropWhile_isBlank_append hfront hne, List.reverse_append,
    List.dropWhile_append_of_pos (by simpa using hafter), hback, List.reverse_reverse]

end Text

namespace Signature

/-- Whether a text that begins `depth` brackets deep is one piece: it ends outside of all brackets,
closes none before it is opened, and has its commas inside. -/
def IsPiece : Nat → Text → Prop
  | depth, [] => depth = 0
  | depth, c :: rest =>
    if c = '(' ∨ c = '[' then IsPiece (depth + 1) rest
    else if c = ')' ∨ c = ']' then 0 < depth ∧ IsPiece (depth - 1) rest
    else if c = ',' then 0 < depth ∧ IsPiece depth rest
    else IsPiece depth rest

/-- The splitter takes a piece as it is. -/
theorem splitFrom_append {depth : Nat} {t : Text} (h : IsPiece depth t) (current rest : Text) :
    splitFrom depth current (t ++ rest) = splitFrom 0 (t.reverse ++ current) rest := by
  induction t generalizing depth current with
  | nil =>
    rw [show depth = 0 from h]
    rfl
  | cons c t ih =>
    rw [IsPiece] at h
    rw [List.cons_append, splitFrom, List.reverse_cons, List.append_assoc, List.singleton_append]
    by_cases hopen : c = '(' ∨ c = '['
    · rw [if_pos hopen] at h ⊢
      exact ih h _
    rw [if_neg hopen] at h ⊢
    by_cases hclose : c = ')' ∨ c = ']'
    · rw [if_pos hclose] at h ⊢
      exact ih h.2 _
    rw [if_neg hclose] at h ⊢
    by_cases hcomma : c = ','
    · rw [if_pos hcomma] at h
      rw [if_neg fun h' => Nat.ne_of_gt h.1 h'.2]
      exact ih h.2 _
    · rw [if_neg hcomma] at h
      rw [if_neg fun h' => hcomma h'.1]
      exact ih h _

/-! ## Pieces by counting -/

def openers (t : Text) : Nat := t.countP fun c => c = '(' ∨ c = '['

def closers (t : Text) : Nat := t.countP fun c => c = ')' ∨ c = ']'

/-- Whether the brackets of a text that begins `depth` brackets deep are paired, round and square
ones alike, and its commas stand inside of pairs. -/
structure Balanced (depth : Nat) (t : Text) : Prop where
  sane : ∀ a, a <+: t → closers a ≤ depth + openers a
  settled : closers t = depth + openers t
  commas : ∀ a, a ++ [','] <+: t → closers a < depth + openers a

instance (depth : Nat) (t : Text) : Decidable (Balanced depth t) :=
  decidable_of_iff ((∀ a ∈ t.inits, closers a ≤ depth + openers a) ∧
      closers t = depth + openers t ∧
      ∀ a ∈ t.inits, a ++ [','] <+: t → closers a < depth + openers a) <| by
    simp only [List.mem_inits]
    constructor
    · rintro ⟨hsane, hsettled, hcommas⟩
      exact ⟨hsane, hsettled, fun a ha => hcommas a ((List.prefix_append a [',']).trans ha) ha⟩
    · rintro ⟨hsane, hsettled, hcommas⟩
      exact ⟨hsane, hsettled, fun a _ ha => hcommas a ha⟩

/-- Behind its first character a balanced text begins as deep as that character leaves it. -/
theorem Balanced.tail {depth depth' : Nat} {c : Char} {t : Text} (h : Balanced depth (c :: t))
    (hdepth : depth + openers [c] = depth' + closers [c]) : Balanced depth' t := by
  have hopeners (a : Text) : openers (c :: a) = openers [c] + openers a := by
    rw [← List.singleton_append]
    exact List.countP_append
  have hclosers (a : Text) : closers (c :: a) = closers [c] + closers a := by
    rw [← List.singleton_append]
    exact List.countP_append
  constructor
  case sane =>
    intro a ha
    have hsane := h.sane (c :: a) ((List.prefix_cons_inj c).2 ha)
    rw [hopeners, hclosers] at hsane
    omega
  case settled =>
    have hsettled := h.settled
    rw [hopeners, hclosers] at hsettled
    omega
  case commas =>
    intro a ha
    have hcommas := h.commas (c :: a) ((List.prefix_cons_inj c).2 ha)
    rw [hopeners, hclosers] at hcommas
    omega

theorem Balanced.isPiece {depth : Nat} {t : Text} (h : Balanced depth t) : IsPiece depth t := by
  induction t generalizing depth with
  | nil => exact (h.settled).symm
  | cons c t ih =>
    rw [IsPiece]
    by_cases hopen : c = '(' ∨ c = '['
    · have hcount : openers [c] = 1 ∧ closers [c] = 0 := by rcases hopen with rfl | rfl <;> decide
      rw [if_pos hopen]
      exact ih (h.tail (by omega))
    rw [if_neg hopen]
    have hopeners : openers [c] = 0 := by simp [openers, hopen]
    by_cases hclose : c = ')' ∨ c = ']'
    · have hclosers : closers [c] = 1 := by rcases hclose with rfl | rfl <;> decide
      have hsane := h.sane [c] (List.prefix_append [c] t)
      rw [if_pos hclose]
      exact ⟨by omega, ih (h.tail (by omega))⟩
    rw [if_neg hclose]
    have hclosers : closers [c] = 0 := by simp [closers, hclose]
    have hrest : IsPiece depth t := ih (h.tail (by omega))
    by_cases hcomma : c = ','
    · have hinside := h.commas [] ⟨t, by rw [hcomma]; rfl⟩
      rw [if_pos hcomma]
      exact ⟨hinside, hrest⟩
    · rw [if_neg hcomma]
      exact hrest

/-! ## Signatures -/

theorem argumentText?_eq {name suffix : Text} (hname : '(' ∉ name) (hsuffix : ')' ∉ suffix)
    (inner : Text) : argumentText? (name ++ '(' :: (inner ++ ')' :: suffix)) = some inner := by
  have hreverse : (inner ++ ')' :: suffix).reverse = suffix.reverse ++ ')' :: inner.reverse := by
    simp
  have hlast : ((inner ++ ')' :: suffix).reverse).dropWhile (fun c => c ≠ ')') =
      ')' :: inner.reverse := by
    rw [hreverse, Text.dropWhile_ne_append (by simpa using hsuffix)]
  simp only [argumentText?, Text.dropWhile_ne_append hname, hlast, List.reverse_reverse]

/-- Texts joined by commas, with any blanks around each comma. -/
inductive Joined : List Text → Text → Prop
  | nil : Joined [] []
  | single (p : Text) : Joined [p] p
  | cons {p q before after rest : Text} {ps : List Text}
      (hbefore : ∀ c ∈ before, Text.isBlank c = true)
      (hafter : ∀ c ∈ after, Text.isBlank c = true) (more : Joined (q :: ps) rest) :
      Joined (p :: q :: ps) (p ++ before ++ ',' :: (after ++ rest))

theorem isPiece_of_isBlank {t : Text} (h : ∀ c ∈ t, Text.isBlank c = true) : IsPiece 0 t := by
  induction t with
  | nil => rfl
  | cons c t ih =>
    have hne : ∀ d, Text.isBlank d = false → c ≠ d := by
      rintro d hd rfl
      rw [h c List.mem_cons_self] at hd
      simp at hd
    rw [IsPiece, if_neg (by simp [hne '(' rfl, hne '[' rfl]),
      if_neg (by simp [hne ')' rfl, hne ']' rfl]), if_neg (hne ',' rfl)]
    exact ih fun d hd => h d (List.mem_cons_of_mem c hd)

structure IsField (p : Text) : Prop where
  isPiece : IsPiece 0 p
  ne_nil : p ≠ []
  trim_eq : Text.trim p = p

/-- The splitter gives back the texts that are joined, with the blanks around them.  Those behind a
comma are in the current piece when the splitter comes to the next text. -/
theorem trim_splitFrom_of_joined {t : Text} {ps : List Text} (h : Joined ps t) (hne : ps ≠ [])
    (hps : ∀ p ∈ ps, IsField p) {blanks : Text} (hblanks : ∀ c ∈ blanks, Text.isBlank c = true) :
    (splitFrom 0 blanks.reverse t).map Text.trim = ps := by
  induction h generalizing blanks with
  | nil => exact absurd rfl hne
  | single p =>
    have hp := hps p List.mem_cons_self
    have hsplit := splitFrom_append hp.isPiece blanks.reverse []
    have htrim : Text.trim (blanks ++ p ++ []) = p :=
      Text.trim_surrounded hp.trim_eq hp.ne_nil hblanks (by simp)
    rw [List.append_nil, ← List.reverse_append, splitFrom, List.reverse_reverse] at hsplit
    rw [List.append_nil] at htrim
    rw [hsplit, List.map_singleton, htrim]
  | @cons p q before after rest ps hbefore hafter more ih =>
    have hp := hps p List.mem_cons_self
    have hfirst : splitFrom 0 blanks.reverse (p ++ before ++ ',' :: (after ++ rest)) =
        (blanks ++ p ++ before) :: splitFrom 0 [] (after ++ rest) := by
      rw [List.append_assoc, splitFrom_append hp.isPiece,
        splitFrom_append (isPiece_of_isBlank hbefore), splitFrom, if_neg (by decide),
        if_neg (by decide), if_pos ⟨rfl, rfl⟩]
      simp
    have hrest := ih (by simp) (fun r hr => hps r (List.mem_cons_of_mem p hr)) hafter
    rw [hfirst, splitFrom_append (isPiece_of_isBlank hafter), List.append_nil, List.map_cons, hrest,
      Text.trim_surrounded hp.trim_eq hp.ne_nil hblanks hbefore]

/-- A signature lists the parameters it is written with. -/
theorem parameters_of_joined {name suffix inner : Text} {ps : List Text} (hname : '(' ∉ name)
    (hsuffix : ')' ∉ suffix) (hps : ∀ p ∈ ps, IsField p) (h : Joined ps inner) :
    parameters (name ++ '(' :: (inner ++ ')' :: suffix)) = ps := by
  have hkept : ps.filter (!·.isEmpty) = ps :=
    List.filter_eq_self.2 fun p hp => by simp [(hps p hp).ne_nil]
  simp only [parameters, argumentText?_eq hname hsuffix]
  cases ps with
  | nil =>
    cases h
    rfl
  | cons p ps =>
    have hnone : ∀ c ∈ ([] : Text), Text.isBlank c = true := by simp
    have hsplit := trim_splitFrom_of_joined h (by simp) hps hnone
    rw [List.reverse_nil] at hsplit
    rw [hsplit, hkept]

theorem joined_spaced (ps : List Text) : Joined ps ([',', ' '].intercalate ps) := by
  cases ps with
  | nil => exact .nil
  | cons p ps =>
    induction ps generalizing p with
    | nil =>
      rw [List.intercalate_singleton]
      exact .single p
    | cons q ps ih =>
      have hjoined : Joined (p :: q :: ps)
          (p ++ [] ++ ',' :: ([' '] ++ [',', ' '].intercalate (q :: ps))) :=
        .cons (by simp) (List.forall_mem_singleton.2 rfl) (ih q)
      rw [List.append_nil] at hjoined
      rw [List.intercalate_cons_cons, List.append_assoc]
      exact hjoined

end Signature

namespace SymbolEntry

open Signature

/-- An entry lists the parameters that its signature is put together from, when these are not
empty, have no blank at either end, and have their brackets in pairs and their commas inside of
them.  The name before the list has no opening parenthesis in it and the text behind it no closing
one, and each comma of the list may have blanks on both sides. -/
theorem parameters_eq_of_joined {name suffix inner : Text} {ps : List Text} (hname : '(' ∉ name)
    (hsuffix : ')' ∉ suffix)
    (hps : ∀ p ∈ ps, p ≠ [] ∧ Text.trim p = p ∧ Balanced 0 p) (hinner : Joined ps inner)
    {e : SymbolEntry} (he : e.signature = name ++ '(' :: (inner ++ ')' :: suffix)) :
    e.parameters = ps := by
  rw [parameters, he]
  refine parameters_of_joined hname hsuffix (fun p hp => ?_) hinner
  obtain ⟨hne, htrim, hbalanced⟩ := hps p hp
  exact ⟨hbalanced.isPiece, hne, htrim⟩

/-- Two parameters with commas in them and one with a bracket of each kind, behind a name that has a
closing parenthesis in it. -/
theorem parameters_eq_of_joined_nested :
    ({ name := [], signature := "f)(g(a, b)\u3000,\n[c, (é)],d(])!(".toList, description := [] } :
        SymbolEntry).parameters =
      ["g(a, b)".toList, "[c, (é)]".toList, "d(]".toList] := by
  have hlast : Joined ["[c, (é)]".toList, "d(]".toList] ("[c, (é)]".toList ++ [] ++ ',' :: ([] ++
      "d(]".toList)) := .cons (by simp) (by simp) (.single _)
  have hinner : Joined ["g(a, b)".toList, "[c, (é)]".toList, "d(]".toList]
      ("g(a, b)".toList ++ ['\u3000'] ++ ',' :: (['\n'] ++ ("[c, (é)]".toList ++ [] ++ ',' :: ([] ++
        "d(]".toList)))) :=
    .cons (List.forall_mem_singleton.2 rfl) (List.forall_mem_singleton.2 rfl) hlast
  have hname : '(' ∉ ['f', ')'] := by decide
  have hsuffix : ')' ∉ ['!', '('] := by decide
  exact parameters_eq_of_joined hname hsuffix (by decide +kernel) hinner (by decide +kernel)

end SymbolEntry
end SqlAssist
