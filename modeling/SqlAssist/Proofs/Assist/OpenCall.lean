import SqlAssist.Proofs.Assist.Call

/-!
Open calls, by counting.

The walk keeps a stack.  What it finds can be said without one: a parenthesis is open when nothing
behind it closes more than is opened there, and a comma is its own when as many parentheses are
closed as opened between the two.  `Nest` joins both accounts.  Tokens that leave parentheses open
fall apart at these parentheses, and behind each of them lies a stretch in which everything opened
is closed again (`Settled`).  One step of the walk keeps the relation between the tokens read so
far and the stack, since a closing parenthesis ends a settled stretch and so lengthens the one
around it.
-/

namespace SqlAssist

namespace Token

/-! ## Parentheses and commas -/

def IsOpening (t : Token) : Prop := t.tokenClass = .bracket ∧ t.text = ['(']

def IsClosing (t : Token) : Prop := t.tokenClass = .bracket ∧ t.text = [')']

def IsComma (t : Token) : Prop := t.tokenClass = .delimiter ∧ t.text = [',']

instance : DecidablePred IsOpening := fun _ => inferInstanceAs (Decidable (_ ∧ _))

instance : DecidablePred IsClosing := fun _ => inferInstanceAs (Decidable (_ ∧ _))

instance : DecidablePred IsComma := fun _ => inferInstanceAs (Decidable (_ ∧ _))

theorem IsOpening.not_isClosing {t : Token} (h : t.IsOpening) : ¬ t.IsClosing := by
  intro h'
  have := h.2.symm.trans h'.2
  simp at this

theorem IsOpening.not_isComma {t : Token} (h : t.IsOpening) : ¬ t.IsComma := by
  intro h'
  have := h.1.symm.trans h'.1
  simp at this

theorem IsClosing.not_isComma {t : Token} (h : t.IsClosing) : ¬ t.IsComma := by
  intro h'
  have := h.1.symm.trans h'.1
  simp at this

def opened (ts : List Token) : Nat := ts.countP fun t => t.IsOpening

def closed (ts : List Token) : Nat := ts.countP fun t => t.IsClosing

/-- Number of commas in front of which as many parentheses are opened as closed. -/
def ownCommas (ts : List Token) : Nat :=
  ts.zipIdx.countP fun (t, i) => t.IsComma ∧ opened (ts.take i) = closed (ts.take i)

def nearest? (ts : List Token) : Option Token := ts.reverse.find? fun t => !t.tokenClass.isTrivia

def nameBehind? (ts : List Token) : Option Text :=
  (nearest? ts).bind fun t => if t.tokenClass.isCallee then some t.text else none

/-- Whether a parenthesis in front of the tokens is still open behind them. -/
def Unclosed (ts : List Token) : Prop := ∀ part, part <+: ts → closed part ≤ opened part

/-- Whether the tokens close what they open, and nothing else. -/
structure Settled (ts : List Token) : Prop where
  unclosed : Unclosed ts
  closed_eq : closed ts = opened ts

theorem opened_append (a b : List Token) : opened (a ++ b) = opened a + opened b :=
  List.countP_append

theorem closed_append (a b : List Token) : closed (a ++ b) = closed a + closed b :=
  List.countP_append

theorem opened_cons_of_isOpening {t : Token} (h : t.IsOpening) (ts : List Token) :
    opened (t :: ts) = opened ts + 1 :=
  List.countP_cons_of_pos (decide_eq_true h)

theorem opened_cons_of_not_isOpening {t : Token} (h : ¬ t.IsOpening) (ts : List Token) :
    opened (t :: ts) = opened ts :=
  List.countP_cons_of_neg (by simpa using h)

theorem closed_cons_of_isClosing {t : Token} (h : t.IsClosing) (ts : List Token) :
    closed (t :: ts) = closed ts + 1 :=
  List.countP_cons_of_pos (decide_eq_true h)

theorem closed_cons_of_not_isClosing {t : Token} (h : ¬ t.IsClosing) (ts : List Token) :
    closed (t :: ts) = closed ts :=
  List.countP_cons_of_neg (by simpa using h)

/-! ## Settled tokens -/

theorem Unclosed.append {a b : List Token} (ha : Unclosed a)
    (hb : ∀ part, part <+: b → closed a + closed part ≤ opened a + opened part) :
    Unclosed (a ++ b) := by
  intro part hpart
  rcases List.prefix_or_prefix_of_prefix hpart (List.prefix_append a b) with h | ⟨rest, rfl⟩
  · exact ha part h
  · have := hb rest ((List.prefix_append_right_inj a).1 hpart)
    rw [closed_append, opened_append]
    exact this

theorem Unclosed.of_append {a b : List Token} (h : Unclosed (a ++ b)) : Unclosed a :=
  fun part hpart => h part (hpart.trans (List.prefix_append a b))

theorem Unclosed.cons_of_isOpening {t : Token} (ht : t.IsOpening) {ts : List Token}
    (h : ∀ part, part <+: ts → closed part ≤ opened part + 1) : Unclosed (t :: ts) := by
  intro part hpart
  rcases List.prefix_cons_iff.1 hpart with rfl | ⟨rest, rfl, hrest⟩
  · exact Nat.le_refl 0
  · rw [closed_cons_of_not_isClosing ht.not_isClosing, opened_cons_of_isOpening ht]
    exact h rest hrest

namespace Settled

theorem nil : Settled [] := by
  refine ⟨?_, rfl⟩
  intro part hpart
  rw [List.prefix_nil.1 hpart]
  exact Nat.le_refl 0

theorem append {a b : List Token} (ha : Settled a) (hb : Settled b) : Settled (a ++ b) := by
  refine ⟨ha.unclosed.append ?_, ?_⟩
  · intro part hpart
    have hbound := hb.unclosed part hpart
    have hequal := ha.closed_eq
    omega
  · rw [closed_append, opened_append, ha.closed_eq, hb.closed_eq]

theorem single {t : Token} (ho : ¬ t.IsOpening) (hc : ¬ t.IsClosing) : Settled [t] := by
  have hclosed : closed [t] = 0 := closed_cons_of_not_isClosing hc []
  refine ⟨?_, by rw [hclosed, opened_cons_of_not_isOpening ho]; rfl⟩
  intro part hpart
  rcases List.prefix_cons_iff.1 hpart with rfl | ⟨rest, rfl, hrest⟩
  · exact Nat.le_refl 0
  · rw [List.prefix_nil.1 hrest, hclosed]
    exact Nat.zero_le _

/-- What stands in a pair of parentheses is settled together with them. -/
theorem enclose {p q : Token} (hp : p.IsOpening) (hq : q.IsClosing) {ts : List Token}
    (h : Settled ts) : Settled (p :: (ts ++ [q])) := by
  have hq' : ¬ q.IsOpening := fun ho => ho.not_isClosing hq
  refine ⟨Unclosed.cons_of_isOpening hp ?_, ?_⟩
  · intro part hpart
    rcases List.prefix_or_prefix_of_prefix hpart (List.prefix_append ts [q]) with hin | ⟨rest, rfl⟩
    · exact Nat.le_succ_of_le (h.unclosed part hin)
    · have hrest := (List.prefix_append_right_inj ts).1 hpart
      have hone : closed rest ≤ 1 := hrest.sublist.countP_le.trans
        (Nat.le_of_eq (closed_cons_of_isClosing hq []))
      rw [closed_append, opened_append, h.closed_eq]
      omega
  · rw [closed_cons_of_not_isClosing hp.not_isClosing, opened_cons_of_isOpening hp, closed_append,
      opened_append, closed_cons_of_isClosing hq, opened_cons_of_not_isOpening hq', h.closed_eq]
    rfl

/-- A parenthesis among settled tokens is closed among them. -/
theorem not_unclosed {ts : List Token} (h : Settled ts) {i : Nat} {t : Token}
    (hi : ts[i]? = some t) (ht : t.IsOpening) : ¬ Unclosed (ts.drop (i + 1)) := by
  obtain ⟨hlt, rfl⟩ := List.getElem?_eq_some_iff.1 hi
  intro hopen
  have hsplit : ts.take i ++ ts[i] :: ts.drop (i + 1) = ts := by
    rw [← List.drop_eq_getElem_cons hlt, List.take_append_drop]
  have hbefore := h.unclosed (ts.take i) (List.take_prefix i ts)
  have hbehind := hopen _ (List.prefix_refl _)
  have hequal := h.closed_eq
  rw [← hsplit, closed_append, opened_append, closed_cons_of_not_isClosing ht.not_isClosing,
    opened_cons_of_isOpening ht] at hequal
  omega

end Settled

theorem Unclosed.append_opening {a b : List Token} {p : Token} (ha : Unclosed a)
    (hp : p.IsOpening) (hb : Unclosed b) : Unclosed (a ++ p :: b) := by
  have hinner : Unclosed (p :: b) :=
    Unclosed.cons_of_isOpening hp fun part hpart => Nat.le_succ_of_le (hb part hpart)
  refine ha.append fun part hpart => ?_
  have hbefore := ha a (List.prefix_refl a)
  have hbehind := hinner part hpart
  omega

/-! ## Own commas -/

theorem countP_zipIdx_append {α : Type} (P : α → List α → Bool) (a b : List α) :
    (a ++ b).zipIdx.countP (fun (x, i) => P x ((a ++ b).take i)) =
      a.zipIdx.countP (fun (x, i) => P x (a.take i)) +
        b.zipIdx.countP fun (x, i) => P x (a ++ b.take i) := by
  rw [List.zipIdx_append, List.countP_append]
  congr 1
  · refine List.countP_congr fun ⟨x, i⟩ hi => ?_
    have hlt : i < a.length := by simpa using List.snd_lt_of_mem_zipIdx hi
    simp only [List.take_append_of_le_length (Nat.le_of_lt hlt)]
  · rw [Nat.zero_add, List.zipIdx_eq_map_add, List.countP_map]
    refine List.countP_congr fun ⟨x, i⟩ _ => ?_
    simp only [Function.comp_apply, List.take_length_add_append]

theorem ownCommas_append (a b : List Token) : ownCommas (a ++ b) = ownCommas a +
    b.zipIdx.countP fun (t, i) => t.IsComma ∧
      opened a + opened (b.take i) = closed a + closed (b.take i) := by
  have hsplit := countP_zipIdx_append
    (fun (t : Token) before => decide (t.IsComma ∧ opened before = closed before)) a b
  simp only [opened_append, closed_append] at hsplit
  exact hsplit

theorem ownCommas_append_of_closed_eq {a : List Token} (h : closed a = opened a) (b : List Token) :
    ownCommas (a ++ b) = ownCommas a + ownCommas b := by
  rw [ownCommas_append, h]
  simp only [Nat.add_left_cancel_iff]
  rfl

/-- No comma behind a parenthesis belongs to the tokens in front of it, as long as it is open. -/
theorem ownCommas_append_opening {a b : List Token} {p : Token} (ha : closed a ≤ opened a)
    (hp : p.IsOpening) (hb : ∀ i < b.length, closed (b.take i) ≤ opened (b.take i)) :
    ownCommas (a ++ p :: b) = ownCommas a := by
  rw [ownCommas_append, Nat.add_eq_left, List.countP_eq_zero]
  rintro ⟨t, i⟩ hi
  rw [decide_eq_true_eq]
  rintro ⟨hcomma, hcount⟩
  have hi' : (p :: b)[i]? = some t := List.mk_mem_zipIdx_iff_getElem?.1 hi
  cases i with
  | zero =>
    rw [List.getElem?_cons_zero, Option.some.injEq] at hi'
    exact hp.not_isComma (hi' ▸ hcomma)
  | succ i =>
    have hlt : i < b.length := by
      rw [List.getElem?_cons_succ] at hi'
      exact (List.getElem?_eq_some_iff.1 hi').1
    have hbound := hb i hlt
    rw [List.take_succ_cons, opened_cons_of_isOpening hp,
      closed_cons_of_not_isClosing hp.not_isClosing] at hcount
    omega

theorem ownCommas_enclose {p q : Token} (hp : p.IsOpening) {ts : List Token} (h : Settled ts) :
    ownCommas (p :: (ts ++ [q])) = 0 := by
  refine ownCommas_append_opening (a := []) (Nat.le_refl 0) hp fun i hi => ?_
  rw [List.length_append, List.length_singleton] at hi
  rw [List.take_append_of_le_length (Nat.le_of_lt_succ hi)]
  exact h.unclosed _ (List.take_prefix i ts)

theorem ownCommas_single (t : Token) : ownCommas [t] = if t.IsComma then 1 else 0 := by
  by_cases h : t.IsComma <;> simp [ownCommas, h, opened, closed]

theorem nearest?_append (ts : List Token) (t : Token) :
    nearest? (ts ++ [t]) = if t.tokenClass.isTrivia then nearest? ts else some t := by
  rw [nearest?, List.reverse_append, List.reverse_singleton, List.singleton_append,
    List.find?_cons, nearest?]
  cases t.tokenClass.isTrivia <;> rfl

end Token

/-! ## The stack of the walk -/

open Token

/-- The parentheses that tokens leave open, innermost first: there is none, or the tokens behind
the last one are settled. -/
inductive Nest : List Token → List OpenParen → Prop
  | free {ts : List Token}
      (h : ∀ i t, ts[i]? = some t → t.IsOpening → ¬ Unclosed (ts.drop (i + 1))) : Nest ts []
  | paren {before behind : List Token} {p : Token} {outer : List OpenParen}
      (hbefore : Nest before outer) (hp : p.IsOpening) (hbehind : Settled behind) :
      Nest (before ++ p :: behind) (⟨nameBehind? before, ownCommas behind⟩ :: outer)

namespace CallWalk

def addCommas (n : Nat) : List OpenParen → List OpenParen
  | [] => []
  | p :: outer => { p with commas := p.commas + n } :: outer

theorem addCommas_zero (ps : List OpenParen) : addCommas 0 ps = ps := by cases ps <;> rfl

theorem addCommas_one (ps : List OpenParen) : addCommas 1 ps = countComma ps := by
  cases ps <;> rfl

theorem parens_step_opening {t : Token} (h : t.IsOpening) (w : CallWalk) :
    (w.step t).parens = ⟨w.callee?, 0⟩ :: w.parens :=
  if_pos h

theorem parens_step_closing {t : Token} (h : t.IsClosing) (w : CallWalk) :
    (w.step t).parens = w.parens.drop 1 :=
  (if_neg fun ho : t.IsOpening => ho.not_isClosing h).trans (if_pos h)

theorem parens_step_comma {t : Token} (h : t.IsComma) (w : CallWalk) :
    (w.step t).parens = countComma w.parens :=
  (if_neg fun ho : t.IsOpening => ho.not_isComma h).trans
    ((if_neg fun hc : t.IsClosing => hc.not_isComma h).trans (if_pos h))

theorem callee?_eq {w : CallWalk} {ts : List Token} (h : w.previous? = nearest? ts) :
    w.callee? = nameBehind? ts := by
  rw [callee?, nameBehind?, h]
  cases nearest? ts <;> rfl

end CallWalk

namespace Nest

open CallWalk

theorem append {ts : List Token} {ps : List OpenParen} (h : Nest ts ps) {more : List Token}
    (hmore : Settled more) : Nest (ts ++ more) (addCommas (ownCommas more) ps) := by
  cases h with
  | free hfree =>
    refine .free fun i t hi ht => ?_
    rcases Nat.lt_or_ge i ts.length with hlt | hge
    · rw [List.getElem?_append_left hlt] at hi
      rw [List.drop_append_of_le_length hlt]
      exact fun hopen => hfree i t hi ht hopen.of_append
    · rw [List.getElem?_append_right hge] at hi
      rw [List.drop_append, List.drop_eq_nil_of_le (Nat.le_succ_of_le hge), List.nil_append,
        Nat.sub_add_comm hge]
      exact hmore.not_unclosed hi ht
  | paren hbefore hp hbehind =>
    rw [List.append_assoc, List.cons_append]
    have hcommas := ownCommas_append_of_closed_eq hbehind.closed_eq more
    show Nest _ (⟨_, _ + _⟩ :: _)
    rw [← hcommas]
    exact .paren hbefore hp (hbehind.append hmore)

/-- A closing parenthesis ends the innermost group, which is then a settled part of the tokens
that follow the parenthesis around it. -/
theorem close {ts : List Token} {ps : List OpenParen} (h : Nest ts ps) {t : Token}
    (ht : t.IsClosing) : Nest (ts ++ [t]) (ps.drop 1) := by
  cases h with
  | free hfree =>
    refine .free fun i u hi hu => ?_
    rcases Nat.lt_or_ge i ts.length with hlt | hge
    · rw [List.getElem?_append_left hlt] at hi
      rw [List.drop_append_of_le_length hlt]
      exact fun hopen => hfree i u hi hu hopen.of_append
    · rw [List.getElem?_append_right hge, List.getElem?_singleton] at hi
      obtain rfl : t = u := by
        split at hi
        · exact Option.some.inj hi
        · cases hi
      exact absurd ht hu.not_isClosing
  | @paren before behind p outer hbefore hp hbehind =>
    have hgroup := hbefore.append (hbehind.enclose hp ht)
    rw [ownCommas_enclose hp hbehind, addCommas_zero] at hgroup
    rw [List.append_assoc, List.cons_append]
    exact hgroup

theorem step {ts : List Token} {w : CallWalk} (h : Nest ts w.parens)
    (hprevious : w.previous? = nearest? ts) (t : Token) :
    Nest (ts ++ [t]) (w.step t).parens := by
  by_cases ho : t.IsOpening
  · rw [parens_step_opening ho, callee?_eq hprevious]
    exact .paren h ho .nil
  by_cases hc : t.IsClosing
  · rw [parens_step_closing hc]
    exact h.close hc
  have happend := h.append (Settled.single ho hc)
  rw [ownCommas_single] at happend
  by_cases hm : t.IsComma
  · rw [parens_step_comma hm, ← addCommas_one]
    rwa [if_pos hm] at happend
  · have hmark : ¬ t.IsCallMark := by
      rintro (⟨hclass, htext | htext⟩ | hcomma)
      · exact ho ⟨hclass, htext⟩
      · exact hc ⟨hclass, htext⟩
      · exact hm hcomma
    rw [parens_step hmark]
    rwa [if_neg hm, addCommas_zero] at happend

/-- The walk has on its stack what the tokens leave open. -/
theorem walk (ts : List Token) : Nest ts (ts.foldl CallWalk.step {}).parens ∧
    (ts.foldl CallWalk.step {}).previous? = nearest? ts := by
  induction ts using List.reverseRecOn with
  | nil => exact ⟨.free fun i t hi => by simp at hi, rfl⟩
  | append_singleton ts t ih =>
    rw [List.foldl_append, List.foldl_cons, List.foldl_nil]
    refine ⟨ih.1.step ih.2 t, ?_⟩
    rw [nearest?_append, ← ih.2]
    rfl

end Nest

/-! ## The innermost call -/

/-- Whether the token at `i` opens a call of `callee` that is still open behind the tokens. -/
structure OpensCall (ts : List Token) (i : Nat) (callee : Text) : Prop where
  opening : ∃ t, ts[i]? = some t ∧ t.IsOpening
  unclosed : Unclosed (ts.drop (i + 1))
  named : nameBehind? (ts.take i) = some callee

/-- Whether no call is opened behind `i` that is still open, either. -/
structure InnermostCall (ts : List Token) (i : Nat) (callee : Text) : Prop
    extends OpensCall ts i callee where
  last : ∀ j other, OpensCall ts j other → j ≤ i

theorem InnermostCall.unique {ts : List Token} {i j : Nat} {callee other : Text}
    (hi : InnermostCall ts i callee) (hj : InnermostCall ts j other) : i = j ∧ callee = other := by
  obtain rfl : i = j :=
    Nat.le_antisymm (hj.last i callee hi.toOpensCall) (hi.last j other hj.toOpensCall)
  exact ⟨rfl, Option.some.inj (hi.named.symm.trans hj.named)⟩

theorem drop_append_cons {α : Type} (before behind : List α) (a : α) :
    (before ++ a :: behind).drop (before.length + 1) = behind := by
  rw [List.drop_append, List.drop_eq_nil_of_le (Nat.le_succ _), Nat.add_sub_cancel_left]
  rfl

theorem opensCall_append_iff {before behind : List Token} {p : Token} (hp : p.IsOpening)
    (hbehind : Settled behind) {i : Nat} {callee : Text} :
    OpensCall (before ++ p :: behind) i callee ↔
      OpensCall before i callee ∨ i = before.length ∧ nameBehind? before = some callee := by
  rcases Nat.lt_trichotomy i before.length with hlt | rfl | hgt
  · have hiff : Unclosed (before.drop (i + 1) ++ p :: behind) ↔ Unclosed (before.drop (i + 1)) :=
      ⟨fun h => h.of_append, fun h => h.append_opening hp hbehind.unclosed⟩
    constructor
    · rintro ⟨hopening, hunclosed, hnamed⟩
      rw [List.getElem?_append_left hlt] at hopening
      rw [List.drop_append_of_le_length hlt, hiff] at hunclosed
      rw [List.take_append_of_le_length (Nat.le_of_lt hlt)] at hnamed
      exact Or.inl ⟨hopening, hunclosed, hnamed⟩
    · rintro (⟨hopening, hunclosed, hnamed⟩ | ⟨rfl, -⟩)
      · refine ⟨?_, ?_, ?_⟩
        · rwa [List.getElem?_append_left hlt]
        · rwa [List.drop_append_of_le_length hlt, hiff]
        · rwa [List.take_append_of_le_length (Nat.le_of_lt hlt)]
      · exact absurd hlt (Nat.lt_irrefl _)
  · constructor
    · rintro ⟨-, -, hnamed⟩
      rw [List.take_left] at hnamed
      exact Or.inr ⟨rfl, hnamed⟩
    · rintro (⟨⟨t, ht, -⟩, -, -⟩ | ⟨-, hnamed⟩)
      · rw [List.getElem?_eq_none (Nat.le_refl _)] at ht
        cases ht
      · refine ⟨⟨p, ?_, hp⟩, ?_, ?_⟩
        · rw [List.getElem?_append_right (Nat.le_refl _), Nat.sub_self]
          rfl
        · rw [drop_append_cons]
          exact hbehind.unclosed
        · rwa [List.take_left]
  · -- behind the parenthesis everything is closed
    obtain ⟨k, rfl⟩ : ∃ k, i = before.length + (k + 1) := ⟨i - before.length - 1, by omega⟩
    constructor
    · rintro ⟨⟨t, ht, hopening⟩, hunclosed, -⟩
      rw [List.getElem?_append_right (Nat.le_add_right _ _), Nat.add_sub_cancel_left,
        List.getElem?_cons_succ] at ht
      rw [Nat.add_assoc, List.drop_length_add_append, List.drop_succ_cons] at hunclosed
      exact absurd hunclosed (hbehind.not_unclosed ht hopening)
    · rintro (⟨⟨t, ht, -⟩, -, -⟩ | ⟨heq, -⟩)
      · rw [List.getElem?_eq_none (Nat.le_add_right _ _)] at ht
        cases ht
      · omega

theorem innermostCall_append {before behind : List Token} {p : Token} (hp : p.IsOpening)
    (hbehind : Settled behind) {callee : Text} (hname : nameBehind? before = some callee) :
    InnermostCall (before ++ p :: behind) before.length callee := by
  refine ⟨(opensCall_append_iff hp hbehind).2 (Or.inr ⟨rfl, hname⟩), ?_⟩
  intro j other hj
  rcases (opensCall_append_iff hp hbehind).1 hj with ⟨⟨t, ht, -⟩, -, -⟩ | ⟨rfl, -⟩
  · exact Nat.le_of_lt (List.getElem?_eq_some_iff.1 ht).1
  · exact Nat.le_refl _

/-- What is found on a stack: the innermost call, with its own commas; or there is no call. -/
theorem Nest.context {ts : List Token} {ps : List OpenParen} (h : Nest ts ps) :
    match CallWalk.context? ⟨ps, none⟩ with
    | none => ∀ i callee, ¬ OpensCall ts i callee
    | some k => ∃ i, InnermostCall ts i k.callee ∧ k.argument = ownCommas (ts.drop (i + 1)) := by
  induction h with
  | free hfree =>
    rintro i callee ⟨⟨t, ht, hopening⟩, hunclosed, -⟩
    exact hfree i t ht hopening hunclosed
  | @paren before behind p outer hbefore hp hbehind ih =>
    rw [CallWalk.context?, List.findSome?_cons]
    cases hname : nameBehind? before with
    | some callee =>
      refine ⟨before.length, innermostCall_append hp hbehind hname, ?_⟩
      rw [drop_append_cons]
    | none =>
      have hlift : ∀ i callee, OpensCall (before ++ p :: behind) i callee ↔
          OpensCall before i callee := by
        intro i callee
        rw [opensCall_append_iff hp hbehind, hname]
        simp
      show match CallWalk.context? ⟨outer, none⟩ with
        | none => _
        | some k => _
      cases hcontext : CallWalk.context? ⟨outer, none⟩ with
      | none =>
        rw [hcontext] at ih
        intro i callee
        rw [hlift]
        exact ih i callee
      | some k =>
        rw [hcontext] at ih
        obtain ⟨i, hinner, hcount⟩ := ih
        obtain ⟨⟨t, ht, -⟩, hunclosed, -⟩ := hinner.toOpensCall
        refine ⟨i, ⟨(hlift _ _).2 hinner.toOpensCall, ?_⟩, ?_⟩
        · intro j other hj
          exact hinner.last j other ((hlift j other).1 hj)
        · rw [hcount, List.drop_append_of_le_length (List.getElem?_eq_some_iff.1 ht).1,
            ownCommas_append_opening (hunclosed _ (List.prefix_refl _)) hp fun i _ =>
              hbehind.unclosed _ (List.take_prefix i behind)]

namespace CallContext

theorem of_ofTokens? {ts : List Token} {k : CallContext} (h : ofTokens? ts = some k) :
    ∃ i, InnermostCall ts i k.callee ∧ k.argument = ownCommas (ts.drop (i + 1)) := by
  have hwalk := (Nest.walk ts).1.context
  rw [show CallWalk.context? ⟨_, none⟩ = ofTokens? ts from rfl, h] at hwalk
  exact hwalk

theorem ofTokens?_eq_none_iff {ts : List Token} :
    ofTokens? ts = none ↔ ∀ i callee, ¬ OpensCall ts i callee := by
  have hwalk := (Nest.walk ts).1.context
  rw [show CallWalk.context? ⟨_, none⟩ = ofTokens? ts from rfl] at hwalk
  cases h : ofTokens? ts with
  | none =>
    rw [h] at hwalk
    exact ⟨fun _ => hwalk, fun _ => rfl⟩
  | some k =>
    obtain ⟨i, hinner, -⟩ := of_ofTokens? h
    exact ⟨fun hnone => (by cases hnone), fun hnone => absurd hinner.toOpensCall (hnone i k.callee)⟩

theorem ofTokens?_eq_some_iff {ts : List Token} {k : CallContext} :
    ofTokens? ts = some k ↔
      ∃ i, InnermostCall ts i k.callee ∧ k.argument = ownCommas (ts.drop (i + 1)) := by
  refine ⟨of_ofTokens?, ?_⟩
  rintro ⟨i, hinner, hargument⟩
  cases h : ofTokens? ts with
  | none => exact absurd hinner.toOpensCall (ofTokens?_eq_none_iff.1 h i k.callee)
  | some k' =>
    obtain ⟨j, hinner', hargument'⟩ := of_ofTokens? h
    obtain ⟨rfl, hcallee⟩ := hinner.unique hinner'
    rw [Option.some.injEq, CallContext.mk.injEq]
    exact ⟨hcallee.symm, hargument'.trans hargument.symm⟩

theorem ofTokens?_of_settled {before behind : List Token} {p : Token} (hp : p.IsOpening)
    (hbehind : Settled behind) {callee : Text} (hname : nameBehind? before = some callee) :
    ofTokens? (before ++ p :: behind) = some ⟨callee, ownCommas behind⟩ :=
  ofTokens?_eq_some_iff.2 ⟨before.length, innermostCall_append hp hbehind hname,
    by rw [drop_append_cons]⟩

end CallContext

theorem Catalog.exists_documented?_iff {c : Catalog} {word : Text} {e : SymbolEntry} :
    (∃ kind, c.documented? word = some (kind, e)) ↔
      (c.function? word).or (c.windowFunction? word) = some e := by
  rw [documented?]
  cases c.function? word <;> cases c.windowFunction? word <;> simp

namespace Dialect

theorem signatureHelp?_eq_some_iff {d : Dialect} {document : Text} {p : Position}
    {help : SignatureHelp} : d.signatureHelp? document p = some help ↔
      ∃ index call kind e, p.charIndex? document = some index ∧
        d.callContext? (document.take index) = some call ∧
        d.catalog.documented? call.callee = some (kind, e) ∧
        help = { signatures := [e.signatureInfo], activeParameter := call.argument.toUInt32 } := by
  simp only [signatureHelp?, Option.bind_eq_bind, Option.bind_eq_some_iff, Prod.exists]
  constructor
  · rintro ⟨index, hindex, call, hcall, kind, e, he, hhelp⟩
    exact ⟨index, call, kind, e, hindex, hcall, he, (Option.some.inj hhelp).symm⟩
  · rintro ⟨index, call, kind, e, hindex, hcall, he, rfl⟩
    exact ⟨index, hindex, call, hcall, kind, e, he, rfl⟩

/-- Help is for the innermost call that has a name, whether that name is documented or not. -/
theorem signatureHelp?_innermost {d : Dialect} {document : Text} {p : Position}
    {help : SignatureHelp} : d.signatureHelp? document p = some help ↔
      ∃ index i callee e, p.charIndex? document = some index ∧
        InnermostCall (d.lexicon.tokens (document.take index)) i callee ∧
        (d.catalog.function? callee).or (d.catalog.windowFunction? callee) = some e ∧
        help = ⟨[e.signatureInfo], 0,
          (ownCommas ((d.lexicon.tokens (document.take index)).drop (i + 1))).toUInt32⟩ := by
  rw [signatureHelp?_eq_some_iff]
  constructor
  · rintro ⟨index, call, kind, e, hindex, hcall, he, rfl⟩
    obtain ⟨i, hinner, hargument⟩ := CallContext.ofTokens?_eq_some_iff.1 hcall
    exact ⟨index, i, call.callee, e, hindex, hinner, Catalog.exists_documented?_iff.1 ⟨kind, he⟩,
      by rw [← hargument]⟩
  · rintro ⟨index, i, callee, e, hindex, hinner, he, rfl⟩
    obtain ⟨kind, hkind⟩ := Catalog.exists_documented?_iff.2 he
    exact ⟨index, ⟨callee, _⟩, kind, e, hindex,
      CallContext.ofTokens?_eq_some_iff.2 ⟨i, hinner, rfl⟩, hkind, rfl⟩

/-- The call around a cursor is the last one that opens before it and is still open there, if any;
its argument is the number of its own commas.  Help at a position is the help for this call alone:
there is none when its name is not documented, whatever the calls around it are. -/
theorem callContext?_by_counting (d : Dialect) (before : Text) :
    (d.callContext? before = none ↔
      ∀ i callee, ¬ OpensCall (d.lexicon.tokens before) i callee) ∧
    (∀ call, d.callContext? before = some call ↔
      ∃ i, InnermostCall (d.lexicon.tokens before) i call.callee ∧
        call.argument = ownCommas ((d.lexicon.tokens before).drop (i + 1))) ∧
    (∀ document p, (d.signatureHelp? document p).isSome ↔
      ∃ index i callee, p.charIndex? document = some index ∧
        InnermostCall (d.lexicon.tokens (document.take index)) i callee ∧
        ((d.catalog.function? callee).isSome ∨ (d.catalog.windowFunction? callee).isSome)) ∧
    ∀ document p help, d.signatureHelp? document p = some help ↔
      ∃ index i callee e, p.charIndex? document = some index ∧
        InnermostCall (d.lexicon.tokens (document.take index)) i callee ∧
        (d.catalog.function? callee).or (d.catalog.windowFunction? callee) = some e ∧
        help = ⟨[e.signatureInfo], 0,
          (ownCommas ((d.lexicon.tokens (document.take index)).drop (i + 1))).toUInt32⟩ := by
  refine ⟨CallContext.ofTokens?_eq_none_iff, fun call => CallContext.ofTokens?_eq_some_iff, ?_,
    fun document p help => signatureHelp?_innermost⟩
  intro document p
  have hsome : ∀ callee, ((d.catalog.function? callee).isSome ∨
      (d.catalog.windowFunction? callee).isSome) ↔
        ∃ e, (d.catalog.function? callee).or (d.catalog.windowFunction? callee) = some e := by
    intro callee
    rw [← Option.isSome_iff_exists, Option.isSome_or, Bool.or_eq_true]
  rw [Option.isSome_iff_exists]
  constructor
  · rintro ⟨help, h⟩
    obtain ⟨index, i, callee, e, hindex, hinner, he, -⟩ := signatureHelp?_innermost.1 h
    exact ⟨index, i, callee, hindex, hinner, (hsome callee).2 ⟨e, he⟩⟩
  · rintro ⟨index, i, callee, hindex, hinner, h⟩
    obtain ⟨e, he⟩ := (hsome callee).1 h
    exact ⟨_, signatureHelp?_innermost.2 ⟨index, i, callee, e, hindex, hinner, he, rfl⟩⟩

/-- A parenthesis behind a comma is left without a name, and so is one that opens the text. -/
example : ({} : Dialect).callContext? "f(1, g (2".toList = some ⟨['g'], 0⟩ ∧
    ({} : Dialect).callContext? "f(g(1, 2), (3, ".toList = some ⟨['f'], 1⟩ ∧
    ({} : Dialect).callContext? "(1, f(2)".toList = none := by decide +kernel

end Dialect
end SqlAssist
