import SqlAssist.Token.Number

/-!
Words.  A word starts with an ASCII letter or an underscore and goes on with those and digits.
`Word.all` lists the words of a line without looking at comments or literals; it steps over
numbers the way the scanner does, so that `2avg` holds the word `avg` and `1.5e3x` the word `x`.
-/

namespace SqlAssist

structure Word where
  text : Text
  start : Nat
  deriving Repr, DecidableEq

namespace Word

def stop (w : Word) : Nat := w.start + w.text.width

def isStart (c : Char) : Bool := c.isAlpha || c == '_'

def isContinue (c : Char) : Bool := c.isAlphanum || c == '_'

/-- Length of the word at the start of a text, whose first character has to start one. -/
def lengthAt (t : Text) : Nat := 1 + ((t.drop 1).takeWhile isContinue).length

/-- How many characters to step over where no word starts: a number, or one character. -/
def gapLength (t : Text) : Nat :=
  match Number.match? t with
  | some (n, _) => n
  | none => 1

theorem gapLength_pos (t : Text) : 0 < gapLength t := by
  unfold gapLength
  split
  · next h => exact Number.match?_pos h
  · omega

/-- The words of `t`, which starts at byte `offset`. -/
def allFrom (offset : Nat) (t : Text) : List Word :=
  match t with
  | [] => []
  | c :: rest =>
    if isStart c then
      let n := lengthAt (c :: rest)
      let word := (c :: rest).take n
      ⟨word, offset⟩ :: allFrom (offset + Text.width word) ((c :: rest).drop n)
    else
      let n := gapLength (c :: rest)
      allFrom (offset + Text.width ((c :: rest).take n)) ((c :: rest).drop n)
termination_by t.length
decreasing_by
  · simp only [List.length_drop, List.length_cons, lengthAt]
    omega
  · have := gapLength_pos (c :: rest)
    simp only [List.length_drop, List.length_cons]
    omega

def all (line : Text) : List Word := allFrom 0 line

end Word
end SqlAssist
