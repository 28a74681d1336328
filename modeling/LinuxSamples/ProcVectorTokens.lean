import Mathlib.Data.List.TakeWhile
import LinuxSamples.ProcVector

/-!
What the parser of the vector makes of any text.

A text is a sequence of words between white space, and the words that are literals, up to the
first one that is not, should fill the cells. The parser does not see words: it sees a copy of
the next 127 characters, in which a string ends at a zero. So it takes a word apart if one of the
two lies inside of it, and goes on with the rest of the word. What it stores is determined for
every text, and it is what it should be exactly if the parts of the words have the same values
as the words.
-/

namespace LinuxSamples.ProcVector

/-! ### Words and literals -/

/-- The number that the digits stand for behind `acc`, if they all are digits of base `b`. -/
def digits (b : ℕ) : List Char → ℕ → Option ℕ
  | [], acc => some acc
  | c :: cs, acc =>
    match digitValue c with
    | some d => if d < b then digits b cs (b * acc + d) else none
    | none => none

/-- A literal of base sixteen, eight or ten. -/
def natLiteral : List Char → Option ℕ
  | '0' :: x :: d :: cs =>
    if x.toLower = 'x' then digits 16 (d :: cs) 0 else digits 8 (x :: d :: cs) 0
  | '0' :: cs => digits 8 cs 0
  | c :: cs => digits 10 (c :: cs) 0
  | [] => none

/-- A literal with an optional minus sign. -/
def literal : List Char → Option ℤ
  | '-' :: cs => (natLiteral cs).map fun n : ℕ => -(n : ℤ)
  | cs => (natLiteral cs).map fun n : ℕ => (n : ℤ)

/-- The values of the first `n` words, up to the one that is no literal. -/
def values (n : ℕ) (ts : List (List Char)) : List (BitVec 32) :=
  (((ts.take n).takeWhile fun t => (literal t).isSome).filterMap literal).map (BitVec.ofInt 32)

/-- The cells after the values have been stored. -/
def stored (intVec : List (BitVec 32)) (vs : List (BitVec 32)) : List (BitVec 32) :=
  vs ++ intVec.drop vs.length

/-- White space or a zero, where a literal may end. -/
def Ends (r : List Char) : Prop := ∀ c ∈ r.head?, c = '\x00' ∨ isspace c

/-- What a turn makes of a text that begins with no white space: the value and the number of
characters it takes, or nothing if the loop ends. -/
def turn (w : ℕ) (text : List Char) : Option (BitVec w × ℕ) :=
  let tmpbuf := text.take 127
  let neg := deref tmpbuf = '-' ∧ 1 < text.length
  let p := if neg then tmpbuf.tail else tmpbuf
  if !(deref p).isDigit then none else
  let r := simpleStrtoul w p
  let len := tmpbuf.length - r.2.length
  if len < text.length ∧ deref r.2 ≠ '\x00' ∧ !isspace (deref r.2) then none
  else some (if neg then -r.1 else r.1, len)

lemma Ends.deref {r : List Char} (h : Ends r) : deref r = '\x00' ∨ isspace (deref r) := by
  cases r with
  | nil => exact Or.inl rfl
  | cons c r => exact h c rfl

/-- What stands behind a word: nothing, or white space. -/
def Behind (rest : List Char) : Prop := ∀ c ∈ rest.head?, isspace c

lemma Behind.ends {rest : List Char} (h : Behind rest) (n : ℕ) : Ends (rest.take n) := by
  intro c hc
  obtain ⟨l, hl⟩ := List.head?_eq_some_iff.mp hc
  obtain ⟨u, hu⟩ := List.take_prefix n rest
  refine Or.inr (h c ?_)
  rw [← hu, hl]
  rfl

end LinuxSamples.ProcVector
