import LinuxSamples.CString
import LinuxSamples.Ledger
import LinuxSamples.Run
import LinuxSamples.Slots

/-!
The class `String` of `string1.cpp`.

An object holds a pointer to a buffer of its own and the length of the text in it. A program is a
sequence of constructions, assignments, destructions and inputs, and each of them may find that
there is no memory, or have no defined behaviour. The invariant of the class holds all along a
program exactly if it stays within its conditions, among them that no object is made by the
default constructor, which sets the length of an empty text to four.
-/

namespace LinuxSamples.StringClass

open CString Ledger Run Slots

def intMax : ℤ := 2147483647

/-- A size that is assigned to an `int`. -/
def toInt (n : ℕ) : ℤ :=
  if n % 4294967296 ≤ 2147483647 then n % 4294967296 else n % 4294967296 - 4294967296

/-- A C string, in the array that holds it. -/
structure CStr where
  cells : List UInt8
  ends : 0 ∈ cells

/-- The text of a C string; its length is what `strlen` returns. -/
def CStr.text (s : CStr) : List UInt8 := s.cells.takeWhile (· ≠ 0)

lemma CStr.holds (s : CStr) : Holds s.cells s.text := holds_takeWhile s.ends

/-! ### Stream input -/

structure Istream where
  rest : List UInt8
  eof : Bool
  fail : Bool

def Istream.good (s : Istream) : Bool := !s.eof && !s.fail

/-- `get(temp, n)`: at most `n - 1` characters, and none from a newline on. The stream fails if
there are none. -/
def Istream.getText (s : Istream) (n : ℕ) : Istream × List UInt8 :=
  if s.good then
    let text := (s.rest.takeWhile (· ≠ newline)).take (n - 1)
    let rest := s.rest.drop text.length
    (⟨rest, text.length < n - 1 ∧ rest = [], text = []⟩, text)
  else ({ s with fail := true }, [])

def dropLine : List UInt8 → Option (List UInt8)
  | [] => none
  | c :: cs => if c = newline then some cs else dropLine cs

/-- The loop that drops the rest of the line. -/
def Istream.skipLine (s : Istream) : Istream :=
  if s.fail then s
  else if s.eof then { s with fail := true }
  else
    match dropLine s.rest with
    | some rest => { s with rest }
    | none => ⟨[], true, true⟩

def cinlim : ℕ := 80

/-- The array `temp` with a text in it; the cells behind the end are not read. -/
def temp (text : List UInt8) : CStr := ⟨text ++ [0], by simp⟩

/-! ### The operations -/

structure Obj where
  str : ℕ
  len : ℤ

/-- A side of a copy or an assignment: an object, or a C string. -/
abbrev Side := ℕ ⊕ CStr

/-- The buffers, the objects in the order of their construction, `num_strings`, and the stream.
Beside them it is kept whether the behaviour has been defined so far, whether the last operation
has thrown, the buffers allocated and freed, and the sides of the last operation if it was a copy
or an assignment. -/
structure World where
  heap : ℕ → Option (List UInt8)
  objs : List (Option Obj)
  numStrings : ℤ
  is : Istream
  defined : Bool
  threw : Bool
  log : List (Ev ℕ)
  made : Option (ℕ × Side)

def start (is : Istream) : World := ⟨fun _ => none, [], 0, is, true, false, [], none⟩

def obj (objs : List (Option Obj)) (i : ℕ) : Option Obj := objs[i]?.join

inductive New
  | undefined
  | throws
  | done (a : ℕ) (buf : List UInt8)

/-- `new char[len + 1]`, with the address of the memory if there is some. -/
def newChars (len : ℤ) (mem : Option ℕ) : New :=
  if intMax < len + 1 then .undefined
  else if len + 1 < 0 then .throws
  else
    match mem with
    | none => .throws
    | some a => .done a (List.replicate (len + 1).toNat 0)

/-- `str = new char[len + 1]` and the `strcpy` from `src`. -/
def initCopy (len : ℤ) (src : Option (List UInt8)) (mem : Option ℕ) : New :=
  match newChars len mem with
  | .undefined => .undefined
  | .throws => .throws
  | .done a buf =>
    match src.bind (strcpy buf) with
    | none => .undefined
    | some buf => .done a buf

namespace World

def undef (w : World) : World := { w with defined := false }

/-- The operation ends with an exception. -/
def leave (w : World) : World := { w with threw := true, made := none }

/-- `num_strings++`. -/
def incr (w : World) : World :=
  if w.numStrings = intMax then w.undef else { w with numStrings := w.numStrings + 1 }

/-- `delete [] str`. -/
def delete (w : World) (a : ℕ) : World :=
  if (w.heap a).isSome then
    { w with heap := Function.update w.heap a none, log := w.log ++ [.free a] }
  else w.undef

/-- A new object with its buffer. The memory that `new` returns is not in use. -/
def add (w : World) (a : ℕ) (buf : List UInt8) (len : ℤ) (side : Option Side) : Option World :=
  if (w.heap a).isSome then none
  else
    some { w with
      heap := Function.update w.heap a (some buf)
      objs := w.objs ++ [some ⟨a, len⟩]
      log := w.log ++ [.alloc a]
      made := side.map (w.objs.length, ·)
      threw := false }

/-- `String(const char *)`. -/
def ofText (w : World) (s : CStr) (mem : Option ℕ) : Option World :=
  let len := toInt s.text.length
  match initCopy len (some s.cells) mem with
  | .undefined => some w.undef
  | .throws => some w.leave
  | .done a buf => (w.add a buf len (some (.inr s))).map incr

/-- `String()`. -/
def default (w : World) (mem : Option ℕ) : Option World :=
  match newChars 0 mem with
  | .undefined => some w.undef
  | .throws => some w.leave
  | .done a _ => (w.add a [0] 4 none).map incr

/-- `String(const String &)`. -/
def copy (w : World) (j : ℕ) (mem : Option ℕ) : Option World := do
  let st ← obj w.objs j
  let w := w.incr
  match initCopy st.len (w.heap st.str) mem with
  | .undefined => some w.undef
  | .throws => some w.leave
  | .done a buf => w.add a buf st.len (some (.inl j))

/-- The object `i`, whose buffer has been freed, gets a length and a new buffer. Without memory it
keeps the old pointer. -/
def reinit (w : World) (i : ℕ) (o : Obj) (len : ℤ) (src : Option (List UInt8)) (mem : Option ℕ)
    (side : Side) : Option World :=
  match initCopy len src mem with
  | .undefined => some w.undef
  | .throws => some { w.leave with objs := w.objs.set i (some ⟨o.str, len⟩) }
  | .done a buf =>
    if (w.heap a).isSome then none
    else
      some { w with
        heap := Function.update w.heap a (some buf)
        objs := w.objs.set i (some ⟨a, len⟩)
        log := w.log ++ [.alloc a]
        made := some (i, side)
        threw := false }

/-- `operator=(const String &)`. -/
def assign (w : World) (i j : ℕ) (mem : Option ℕ) : Option World := do
  let o ← obj w.objs i
  let st ← obj w.objs j
  if i = j then some { w with made := some (i, .inl j), threw := false }
  else
    let w := w.delete o.str
    w.reinit i o st.len (w.heap st.str) mem (.inl j)

/-- `operator=(const char *)`. -/
def assignText (w : World) (i : ℕ) (s : CStr) (mem : Option ℕ) : Option World := do
  let o ← obj w.objs i
  (w.delete o.str).reinit i o (toInt s.text.length) (some s.cells) mem (.inr s)

/-- `~String()`. -/
def destroy (w : World) (i : ℕ) : Option World := do
  let o ← obj w.objs i
  let w := { w with numStrings := w.numStrings - 1 }.delete o.str
  return { w with objs := w.objs.set i none, made := none, threw := false }

/-- `operator>>`. -/
def input (w : World) (i : ℕ) (mem : Option ℕ) : Option World := do
  let _ ← obj w.objs i
  let (is, text) := w.is.getText cinlim
  let w := { w with is }
  if is.fail then return { w with is := is.skipLine, made := none, threw := false }
  let w ← w.assignText i (temp text) mem
  return if w.threw then w else { w with is := w.is.skipLine }

end World

inductive Op
  | ofText (s : CStr) (mem : Option ℕ)
  | default (mem : Option ℕ)
  | copy (j : ℕ) (mem : Option ℕ)
  | assign (i j : ℕ) (mem : Option ℕ)
  | assignText (i : ℕ) (s : CStr) (mem : Option ℕ)
  | destroy (i : ℕ)
  | input (i : ℕ) (mem : Option ℕ)

def step (w : World) (op : Op) : Option World :=
  if w.defined then
    match op with
    | .ofText s mem => w.ofText s mem
    | .default mem => w.default mem
    | .copy j mem => w.copy j mem
    | .assign i j mem => w.assign i j mem
    | .assignText i s mem => w.assignText i s mem
    | .destroy i => w.destroy i
    | .input i mem => w.input i mem
  else some w

/-! ### The invariant -/

def World.cells (w : World) : Side → Option (List UInt8)
  | .inl i => (obj w.objs i).bind fun o => w.heap o.str
  | .inr s => some s.cells

/-- `length()`, and the length of a C string. -/
def World.length (w : World) : Side → Option ℤ
  | .inl i => (obj w.objs i).map Obj.len
  | .inr s => some s.text.length

/-- `operator==`. -/
def World.eqOp (w : World) (x y : Side) : Option Bool := do strEq (← w.cells x) (← w.cells y)

def buffers (objs : List (Option Obj)) : List ℕ := objs.filterMap fun x => x.map Obj.str

/-- The object has a buffer with the text `t`, and its length. -/
def Text (heap : ℕ → Option (List UInt8)) (o : Obj) (t : List UInt8) : Prop :=
  ∃ buf, heap o.str = some buf ∧ Holds buf t ∧ o.len = t.length ∧ o.len + 1 ≤ buf.length

/-- What a program may rely on. If all live objects are destroyed, every buffer has been freed
once. -/
structure World.Sound (w : World) : Prop where
  defined : w.defined = true
  text : ∀ i o, obj w.objs i = some o → ∃ t, Text w.heap o t
  owned : Owned (fun a => w.heap a ≠ none) fun i => (obj w.objs i).map Obj.str
  freed : Paired [] (w.log ++ (buffers w.objs).map .free)
  count : w.numStrings = w.objs.countP Option.isSome
  equal : ∀ i side, w.made = some (i, side) →
    w.eqOp (.inl i) side = some true ∧ w.length (.inl i) = w.length side

/-- `new` throws for a text of `n` characters. -/
def Refused (n : ℕ) (mem : Option ℕ) : Prop := toInt n + 1 < 0 ∨ toInt n < intMax ∧ mem = none

def Meets (w : World) : Op → Prop
  | .ofText s mem =>
    Refused s.text.length mem ∨ s.text.length < intMax ∧ w.numStrings < intMax
  | .default mem => mem = none
  | .copy _ mem => mem ≠ none ∧ w.numStrings < intMax
  | .assign i j mem => i = j ∨ mem ≠ none
  | .assignText _ s mem => mem ≠ none ∧ s.text.length < intMax
  | .destroy _ => True
  | .input _ mem => (w.is.getText cinlim).1.fail = true ∨ mem ≠ none

instance (n : ℕ) (mem : Option ℕ) : Decidable (Refused n mem) :=
  inferInstanceAs (Decidable (_ ∨ _))

instance (w : World) : (op : Op) → Decidable (Meets w op)
  | .ofText _ _ => inferInstanceAs (Decidable (_ ∨ _))
  | .default mem => inferInstanceAs (Decidable (mem = none))
  | .copy _ _ => inferInstanceAs (Decidable (_ ∧ _))
  | .assign _ _ _ => inferInstanceAs (Decidable (_ ∨ _))
  | .assignText _ _ _ => inferInstanceAs (Decidable (_ ∧ _))
  | .destroy _ => isTrue trivial
  | .input _ _ => inferInstanceAs (Decidable (_ ∨ _))

end LinuxSamples.StringClass
