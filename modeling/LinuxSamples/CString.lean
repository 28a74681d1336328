import Mathlib.Tactic

/-!
Zero-terminated strings in arrays.

An array is the list of its cells. The operations go through it cell by cell, as the C
functions of the same name do, and have no result if they would touch a cell behind the
end. `Holds xs s` says that the string `s` stands in the array `xs`, and under it each
operation has the result that the string alone determines.
-/

namespace LinuxSamples.CString

def bytes (t : List Char) : List UInt8 := t.map fun c => c.toNat.toUInt8

def ascii (t : String) : List UInt8 := bytes t.toList

def str : List UInt8 → Option (List UInt8)
  | [] => none
  | c :: cs => if c = 0 then some [] else (str cs).map (c :: ·)

def strlen (xs : List UInt8) : Option ℕ := (str xs).map List.length

def strcpy : (dst src : List UInt8) → Option (List UInt8)
  | _ :: ds, c :: cs => if c = 0 then some (0 :: ds) else (strcpy ds cs).map (c :: ·)
  | _, _ => none

/-- Whether the array begins with the word `w`. The comparison ends at the first difference. -/
def startsWith : (w xs : List UInt8) → Option Bool
  | [], _ => some true
  | _ :: _, [] => none
  | b :: w, c :: cs => if b = c then startsWith w cs else some false

/-- The offset at which the word `w` first occurs in the string. -/
def strstr (w : List UInt8) : List UInt8 → Option (Option ℕ)
  | [] => none
  | c :: cs =>
    (startsWith w (c :: cs)).bind fun b =>
      if b then some (some 0)
      else if c = 0 then some none
      else (strstr w cs).map (Option.map (· + 1))

/-- `strstr` from the cell `i` on; the offset counts from the beginning of the array. -/
def strstrAt (w xs : List UInt8) (i : ℕ) : Option (Option ℕ) :=
  (strstr w (xs.drop i)).map (Option.map (i + ·))

/-- Whether `strcmp` finds no difference. -/
def strEq : (xs ys : List UInt8) → Option Bool
  | c :: cs, d :: ds => if c = d then if c = 0 then some true else strEq cs ds else some false
  | _, _ => none

def put (xs : List UInt8) (i : ℕ) (c : UInt8) : Option (List UInt8) :=
  if i < xs.length then some (xs.set i c) else none

/-- A text is stored with a zero behind it. -/
def store (xs bs : List UInt8) : Option (List UInt8) :=
  if bs.length < xs.length then some (bs ++ 0 :: xs.drop (bs.length + 1)) else none

/-- `strncpy` of `n` characters. Behind the end of the string zeros are stored; without an end
among them there is none in the array either. -/
def strncpy : ℕ → (dst src : List UInt8) → Option (List UInt8)
  | 0, dst, _ => some dst
  | n + 1, _ :: ds, c :: cs =>
    if c = 0 then if n ≤ ds.length then some (List.replicate (n + 1) 0 ++ ds.drop n) else none
    else (strncpy n ds cs).map (c :: ·)
  | _, _, _ => none

/-- An array of `n` zeros into which `bs` is copied. -/
def fill (n : ℕ) (bs : List UInt8) : List UInt8 := bs ++ List.replicate (n - bs.length) 0

def newline : UInt8 := 10

/-- At most `n` bytes of the input, and none behind a newline. -/
def piece : ℕ → List UInt8 → List UInt8
  | 0, _ => []
  | _ + 1, [] => []
  | n + 1, c :: cs => if c = newline then [c] else c :: piece n cs

/-- `fgets` into the array `xs`, with all of its size: the array and the rest of the input. There
is nothing to read at the end of the input. -/
def fgets (xs input : List UInt8) : Option (List UInt8 × List UInt8) :=
  if input = [] then none
  else
    let p := piece (xs.length - 1) input
    some (p ++ 0 :: xs.drop (p.length + 1), input.drop p.length)

/-- `sprintf` with the format `%d`. -/
def sprintfD (n : ℤ) : List Char :=
  if n < 0 then '-' :: Nat.toDigits 10 n.natAbs else Nat.toDigits 10 n.natAbs

/-! ### Words in strings -/

/-- The first occurrence of the word `w` in `s`. -/
def find (w s : List UInt8) : Option ℕ := s.tails.findIdx? fun t => w.isPrefixOf t

def findFrom (w s : List UInt8) (i : ℕ) : Option ℕ := (find w (s.drop i)).map (i + ·)

lemma not_mem_cons {a b : UInt8} {l : List UInt8} : a ∉ b :: l ↔ a ≠ b ∧ a ∉ l := by
  rw [List.mem_cons, not_or]

section Find

variable {w s : List UInt8}

lemma find_nil (w : List UInt8) : find w [] = if w.isPrefixOf [] then some 0 else none := by
  simp only [find, List.tails, List.findIdx?_cons, List.findIdx?_nil, Option.map_none]

lemma find_cons (w : List UInt8) (c : UInt8) (s : List UInt8) :
    find w (c :: s) =
      if w.isPrefixOf (c :: s) then some 0 else (find w s).map (· + 1) := by
  simp only [find, List.tails_cons, List.findIdx?_cons]

lemma prefix_of_find {j : ℕ} (h : find w s = some j) : w <+: s.drop j := by
  obtain ⟨hj, hw, -⟩ := List.findIdx?_eq_some_iff_getElem.mp h
  rw [List.getElem_tails] at hw
  exact List.isPrefixOf_iff_prefix.mp hw

lemma find_lt {j : ℕ} (h : find w s = some j) (hw : w ≠ []) : j < s.length := by
  have hlen := (prefix_of_find h).length_le
  have hpos := List.length_pos_iff.mpr hw
  rw [List.length_drop] at hlen
  omega

lemma find_of_prefix (h : w <+: s) : find w s = some 0 := by
  have hprefix := List.isPrefixOf_iff_prefix.mpr h
  cases s with
  | nil => rw [find_nil, if_pos hprefix]
  | cons c s => rw [find_cons, if_pos hprefix]

lemma exists_find_le {j : ℕ} (h : w <+: s.drop j) : ∃ i ≤ j, find w s = some i := by
  induction s generalizing j with
  | nil => exact ⟨0, Nat.zero_le j, find_of_prefix (by simpa using h)⟩
  | cons c s ih =>
    by_cases hprefix : w.isPrefixOf (c :: s) = true
    · exact ⟨0, Nat.zero_le j, by rw [find_cons, if_pos hprefix]⟩
    · cases j with
      | zero => exact absurd (List.isPrefixOf_iff_prefix.mpr h) hprefix
      | succ j =>
        obtain ⟨i, hi, hfind⟩ := ih h
        exact ⟨i + 1, by omega, by rw [find_cons, if_neg hprefix, hfind]; rfl⟩

lemma isPrefixOf_append_cons {b : UInt8} (hb : b ∉ w) (x y : List UInt8) :
    w.isPrefixOf (x ++ b :: y) = w.isPrefixOf x := by
  induction w generalizing x with
  | nil => simp
  | cons c w ih =>
    obtain ⟨hne, hb⟩ := not_mem_cons.mp hb
    cases x with
    | nil => simp [List.isPrefixOf_cons_cons, Ne.symm hne]
    | cons d x => rw [List.cons_append, List.isPrefixOf_cons_cons, List.isPrefixOf_cons_cons, ih hb]

lemma find_append_cons {b : UInt8} (hb : b ∉ w) (x y : List UInt8) :
    find w (x ++ b :: y) = (find w x).or ((find w y).map (x.length + 1 + ·)) := by
  induction x with
  | nil =>
    have hprefix := isPrefixOf_append_cons hb [] y
    rw [List.nil_append] at hprefix ⊢
    rw [find_cons, hprefix, find_nil]
    split
    · rfl
    · simp [add_comm]
  | cons c x ih =>
    have hprefix := isPrefixOf_append_cons hb (c :: x) y
    rw [List.cons_append] at hprefix ⊢
    rw [find_cons, find_cons, hprefix, ih]
    split
    · rfl
    · cases find w x with
      | some i => rfl
      | none =>
        rw [Option.none_or, Option.map_map, Option.map_none, Option.none_or, List.length_cons]
        congr 1
        funext i
        simp only [Function.comp_apply]
        omega

lemma find_singleton {b : UInt8} {x : List UInt8} (hb : b ∉ x) (y : List UInt8) :
    find [b] (x ++ b :: y) = some x.length := by
  induction x with
  | nil => exact find_of_prefix ⟨y, rfl⟩
  | cons c x ih =>
    obtain ⟨hne, hb⟩ := not_mem_cons.mp hb
    rw [List.cons_append, find_cons, if_neg (by simp [List.isPrefixOf_cons_cons, hne]), ih hb]
    rfl

lemma findFrom_singleton {b : UInt8} {l x y : List UInt8} {i : ℕ} (hs : s = l ++ (x ++ b :: y))
    (hi : l.length = i) (hb : b ∉ x) : findFrom [b] s i = some (i + x.length) := by
  subst hi
  rw [hs, findFrom, List.drop_left, find_singleton hb]
  rfl

lemma findFrom_bounds {i j : ℕ} (h : findFrom w s i = some j) (hw : w ≠ []) :
    i ≤ j ∧ j < s.length := by
  obtain ⟨k, hk, rfl⟩ := Option.map_eq_some_iff.mp h
  have hlt := find_lt hk hw
  rw [List.length_drop] at hlt
  omega

end Find

/-! ### Arrays that hold a string -/

/-- The array begins with the string `s` and the zero behind it. -/
structure Holds (xs s : List UInt8) : Prop where
  zero : 0 ∉ s
  eq : ∃ rest, xs = s ++ 0 :: rest

section Holds

variable {xs s : List UInt8}

lemma Holds.length_lt (h : Holds xs s) : s.length < xs.length := by
  obtain ⟨rest, rfl⟩ := h.eq
  simp

lemma Holds.str (h : Holds xs s) : str xs = some s := by
  obtain ⟨hz, rest, rfl⟩ := h
  induction s with
  | nil => rfl
  | cons c s ih =>
    obtain ⟨hc, hs⟩ := not_mem_cons.mp hz
    rw [List.cons_append, CString.str, if_neg (Ne.symm hc), ih hs]
    rfl

lemma Holds.strlen (h : Holds xs s) : strlen xs = some s.length := by
  rw [CString.strlen, h.str]
  rfl

lemma str_eq_none (h : 0 ∉ xs) : str xs = none := by
  induction xs with
  | nil => rfl
  | cons c xs ih =>
    obtain ⟨hc, hxs⟩ := not_mem_cons.mp h
    rw [str, if_neg (Ne.symm hc), ih hxs]
    rfl

lemma holds_takeWhile (h : 0 ∈ xs) : Holds xs (xs.takeWhile (· ≠ 0)) := by
  obtain ⟨s, rest, rfl, hs⟩ := List.eq_append_cons_of_mem h
  have htake : (s ++ 0 :: rest).takeWhile (· ≠ 0) = s := by
    rw [List.takeWhile_append_of_pos, List.takeWhile_cons_of_neg (by decide), List.append_nil]
    exact fun c hc => decide_eq_true (ne_of_mem_of_not_mem hc hs)
  rw [htake]
  exact ⟨hs, rest, rfl⟩

lemma Holds.drop {i : ℕ} (h : Holds xs s) (hi : i ≤ s.length) : Holds (xs.drop i) (s.drop i) := by
  obtain ⟨hz, rest, rfl⟩ := h
  exact ⟨fun hm => hz (List.mem_of_mem_drop hm), rest, List.drop_append_of_le_length hi⟩

lemma Holds.put {i : ℕ} (h : Holds xs s) (hi : i < s.length) :
    ∃ xs', put xs i 0 = some xs' ∧ Holds xs' (s.take i) := by
  have hlen := h.length_lt
  obtain ⟨hz, rest, rfl⟩ := h
  refine ⟨_, if_pos (by omega), fun hm => hz (List.mem_of_mem_take hm),
    s.drop (i + 1) ++ 0 :: rest, ?_⟩
  rw [List.set_append_left _ _ hi, List.set_eq_take_append_cons_drop, if_pos hi,
    List.append_assoc, List.cons_append]

lemma Holds.strcpy {dst : List UInt8} (h : Holds xs s) (hlen : s.length < dst.length) :
    strcpy dst xs = some (s ++ 0 :: dst.drop (s.length + 1)) := by
  obtain ⟨hz, rest, rfl⟩ := h
  induction s generalizing dst with
  | nil =>
    obtain ⟨d, ds, rfl⟩ := List.exists_cons_of_length_pos hlen
    rfl
  | cons c s ih =>
    obtain ⟨d, ds, rfl⟩ := List.exists_cons_of_length_pos (Nat.zero_lt_of_lt hlen)
    obtain ⟨hc, hs⟩ := not_mem_cons.mp hz
    rw [List.cons_append, CString.strcpy, if_neg (Ne.symm hc),
      ih (Nat.lt_of_succ_lt_succ hlen) hs]
    rfl

lemma Holds.strcpy_eq_none {dst : List UInt8} (h : Holds xs s) (hlen : dst.length ≤ s.length) :
    CString.strcpy dst xs = none := by
  obtain ⟨hz, rest, rfl⟩ := h
  induction s generalizing dst with
  | nil =>
    obtain rfl := List.length_eq_zero_iff.mp (Nat.le_zero.mp hlen)
    rfl
  | cons c s ih =>
    cases dst with
    | nil => rfl
    | cons d ds =>
      obtain ⟨hc, hs⟩ := not_mem_cons.mp hz
      rw [List.cons_append, CString.strcpy, if_neg (Ne.symm hc),
        ih (Nat.le_of_succ_le_succ hlen) hs]
      rfl

lemma holds_store {n : ℕ} {bs : List UInt8} (hxs : xs.length = n) (hz : 0 ∉ bs)
    (hlen : bs.length < n) : ∃ ys, store xs bs = some ys ∧ ys.length = n ∧ Holds ys bs := by
  refine ⟨_, if_pos (by omega), ?_, hz, _, rfl⟩
  simp only [List.length_append, List.length_cons, List.length_drop]
  omega

lemma Holds.strncpy {n : ℕ} {dst : List UInt8} (h : Holds xs s) (hs : s.length < n)
    (hn : n ≤ dst.length) :
    ∃ ys, strncpy n dst xs = some ys ∧ ys.length = dst.length ∧ Holds ys s := by
  obtain ⟨hz, rest, rfl⟩ := h
  induction s generalizing n dst with
  | nil =>
    obtain ⟨n, rfl⟩ := Nat.exists_eq_succ_of_ne_zero (Nat.ne_of_gt hs)
    obtain ⟨d, ds, rfl⟩ := List.exists_cons_of_length_pos (Nat.zero_lt_of_lt hn)
    have hds : n ≤ ds.length := Nat.le_of_succ_le_succ hn
    refine ⟨_, (if_pos rfl).trans (if_pos hds), ?_, List.not_mem_nil, _, rfl⟩
    simp only [List.length_append, List.length_replicate, List.length_drop, List.length_cons]
    omega
  | cons c s ih =>
    obtain ⟨n, rfl⟩ := Nat.exists_eq_succ_of_ne_zero (Nat.ne_of_gt (Nat.zero_lt_of_lt hs))
    obtain ⟨d, ds, rfl⟩ := List.exists_cons_of_length_pos (Nat.zero_lt_of_lt hn)
    obtain ⟨hc, hs'⟩ := not_mem_cons.mp hz
    obtain ⟨ys, hys, hlen, hholds⟩ :=
      ih (Nat.lt_of_succ_lt_succ hs) (Nat.le_of_succ_le_succ hn) hs'
    obtain ⟨-, tail, rfl⟩ := hholds
    refine ⟨c :: (s ++ 0 :: tail), ?_, congrArg Nat.succ hlen, hz, tail, rfl⟩
    rw [List.cons_append, CString.strncpy, if_neg (Ne.symm hc), hys]
    rfl

lemma Holds.copied (h : Holds xs s) (rest : List UInt8) : Holds (s ++ 0 :: rest) s :=
  ⟨h.zero, rest, rfl⟩

lemma startsWith_append {w : List UInt8} (hw : 0 ∉ w) (s rest : List UInt8) :
    startsWith w (s ++ 0 :: rest) = some (w.isPrefixOf s) := by
  induction w generalizing s with
  | nil => rfl
  | cons b w ih =>
    obtain ⟨hb, hw⟩ := not_mem_cons.mp hw
    cases s with
    | nil => exact if_neg (Ne.symm hb)
    | cons c s =>
      rw [List.cons_append, startsWith, ih hw, List.isPrefixOf_cons_cons]
      by_cases hbc : b = c
      · simp [hbc]
      · simp [hbc]

lemma Holds.strstr {w : List UInt8} (h : Holds xs s) (hw : 0 ∉ w) :
    strstr w xs = some (find w s) := by
  obtain ⟨hz, rest, rfl⟩ := h
  induction s with
  | nil =>
    have hstart := startsWith_append hw [] rest
    rw [List.nil_append] at hstart ⊢
    rw [CString.strstr, hstart, find_nil, Option.bind_some, if_pos rfl]
    split <;> rfl
  | cons c s ih =>
    obtain ⟨hc, hs⟩ := not_mem_cons.mp hz
    have hstart := startsWith_append hw (c :: s) rest
    rw [List.cons_append] at hstart ⊢
    rw [CString.strstr, hstart, find_cons, Option.bind_some, if_neg (Ne.symm hc), ih hs]
    split <;> rfl

lemma Holds.strstrAt {w : List UInt8} {i : ℕ} (h : Holds xs s) (hw : 0 ∉ w) (hi : i ≤ s.length) :
    strstrAt w xs i = some (findFrom w s i) := by
  rw [CString.strstrAt, (h.drop hi).strstr hw]
  rfl

lemma Holds.strEq {ys t : List UInt8} (h : Holds xs s) (h' : Holds ys t) :
    strEq xs ys = some (decide (s = t)) := by
  obtain ⟨hs, rest, rfl⟩ := h
  obtain ⟨ht, rest', rfl⟩ := h'
  induction s generalizing t with
  | nil =>
    cases t with
    | nil => rfl
    | cons d t =>
      obtain ⟨hd, -⟩ := not_mem_cons.mp ht
      exact if_neg hd
  | cons c s ih =>
    obtain ⟨hc, hs⟩ := not_mem_cons.mp hs
    cases t with
    | nil => exact if_neg (Ne.symm hc)
    | cons d t =>
      obtain ⟨-, ht⟩ := not_mem_cons.mp ht
      rw [List.cons_append, List.cons_append, CString.strEq, if_neg (Ne.symm hc), ih hs ht]
      by_cases hcd : c = d
      · simp [hcd]
      · simp [hcd]

end Holds

/-! ### Arrays filled from the outside -/

lemma takeWhile_append_of_nil {bs zs : List UInt8} (h : zs.takeWhile (· ≠ 0) = []) :
    (bs ++ zs).takeWhile (· ≠ 0) = bs.takeWhile (· ≠ 0) := by
  rw [List.takeWhile_append]
  split
  · rename_i hall
    rw [h, List.append_nil, ( List.takeWhile_prefix _).eq_of_length hall]
  · rfl

lemma takeWhile_fill (n : ℕ) (bs : List UInt8) :
    (fill n bs).takeWhile (· ≠ 0) = bs.takeWhile (· ≠ 0) := by
  refine takeWhile_append_of_nil ?_
  rw [List.takeWhile_replicate, if_neg (by decide)]

lemma holds_append_zero (bs rest : List UInt8) :
    Holds (bs ++ 0 :: rest) (bs.takeWhile (· ≠ 0)) := by
  have hhold := holds_takeWhile (show 0 ∈ bs ++ 0 :: rest by simp)
  rwa [takeWhile_append_of_nil (List.takeWhile_cons_of_neg (by decide))] at hhold

lemma zero_mem_fill {n : ℕ} {bs : List UInt8} : 0 ∈ fill n bs ↔ bs.length < n ∨ 0 ∈ bs := by
  simp only [fill, List.mem_append, List.mem_replicate]
  constructor
  · rintro (h | ⟨h, -⟩)
    · exact Or.inr h
    · exact Or.inl (by omega)
  · rintro (h | h)
    · exact Or.inr ⟨by omega, trivial⟩
    · exact Or.inl h

lemma holds_fill {n : ℕ} {bs : List UInt8} (h : bs.length < n ∨ 0 ∈ bs) :
    Holds (fill n bs) (bs.takeWhile (· ≠ 0)) := by
  have hhold := holds_takeWhile (zero_mem_fill.mpr h)
  rwa [takeWhile_fill] at hhold

/-! ### Input -/

lemma length_piece_le (n : ℕ) (input : List UInt8) : (piece n input).length ≤ n := by
  fun_induction piece n input with
  | case1 => exact le_rfl
  | case2 => exact Nat.zero_le _
  | case3 n cs => simp
  | case4 n c cs hc ih => simpa using ih

lemma piece_ne_nil {n : ℕ} {input : List UInt8} (hn : 0 < n) (h : input ≠ []) :
    piece n input ≠ [] := by
  obtain ⟨c, cs, rfl⟩ := List.exists_cons_of_ne_nil h
  obtain ⟨m, rfl⟩ := Nat.exists_eq_succ_of_ne_zero hn.ne'
  rw [piece]
  split <;> exact List.cons_ne_nil _ _

/-- **What a piece is**: a line with its newline, or as much as there is room for, without one. -/
lemma piece_cases (n : ℕ) (input : List UInt8) :
    (∃ l rest, input = l ++ newline :: rest ∧ newline ∉ l ∧ l.length < n ∧
        piece n input = l ++ [newline]) ∨
      (newline ∉ input.take n ∧ piece n input = input.take n) := by
  fun_induction piece n input with
  | case1 => exact Or.inr ⟨by simp, rfl⟩
  | case2 => exact Or.inr ⟨by simp, rfl⟩
  | case3 n cs => exact Or.inl ⟨[], cs, rfl, List.not_mem_nil, Nat.succ_pos n, rfl⟩
  | case4 n c cs hc ih =>
    have hne : newline ≠ c := fun h => hc h.symm
    rcases ih with ⟨l, rest, rfl, hl, hlen, hp⟩ | ⟨htake, hp⟩
    · exact Or.inl ⟨c :: l, rest, rfl, not_mem_cons.mpr ⟨hne, hl⟩, Nat.succ_lt_succ hlen,
        by rw [hp]; rfl⟩
    · exact Or.inr ⟨not_mem_cons.mpr ⟨hne, htake⟩, by rw [hp]; rfl⟩

lemma prefix_piece (n : ℕ) (input : List UInt8) : piece n input <+: input := by
  rcases piece_cases n input with ⟨l, rest, rfl, -, -, hp⟩ | ⟨-, hp⟩ <;> rw [hp]
  · exact ⟨rest, by simp⟩
  · exact List.take_prefix n input

lemma fgets_eq {xs input : List UInt8} (h : input ≠ []) :
    fgets xs input = some (piece (xs.length - 1) input ++
      0 :: xs.drop ((piece (xs.length - 1) input).length + 1),
      input.drop (piece (xs.length - 1) input).length) := if_neg h

lemma fgets_spec {xs ys input rest : List UInt8} (hxs : 2 ≤ xs.length)
    (h : fgets xs input = some (ys, rest)) :
    ys.length = xs.length ∧ rest.length < input.length := by
  by_cases hinput : input = []
  · rw [fgets, if_pos hinput] at h
    cases h
  · rw [fgets_eq hinput] at h
    have hle := length_piece_le (xs.length - 1) input
    have hpos := List.length_pos_iff.mpr (piece_ne_nil (n := xs.length - 1) (by omega) hinput)
    have hle' := (prefix_piece (xs.length - 1) input).length_le
    cases h
    simp only [List.length_append, List.length_cons, List.length_drop]
    omega

/-! ### Decimal numbers -/

lemma isDigit_toDigits {n : ℕ} {c : Char} (h : c ∈ Nat.toDigits 10 n) : c.isDigit :=
  Nat.isDigit_of_mem_toDigits (by decide) le_rfl h

lemma length_sprintfD_le (x : BitVec 32) : (sprintfD x.toInt).length ≤ 11 := by
  have hlow := BitVec.le_toInt x
  have hhigh := BitVec.toInt_lt (x := x)
  have hdigits : (Nat.toDigits 10 x.toInt.natAbs).length ≤ 10 := by
    rw [Nat.length_toDigits_le_iff (by decide) (by decide)]
    norm_num at hlow hhigh ⊢
    omega
  unfold sprintfD
  split
  · rw [List.length_cons]
    omega
  · omega

lemma toNat_of_mem_toDigits {n : ℕ} {c : Char} (h : c ∈ Nat.toDigits 10 n) :
    48 ≤ c.toNat ∧ c.toNat ≤ 57 := by
  have hc := isDigit_toDigits h
  simp only [Char.isDigit, Bool.and_eq_true, decide_eq_true_eq] at hc
  exact hc

lemma toNat_of_mem_sprintfD {n : ℤ} {c : Char} (h : c ∈ sprintfD n) :
    c.toNat = 45 ∨ 48 ≤ c.toNat ∧ c.toNat ≤ 57 := by
  unfold sprintfD at h
  split at h
  · rcases List.mem_cons.mp h with rfl | h
    · exact Or.inl rfl
    · exact Or.inr (toNat_of_mem_toDigits h)
  · exact Or.inr (toNat_of_mem_toDigits h)

lemma toNat_of_mem_bytes_sprintfD {n : ℤ} {b : UInt8} (h : b ∈ bytes (sprintfD n)) :
    b.toNat = 45 ∨ 48 ≤ b.toNat ∧ b.toNat ≤ 57 := by
  obtain ⟨c, hc, rfl⟩ := List.mem_map.mp h
  have hrange := toNat_of_mem_sprintfD hc
  have hmod : c.toNat.toUInt8.toNat = c.toNat % 256 := rfl
  omega

lemma zero_not_mem_sprintfD (n : ℤ) : 0 ∉ bytes (sprintfD n) := fun h =>
  absurd (toNat_of_mem_bytes_sprintfD h) (by decide)

lemma toDigits_inj {m n : ℕ} (h : Nat.toDigits 10 m = Nat.toDigits 10 n) : m = n := by
  rw [← Nat.ofDigitChars_toDigits (n := m) (b := 10) (by decide) le_rfl, h,
    Nat.ofDigitChars_toDigits (by decide) le_rfl]

lemma minus_cons_ne_toDigits (cs : List Char) (n : ℕ) : '-' :: cs ≠ Nat.toDigits 10 n := by
  intro h
  have hmem : '-' ∈ Nat.toDigits 10 n := h ▸ List.mem_cons_self
  exact absurd (toNat_of_mem_toDigits hmem).1 (by decide)

lemma sprintfD_inj {m n : ℤ} (h : sprintfD m = sprintfD n) : m = n := by
  unfold sprintfD at h
  split_ifs at h with hm hn hn
  · have := toDigits_inj (List.cons.inj h).2
    omega
  · exact absurd h (minus_cons_ne_toDigits _ _)
  · exact absurd h.symm (minus_cons_ne_toDigits _ _)
  · have := toDigits_inj h
    omega

lemma bytes_sprintfD_inj {m n : ℤ} (h : bytes (sprintfD m) = bytes (sprintfD n)) : m = n := by
  have hback (n : ℤ) : (bytes (sprintfD n)).map (fun b => Char.ofNat b.toNat) = sprintfD n := by
    rw [bytes, List.map_map]
    refine (List.map_congr_left fun c hc => ?_).trans (List.map_id _)
    have hrange := toNat_of_mem_sprintfD hc
    change Char.ofNat (c.toNat % 256) = c
    rw [Nat.mod_eq_of_lt (by omega), Char.ofNat_toNat]
  refine sprintfD_inj ?_
  rw [← hback m, h, hback n]

end LinuxSamples.CString
