import LinuxSamples.CString

/-!
The vector of integers behind a file of the proc file system.

`read_proc` prints the vector and `write_proc` parses what it is given, one integer after
the other. The printer puts a tab after every number and the parser stops a number at
white space, so that the text of a vector, written back, gives the vector.
-/

namespace LinuxSamples.ProcVector

open LinuxSamples.CString

/-! ### The library functions -/

/-- `isspace` of the kernel, with the no-break space of Latin-1. -/
def isspace (c : Char) : Bool :=
  9 ≤ c.toNat ∧ c.toNat ≤ 13 ∨ c.toNat = 32 ∨ c.toNat = 160

/-- The value of a digit, of any base up to sixteen. -/
def digitValue (c : Char) : Option ℕ :=
  if c.isDigit then some (c.toNat - '0'.toNat)
  else if 'a' ≤ c.toLower ∧ c.toLower ≤ 'f' then some (c.toLower.toNat - 'a'.toNat + 10)
  else none

/-- The base that the beginning of a number stands for, and what follows its prefix. -/
def fixupRadix : List Char → ℕ × List Char
  | '0' :: x :: d :: cs =>
    if x.toLower = 'x' ∧ (digitValue d).isSome then (16, d :: cs) else (8, '0' :: x :: d :: cs)
  | '0' :: cs => (8, '0' :: cs)
  | cs => (10, cs)

/-- The value of the longest run of digits of base `b`, and what follows it. -/
def parseInteger (b : ℕ) : List Char → ℕ → ℕ × List Char
  | [], acc => (acc, [])
  | c :: cs, acc =>
    match digitValue c with
    | some d => if d < b then parseInteger b cs (b * acc + d) else (acc, c :: cs)
    | none => (acc, c :: cs)

/-- `simple_strtoul` with base zero: the value, an `unsigned long` of `w` bits, and the place
where the number ends. -/
def simpleStrtoul (w : ℕ) (p : List Char) : BitVec w × List Char :=
  let q := fixupRadix p
  let r := parseInteger q.1 q.2 0
  (BitVec.ofNat w r.1, r.2)

/-! ### The driver -/

def EFAULT : ℤ := 14

/-- `read_proc`: the text on the page. -/
def readProc (intVec : List (BitVec 32)) : List Char :=
  intVec.flatMap (fun i => sprintfD i.toInt ++ ['\t']) ++ ['\n']

/-- The loop that skips white space. The list is the readable memory of the caller, and
`get_user` fails behind its end. -/
def skipSpaces : List Char → ℕ → Option (List Char × ℕ)
  | s, 0 => some (s, 0)
  | [], _ + 1 => none
  | c :: s, left + 1 => if isspace c then skipSpaces s left else some (c :: s, left + 1)

/-- The character that `p` points to; the buffer ends with a zero. -/
def deref (p : List Char) : Char := p.headD '\x00'

/-- The loop of `write_proc`: the cells from `i` on, the memory from `s` on and the number of
characters left. The result is the cells afterwards and whether the copying failed. -/
def writeLoop (w : ℕ) : List (BitVec 32) → List Char → ℕ → List (BitVec 32) × Bool
  | [], _, _ => ([], false)
  | i :: is, s, left =>
    if left = 0 then (i :: is, false) else
    match skipSpaces s left with
    | none => (i :: is, true)
    | some (s, left) =>
      if left = 0 then (i :: is, false) else
      let len := min left 127
      if s.length < len then (i :: is, true) else
      let tmpbuf := s.take len
      let neg := deref tmpbuf = '-' ∧ 1 < left
      let p := if neg then tmpbuf.tail else tmpbuf
      if !(deref p).isDigit then (i :: is, false) else
      let r := simpleStrtoul w p
      let len := tmpbuf.length - r.2.length
      if len < left ∧ deref r.2 ≠ '\x00' ∧ !isspace (deref r.2) then (i :: is, false) else
      let rest := writeLoop w is (s.drop len) (left - len)
      ((if neg then -r.1 else r.1).setWidth 32 :: rest.1, rest.2)

/-- `write_proc`: the vector afterwards and the return value. -/
def writeProc (w : ℕ) (intVec : List (BitVec 32)) (buf : List Char) (count : ℕ) :
    List (BitVec 32) × ℤ :=
  let r := writeLoop w intVec buf count
  (r.1, if r.2 then -EFAULT else count)

/-! ### Numbers -/

lemma digitValue_of_isDigit {c : Char} (h : c.isDigit) :
    digitValue c = some (c.toNat - '0'.toNat) := if_pos h

lemma toNat_sub_lt_ten {c : Char} (h : c.isDigit) : c.toNat - '0'.toNat < 10 := by
  simp only [Char.isDigit, Bool.and_eq_true, decide_eq_true_eq] at h
  have h9 : c.toNat ≤ 57 := h.2
  have h0 : '0'.toNat = 48 := rfl
  omega

lemma parseInteger_digits {ds : List Char} (h : ∀ c ∈ ds, c.isDigit) (r : List Char) (acc : ℕ) :
    parseInteger 10 (ds ++ '\t' :: r) acc = (Nat.ofDigitChars 10 ds acc, '\t' :: r) := by
  induction ds generalizing acc with
  | nil => rfl
  | cons c ds ih =>
    have hc := h c List.mem_cons_self
    rw [List.cons_append, parseInteger, digitValue_of_isDigit hc]
    simp only [toNat_sub_lt_ten hc, if_true]
    rw [ih fun d hd => h d (List.mem_cons_of_mem c hd)]
    rfl

lemma exists_toDigits_eq_cons {n : ℕ} (hn : 0 < n) :
    ∃ c cs, Nat.toDigits 10 n = c :: cs ∧ c ≠ '0' := by
  induction n using Nat.strong_induction_on with
  | _ n ih =>
    rcases Nat.lt_or_ge n 10 with h | h
    · refine ⟨_, [], Nat.toDigits_of_lt_base h, ?_⟩
      interval_cases n <;> decide
    · obtain ⟨c, cs, he, hc⟩ := ih (n / 10) (by omega) (by omega)
      refine ⟨c, cs ++ [(n % 10).digitChar], ?_, hc⟩
      rw [Nat.toDigits_of_base_le (by decide) h, he, List.cons_append]

lemma fixupRadix_of_ne {c : Char} (hc : c ≠ '0') (cs : List Char) :
    fixupRadix (c :: cs) = (10, c :: cs) := by
  unfold fixupRadix
  split <;> simp_all

/-- **The parser reads back a printed number.** Zero is the one number whose text begins with
a zero, and its digit counts the same in base eight. -/
lemma simpleStrtoul_toDigits (w n : ℕ) (r : List Char) :
    simpleStrtoul w (Nat.toDigits 10 n ++ '\t' :: r) = (BitVec.ofNat w n, '\t' :: r) := by
  rcases Nat.eq_zero_or_pos n with rfl | hn
  · cases r <;> rfl
  · obtain ⟨c, cs, he, hc⟩ := exists_toDigits_eq_cons hn
    have hradix : fixupRadix (Nat.toDigits 10 n ++ '\t' :: r) =
        (10, Nat.toDigits 10 n ++ '\t' :: r) := by
      rw [he, List.cons_append, fixupRadix_of_ne hc]
    simp only [simpleStrtoul, hradix, parseInteger_digits (fun d hd => isDigit_toDigits hd) r 0]
    rw [Nat.ofDigitChars_toDigits (by decide) le_rfl]

/-- The magnitude of a number, negated if it is negative, is the number in its 32 bits. The
smallest number has no magnitude in 32 bits, but the negation is made in `unsigned long`. -/
lemma setWidth_magnitude {w : ℕ} (hw : 32 ≤ w) (x : BitVec 32) :
    (if x.toInt < 0 then -BitVec.ofNat w x.toInt.natAbs
      else BitVec.ofNat w x.toInt.natAbs).setWidth 32 = x := by
  have habs : BitVec.ofInt 32 (x.toInt.natAbs : ℤ) = BitVec.ofNat 32 x.toInt.natAbs :=
    BitVec.ofInt_natCast ..
  split
  · rename_i hneg
    rw [BitVec.setWidth_neg_of_le hw, BitVec.setWidth_ofNat_of_le hw, ← habs, ← BitVec.ofInt_neg]
    rw [show -(x.toInt.natAbs : ℤ) = x.toInt by omega, BitVec.ofInt_toInt]
  · rename_i hpos
    rw [BitVec.setWidth_ofNat_of_le hw, ← habs]
    rw [show (x.toInt.natAbs : ℤ) = x.toInt by omega, BitVec.ofInt_toInt]

/-! ### One number of the text -/

lemma not_isspace_of_isDigit {c : Char} (h : c.isDigit) : isspace c = false := by
  simp only [Char.isDigit, Bool.and_eq_true, decide_eq_true_eq] at h
  have h0 : 48 ≤ c.toNat := h.1
  have h9 : c.toNat ≤ 57 := h.2
  simp only [isspace, decide_eq_false_iff_not]
  omega

lemma skipSpaces_append {ws : List Char} (hws : ∀ c ∈ ws, isspace c) {c : Char}
    (hc : isspace c = false) (s : List Char) (k : ℕ) :
    skipSpaces (ws ++ c :: s) (ws.length + (k + 1)) = some (c :: s, k + 1) := by
  induction ws with
  | nil => simp [skipSpaces, hc]
  | cons a ws ih =>
    have ha := hws a List.mem_cons_self
    rw [List.cons_append, List.length_cons, Nat.add_right_comm, skipSpaces, if_pos ha]
    exact ih fun b hb => hws b (List.mem_cons_of_mem a hb)

lemma sprintfD_eq_cons (n : ℤ) : ∃ c cs, sprintfD n = c :: cs ∧ isspace c = false := by
  unfold sprintfD
  split
  · exact ⟨_, _, rfl, rfl⟩
  · obtain ⟨c, cs, he⟩ := List.exists_cons_of_ne_nil (Nat.toDigits_ne_nil (b := 10) (n := n.natAbs))
    refine ⟨c, cs, he, not_isspace_of_isDigit (isDigit_toDigits (n := n.natAbs) ?_)⟩
    rw [he]
    exact List.mem_cons_self

lemma strtoul_sprintfD (w : ℕ) (n : ℤ) (r : List Char) :
    let buf := sprintfD n ++ '\t' :: r
    let p := if deref buf = '-' then buf.tail else buf
    (deref buf = '-' ↔ n < 0) ∧ (deref p).isDigit ∧
      simpleStrtoul w p = (BitVec.ofNat w n.natAbs, '\t' :: r) := by
  obtain ⟨c, cs, he⟩ := List.exists_cons_of_ne_nil (Nat.toDigits_ne_nil (b := 10) (n := n.natAbs))
  have hc : c.isDigit := isDigit_toDigits (n := n.natAbs) (he ▸ List.mem_cons_self)
  have hparse := simpleStrtoul_toDigits w n.natAbs r
  rw [he] at hparse
  by_cases hn : n < 0
  · have hs : sprintfD n = '-' :: c :: cs := by rw [sprintfD, if_pos hn, he]
    simp only [hs, List.cons_append, deref, List.headD_cons, if_true, List.tail_cons]
    exact ⟨by simp [hn], hc, hparse⟩
  · have hs : sprintfD n = c :: cs := by rw [sprintfD, if_neg hn, he]
    have hne : c ≠ '-' := by
      rintro rfl
      exact absurd hc (by decide)
    simp only [hs, List.cons_append, deref, List.headD_cons, hne, if_false]
    exact ⟨by simp [hn], hc, hparse⟩

/-- **One turn of the loop** takes the white space and one printed number, and stores the
number. -/
lemma writeLoop_sprintfD {w : ℕ} (hw : 32 ≤ w) (i x : BitVec 32) (is : List (BitVec 32))
    {ws : List Char} (hws : ∀ c ∈ ws, isspace c) {r : List Char} {k : ℕ} (hk : k ≤ r.length) :
    writeLoop w (i :: is) (ws ++ (sprintfD x.toInt ++ '\t' :: r))
        (ws.length + ((sprintfD x.toInt).length + (k + 1))) =
      (x :: (writeLoop w is ('\t' :: r) (k + 1)).1, (writeLoop w is ('\t' :: r) (k + 1)).2) := by
  set t := sprintfD x.toInt with ht
  have hlen : t.length ≤ 11 := length_sprintfD_le x
  obtain ⟨c, cs, hcons, hc⟩ := sprintfD_eq_cons x.toInt
  have hskip : skipSpaces (ws ++ (t ++ '\t' :: r)) (ws.length + (t.length + (k + 1))) =
      some (t ++ '\t' :: r, t.length + (k + 1)) := by
    rw [ht, hcons, List.cons_append]
    exact skipSpaces_append hws hc _ _
  -- the copy ends behind the tab
  obtain ⟨m, hm⟩ : ∃ m, min (t.length + (k + 1)) 127 = t.length + (m + 1) :=
    ⟨min (t.length + (k + 1)) 127 - t.length - 1, by omega⟩
  have htake : (t ++ '\t' :: r).take (t.length + (m + 1)) = t ++ '\t' :: r.take m := by
    rw [List.take_length_add_append, List.take_succ_cons]
  obtain ⟨hsign, hdigit, hparse⟩ := strtoul_sprintfD w x.toInt (r.take m)
  have hneg : (deref (t ++ '\t' :: r.take m) = '-' ∧ 1 < t.length + (k + 1)) ↔ x.toInt < 0 := by
    rw [← hsign, ht]
    refine and_iff_left ?_
    rw [hcons, List.length_cons]
    omega
  have hused : (t ++ '\t' :: r.take m).length - ('\t' :: r.take m).length = t.length := by simp
  have hfit : ¬ (t ++ '\t' :: r).length < t.length + (m + 1) := by
    simp only [List.length_append, List.length_cons]
    omega
  have hvalue := setWidth_magnitude hw x
  rw [writeLoop, if_neg (by omega), hskip]
  simp only [hm, hfit, htake, hneg, if_false, Nat.add_eq_zero_iff, one_ne_zero, and_false]
  rw [if_congr hsign rfl rfl] at hdigit hparse
  simp only [← ht] at hdigit hparse
  simp only [hdigit, hparse, hused, Bool.not_true, Bool.false_eq_true, if_false]
  rw [if_neg (by simp [deref, isspace])]
  simp only [hvalue, List.drop_left, Nat.add_sub_cancel_left]

/-! ### The whole text -/

lemma writeLoop_flatMap {w : ℕ} (hw : 32 ≤ w) {v u : List (BitVec 32)} (h : u.length = v.length)
    {ws : List Char} (hws : ∀ c ∈ ws, isspace c) {r : List Char} {k : ℕ} (hk : k ≤ r.length) :
    writeLoop w u (ws ++ (v.flatMap (fun i => sprintfD i.toInt ++ ['\t']) ++ r))
      (ws.length + ((v.flatMap fun i => sprintfD i.toInt ++ ['\t']).length + k)) = (v, false) := by
  -- the tab behind a number is the white space before the next one
  induction v generalizing u ws with
  | nil =>
    obtain rfl := List.length_eq_zero_iff.mp h
    rfl
  | cons x v ih =>
    obtain ⟨i, is, rfl⟩ := List.exists_cons_of_length_eq_add_one h
    have hrest := ih (u := is) (by simpa using h)
      (List.forall_mem_singleton.mpr (rfl : isspace '\t' = true))
    have hlong : (v.flatMap fun i => sprintfD i.toInt ++ ['\t']).length + k ≤
        (v.flatMap (fun i => sprintfD i.toInt ++ ['\t']) ++ r).length := by
      rw [List.length_append]
      omega
    have hturn := writeLoop_sprintfD hw i x is hws hlong
    rw [List.length_singleton, Nat.add_comm 1, List.singleton_append] at hrest
    rw [hrest] at hturn
    rw [List.flatMap_cons, ← hturn]
    simp only [List.append_assoc, List.cons_append, List.nil_append, List.length_append,
      List.length_cons]
    congr 1
    omega

/-- **Writing back the text of a vector restores it**, whatever the cells held and whatever
lies behind the text in the memory of the caller. -/
theorem procfs_vector_round_trip {w : ℕ} (hw : 32 ≤ w) {v u : List (BitVec 32)}
    (h : u.length = v.length) (behind : List Char) :
    writeProc w u (readProc v ++ behind) (readProc v).length =
      (v, ((readProc v).length : ℤ)) := by
  have hloop := writeLoop_flatMap hw h (show ∀ c ∈ [], isspace c by simp) (r := '\n' :: behind)
    (k := 1) (by simp)
  simp only [List.nil_append, List.length_nil, Nat.zero_add] at hloop
  have htext : readProc v ++ behind =
      v.flatMap (fun i => sprintfD i.toInt ++ ['\t']) ++ '\n' :: behind := by simp [readProc]
  have hlength : (readProc v).length =
      (v.flatMap fun i => sprintfD i.toInt ++ ['\t']).length + 1 := by simp [readProc]
  rw [writeProc, htext, hlength, hloop]
  rfl

theorem procfs_vector_round_trip_extremes :
    writeProc 64 [1, 1, 1] (readProc [0x80000000, 0, 0x7fffffff] ++ [])
        (readProc [0x80000000, 0, 0x7fffffff]).length =
      ([0x80000000, 0, 0x7fffffff], ((readProc [0x80000000, 0, 0x7fffffff]).length : ℤ)) ∧
    readProc [0x80000000, 0, 0x7fffffff] = "-2147483648\t0\t2147483647\t\n".toList :=
  ⟨procfs_vector_round_trip (by decide) (by rfl) [], by decide⟩

end LinuxSamples.ProcVector
