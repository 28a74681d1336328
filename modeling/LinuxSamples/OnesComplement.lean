import Mathlib.Tactic

/-!
Ones'-complement arithmetic on words of `w` bits.

Words are added with an end-around carry. The carry makes the sum a number modulo
`2 ^ w - 1`, with two words for zero: a sum is the word `0` only if every term is, and
otherwise the representative between `1` and `2 ^ w - 1`. That representative, `reduce`, can
be taken of a wide sum at the end instead of after every addition.
-/

namespace LinuxSamples.OnesComplement

variable (w : ℕ)

def add (a b : ℕ) : ℕ := if a + b < 2 ^ w then a + b else a + b - (2 ^ w - 1)

/-- The ones'-complement sum of a list of words. -/
def sum (l : List ℕ) : ℕ := l.foldl (add w) 0

def complement (a : ℕ) : ℕ := 2 ^ w - 1 - a

/-- The representative of a number modulo `2 ^ w - 1` that is zero only for zero. -/
def reduce (n : ℕ) : ℕ := if n = 0 then 0 else (n - 1) % (2 ^ w - 1) + 1

/-- One folding step: the part above the word is added to the word. -/
def fold (n : ℕ) : ℕ := n / 2 ^ w + n % 2 ^ w

variable {w}

@[simp] lemma reduce_zero : reduce w 0 = 0 := rfl

lemma reduce_of_lt {n : ℕ} (h : n < 2 ^ w) : reduce w n = n := by
  unfold reduce
  split
  · omega
  · rw [Nat.mod_eq_of_lt (by omega)]
    omega

lemma reduce_add_modulus {n : ℕ} (h : 0 < n) : reduce w (n + (2 ^ w - 1)) = reduce w n := by
  have hsub : n + (2 ^ w - 1) - 1 = n - 1 + (2 ^ w - 1) := by omega
  rw [reduce, reduce, if_neg (by omega), if_neg (by omega), hsub, Nat.add_mod_right]

lemma reduce_add_mul {n : ℕ} (h : 0 < n) (k : ℕ) : reduce w (n + k * (2 ^ w - 1)) = reduce w n := by
  induction k with
  | zero => simp
  | succ k ih =>
    have hassoc : n + (k + 1) * (2 ^ w - 1) = n + k * (2 ^ w - 1) + (2 ^ w - 1) := by
      rw [Nat.add_mul, Nat.one_mul, Nat.add_assoc]
    rw [hassoc, reduce_add_modulus (by omega), ih]

lemma add_eq_reduce {a b : ℕ} (ha : a < 2 ^ w) (hb : b < 2 ^ w) : add w a b = reduce w (a + b) := by
  unfold add
  split
  · rw [reduce_of_lt ‹_›]
  · next hge =>
    have hback : a + b = a + b - (2 ^ w - 1) + (2 ^ w - 1) := by omega
    conv_rhs => rw [hback]
    rw [reduce_add_modulus (by omega), reduce_of_lt (by omega)]

lemma reduce_lt (hw : 0 < w) (n : ℕ) : reduce w n < 2 ^ w := by
  have hpow : 2 ≤ 2 ^ w := by
    calc 2 = 2 ^ 1 := rfl
      _ ≤ 2 ^ w := Nat.pow_le_pow_right (by omega) hw
  unfold reduce
  split
  · omega
  · have := Nat.mod_lt (n - 1) (show 0 < 2 ^ w - 1 by omega)
    omega

lemma reduce_reduce_add (a b : ℕ) : reduce w (reduce w a + b) = reduce w (a + b) := by
  rcases Nat.eq_zero_or_pos a with rfl | ha
  · simp
  · have hr : 0 < reduce w a := by rw [reduce, if_neg (by omega)]; omega
    have hdiv : a = reduce w a + (a - 1) / (2 ^ w - 1) * (2 ^ w - 1) := by
      rw [reduce, if_neg (by omega)]
      have := Nat.mod_add_div (a - 1) (2 ^ w - 1)
      rw [Nat.mul_comm] at this
      omega
    conv_rhs => rw [hdiv, Nat.add_right_comm]
    rw [reduce_add_mul (by omega)]

/-- **The carries may be added at the end.** -/
theorem sum_eq_reduce (hw : 0 < w) {l : List ℕ} (h : ∀ x ∈ l, x < 2 ^ w) :
    sum w l = reduce w l.sum := by
  induction l using List.reverseRecOn with
  | nil => rfl
  | append_singleton l x ih =>
    have hl : sum w l = reduce w l.sum := ih fun y hy => h y (by simp [hy])
    have hx : x < 2 ^ w := h x (by simp)
    have hsnoc : sum w (l ++ [x]) = add w (sum w l) x := by simp [sum, List.foldl_append]
    rw [hsnoc, hl, add_eq_reduce (reduce_lt hw _) hx, reduce_reduce_add, List.sum_append,
      List.sum_singleton]

/-- **Two folding steps reach the representative**, in the low word, of a number of at most
two words. -/
theorem fold_twice {n : ℕ} (h : n < 2 ^ w * 2 ^ w) :
    (fold w n + fold w n / 2 ^ w) % 2 ^ w = reduce w n := by
  have hpos : 0 < 2 ^ w := Nat.two_pow_pos w
  have hhi : n / 2 ^ w < 2 ^ w := Nat.div_lt_of_lt_mul h
  have hlo : n % 2 ^ w < 2 ^ w := Nat.mod_lt n hpos
  have hred : reduce w (fold w n) = reduce w n := by
    rcases Nat.eq_zero_or_pos n with rfl | hn
    · simp [fold]
    · have hsplit : n = fold w n + n / 2 ^ w * (2 ^ w - 1) := by
        have := Nat.div_add_mod n (2 ^ w)
        rw [Nat.mul_sub_one, Nat.mul_comm (n / 2 ^ w), fold]
        have hle : n / 2 ^ w ≤ 2 ^ w * (n / 2 ^ w) := Nat.le_mul_of_pos_left _ hpos
        omega
      have hfold : 0 < fold w n := by
        by_contra h0
        have hzero : n / 2 ^ w + n % 2 ^ w = 0 := Nat.eq_zero_of_not_pos h0
        rw [(Nat.add_eq_zero_iff.mp hzero).1] at hsplit
        omega
      conv_rhs => rw [hsplit]
      rw [reduce_add_mul hfold]
  rw [← hred]
  rcases Nat.lt_or_ge (fold w n) (2 ^ w) with hlt | hge
  · rw [Nat.div_eq_of_lt hlt, Nat.add_zero, Nat.mod_eq_of_lt hlt, reduce_of_lt hlt]
  · have hbound : fold w n + 2 ≤ 2 ^ w + 2 ^ w := by unfold fold; omega
    have hdiv : fold w n / 2 ^ w = 1 :=
      Nat.div_eq_of_lt_le (by omega) (by omega)
    have hmod : (fold w n + 1) % 2 ^ w = fold w n - (2 ^ w - 1) := by
      rw [Nat.mod_eq_sub_mod (by omega), Nat.mod_eq_of_lt (by omega)]
      omega
    have hback : fold w n = fold w n - (2 ^ w - 1) + (2 ^ w - 1) := by omega
    rw [hdiv, hmod]
    conv_rhs => rw [hback]
    rw [reduce_add_modulus (by omega), reduce_of_lt (by omega)]

lemma reduce_add_complement {n : ℕ} (hw : 0 < w) :
    reduce w (n + complement w (reduce w n)) = 2 ^ w - 1 := by
  have hlt := reduce_lt hw n
  have hpos : 0 < 2 ^ w := Nat.two_pow_pos w
  rw [← reduce_reduce_add, complement, Nat.add_sub_cancel' (by omega), reduce_of_lt (by omega)]

lemma complement_complement {a : ℕ} (h : a < 2 ^ w) : complement w (complement w a) = a := by
  unfold complement
  omega

lemma complement_eq_zero_iff {a : ℕ} (h : a < 2 ^ w) : complement w a = 0 ↔ a = 2 ^ w - 1 := by
  unfold complement
  omega

end LinuxSamples.OnesComplement
