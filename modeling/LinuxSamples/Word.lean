import Mathlib.Tactic

/-!
Unsigned machine words as natural numbers.

`wrap w` keeps the low `w` bits, which is what an assignment to a variable of that width
does, and `subU w` is the difference of two unsigned numbers of that width.
-/

namespace LinuxSamples.Word

/-- The low `w` bits. -/
def wrap (w n : ℕ) : ℕ := n % 2 ^ w

/-- The difference of two numbers in unsigned arithmetic. -/
def subU (w a b : ℕ) : ℕ := (((a : ℤ) - b) % 2 ^ w).toNat

variable {w a b : ℕ}

lemma wrap_of_lt (h : a < 2 ^ w) : wrap w a = a := Nat.mod_eq_of_lt h

lemma subU_of_le (hb : b ≤ a) (ha : a < 2 ^ w) : subU w a b = a - b := by
  have hlt : ((a : ℤ) - b) < 2 ^ w := by
    have : (a : ℤ) < 2 ^ w := by exact_mod_cast ha
    omega
  rw [subU, Int.emod_eq_of_lt (by omega) hlt]
  omega

lemma subU_wrap (hb : b ≤ a) (h : a - b < 2 ^ w) : subU w (wrap w a) (wrap w b) = a - b := by
  have hsub : ((a - b : ℕ) : ℤ) = (a : ℤ) - b := by omega
  have hcast (n : ℕ) : ((wrap w n : ℕ) : ℤ) = (n : ℤ) % 2 ^ w := by
    rw [wrap]
    push_cast
    rfl
  rw [subU, hcast, hcast, ← Int.sub_emod, ← hsub, Int.emod_eq_of_lt (by omega)
    (by exact_mod_cast h), Int.toNat_natCast]

lemma wrap_add_sub (hb : b ≤ a) : wrap w (wrap w b + (a - b)) = wrap w a := by
  rw [wrap, wrap, wrap, Nat.mod_add_mod, Nat.add_sub_cancel' hb]

lemma subU_lt (w a b : ℕ) : subU w a b < 2 ^ w := by
  have hpos : (0 : ℤ) < 2 ^ w := by positivity
  have hlt := Int.emod_lt_of_pos ((a : ℤ) - b) hpos
  have hcast : ((2 ^ w : ℕ) : ℤ) = 2 ^ w := by push_cast; rfl
  rw [subU]
  omega

lemma natCast_subU (w a b : ℕ) : (subU w a b : ℤ) = ((a : ℤ) - b) % 2 ^ w :=
  Int.toNat_of_nonneg (Int.emod_nonneg _ (by positivity))

lemma subU_subU (w a b c : ℕ) : subU w (subU w a c) (subU w b c) = subU w a b := by
  have hsub : ((a : ℤ) - c) - ((b : ℤ) - c) = a - b := by ring
  rw [subU, natCast_subU, natCast_subU, ← Int.sub_emod, hsub, subU]

lemma subU_of_lt (ha : a < b) (hb : b < 2 ^ w) : subU w a b = 2 ^ w - (b - a) := by
  have hcast : ((2 ^ w : ℕ) : ℤ) = 2 ^ w := by push_cast; rfl
  have hmod : ((a : ℤ) - b) % 2 ^ w = a - b + 2 ^ w := by
    rw [← Int.add_emod_right]
    exact Int.emod_eq_of_lt (by omega) (by omega)
  rw [subU, hmod]
  omega

lemma wrap_add_subU (h : a < 2 ^ w) : wrap w (b + subU w a b) = a := by
  have hcast : ((wrap w (b + subU w a b) : ℕ) : ℤ) = a := by
    rw [wrap]
    push_cast
    rw [natCast_subU, Int.add_emod_emod, add_sub_cancel]
    exact Int.emod_eq_of_lt (by omega) (by exact_mod_cast h)
  exact_mod_cast hcast

lemma subU_wrap_add (hb : b < 2 ^ w) (h : a < 2 ^ w) : subU w (wrap w (b + a)) b = a := by
  have hsub := subU_wrap (w := w) (Nat.le_add_right b a) (by omega)
  rwa [wrap_of_lt hb, Nat.add_sub_cancel_left] at hsub

lemma eq_of_subU_eq_zero (ha : a < 2 ^ w) (hb : b < 2 ^ w) (h : subU w a b = 0) : a = b := by
  rw [← wrap_add_subU (b := b) ha, h, Nat.add_zero, wrap_of_lt hb]

end LinuxSamples.Word
