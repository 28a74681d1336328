import Mathlib.Tactic

/-!
Ring buffers.

A ring of `n` cells has a position to read from and a position to write to. The cells from
the first up to the second, going round, hold the contents. One cell stays free, so that
equal positions always mean an empty ring.
-/

namespace LinuxSamples.Ring

variable {α : Type*} (m : ℕ → α) (n : ℕ)

/-- The number of cells from `r` round to `w`. -/
def used (r w : ℕ) : ℕ := (w + n - r) % n

/-- The cells from `r` round to `w`. -/
def contents (r w : ℕ) : List α := (List.range (used n r w)).map fun i => m ((r + i) % n)

def next (i : ℕ) : ℕ := if i + 1 ≥ n then 0 else i + 1

@[simp] lemma length_contents (r w : ℕ) : (contents m n r w).length = used n r w := by
  simp [contents]

variable {m n} {r w : ℕ}

lemma next_eq_mod (hw : w < n) : next n w = (w + 1) % n := by
  unfold next
  split
  · have : w + 1 = n := by omega
    rw [this, Nat.mod_self]
  · rw [Nat.mod_eq_of_lt (by omega)]

lemma next_lt (hw : w < n) : next n w < n := by
  unfold next
  split <;> omega

lemma used_eq (hr : r < n) (hw : w < n) : used n r w = if r ≤ w then w - r else w + n - r := by
  unfold used
  split
  · have : w + n - r = w - r + n := by omega
    rw [this, Nat.add_mod_right, Nat.mod_eq_of_lt (by omega)]
  · rw [Nat.mod_eq_of_lt (by omega)]

lemma used_lt (hr : r < n) : used n r w < n := Nat.mod_lt _ (by omega)

lemma used_eq_zero_iff (hr : r < n) (hw : w < n) : used n r w = 0 ↔ w = r := by
  rw [used_eq hr hw]
  split <;> omega

lemma next_eq_iff (hr : r < n) (hw : w < n) : next n w = r ↔ used n r w = n - 1 := by
  rw [used_eq hr hw, next]
  split <;> split <;> omega

lemma used_next_write (hr : r < n) (hw : w < n) (hroom : next n w ≠ r) :
    used n r (next n w) = used n r w + 1 := by
  rw [used_eq hr hw, used_eq hr (next_lt hw)]
  by_cases hend : w + 1 ≥ n
  · have hnext : next n w = 0 := if_pos hend
    rw [hnext] at hroom ⊢
    split <;> split <;> omega
  · have hnext : next n w = w + 1 := if_neg hend
    rw [hnext] at hroom ⊢
    split <;> split <;> omega

lemma used_next_read (hr : r < n) (hw : w < n) (hne : w ≠ r) :
    used n (next n r) w + 1 = used n r w := by
  rw [used_eq hr hw, used_eq (next_lt hr) hw]
  unfold next
  split <;> split <;> split <;> omega

lemma add_used_mod (hr : r < n) (hw : w < n) : (r + used n r w) % n = w := by
  rw [used_eq hr hw]
  split
  · rw [Nat.add_sub_cancel' (by omega), Nat.mod_eq_of_lt hw]
  · rw [Nat.add_sub_cancel' (by omega), Nat.add_mod_right, Nat.mod_eq_of_lt hw]

lemma contents_self (hr : r < n) : contents m n r r = [] := by
  simp [contents, (used_eq_zero_iff hr hr).mpr rfl]

/-- **Writing appends.** -/
theorem contents_write (hr : r < n) (hw : w < n) (hroom : next n w ≠ r) (x : α) :
    contents (Function.update m w x) n r (next n w) = contents m n r w ++ [x] := by
  unfold contents
  rw [used_next_write hr hw hroom, List.range_succ, List.map_append, List.map_singleton,
    add_used_mod hr hw, Function.update_self]
  congr 1
  refine List.map_congr_left fun i hi => Function.update_of_ne (fun hc => ?_) x m
  -- two different numbers below `n` do not lead to the same cell
  have hlt := List.mem_range.mp hi
  have hn := used_lt (w := w) hr
  have hmod : (r + i) % n = (r + used n r w) % n := by rw [hc, add_used_mod hr hw]
  have := Nat.ModEq.add_left_cancel' r hmod
  unfold Nat.ModEq at this
  rw [Nat.mod_eq_of_lt (by omega), Nat.mod_eq_of_lt hn] at this
  omega

/-- **Reading takes the first.** -/
theorem contents_read (hr : r < n) (hw : w < n) (hne : w ≠ r) :
    contents m n r w = m r :: contents m n (next n r) w := by
  unfold contents
  rw [← used_next_read hr hw hne, List.range_succ_eq_map, List.map_cons, List.map_map,
    Nat.add_zero, Nat.mod_eq_of_lt hr]
  congr 1
  refine List.map_congr_left fun i _ => ?_
  simp only [Function.comp, next_eq_mod hr, Nat.mod_add_mod]
  congr 2
  omega

end LinuxSamples.Ring
