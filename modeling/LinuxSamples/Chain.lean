import Mathlib.Tactic

/-!
A chain of cells.

Each cell holds a short list of items, mostly none or one. Items enter at cell 0, pass from a
cell to the next and leave at the last cell. Read from the last cell down to cell 0, what the
cells hold is a queue: an item that passes on stays where it is in this order.
-/

namespace LinuxSamples.Chain

variable {β : Type*} {f g : ℕ → List β} {n : ℕ}

/-- What the first `n` cells hold, from the last of them to the first. -/
def contents (f : ℕ → List β) : ℕ → List β
  | 0 => []
  | k + 1 => f k ++ contents f k

lemma contents_succ (f : ℕ → List β) (k : ℕ) : contents f (k + 1) = f k ++ contents f k := rfl

lemma contents_congr (h : ∀ k < n, g k = f k) : contents g n = contents f n := by
  induction n with
  | zero => rfl
  | succ n ih =>
    rw [contents_succ, contents_succ, h n n.lt_succ_self, ih fun k hk => h k (by omega)]

lemma contents_eq_nil (h : ∀ k < n, f k = []) : contents f n = [] := by
  induction n with
  | zero => rfl
  | succ n ih =>
    rw [contents_succ, h n n.lt_succ_self, ih fun k hk => h k (by omega), List.nil_append]

lemma contents_enter {x : β} (hn : 0 < n) (hf : f 0 = []) (hg : g 0 = [x])
    (h : ∀ k, 0 < k → k < n → g k = f k) : contents g n = contents f n ++ [x] := by
  induction n with
  | zero => exact absurd hn (lt_irrefl 0)
  | succ n ih =>
    rcases Nat.eq_zero_or_pos n with rfl | hpos
    · simp [contents, hf, hg]
    · rw [contents_succ, contents_succ, h n hpos n.lt_succ_self,
        ih hpos fun k hk hkn => h k hk (by omega), List.append_assoc]

lemma contents_pass {j : ℕ} (hj : j + 1 < n) (hf : f (j + 1) = []) (hg : g j = [])
    (hfg : g (j + 1) = f j) (h : ∀ k, k ≠ j → k ≠ j + 1 → k < n → g k = f k) :
    contents g n = contents f n := by
  induction n with
  | zero => omega
  | succ n ih =>
    rw [contents_succ, contents_succ]
    rcases Nat.eq_or_lt_of_le (Nat.le_of_lt_succ hj) with rfl | hlt
    · have hbelow : contents g j = contents f j :=
        contents_congr fun k hk => h k (by omega) (by omega) (by omega)
      rw [contents_succ, contents_succ, hf, hg, hfg, hbelow, List.nil_append, List.nil_append]
    · rw [h n (by omega) (by omega) n.lt_succ_self,
        ih hlt fun k hk hk' hkn => h k hk hk' (by omega)]

lemma contents_leave {x : β} (hf : f n = [x]) (hg : g n = []) (h : ∀ k < n, g k = f k) :
    contents f (n + 1) = x :: contents g (n + 1) := by
  rw [contents_succ, contents_succ, hf, hg, contents_congr h]
  rfl

end LinuxSamples.Chain
