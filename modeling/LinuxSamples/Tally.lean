import Mathlib.Tactic
import Mathlib.Algebra.BigOperators.Ring.Finset
import Mathlib.Algebra.Order.BigOperators.Group.Finset
import Mathlib.Data.Fintype.BigOperators
import Mathlib.Data.Set.Card

/-!
Sums and counts over all threads of a system.

The counters of a lock or of a queue are compared with the threads by adding up, over all
threads, what each of them contributes. A step moves one thread, so it changes the sum by
the difference of two contributions; that is the one fact the counting invariants need.
-/

namespace LinuxSamples.Tally

variable {ι τ : Type*} [Fintype ι]

/-- The contributions `g` of all threads, added up. -/
def tally (g : τ → ℤ) (f : ι → τ) : ℤ := ∑ i, g (f i)

def count (p : τ → Bool) (f : ι → τ) : ℕ := (Finset.univ.filter fun i => p (f i)).card

lemma tally_congr {g g' : τ → ℤ} {f f' : ι → τ} (h : ∀ i, g' (f' i) = g (f i)) :
    tally g' f' = tally g f :=
  Finset.sum_congr rfl fun i _ => h i

/-- **One thread moves**: the sum changes by the difference of its contributions. -/
lemma tally_update [DecidableEq ι] (g : τ → ℤ) (f : ι → τ) (i : ι) (x : τ) :
    tally g (Function.update f i x) = tally g f + (g x - g (f i)) := by
  have hrest : ∑ j ∈ Finset.univ.erase i, g (Function.update f i x j) =
      ∑ j ∈ Finset.univ.erase i, g (f j) :=
    Finset.sum_congr rfl fun j hj => by
      rw [Function.update_of_ne (Finset.ne_of_mem_erase hj)]
  have h1 := Finset.sum_erase_add Finset.univ (fun j => g (Function.update f i x j))
    (Finset.mem_univ i)
  have h2 := Finset.sum_erase_add Finset.univ (fun j => g (f j)) (Finset.mem_univ i)
  simp only [Function.update_self] at h1
  unfold tally
  omega

lemma tally_nonneg {g : τ → ℤ} {f : ι → τ} (h : ∀ i, 0 ≤ g (f i)) : 0 ≤ tally g f :=
  Finset.sum_nonneg fun i _ => h i

lemma le_tally {g : τ → ℤ} {f : ι → τ} (h : ∀ i, 0 ≤ g (f i)) (i : ι) : g (f i) ≤ tally g f :=
  Finset.single_le_sum (f := fun j => g (f j)) (fun j _ => h j) (Finset.mem_univ i)

lemma tally_eq_zero {g : τ → ℤ} {f : ι → τ} (h : ∀ i, 0 ≤ g (f i)) :
    tally g f = 0 ↔ ∀ i, g (f i) = 0 := by
  unfold tally
  rw [Finset.sum_eq_zero_iff_of_nonneg fun i _ => h i]
  simp

lemma tally_const_zero {g : τ → ℤ} {f : ι → τ} (h : ∀ i, g (f i) = 0) : tally g f = 0 :=
  Finset.sum_eq_zero fun i _ => h i

/-- The contribution of a thread to a count. -/
def ind (p : τ → Bool) (x : τ) : ℤ := if p x then 1 else 0

lemma ind_nonneg (p : τ → Bool) (x : τ) : 0 ≤ ind p x := by
  unfold ind; split <;> omega

lemma ind_eq_zero_iff {p : τ → Bool} {x : τ} : ind p x = 0 ↔ p x = false := by
  unfold ind; split <;> simp_all

lemma count_eq_tally (p : τ → Bool) (f : ι → τ) :
    (count p f : ℤ) = tally (ind p) f := by
  unfold count tally ind
  rw [Finset.card_filter]
  push_cast
  rfl

lemma count_congr {p : τ → Bool} {f f' : ι → τ} (h : ∀ i, p (f' i) = p (f i)) :
    count p f' = count p f := by
  unfold count
  simp only [h]

lemma count_update [DecidableEq ι] (p : τ → Bool) (f : ι → τ) (i : ι) (x : τ) :
    (count p (Function.update f i x) : ℤ) = count p f + (ind p x - ind p (f i)) := by
  rw [count_eq_tally, count_eq_tally, tally_update]

lemma count_eq_zero_iff (p : τ → Bool) (f : ι → τ) :
    count p f = 0 ↔ ∀ i, ¬ p (f i) := by
  simp [count, Finset.filter_eq_empty_iff]

lemma count_eq_one_iff (p : τ → Bool) (f : ι → τ) :
    count p f = 1 ↔ ∃! i, p (f i) := by
  unfold count
  rw [Finset.card_eq_one]
  constructor
  · rintro ⟨i, hi⟩
    have hmem : ∀ j, p (f j) ↔ j = i := fun j => by
      have := Finset.ext_iff.mp hi j
      simpa using this
    exact ⟨i, (hmem i).mpr rfl, fun j hj => (hmem j).mp hj⟩
  · rintro ⟨i, hi, huniq⟩
    refine ⟨i, Finset.ext fun j => ?_⟩
    simp only [Finset.mem_filter, Finset.mem_univ, true_and, Finset.mem_singleton]
    exact ⟨huniq j, fun h => h ▸ hi⟩

lemma count_eq_card_iff (p : τ → Bool) (f : ι → τ) :
    count p f = Fintype.card ι ↔ ∀ i, p (f i) := by
  unfold count
  rw [← Finset.card_univ, Finset.card_filter_eq_iff]
  simp

/-! ### Threads without a bound

The threads that satisfy `p` are finitely many, out of any number. -/

section Unbounded

variable {κ : Type*} {p : τ → Bool} {f : κ → τ}

noncomputable def ncount (p : τ → Bool) (f : κ → τ) : ℕ := {i | p (f i) = true}.ncard

lemma ncount_eq_zero (h : ∀ i, p (f i) = false) : ncount p f = 0 := by
  unfold ncount
  simp [h]

lemma ncount_eq_ncard_add_ind (hfin : {i | p (f i) = true}.Finite) (i : κ) :
    (ncount p f : ℤ) = ({j | p (f j) = true} \ {i}).ncard + ind p (f i) := by
  unfold ncount ind
  by_cases hi : p (f i) = true
  · have hmem : i ∈ {j | p (f j) = true} := hi
    rw [if_pos hi, ← Set.ncard_sdiff_singleton_add_one hmem hfin]
    push_cast
    rfl
  · have hmem : i ∉ {j | p (f j) = true} := hi
    rw [if_neg hi, Set.sdiff_singleton_eq_self hmem, add_zero]

variable [DecidableEq κ]

lemma setOf_update_diff (p : τ → Bool) (f : κ → τ) (i : κ) (x : τ) :
    {j | p (Function.update f i x j) = true} \ {i} = {j | p (f j) = true} \ {i} := by
  ext j
  simp only [Set.mem_sdiff, Set.mem_ofPred_eq, Set.mem_singleton_iff, and_congr_left_iff]
  intro hj
  rw [Function.update_of_ne hj]

lemma finite_update (hfin : {i | p (f i) = true}.Finite) (i : κ) (x : τ) :
    {j | p (Function.update f i x j) = true}.Finite := by
  refine (hfin.insert i).subset fun j hj => ?_
  by_cases hji : j = i
  · exact Or.inl hji
  · rw [Set.mem_ofPred_eq, Function.update_of_ne hji] at hj
    exact Or.inr hj

lemma ncount_update (hfin : {i | p (f i) = true}.Finite) (i : κ) (x : τ) :
    (ncount p (Function.update f i x) : ℤ) = ncount p f + (ind p x - ind p (f i)) := by
  rw [ncount_eq_ncard_add_ind (finite_update hfin i x) i, ncount_eq_ncard_add_ind hfin i,
    setOf_update_diff, Function.update_self]
  omega

end Unbounded

end LinuxSamples.Tally
