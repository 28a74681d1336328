import Mathlib.Tactic
import Mathlib.Algebra.BigOperators.Group.List.Basic
import Mathlib.Data.Multiset.AddSub

/-!
Threads that come and go.

The threads of a system are a list: a new one is put at the end, one that ends keeps its
place, and a step replaces the entry of one thread. What the threads hold together is the
sum, in any commutative monoid, of what each of them holds. Waking the threads that wait on a
condition variable goes through the list in the same way.
-/

namespace LinuxSamples.Pool

variable {τ M : Type*}

def total [AddCommMonoid M] (g : τ → M) (l : List τ) : M := (l.map g).sum

/-- The blocked threads, those with `b`, are all woken. -/
def broadcast (b : τ → Bool) (wake : τ → τ) (l : List τ) : List τ :=
  l.map fun x => if b x then wake x else x

/-- One blocked thread is woken, the scheduler's choice `c`, or nobody if nobody is blocked. -/
def signal (b : τ → Bool) (wake : τ → τ) (l : List τ) : Option ℕ → Option (List τ)
  | none => if ∀ x ∈ l, ¬ b x then some l else none
  | some i =>
    match l[i]? with
    | some x => if b x then some (l.set i (wake x)) else none
    | none => none

section Total

variable [AddCommMonoid M] (g : τ → M)

@[simp] lemma total_nil : total g [] = 0 := rfl

@[simp] lemma total_cons (x : τ) (l : List τ) : total g (x :: l) = g x + total g l := by
  simp [total]

lemma total_append (l l' : List τ) : total g (l ++ l') = total g l + total g l' := by
  simp [total]

lemma total_singleton (x : τ) : total g [x] = g x := by simp [total]

lemma total_set {l : List τ} {i : ℕ} {x : τ} (h : l[i]? = some x) (y : τ) :
    total g (l.set i y) + g x = total g l + g y := by
  induction l generalizing i with
  | nil => cases h
  | cons z l ih =>
    cases i with
    | zero =>
      obtain rfl : z = x := by simpa using h
      rw [List.set_cons_zero, total_cons, total_cons, add_right_comm, add_comm (g y),
        add_right_comm]
    | succ i =>
      rw [List.set_cons_succ, total_cons, total_cons, add_assoc, ih (by simpa using h), add_assoc]

lemma total_set_eq {l : List τ} {i : ℕ} {x y : τ} (h : l[i]? = some x) (hg : g y = g x) :
    total g (l.set i y) = total g l := by
  induction l generalizing i with
  | nil => rfl
  | cons z l ih =>
    cases i with
    | zero =>
      obtain rfl : z = x := by simpa using h
      rw [List.set_cons_zero, total_cons, total_cons, hg]
    | succ i => rw [List.set_cons_succ, total_cons, total_cons, ih (by simpa using h)]

variable {b : τ → Bool} {wake : τ → τ}

lemma total_broadcast (hg : ∀ x, b x → g (wake x) = g x) (l : List τ) :
    total g (broadcast b wake l) = total g l := by
  unfold total broadcast
  rw [List.map_map]
  congr 1
  refine List.map_congr_left fun x _ => ?_
  by_cases hx : b x
  · simp [hx, hg x hx]
  · simp [hx]

end Total

/-- **What a signal can do**: wake one blocked thread, or nothing if there is none. -/
lemma signal_cases {b : τ → Bool} {wake : τ → τ} {l l' : List τ} {c : Option ℕ}
    (h : signal b wake l c = some l') :
    ((∀ x ∈ l, ¬ b x) ∧ l' = l) ∨
      ∃ (i : ℕ) (x : τ), l[i]? = some x ∧ b x ∧ l' = l.set i (wake x) := by
  unfold signal at h
  split at h
  · split at h
    · next hno => exact Or.inl ⟨hno, (Option.some.inj h).symm⟩
    · cases h
  · next i =>
    split at h
    · next x hx =>
      split at h
      · next hb => exact Or.inr ⟨i, x, hx, hb, (Option.some.inj h).symm⟩
      · cases h
    · cases h

lemma total_signal [AddCommMonoid M] (g : τ → M) {b : τ → Bool} {wake : τ → τ} {l l' : List τ}
    {c : Option ℕ} (hg : ∀ x, b x → g (wake x) = g x) (h : signal b wake l c = some l') :
    total g l' = total g l := by
  obtain ⟨-, rfl⟩ | ⟨i, x, hx, hb, rfl⟩ := signal_cases h
  · rfl
  · exact total_set_eq g hx (hg x hb)

/-! ### Items that pass through the threads

Items come from a list `m`, are with one thread each for a while and go to a list `l`. -/

section Items

variable {β : Type*} {g : τ → Multiset β} {ths : List τ} {l m : List β} {i : ℕ} {x y : τ} {w : β}

lemma acquire (h : (l : Multiset β) + total g ths = m) (hx : ths[i]? = some x) (hgx : g x = 0)
    (hgy : g y = {w}) : (l : Multiset β) + total g (ths.set i y) = ↑(m ++ [w]) := by
  have hset := total_set g hx y
  rw [hgx, hgy, add_zero] at hset
  rw [hset, ← add_assoc, h]
  exact Multiset.coe_add _ _

lemma release (h : (l : Multiset β) + total g ths = m) (hx : ths[i]? = some x) (hgx : g x = {w})
    (hgy : g y = 0) : (↑(l ++ [w]) : Multiset β) + total g (ths.set i y) = m := by
  have hset := total_set g hx y
  rw [hgx, hgy, add_zero] at hset
  rw [← h, ← hset, ← Multiset.coe_add, Multiset.coe_singleton, add_right_comm, add_assoc]

end Items

lemma eq_zero_of_total_eq_zero [AddCommMonoid M] [PartialOrder M] [IsOrderedAddMonoid M]
    [CanonicallyOrderedAdd M] {g : τ → M} {l : List τ} (h : total g l = 0) {x : τ} (hx : x ∈ l) :
    g x = 0 :=
  List.sum_eq_zero_iff.mp h _ (List.mem_map_of_mem hx)

lemma le_total_of_mem {g : τ → ℕ} {l : List τ} {x : τ} (hx : x ∈ l) : g x ≤ total g l :=
  List.le_sum_of_mem (List.mem_map_of_mem hx)

lemma exists_pos_of_total_pos {g : τ → ℕ} {l : List τ} (h : 0 < total g l) :
    ∃ (i : ℕ) (x : τ), l[i]? = some x ∧ 0 < g x := by
  by_contra hno
  push Not at hno
  have hzero : ∀ n ∈ l.map g, n = 0 := by
    intro n hn
    obtain ⟨x, hx, rfl⟩ := List.mem_map.mp hn
    obtain ⟨i, hi⟩ := List.mem_iff_getElem?.mp hx
    exact Nat.le_zero.mp (hno i x hi)
  rw [total, List.sum_eq_zero hzero] at h
  omega

end LinuxSamples.Pool
