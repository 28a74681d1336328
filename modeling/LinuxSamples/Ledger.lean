import Mathlib.Tactic

/-!
Traces of allocations and releases.

A trace is paired when every release is of something allocated before and not yet released, and
everything has been released at its end. What is allocated at a time is a list: an allocator that
hands out a released address again is no exception, and a second release of the old owner takes
the address away from the new one, whose own release then fails.
-/

namespace LinuxSamples.Ledger

variable {α : Type*}

inductive Ev (α : Type*)
  | alloc (x : α)
  | free (x : α)
  deriving DecidableEq

def Ev.what : Ev α → α
  | .alloc x => x
  | .free x => x

/-- The allocations of a trace, less its releases. -/
def balance : List (Ev α) → ℤ
  | [] => 0
  | .alloc _ :: tr => 1 + balance tr
  | .free _ :: tr => -1 + balance tr

lemma balance_append (tr tr' : List (Ev α)) :
    balance (tr ++ tr') = balance tr + balance tr' := by
  induction tr with
  | nil => simp [balance]
  | cons e tr ih => cases e <;> simp [balance, ih, add_assoc]

lemma balance_map_free (xs : List α) : balance (xs.map .free) = -xs.length := by
  induction xs with
  | nil => rfl
  | cons x xs ih =>
    simp only [List.map_cons, balance, List.length_cons, ih]
    omega

/-- The trace is paired, if `live` is allocated at its beginning. -/
def Paired [DecidableEq α] : List α → List (Ev α) → Prop
  | live, [] => live = []
  | live, .alloc x :: tr => Paired (x :: live) tr
  | live, .free x :: tr => x ∈ live ∧ Paired (live.erase x) tr

variable [DecidableEq α]

instance Paired.decidable : (live : List α) → (tr : List (Ev α)) → Decidable (Paired live tr)
  | live, [] => inferInstanceAs (Decidable (live = []))
  | live, .alloc x :: tr => Paired.decidable (x :: live) tr
  | live, .free x :: tr =>
    have := Paired.decidable (live.erase x) tr
    inferInstanceAs (Decidable (_ ∧ _))

/-- **A paired trace releases what it allocates**, and what was allocated before. -/
theorem Paired.balance_eq {live : List α} {tr : List (Ev α)} (h : Paired live tr) :
    balance tr = -live.length := by
  induction tr generalizing live with
  | nil =>
    obtain rfl : live = [] := h
    rfl
  | cons e tr ih =>
    cases e with
    | alloc x =>
      have hrest := ih h
      rw [List.length_cons] at hrest
      rw [balance]
      omega
    | free x =>
      have hrest := ih h.2
      have hlen := List.length_erase_of_mem h.1
      have hpos := List.length_pos_of_mem h.1
      rw [balance]
      omega

lemma paired_map_free (live xs : List α) : Paired live (xs.map .free) ↔ xs.Perm live := by
  induction xs generalizing live with
  | nil =>
    rw [List.nil_perm]
    rfl
  | cons x xs ih =>
    rw [List.cons_perm_iff_perm_erase, ← ih]
    rfl

lemma paired_map_alloc (live xs : List α) (tr : List (Ev α)) :
    Paired live (xs.map .alloc ++ tr) ↔ Paired (xs.reverse ++ live) tr := by
  induction xs generalizing live with
  | nil => rfl
  | cons x xs ih =>
    rw [List.reverse_cons, List.append_assoc]
    exact ih (x :: live)

lemma paired_of_perm {xs ys : List α} (h : ys.Perm xs) :
    Paired [] (xs.map .alloc ++ ys.map .free) := by
  rw [paired_map_alloc, paired_map_free, List.append_nil]
  exact h.trans xs.reverse_perm.symm

lemma Paired.of_append {live : List α} {tr tr₁ tr₂ : List (Ev α)} (h : Paired live (tr ++ tr₁))
    (himp : ∀ live, Paired live tr₁ → Paired live tr₂) : Paired live (tr ++ tr₂) := by
  induction tr generalizing live with
  | nil => exact himp live h
  | cons e tr ih =>
    cases e with
    | alloc x => exact ih h
    | free x => exact ⟨h.1, ih h.2⟩

lemma Paired.snoc_alloc {live xs ys : List α} {tr : List (Ev α)} {x : α}
    (h : Paired live (tr ++ xs.map .free)) (hperm : ys.Perm (x :: xs)) :
    Paired live (tr ++ [.alloc x] ++ ys.map .free) := by
  rw [List.append_assoc]
  refine h.of_append fun live' h' => ?_
  exact (paired_map_free _ _).mpr (hperm.trans (((paired_map_free _ _).mp h').cons x))

lemma Paired.snoc_free {live xs ys : List α} {tr : List (Ev α)} {x : α}
    (h : Paired live (tr ++ xs.map .free)) (hperm : xs.Perm (x :: ys)) :
    Paired live (tr ++ [.free x] ++ ys.map .free) := by
  rw [List.append_assoc]
  refine h.of_append fun live' h' => ?_
  have hall := hperm.symm.trans ((paired_map_free _ _).mp h')
  exact (paired_map_free live' (x :: ys)).mpr hall

end LinuxSamples.Ledger
