import Mathlib.Tactic

/-!
Sections that a mutex protects.

A thread is a program point, and some of the program points lie inside the section. A step
of a thread leaves the mutex alone and stays on its side, takes the free mutex on its way
in, or gives it back on its way out. Then a thread inside the section owns the mutex, and
no other thread is inside.
-/

namespace LinuxSamples.Mutex

variable {ι π : Type*} (inside : π → Bool)

/-- What a step of the thread `t` from `p` to `p'` may do to the mutex. -/
inductive Moves (t : ι) (p p' : π) : Option ι → Option ι → Prop
  | stay {o : Option ι} (h : inside p' = inside p) : Moves t p p' o o
  | enter : Moves t p p' none (some t)
  | leave {o : Option ι} (h : inside p = true) (h' : inside p' = false) : Moves t p p' o none

def Exclusive (owner : Option ι) (pc : ι → π) : Prop :=
  ∀ t, inside (pc t) = true → owner = some t

variable {inside} {owner owner' : Option ι} {pc : ι → π} {t : ι}

lemma Exclusive.outside {u : ι} (h : Exclusive inside owner pc) (ht : inside (pc t) = true)
    (hu : u ≠ t) : inside (pc u) = false := by
  by_contra hin
  have howner := h u (Bool.not_eq_false _ ▸ hin)
  rw [h t ht] at howner
  exact hu (Option.some.inj howner).symm

lemma Exclusive.step [DecidableEq ι] {p' : π} (h : Exclusive inside owner pc)
    (hm : Moves inside t (pc t) p' owner owner') :
    Exclusive inside owner' (Function.update pc t p') := by
  intro u hu
  by_cases hut : u = t
  · subst hut
    rw [Function.update_self] at hu
    cases hm with
    | stay hside => exact h u (hside ▸ hu)
    | enter => rfl
    | leave _ hout => exact absurd (hout.symm.trans hu) (by decide)
  · rw [Function.update_of_ne hut] at hu
    cases hm with
    | stay hside => exact h u hu
    | enter => exact absurd (h u hu) (by simp)
    | leave hin _ => exact absurd ((h.outside hin hut).symm.trans hu) (by decide)

/-! ### The owner

Where only the section is entered with the mutex, the owner is inside, and nobody else is. -/

section Held

variable {ins : ι → Bool}

def Held (owner : Option ι) (ins : ι → Bool) : Prop := ∀ t, ins t = true ↔ owner = some t

lemma Held.outside_of_none (h : Held none ins) (t : ι) : ins t = false := by
  by_contra hin
  have := (h t).mp (Bool.not_eq_false _ ▸ hin)
  cases this

variable [DecidableEq ι]

lemma Held.enter (h : Held none ins) (t : ι) : Held (some t) (Function.update ins t true) := by
  intro u
  by_cases hut : u = t
  · subst hut
    simp
  · simp [hut, h.outside_of_none u, Ne.symm hut]

lemma Held.leave (h : Held owner ins) (ht : ins t = true) :
    Held none (Function.update ins t false) := by
  intro u
  by_cases hut : u = t
  · subst hut
    simp
  · have hown := (h t).mp ht
    have hu : ins u ≠ true := by
      rw [ne_eq, h u, hown, Option.some.injEq]
      exact Ne.symm hut
    simp [hut, hu]

end Held

end LinuxSamples.Mutex
