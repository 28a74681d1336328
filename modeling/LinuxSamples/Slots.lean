import Mathlib.Tactic

/-!
Tables of slots that own things.

A slot of the table holds a thing or is free. A table owns the things in use if each of them
lies in exactly one slot and nothing else lies in any; a thing is put into a free slot when it
comes into use and taken out when it goes out of use.
-/

namespace LinuxSamples.Slots

variable {ι κ : Type*}

/-- The slots hold exactly the things in use, and no thing twice. -/
structure Owned (used : κ → Prop) (slot : ι → Option κ) : Prop where
  held : ∀ i k, slot i = some k → used k
  stored : ∀ k, used k → ∃ i, slot i = some k
  alone : ∀ i j k, slot i = some k → slot j = some k → i = j

variable {used : κ → Prop} {slot : ι → Option κ}

lemma owned_empty : Owned (fun _ : κ => False) (fun _ : ι => none) where
  held _ _ h := nomatch h
  stored _ h := h.elim
  alone _ _ _ h := nomatch h

lemma Owned.existsUnique (h : Owned used slot) {k : κ} (hk : used k) : ∃! i, slot i = some k := by
  obtain ⟨i, hi⟩ := h.stored k hk
  exact ⟨i, hi, fun j hj => h.alone j i k hj hi⟩

variable [DecidableEq ι]

lemma Owned.take (h : Owned used slot) {i : ι} (hfree : slot i = none) {k : κ} (hnew : ¬ used k) :
    Owned (fun x => x = k ∨ used x) (Function.update slot i (some k)) := by
  have hother : ∀ j, slot j ≠ some k := fun j hj => hnew (h.held j k hj)
  refine ⟨fun j x hj => ?_, fun x hx => ?_, fun j l x hj hl => ?_⟩
  · by_cases hji : j = i
    · subst hji
      rw [Function.update_self] at hj
      exact Or.inl (Option.some.inj hj).symm
    · rw [Function.update_of_ne hji] at hj
      exact Or.inr (h.held j x hj)
  · rcases hx with rfl | hx
    · exact ⟨i, Function.update_self ..⟩
    · obtain ⟨j, hj⟩ := h.stored x hx
      have hji : j ≠ i := by
        rintro rfl
        rw [hfree] at hj
        cases hj
      exact ⟨j, by rw [Function.update_of_ne hji, hj]⟩
  · by_cases hji : j = i <;> by_cases hli : l = i
    · rw [hji, hli]
    · subst hji
      rw [Function.update_self] at hj
      rw [Function.update_of_ne hli, ← Option.some.inj hj] at hl
      exact absurd hl (hother l)
    · subst hli
      rw [Function.update_self] at hl
      rw [Function.update_of_ne hji, ← Option.some.inj hl] at hj
      exact absurd hj (hother j)
    · rw [Function.update_of_ne hji] at hj
      rw [Function.update_of_ne hli] at hl
      exact h.alone j l x hj hl

lemma Owned.release (h : Owned used slot) {i : ι} {k : κ} (hi : slot i = some k) :
    Owned (fun x => x ≠ k ∧ used x) (Function.update slot i none) := by
  have hslot : ∀ {j x}, Function.update slot i none j = some x → j ≠ i ∧ slot j = some x := by
    intro j x hj
    by_cases hji : j = i
    · subst hji
      rw [Function.update_self] at hj
      cases hj
    · exact ⟨hji, by rwa [Function.update_of_ne hji] at hj⟩
  refine ⟨fun j x hj => ?_, fun x hx => ?_, fun j l x hj hl => ?_⟩
  · obtain ⟨hji, hj⟩ := hslot hj
    refine ⟨?_, h.held j x hj⟩
    rintro rfl
    exact hji (h.alone j i x hj hi)
  · obtain ⟨j, hj⟩ := h.stored x hx.2
    have hji : j ≠ i := by
      rintro rfl
      exact hx.1 (Option.some.inj (hj.symm.trans hi))
    exact ⟨j, by rw [Function.update_of_ne hji, hj]⟩
  · exact h.alone j l x (hslot hj).2 (hslot hl).2

end LinuxSamples.Slots
