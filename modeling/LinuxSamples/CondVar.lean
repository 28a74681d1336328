import LinuxSamples.Tally

/-!
Condition variables.

A thread in a condition wait is blocked on the variable, or has been woken and has still to
retake the mutex, or has been cancelled and has still to retake the mutex before it runs
its clean-up handler. A broadcast wakes every blocked thread; a signal wakes one blocked
thread, whichever the scheduler picks, and nobody only if nobody is blocked.
-/

namespace LinuxSamples.CondVar

open LinuxSamples.Tally

/-- Where a thread stands in a condition wait. -/
inductive Sleep
  | blocked | woken | cancelled
  deriving DecidableEq, Repr

/-- Where a thread stands in a timed wait. -/
inductive Timed
  | blocked | woken | timedout
  deriving DecidableEq, Repr

variable {ι τ : Type*}

/-- The blocked threads, those with `b`, are all woken. -/
def broadcast (b : τ → Bool) (wake : τ → τ) (f : ι → τ) : ι → τ :=
  fun i => if b (f i) then wake (f i) else f i

/-- One blocked thread is woken; `c` is the scheduler's choice. -/
def signal [Fintype ι] [DecidableEq ι] (b : τ → Bool) (wake : τ → τ)
    (f : ι → τ) (c : Option ι) : Option (ι → τ) :=
  match c with
  | none => if ∀ i, ¬ b (f i) then some f else none
  | some i => if b (f i) then some (Function.update f i (wake (f i))) else none

variable {b : τ → Bool} {wake : τ → τ} {f f' : ι → τ}

lemma broadcast_of_blocked {i : ι} (h : b (f i)) : broadcast b wake f i = wake (f i) := if_pos h

lemma broadcast_of_not_blocked {i : ι} (h : ¬ b (f i)) : broadcast b wake f i = f i := if_neg h

lemma map_broadcast {ρ : Type*} (g : τ → ρ) (hg : ∀ x, b x → g (wake x) = g x) (i : ι) :
    g (broadcast b wake f i) = g (f i) := by
  by_cases h : b (f i)
  · rw [broadcast_of_blocked h, hg _ h]
  · rw [broadcast_of_not_blocked h]

section Signal

variable [Fintype ι] [DecidableEq ι] {c : Option ι}

/-- **What a signal can do**: wake one blocked thread, or nothing if there is none. -/
lemma signal_cases (h : signal b wake f c = some f') :
    (c = none ∧ (∀ i, ¬ b (f i)) ∧ f' = f) ∨
    ∃ i, c = some i ∧ b (f i) ∧ f' = Function.update f i (wake (f i)) := by
  cases c with
  | none =>
    simp only [signal] at h
    split at h
    · exact Or.inl ⟨rfl, ‹_›, (Option.some.inj h).symm⟩
    · cases h
  | some i =>
    simp only [signal] at h
    split at h
    · exact Or.inr ⟨i, rfl, ‹_›, (Option.some.inj h).symm⟩
    · cases h

lemma map_signal {ρ : Type*} (g : τ → ρ) (hg : ∀ x, b x → g (wake x) = g x)
    (h : signal b wake f c = some f') (i : ι) : g (f' i) = g (f i) := by
  obtain ⟨-, -, rfl⟩ | ⟨j, -, hj, rfl⟩ := signal_cases h
  · rfl
  · by_cases hij : i = j
    · subst hij
      rw [Function.update_self, hg _ hj]
    · rw [Function.update_of_ne hij]

/-- **A signal is not lost**: if a thread is blocked, some blocked thread is woken. -/
lemma exists_woken_of_signal (h : signal b wake f c = some f') {i : ι} (hi : b (f i)) :
    ∃ j, b (f j) ∧ f' j = wake (f j) := by
  obtain ⟨-, hno, -⟩ | ⟨j, -, hj, rfl⟩ := signal_cases h
  · exact absurd hi (hno i)
  · exact ⟨j, hj, Function.update_self ..⟩

lemma exists_signal (b : τ → Bool) (wake : τ → τ) (f : ι → τ) :
    ∃ c f', signal b wake f c = some f' := by
  by_cases hno : ∀ i, ¬ b (f i)
  · exact ⟨none, f, if_pos hno⟩
  · push Not at hno
    obtain ⟨i, hi⟩ := hno
    exact ⟨some i, _, if_pos hi⟩

end Signal

/-! ### One signal for each piece of work

A monitor that signals once for every piece of work it makes available keeps its waiters
covered: while a thread is blocked, there are at least as many signalled threads on their
way, those with `g`, as there are pieces. -/

section Covered

variable [Fintype ι] {g : τ → Bool} {n k : ℕ}

/-- While a thread is blocked, at least `n` threads have been signalled. -/
def Covered (b g : τ → Bool) (n : ℕ) (f : ι → τ) : Prop := ∀ i, b (f i) → n ≤ count g f

lemma covered_zero (f : ι → τ) : Covered b g 0 f := fun _ _ => Nat.zero_le _

lemma Covered.congr (h : Covered b g n f) (hb : ∀ i, b (f' i) = b (f i))
    (hg : ∀ i, g (f' i) = g (f i)) : Covered b g n f' := by
  intro i hi
  rw [hb] at hi
  rw [count_congr hg]
  exact h i hi

lemma Covered.exists_signalled (h : Covered b g n f) (hn : 0 < n) {i : ι} (hi : b (f i)) :
    ∃ j, g (f j) := by
  by_contra hno
  push Not at hno
  have := h i hi
  rw [(count_eq_zero_iff g f).mpr hno] at this
  omega

variable [DecidableEq ι]

lemma Covered.update (h : Covered b g n f) {i : ι} {x : τ} (hb : b x → b (f i))
    (hk : (k : ℤ) + ind g (f i) ≤ n + ind g x) : Covered b g k (Function.update f i x) := by
  intro j hj
  have hn : n ≤ count g f := by
    by_cases hij : j = i
    · subst hij
      rw [Function.update_self] at hj
      exact h j (hb hj)
    · rw [Function.update_of_ne hij] at hj
      exact h j hj
  have := count_update g f i x
  omega

lemma Covered.move (h : Covered b g n f) {i : ι} {x : τ} (hb : ¬ b x) (hg : ¬ g (f i)) :
    Covered b g n (Function.update f i x) := by
  refine h.update (fun hx => absurd hx hb) ?_
  have h0 : ind g (f i) = 0 := by simp [ind, hg]
  have := ind_nonneg g x
  omega

lemma Covered.take (h : Covered b g (n + 1) f) {i : ι} {x : τ} (hb : ¬ b x) :
    Covered b g n (Function.update f i x) := by
  refine h.update (fun hx => absurd hx hb) ?_
  have h1 : ind g (f i) ≤ 1 := by unfold ind; split <;> omega
  have := ind_nonneg g x
  push_cast
  omega

lemma Covered.signal {c : Option ι} (h : Covered b g n f) (hwake : ∀ x, b x → g (wake x) ∧ ¬ g x)
    (hs : signal b wake f c = some f') : Covered b g (n + 1) f' := by
  obtain ⟨-, hno, rfl⟩ | ⟨i, -, hi, rfl⟩ := signal_cases hs
  · exact fun j hj => absurd hj (hno j)
  · intro j _
    have hcount := count_update g f i (wake (f i))
    obtain ⟨hg, hng⟩ := hwake _ hi
    have h1 : ind g (wake (f i)) = 1 := by simp [ind, hg]
    have h0 : ind g (f i) = 0 := by simp [ind, hng]
    have := h i hi
    omega

end Covered

end LinuxSamples.CondVar
