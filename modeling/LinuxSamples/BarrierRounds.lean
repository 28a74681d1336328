import LinuxSamples.Barrier

/-!
The rounds of the barrier.

The invariant speaks of the number `R` of rounds that are complete. Every thread has
entered `R` or `R + 1` calls; `counter` says how many are still to enter their call number
`R + 1`, and there is always one. A thread that has entered `R + 1` waits with the current
value of `cycle`; one that is still in its call number `R` has the other value, and has
been woken.
-/

namespace LinuxSamples.Barrier

open LinuxSamples.Run LinuxSamples.Tally LinuxSamples.CondVar

/-- Where a thread can be when `R` rounds are complete. -/
def Phase (R : ℕ) (x : Thr) : Prop :=
  match x.pc with
  | .out => x.entered = R ∧ x.rets.length = R
  | .inWait cycle woken =>
    x.rets.length + 1 = x.entered ∧ cycle = ((x.entered + 1) % 2 : ℕ) ∧
      (x.entered = R ∧ woken = true ∨ x.entered = R + 1)

/-- The thread has entered its call of the round that is under way. -/
def ahead (R : ℕ) (x : Thr) : Bool := x.entered = R + 1

variable {ι : Type} [Fintype ι]

/-- `R` rounds are complete, and exactly one call of each has returned `-1`. -/
structure GoodAt (R : ℕ) (s : St ι) : Prop where
  valid : s.bar.valid = BARRIER_VALID
  threshold : s.bar.threshold = Fintype.card ι
  cycle : s.bar.cycle = (R % 2 : ℕ)
  phase : ∀ t, Phase R (s.thr t)
  counter : s.bar.counter = Fintype.card ι - count (ahead R) s.thr
  counter_pos : 0 < s.bar.counter
  serial : ∀ k < R, ∃ t, (s.thr t).rets[k]? = some (-1) ∧
    ∀ u, u ≠ t → (s.thr u).rets[k]? ≠ some (-1)
  status : ∀ t, ∀ v ∈ (s.thr t).rets, v = -1 ∨ v = 0

lemma Phase.entered {R : ℕ} {x : Thr} (h : Phase R x) : x.entered = R ∨ x.entered = R + 1 := by
  unfold Phase at h
  split at h <;> omega

lemma Phase.rets_le {R : ℕ} {x : Thr} (h : Phase R x) : x.rets.length ≤ R := by
  unfold Phase at h
  split at h <;> omega

lemma GoodAt.exists_behind {R : ℕ} {s : St ι} (h : GoodAt R s) : ∃ t, (s.thr t).entered = R := by
  by_contra hn
  push Not at hn
  have hall : count (ahead R) s.thr = Fintype.card ι := by
    refine (count_eq_card_iff _ _).mpr fun t => ?_
    have := (h.phase t).entered
    have := hn t
    simp only [ahead, decide_eq_true_eq]
    omega
  have h1 := h.counter
  have h2 := h.counter_pos
  omega

lemma phase_out {R : ℕ} {x : Thr} (hpc : x.pc = .out) :
    Phase R x ↔ x.entered = R ∧ x.rets.length = R := by
  simp [Phase, hpc]

lemma phase_inWait {R : ℕ} {x : Thr} {cycle : ℤ} {woken : Bool} (hpc : x.pc = .inWait cycle woken) :
    Phase R x ↔ x.rets.length + 1 = x.entered ∧ cycle = ((x.entered + 1) % 2 : ℕ) ∧
      (x.entered = R ∧ woken = true ∨ x.entered = R + 1) := by
  simp [Phase, hpc]

lemma Phase.release {R : ℕ} {x : Thr} (h : Phase R x) (he : x.entered = R + 1) :
    Phase (R + 1) (if x.blocked then x.wake else x) := by
  cases hpc : x.pc with
  | out =>
    have := ((phase_out hpc).mp h).1
    omega
  | inWait cycle woken =>
    obtain ⟨hlen, hc, -⟩ := (phase_inWait hpc).mp h
    cases woken with
    | false =>
      rw [if_pos (by simp [Thr.blocked, hpc])]
      have hpc' : x.wake.pc = .inWait cycle true := by simp [Thr.wake, hpc]
      refine (phase_inWait hpc').mpr ?_
      simpa [Thr.wake, hpc, he] using ⟨by omega, by rw [hc, he]; norm_num⟩
    | true =>
      rw [if_neg (by simp [Thr.blocked, hpc])]
      exact (phase_inWait hpc).mpr ⟨hlen, hc, Or.inl ⟨he, rfl⟩⟩

lemma good_init [DecidableEq ι] [Nonempty ι] : GoodAt 0 (init : St ι) where
  valid := rfl
  threshold := rfl
  cycle := rfl
  phase t := ⟨rfl, rfl⟩
  counter := by
    have : count (ahead 0) (init : St ι).thr = 0 :=
      (count_eq_zero_iff _ _).mpr fun t => by simp [init, ahead]
    rw [this]
    simp [init, barrierInit]
  counter_pos := by
    simp [init, barrierInit, Fintype.card_pos]
  serial k hk := absurd hk (by omega)
  status t v hv := by simp [init] at hv

/-- What a retry does: a thread of a complete round returns zero, one of the round under way
waits again. -/
lemma GoodAt.retry {R : ℕ} {s : St ι} (h : GoodAt R s) {t : ι} {cycle : ℤ} {woken : Bool}
    (hpc : (s.thr t).pc = .inWait cycle woken) :
    barrierWaitWoken s.bar cycle = if (s.thr t).entered = R then .ret 0 else .wait cycle := by
  obtain ⟨-, hc, he⟩ := (phase_inWait hpc).mp (h.phase t)
  unfold barrierWaitWoken
  rw [h.cycle, hc]
  rcases he with ⟨he, -⟩ | he
  · rw [if_neg (by omega), if_pos he]
  · rw [if_pos (by omega), if_neg (by omega)]

variable [DecidableEq ι]

lemma GoodAt.of_update {R : ℕ} {s : St ι} (h : GoodAt R s) {t : ι} {x : Thr}
    (hx : Phase R x) (he : x.entered = (s.thr t).entered)
    (hr : x.rets = (s.thr t).rets ∨ x.rets = (s.thr t).rets ++ [0]) :
    GoodAt R { s with thr := Function.update s.thr t x } where
  valid := h.valid
  threshold := h.threshold
  cycle := h.cycle
  phase u := by
    by_cases hu : u = t
    · subst hu; simpa using hx
    · simpa [Function.update_of_ne hu] using h.phase u
  counter := by
    have hc := count_update (ahead R) s.thr t x
    have hi : ind (ahead R) x = ind (ahead R) (s.thr t) := by simp [ind, ahead, he]
    have := h.counter
    simp only
    omega
  counter_pos := h.counter_pos
  serial k hk := by
    have hone : ∀ u, (Function.update s.thr t x u).rets[k]? = some (-1) ↔
        (s.thr u).rets[k]? = some (-1) := fun u => by
      by_cases hu : u = t
      · subst hu
        rcases hr with hr | hr
        · simp [hr]
        · simp only [Function.update_self, hr, List.getElem?_append]
          split
          · rfl
          · next hlen =>
            simp [List.getElem?_eq_none (Nat.le_of_not_lt hlen), List.getElem?_singleton]
      · simp [Function.update_of_ne hu]
    obtain ⟨u, hu, huniq⟩ := h.serial k hk
    exact ⟨u, (hone u).mpr hu, fun v hv hc => huniq v hv ((hone v).mp hc)⟩
  status u v hv := by
    by_cases hu : u = t
    · subst hu
      simp only [Function.update_self] at hv
      rcases hr with hr | hr
      · exact h.status u v (hr ▸ hv)
      · rw [hr, List.mem_append, List.mem_singleton] at hv
        rcases hv with hv | rfl
        · exact h.status u v hv
        · exact Or.inr rfl
    · simp only [Function.update_of_ne hu] at hv
      exact h.status u v hv

lemma count_enter {R : ℕ} {f : ι → Thr} {t : ι} {x : Thr} (he : (f t).entered = R)
    (hx : x.entered = R + 1) :
    (count (ahead R) (Function.update f t x) : ℤ) = count (ahead R) f + 1 := by
  rw [count_update]
  simp [ind, ahead, he, hx]

lemma GoodAt.enter_wait {R : ℕ} {s : St ι} (h : GoodAt R s) {t : ι} (hpc : (s.thr t).pc = .out)
    (hlast : s.bar.counter - 1 ≠ 0) :
    GoodAt R ⟨{ s.bar with counter := s.bar.counter - 1 }, Function.update s.thr t
      ⟨.inWait s.bar.cycle false, (s.thr t).entered + 1, (s.thr t).rets⟩⟩ := by
  obtain ⟨he, hr⟩ := (phase_out hpc).mp (h.phase t)
  have hold : ∀ u, (Function.update s.thr t
      (⟨.inWait s.bar.cycle false, (s.thr t).entered + 1, (s.thr t).rets⟩ : Thr) u).rets =
      (s.thr u).rets := fun u => by
    by_cases hu : u = t
    · subst hu; simp
    · simp [Function.update_of_ne hu]
  refine ⟨h.valid, h.threshold, h.cycle, fun u => ?_, ?_, ?_, ?_, ?_⟩
  · by_cases hu : u = t
    · subst hu
      simp only [Function.update_self]
      refine (phase_inWait rfl).mpr ⟨by simp [he, hr], ?_, Or.inr (by simp [he])⟩
      simp only [h.cycle, he]
      omega
    · simpa [Function.update_of_ne hu] using h.phase u
  · have hc := count_enter (f := s.thr) (t := t)
      (x := ⟨.inWait s.bar.cycle false, (s.thr t).entered + 1, (s.thr t).rets⟩) he (by simp [he])
    have := h.counter
    simp only
    omega
  · have := h.counter_pos
    simp only
    omega
  · simpa only [hold] using h.serial
  · simpa only [hold] using h.status

lemma GoodAt.all_ahead {R : ℕ} {s : St ι} (h : GoodAt R s) {t : ι} (hpc : (s.thr t).pc = .out)
    (hlast : s.bar.counter - 1 = 0) {u : ι} (hu : u ≠ t) : (s.thr u).entered = R + 1 := by
  obtain ⟨he, -⟩ := (phase_out hpc).mp (h.phase t)
  have hc := count_enter (f := s.thr) (t := t) (x := ⟨.out, R + 1, []⟩) he rfl
  have h1 := h.counter
  have hall : count (ahead R) (Function.update s.thr t ⟨.out, R + 1, []⟩) = Fintype.card ι := by
    omega
  have := (count_eq_card_iff _ _).mp hall u
  simpa [Function.update_of_ne hu, ahead] using this

/-- **The last thread enters**: it flips the cycle, wakes the others and returns `-1`. -/
lemma GoodAt.enter_last {R : ℕ} {s : St ι} (h : GoodAt R s) {t : ι} (hpc : (s.thr t).pc = .out)
    (hlast : s.bar.counter - 1 = 0) :
    GoodAt (R + 1) ⟨{ s.bar with
        counter := s.bar.threshold, cycle := if s.bar.cycle = 0 then 1 else 0 },
      broadcast Thr.blocked Thr.wake (Function.update s.thr t
        ⟨.out, (s.thr t).entered + 1, (s.thr t).rets ++ [-1]⟩)⟩ := by
  obtain ⟨he, hr⟩ := (phase_out hpc).mp (h.phase t)
  set x : Thr := ⟨.out, (s.thr t).entered + 1, (s.thr t).rets ++ [-1]⟩ with hx
  set f := broadcast Thr.blocked Thr.wake (Function.update s.thr t x) with hf
  have hrets : ∀ u, (f u).rets = (Function.update s.thr t x u).rets :=
    map_broadcast Thr.rets fun y _ => by unfold Thr.wake; split <;> rfl
  have hent : ∀ u, (f u).entered = R + 1 := fun u => by
    have h1 : (f u).entered = (Function.update s.thr t x u).entered :=
      map_broadcast Thr.entered (fun y _ => by unfold Thr.wake; split <;> rfl) u
    rw [h1]
    by_cases hu : u = t
    · subst hu; simp [hx, he]
    · rw [Function.update_of_ne hu, h.all_ahead hpc hlast hu]
  -- no call of the round but the last one has returned
  have hR : ∀ u, u ≠ t → (f u).rets[R]? = none := fun u hu => by
    rw [hrets, Function.update_of_ne hu]
    exact List.getElem?_eq_none (h.phase u).rets_le
  have hold : ∀ u, ∀ k < R, (f u).rets[k]? = (s.thr u).rets[k]? := fun u k hk => by
    rw [hrets]
    by_cases hu : u = t
    · subst hu
      rw [Function.update_self, List.getElem?_append_left (by omega)]
    · rw [Function.update_of_ne hu]
  refine ⟨h.valid, h.threshold, ?_, fun u => ?_, ?_, ?_, fun k hk => ?_, fun u v hv => ?_⟩
  · simp only [h.cycle]
    rcases Nat.mod_two_eq_zero_or_one R with h0 | h0 <;> simp [h0] <;> omega
  · by_cases hu : u = t
    · subst hu
      have hfu : f u = x := by
        rw [hf, broadcast_of_not_blocked] <;> simp [hx, Thr.blocked]
      show Phase (R + 1) (f u)
      rw [hfu]
      exact (phase_out rfl).mpr ⟨by simp [hx, he], by simp [hx, hr]⟩
    · have hfu : f u = if (s.thr u).blocked then (s.thr u).wake else s.thr u := by
        simp [hf, broadcast, Function.update_of_ne hu]
      simp only [hfu]
      exact (h.phase u).release (h.all_ahead hpc hlast hu)
  · have h0 : count (ahead (R + 1)) f = 0 :=
      (count_eq_zero_iff _ _).mpr fun u => by simp [ahead, hent u]
    simp [h0, h.threshold]
  · have := h.counter
    have := h.counter_pos
    simp only [h.threshold]
    omega
  · rcases Nat.lt_or_ge k R with hk' | hk'
    · obtain ⟨u, hu, huniq⟩ := h.serial k hk'
      exact ⟨u, by rw [hold u k hk', hu], fun v hv => by rw [hold v k hk']; exact huniq v hv⟩
    · obtain rfl : k = R := by omega
      refine ⟨t, ?_, fun v hv => by simp [hR v hv]⟩
      rw [hrets, Function.update_self, hx]
      simp [← hr]
  · simp only [hrets] at hv
    by_cases hu : u = t
    · subst hu
      simp only [Function.update_self, hx, List.mem_append, List.mem_singleton] at hv
      rcases hv with hv | rfl
      · exact h.status u v hv
      · exact Or.inl rfl
    · rw [Function.update_of_ne hu] at hv
      exact h.status u v hv

lemma good_step {R : ℕ} {s s' : St ι} {a : Act ι} (h : GoodAt R s) (hs : step s a = some s') :
    ∃ R', GoodAt R' s' := by
  cases a with
  | enter t =>
    simp only [step, Option.ite_none_right_eq_some, Option.some.injEq] at hs
    obtain ⟨hpc, rfl⟩ := hs
    by_cases hlast : s.bar.counter - 1 = 0
    · refine ⟨R + 1, ?_⟩
      simpa [barrierWait, h.valid, hlast, Thr.after] using h.enter_last hpc hlast
    · refine ⟨R, ?_⟩
      simpa [barrierWait, h.valid, hlast, Thr.after] using h.enter_wait hpc hlast
  | resume t =>
    rcases hpc : (s.thr t).pc with _ | ⟨cycle, woken⟩
    · simp [step, hpc] at hs
    cases woken with
    | false => simp [step, hpc] at hs
    | true =>
      simp only [step, hpc, Option.some.injEq] at hs
      subst hs
      obtain ⟨hlen, hc, he⟩ := (phase_inWait hpc).mp (h.phase t)
      rw [h.retry hpc]
      refine ⟨R, ?_⟩
      by_cases hR : (s.thr t).entered = R
      · rw [if_pos hR]
        refine h.of_update ((phase_out rfl).mpr ⟨hR, ?_⟩) rfl (Or.inr rfl)
        simp only [Thr.after, List.length_append, List.length_singleton]
        omega
      · rw [if_neg hR]
        exact h.of_update ((phase_inWait rfl).mpr ⟨hlen, hc, Or.inr (by simp [Thr.after]; omega)⟩)
          rfl (Or.inl rfl)
  | spurious t =>
    simp only [step, Option.ite_none_right_eq_some, Option.some.injEq] at hs
    obtain ⟨hb, rfl⟩ := hs
    rcases hpc : (s.thr t).pc with _ | ⟨cycle, woken⟩
    · simp [Thr.blocked, hpc] at hb
    obtain ⟨hlen, hc, he⟩ := (phase_inWait hpc).mp (h.phase t)
    have hw : (s.thr t).wake = { s.thr t with pc := .inWait cycle true } := by
      simp [Thr.wake, hpc]
    rw [hw]
    refine ⟨R, h.of_update ((phase_inWait rfl).mpr ⟨hlen, hc, ?_⟩) rfl (Or.inl rfl)⟩
    rcases he with ⟨he, -⟩ | he
    · exact Or.inl ⟨he, rfl⟩
    · exact Or.inr he

lemma reach_good [Nonempty ι] {s : St ι} (h : Reach step init s) : ∃ R, GoodAt R s := by
  refine h.invariant (I := fun s => ∃ R, GoodAt R s) ⟨0, good_init⟩ ?_
  rintro u a v ⟨R, hg⟩ hs
  exact good_step hg hs

/-- **The barrier synchronises every round.** In every reachable state: no thread has
returned from a call that some thread has not entered; of the calls of a round from which
all threads have returned, one returned `-1` and the others `0`; a thread in the wait of a
call that all threads have entered has been woken, and its retry returns zero; a thread in
the wait of a call that some thread has not entered goes back to sleep when it retries; and
some thread is not blocked. -/
theorem barrier_synchronises [Nonempty ι] {s : St ι} (h : Reach step init s) :
    (∀ t u, (s.thr t).rets.length ≤ (s.thr u).entered) ∧
    (∀ k, (∀ t, k < (s.thr t).rets.length) → ∃ t, (s.thr t).rets[k]? = some (-1) ∧
      ∀ u, u ≠ t → (s.thr u).rets[k]? = some 0) ∧
    (∀ t cycle woken, (s.thr t).pc = .inWait cycle woken →
      (∀ u, (s.thr t).entered ≤ (s.thr u).entered) →
      woken = true ∧ step s (.resume t) =
        some { s with thr := Function.update s.thr t ((s.thr t).after (.ret 0)) }) ∧
    (∀ t cycle woken, (s.thr t).pc = .inWait cycle woken →
      (∃ u, (s.thr u).entered < (s.thr t).entered) →
      ∀ s', step s (.resume t) = some s' → (s'.thr t).blocked = true) ∧
    ¬ ∀ t, (s.thr t).blocked = true := by
  obtain ⟨R, hg⟩ := reach_good h
  have hbehind := hg.exists_behind
  refine ⟨fun t u => ?_, fun k hk => ?_, fun t cycle woken hpc hall => ?_,
    fun t cycle woken hpc hless s' hs => ?_, fun hall => ?_⟩
  · have h1 := (hg.phase t).rets_le
    have h2 := (hg.phase u).entered
    omega
  · obtain ⟨t0, -⟩ := hbehind
    have hkR : k < R := lt_of_lt_of_le (hk t0) (hg.phase t0).rets_le
    obtain ⟨t, ht, huniq⟩ := hg.serial k hkR
    refine ⟨t, ht, fun u hu => ?_⟩
    have hget := List.getElem?_eq_getElem (hk u)
    rcases hg.status u _ (List.getElem_mem (hk u)) with h1 | h1
    · exact absurd (by rw [hget, h1]) (huniq u hu)
    · rw [hget, h1]
  · -- all have entered the call, so its round is complete
    obtain ⟨u, hu⟩ := hbehind
    obtain ⟨-, -, he⟩ := (phase_inWait hpc).mp (hg.phase t)
    have hR : (s.thr t).entered = R := by
      have := hall u
      omega
    have hw : woken = true := by
      rcases he with ⟨-, hw⟩ | he
      · exact hw
      · omega
    subst hw
    refine ⟨rfl, ?_⟩
    simp only [step, hpc, hg.retry hpc, if_pos hR]
  · obtain ⟨u, hu⟩ := hless
    have hne : (s.thr t).entered ≠ R := by
      have := (hg.phase u).entered
      omega
    cases woken with
    | false => simp [step, hpc] at hs
    | true =>
      simp only [step, hpc, hg.retry hpc, if_neg hne, Thr.after, Option.some.injEq] at hs
      subst hs
      simp [Thr.blocked]
  · obtain ⟨t, ht⟩ := hbehind
    have hb := hall t
    have hp := hg.phase t
    rcases hpc : (s.thr t).pc with _ | ⟨cycle, woken⟩
    · simp [Thr.blocked, hpc] at hb
    · obtain ⟨-, -, he⟩ := (phase_inWait hpc).mp hp
      have hw : woken = true := by
        rcases he with ⟨-, hw⟩ | he
        · exact hw
        · omega
      simp [Thr.blocked, hpc, hw] at hb

/-- Two threads; the second to enter its first call is fast and is already in its second
call, while the first has not yet left its first. -/
theorem barrier_synchronises_fast_thread :
    ∃ s : St (Fin 2), exec step init [.enter 0, .enter 1, .enter 1] = some s ∧
      step s (.resume 0) = some { s with thr := Function.update s.thr 0 ⟨.out, 1, [0]⟩ } := by
  refine ⟨_, rfl, ?_⟩
  exact ((barrier_synchronises (ι := Fin 2) ⟨[.enter 0, .enter 1, .enter 1], rfl⟩).2.2.1 0 0 true
    rfl (by decide)).2

end LinuxSamples.Barrier
