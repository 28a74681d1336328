import LinuxSamples.MultiJoin

/-!
How `thread_multijoin.c` ends.

Until the main thread exits, it or one of the threads can go on: a blocked main thread waits for a
thread that is alive or has a signal to send. Every step but a spurious wake-up lowers a rank, to
which the threads, their joins and the way of the main thread around its loops contribute.
-/

namespace LinuxSamples.MultiJoin

open Mutex Run Tally

variable {n : ℕ} {s s' : St n}

/-! ### Progress -/

lemma thread_enabled {i : Fin n} (hm : s.main ≠ .exited)
    (hp : s.pc i = .working ∨ s.pc i = .record ∨ s.pc i = .unlock ∨ s.pc i = .signal) :
    step s (.thread i) ≠ none := by
  rw [step, if_neg hm, MultiJoin.threadStep]
  rcases hp with hp | hp | hp | hp <;> rw [hp] <;> exact Option.some_ne_none _

lemma Inv.owner_cases (h : Inv s) (hm : s.main ≠ .exited) (hout : s.main.inside = false) :
    s.owner = none ∨ ∃ j, step s (.thread j) ≠ none := by
  cases ho : s.owner with
  | none => exact Or.inl rfl
  | some w =>
    have hin := (h.held w).mpr ho
    cases w with
    | main => exact absurd (hout.symm.trans hin) (by decide)
    | thread j =>
      refine Or.inr ⟨j, thread_enabled hm ?_⟩
      have hin : (s.pc j).inside = true := hin
      cases hp : s.pc j with
      | record => exact Or.inr (Or.inl rfl)
      | unlock => exact Or.inr (Or.inr (Or.inl rfl))
      | _ => rw [hp] at hin; cases hin

lemma Inv.enabled_of_blocked (h : Inv s) (hm : s.main = .blocked) :
    ∃ j, step s (.thread j) ≠ none := by
  have hne : s.main ≠ .exited := by simp [hm]
  obtain ⟨hpos, hsignal⟩ : 0 < s.numLive ∧
      ∀ i, s.state i = .terminated → s.pc i = .unlock ∨ s.pc i = .signal := by
    have hphase := h.phase
    rwa [hm] at hphase
  have hcount : count TState.isUnjoined s.state ≠ 0 := by
    have := h.live (by rw [hm]; rfl)
    omega
  rw [ne_eq, count_eq_zero_iff] at hcount
  push Not at hcount
  obtain ⟨i, hi⟩ := hcount
  have hthere : s.pc i ≠ .absent := by
    rw [ne_eq, h.created, hm]
    exact Nat.not_le.mpr i.isLt
  have hjoined : s.state i ≠ .joined := of_decide_eq_true hi
  have hfits := h.fits i
  cases hp : s.pc i with
  | absent => exact absurd hp hthere
  | working => exact ⟨i, thread_enabled hne (Or.inl hp)⟩
  | lock =>
    rcases h.owner_cases hne (by rw [hm]; rfl) with ho | hj
    · refine ⟨i, ?_⟩
      rw [step, if_neg hne, MultiJoin.threadStep, hp]
      simp [ho]
    · exact hj
  | record => exact ⟨i, thread_enabled hne (Or.inr (Or.inl hp))⟩
  | unlock => exact ⟨i, thread_enabled hne (Or.inr (Or.inr (Or.inl hp)))⟩
  | signal => exact ⟨i, thread_enabled hne (Or.inr (Or.inr (Or.inr hp)))⟩
  | returned =>
    cases hst : s.state i with
    | alive => rw [hp, hst] at hfits; cases hfits
    | terminated =>
      rcases hsignal i hst with hp' | hp' <;> exact absurd (hp.symm.trans hp') (by decide)
    | joined => exact absurd hst hjoined

lemma Inv.enabled (h : Inv s) (hne : s.main ≠ .exited) :
    step s .main ≠ none ∨ ∃ j, step s (.thread j) ≠ none := by
  have hphase := h.phase
  rw [step, MultiJoin.mainStep]
  cases hm : s.main with
  | create idx =>
    refine Or.inl ?_
    simp only
    split <;> exact Option.some_ne_none _
  | test => exact Or.inl (Option.some_ne_none _)
  | lock =>
    rcases h.owner_cases hne (by rw [hm]; rfl) with ho | hj
    · exact Or.inl (by simp [ho])
    · exact Or.inr hj
  | waitTest => exact Or.inl (Option.some_ne_none _)
  | blocked => exact Or.inr (h.enabled_of_blocked hm)
  | woken =>
    rcases h.owner_cases hne (by rw [hm]; rfl) with ho | hj
    · exact Or.inl (by simp [ho])
    · exact Or.inr hj
  | scan idx =>
    refine Or.inl ?_
    simp only
    split
    · split <;> exact Option.some_ne_none _
    · exact Option.some_ne_none _
  | join i =>
    -- the thread has recorded its end, and needs the mutex no more
    rw [hm] at hphase
    have hfits := h.fits i
    rw [hphase.1] at hfits
    cases hp : s.pc i with
    | unlock => exact Or.inr ⟨i, thread_enabled hne (Or.inr (Or.inr (Or.inl hp)))⟩
    | signal => exact Or.inr ⟨i, thread_enabled hne (Or.inr (Or.inr (Or.inr hp)))⟩
    | returned => exact Or.inl (by simp [hp])
    | _ => rw [hp] at hfits; cases hfits
  | unlock => exact Or.inl (Option.some_ne_none _)
  | exited => exact absurd hm hne

/-! ### Termination -/

def Pc.left : Pc → ℤ
  | .absent => 6
  | .working => 5
  | .lock => 4
  | .record => 3
  | .unlock => 2
  | .signal => 1
  | .returned => 0

/-- The steps that the main thread has left, until it blocks, joins a thread or exits. A loop over
the array in which there is nothing left to join has joined something before. -/
def St.mainLeft (s : St n) : ℤ :=
  match s.main with
  | .create idx => 2 * n + 5 + (n - idx : ℕ)
  | .test => 2 * n + 4
  | .lock => 2 * n + 3
  | .waitTest => 2 * n + 2
  | .blocked => 0
  | .woken => 2 * n + 3
  | .scan idx =>
    if s.numUnjoined = 0 then 2 * n + 6 + 2 * (n - idx : ℕ) else 2 * (n - idx : ℕ) + 1
  | .join i => 2 * (n - i : ℕ)
  | .unlock => 2 * n + 5
  | .exited => 0

def St.rank (s : St n) : ℤ :=
  (4 * n + 8) * count TState.isUnjoined s.state + (2 * n + 4) * tally Pc.left s.pc + s.mainLeft

/-- What a step costs: a spurious wake-up gives back what the main thread needs to block again. -/
def Act.cost (a : Act n) : ℤ := if a = .spurious then -(2 * n + 3) else 1

lemma mainLeft_nonneg (s : St n) : 0 ≤ s.mainLeft := by
  unfold St.mainLeft
  split <;> omega

lemma rank_nonneg (s : St n) : 0 ≤ s.rank := by
  have hleft : 0 ≤ tally Pc.left s.pc := tally_nonneg fun i => by cases s.pc i <;> decide
  have hmain := mainLeft_nonneg s
  unfold St.rank
  positivity

lemma rank_of_mainLeft (hst : s'.state = s.state) (hpc : s'.pc = s.pc)
    (hm : s'.mainLeft + 1 ≤ s.mainLeft) : s'.rank + 1 ≤ s.rank := by
  unfold St.rank
  rw [hst, hpc]
  omega

lemma rank_of_pc {i : Fin n} {p : Pc} (hst : count TState.isUnjoined s'.state =
      count TState.isUnjoined s.state) (hpc : s'.pc = Function.update s.pc i p)
    (hp : p.left + 1 ≤ (s.pc i).left) (hm : s'.mainLeft ≤ s.mainLeft + (2 * n + 3)) :
    s'.rank + 1 ≤ s.rank := by
  have htally := tally_update Pc.left s.pc i p
  have hle : tally Pc.left s'.pc + 1 ≤ tally Pc.left s.pc := by
    rw [hpc]
    omega
  have hmul := mul_le_mul_of_nonneg_left hle (show (0 : ℤ) ≤ 2 * n + 4 by omega)
  rw [mul_add, mul_one] at hmul
  unfold St.rank
  rw [hst]
  omega

lemma Inv.unjoined_eq_zero_iff (h : Inv s) :
    s.numUnjoined = 0 ↔ ∀ i, s.state i ≠ .terminated := by
  rw [h.unjoined, Nat.cast_eq_zero, count_eq_zero_iff]
  simp [TState.isTerminated]

lemma Inv.rank_main (h : Inv s) (hs : MainStep s s') : s'.rank + 1 ≤ s.rank := by
  have hphase := h.phase
  cases hs with
  | create i hm =>
    have habsent : s.pc i = .absent := (h.created i).mpr (by rw [hm]; exact le_rfl)
    have hlt := i.isLt
    refine rank_of_pc (p := .working) ?_ rfl (by rw [habsent]; decide) ?_
    · have hcount := count_update TState.isUnjoined s.state i .alive
      have hne : s.state i ≠ .joined := by
        rw [hm] at hphase
        exact hphase i
      simp [ind, TState.isUnjoined, hne] at hcount
      exact hcount
    · simp only [St.mainLeft, St.setPc, St.goto, hm]
      omega
  | created idx hm hidx =>
    refine rank_of_mainLeft rfl rfl ?_
    simp only [St.mainLeft, St.goto, hm]
    omega
  | loop hm hlive =>
    refine rank_of_mainLeft rfl rfl ?_
    simp only [St.mainLeft, St.goto, hm]
    omega
  | exit hm hlive =>
    refine rank_of_mainLeft rfl rfl ?_
    simp only [St.mainLeft, St.goto, hm]
    omega
  | lock hm ho =>
    refine rank_of_mainLeft rfl rfl ?_
    rcases hm with hm | hm <;> simp only [St.mainLeft, St.goto, hm] <;> omega
  | block hm hz =>
    refine rank_of_mainLeft rfl rfl ?_
    simp only [St.mainLeft, St.goto, hm]
    omega
  | found hm hz =>
    refine rank_of_mainLeft rfl rfl ?_
    simp only [St.mainLeft, St.goto, hm]
    omega
  | pick i hm hs =>
    have hne : s.numUnjoined ≠ 0 := fun hz => h.unjoined_eq_zero_iff.mp hz i hs
    refine rank_of_mainLeft rfl rfl ?_
    simp only [St.mainLeft, St.goto, hm, if_neg hne]
    omega
  | pass i hm hs =>
    have hlt := i.isLt
    refine rank_of_mainLeft rfl rfl ?_
    simp only [St.mainLeft, St.goto, hm]
    split <;> omega
  | scanned idx hm hidx =>
    have hz : s.numUnjoined = 0 := by
      rw [hm] at hphase
      exact h.unjoined_eq_zero_iff.mpr fun i => hphase i (i.isLt.trans_le hidx)
    refine rank_of_mainLeft rfl rfl ?_
    simp only [St.mainLeft, St.goto, hm, if_pos hz]
    omega
  | reap i hm hp =>
    have hlt := i.isLt
    have hcount := count_update TState.isUnjoined s.state i .joined
    rw [hm] at hphase
    simp [ind, TState.isUnjoined, hphase.1] at hcount
    unfold St.rank
    simp only [St.mainLeft, St.goto, hm, hcount, mul_add, mul_neg, mul_one]
    split <;> omega
  | unlock hm =>
    refine rank_of_mainLeft rfl rfl ?_
    simp only [St.mainLeft, St.goto, hm]
    omega

lemma mainLeft_outside (hm : s'.main = s.main) (hout : s.main.inside = false) :
    s'.mainLeft = s.mainLeft := by
  unfold St.mainLeft
  rw [hm]
  cases hp : s.main with
  | scan idx => rw [hp] at hout; cases hout
  | _ => rfl

lemma mainLeft_wake (s : St n) : s.wake.mainLeft ≤ s.mainLeft + (2 * n + 3) := by
  unfold St.wake
  split
  · rename_i hm
    simp only [St.mainLeft, St.goto, hm]
    omega
  · omega

lemma Inv.rank_thread {i : Fin n} (h : Inv s) (hs : ThreadStep s i s') : s'.rank + 1 ≤ s.rank := by
  have hsame : s.mainLeft ≤ s.mainLeft + (2 * n + 3) := by omega
  cases hs with
  | wakeUp hp => exact rank_of_pc (p := .lock) rfl rfl (by rw [hp]; decide) hsame
  | lock hp ho => exact rank_of_pc (p := .record) rfl rfl (by rw [hp]; decide) hsame
  | record hp =>
    refine rank_of_pc (p := .unlock) ?_ rfl (by rw [hp]; decide) ?_
    · have hcount := count_update TState.isUnjoined s.state i .terminated
      simp [ind, TState.isUnjoined, h.alive (Or.inr (Or.inr hp))] at hcount
      exact hcount
    · refine le_trans (le_of_eq ?_) hsame
      exact mainLeft_outside rfl (h.main_outside hp)
  | unlock hp => exact rank_of_pc (p := .signal) rfl rfl (by rw [hp]; decide) hsame
  | signal hp =>
    have hwake : s.wake.pc = s.pc ∧ s.wake.state = s.state := by
      unfold St.wake
      split <;> exact ⟨rfl, rfl⟩
    refine rank_of_pc (p := .returned) ?_ ?_ (by rw [hp]; decide) (mainLeft_wake s)
    · exact congrArg (count _) hwake.2
    · exact congrArg (fun f => Function.update f i .returned) hwake.1

lemma Inv.cost {a : Act n} (h : Inv s) (hs : step s a = some s') : s'.rank + a.cost ≤ s.rank := by
  cases a with
  | main => exact h.rank_main (mainStep_cases hs)
  | thread i =>
    rw [step] at hs
    split at hs
    · cases hs
    · exact h.rank_thread (threadStep_cases hs)
  | spurious =>
    rw [step] at hs
    split at hs
    · rename_i hm
      obtain rfl := Option.some.inj hs
      rw [Act.cost, if_pos rfl]
      simp only [St.rank, St.mainLeft, St.goto, hm]
      omega
    · cases hs

lemma sum_cost (as : List (Act n)) : (as.map Act.cost).sum =
    (as.countP (· ≠ .spurious) : ℤ) - (2 * n + 3) * as.count .spurious := by
  induction as with
  | nil => simp
  | cons a as ih =>
    rw [List.map_cons, List.sum_cons, ih, List.countP_cons, List.count_cons]
    by_cases ha : a = .spurious
    · subst ha
      simp [Act.cost]
      ring
    · simp [Act.cost, ha]
      ring

/-- The steps of all threads, without spurious wake-ups. -/
def bound (n : ℕ) : ℤ := (4 * n + 8) * n + (2 * n + 4) * (6 * n) + (3 * n + 5)

lemma rank_start (n : ℕ) : (start n).rank = bound n := by
  have hcount : count TState.isUnjoined (start n).state = n := by
    have hcard := (count_eq_card_iff TState.isUnjoined (start n).state).mpr fun _ => rfl
    rwa [Fintype.card_fin] at hcard
  have htally : tally Pc.left (start n).pc = 6 * n := by
    simp [tally, start, Pc.left, mul_comm]
  rw [St.rank, hcount, htally, bound]
  simp only [start, St.mainLeft, Nat.sub_zero]
  ring

/-- **Every thread is reaped once.** For every number of threads and in every run, the counters
count whenever the mutex is free, `pthread_join` is called once for each thread and after it has
recorded its end, no wake-up is lost, and the main thread exits when all are joined. Until it
exits somebody can take a step that is not a spurious wake-up, and there are no more such steps
than a bound that each spurious wake-up raises by `2 * n + 3`. -/
theorem multijoin_reaps {as : List (Act n)} (hrun : exec step (start n) as = some s) :
    Safe s ∧
      (s.main ≠ .exited → step s .main ≠ none ∨ ∃ i, step s (.thread i) ≠ none) ∧
      (as.countP (· ≠ .spurious) : ℤ) ≤ bound n + (2 * n + 3) * as.count .spurious := by
  have hinv := inv_of_reach ⟨as, hrun⟩
  refine ⟨hinv.safe, hinv.enabled, ?_⟩
  have hcost := cost_le_of_exec (I := Inv) (r := St.rank) (c := Act.cost)
    (fun u a v hu hv => ⟨hu.next hv, hu.cost hv⟩) (start_inv n) hrun
  have hnonneg := rank_nonneg s
  rw [sum_cost, rank_start] at hcost
  omega

/-- Two threads, a wait that is left for no reason, and one wake-up for both ends. -/
def twoThreads (t u : Fin 2) : List (Act 2) :=
  List.replicate 6 .main ++ [.spurious, .main, .main] ++ List.replicate 4 (.thread t) ++
    List.replicate 4 (.thread u) ++ [.thread t, .thread u] ++ List.replicate 9 .main

theorem multijoin_reaps_two : ∃ s, exec step (start 2) (twoThreads 0 1) = some s ∧
    (s.main = .exited ∧ s.joins = [0, 1]) ∧ Safe s := by
  obtain ⟨s, hs, hm⟩ :
      ∃ s, exec step (start 2) (twoThreads 0 1) = some s ∧ (s.main = .exited ∧ s.joins = [0, 1]) :=
    exists_exec_of_any (by decide)
  exact ⟨s, hs, hm, (multijoin_reaps hs).1⟩

end LinuxSamples.MultiJoin
