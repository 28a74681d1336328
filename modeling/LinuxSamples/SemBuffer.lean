import LinuxSamples.Run

/-!
The producer and the consumer of `sem.cpp`, with three semaphores.

`nempty` and `nstored` count the free and the full cells, `mutex` protects the buffer. The two
loops have the same shape, and each call of theirs is a step of its own. What is proved about
the cells follows from three sums: what a semaphore has and what the threads have taken from it
is constant.
-/

namespace LinuxSamples.SemBuffer

open LinuxSamples.Run

def NBUFF : ℕ := 100

inductive Out
  | product (v : ℤ)
  /-- `buff[i] = v`, printed only when `v` is not `i`. -/
  | mismatch (i v : ℤ)
  | consumer (v : ℤ)
  deriving DecidableEq

inductive Pc
  | wait
  | lock
  | body
  | unlock
  | post
  deriving DecidableEq

structure Thr where
  i : ℕ
  pc : Pc
  deriving DecidableEq

structure St where
  mutex : ℕ
  nempty : ℕ
  nstored : ℕ
  buff : ℕ → ℤ
  producer : Thr
  consumer : Thr
  out : List Out

def semWait (sem : ℕ) : Option ℕ := if 0 < sem then some (sem - 1) else none

def semPost (sem : ℕ) : ℕ := sem + 1

variable (nitems : ℕ)

/-- The next call of `produce`; there is none when the loop is over. -/
def produce (s : St) : Option St :=
  let i := s.producer.i
  match s.producer.pc with
  | .wait =>
    if i < nitems then
      (semWait s.nempty).map fun v => { s with nempty := v, producer := ⟨i, .lock⟩ }
    else none
  | .lock => (semWait s.mutex).map fun v => { s with mutex := v, producer := ⟨i, .body⟩ }
  | .body =>
    some { s with
      buff := Function.update s.buff (i % NBUFF) i
      out := s.out ++ [.product i]
      producer := ⟨i, .unlock⟩ }
  | .unlock => some { s with mutex := semPost s.mutex, producer := ⟨i, .post⟩ }
  | .post => some { s with nstored := semPost s.nstored, producer := ⟨i + 1, .wait⟩ }

/-- What the consumer prints when it finds `v` in round `i`. -/
def inspect (i v : ℤ) : List Out :=
  (if v ≠ i then [.mismatch i v] else []) ++ [.consumer v]

def consume (s : St) : Option St :=
  let i := s.consumer.i
  match s.consumer.pc with
  | .wait =>
    if i < nitems then
      (semWait s.nstored).map fun v => { s with nstored := v, consumer := ⟨i, .lock⟩ }
    else none
  | .lock => (semWait s.mutex).map fun v => { s with mutex := v, consumer := ⟨i, .body⟩ }
  | .body =>
    some { s with
      out := s.out ++ inspect i (s.buff (i % NBUFF))
      consumer := ⟨i, .unlock⟩ }
  | .unlock => some { s with mutex := semPost s.mutex, consumer := ⟨i, .post⟩ }
  | .post => some { s with nempty := semPost s.nempty, consumer := ⟨i + 1, .wait⟩ }

inductive Act
  | produce
  | consume
  deriving DecidableEq

def step (s : St) : Act → Option St
  | .produce => produce nitems s
  | .consume => consume nitems s

def init : St where
  mutex := 1
  nempty := NBUFF
  nstored := 0
  buff _ := 0
  producer := ⟨0, .wait⟩
  consumer := ⟨0, .wait⟩
  out := []

/-! ### Invariants -/

/-- The thread has an item: it is between its wait and its post. -/
def Pc.item : Pc → ℕ
  | .wait => 0
  | .lock | .body | .unlock | .post => 1

def Pc.locked : Pc → ℕ
  | .body | .unlock => 1
  | .wait | .lock | .post => 0

/-- The item of this round is in the buffer. -/
def Pc.stored : Pc → ℕ
  | .unlock | .post => 1
  | .wait | .lock | .body => 0

/-- The steps that are left of the round. -/
def Pc.left : Pc → ℕ
  | .wait => 5
  | .lock => 4
  | .body => 3
  | .unlock => 2
  | .post => 1

def Thr.left (t : Thr) : ℕ := 5 * (nitems - t.i) + t.pc.left - 5

structure Inv (s : St) : Prop where
  produced : s.producer.i + s.producer.pc.item ≤ nitems
  consumed : s.consumer.i + s.consumer.pc.item ≤ nitems
  mutex : s.mutex + s.producer.pc.locked + s.consumer.pc.locked = 1
  nempty : s.nempty + s.producer.i + s.producer.pc.item = NBUFF + s.consumer.i
  nstored : s.nstored + s.consumer.i + s.consumer.pc.item = s.producer.i
  buff : ∀ k, s.consumer.i ≤ k → k < s.producer.i + s.producer.pc.stored → s.buff (k % NBUFF) = k
  out : ∀ i v, .mismatch i v ∉ s.out

lemma inv_init : Inv nitems init where
  produced := Nat.zero_le _
  consumed := Nat.zero_le _
  mutex := rfl
  nempty := rfl
  nstored := rfl
  buff k _ hk := absurd hk (Nat.not_lt_zero k)
  out := by simp [init]

lemma semWait_eq_some {sem v : ℕ} (h : semWait sem = some v) : sem = v + 1 := by
  obtain ⟨hpos, hv⟩ := Option.ite_none_right_eq_some.mp h
  rw [Option.some.injEq] at hv
  omega

lemma cell_ne {i k c : ℕ} (hk : c ≤ k) (hki : k < i) (hi : i < NBUFF + c) :
    k % NBUFF ≠ i % NBUFF := by
  intro h
  have hdvd : NBUFF ∣ i - k := (Nat.modEq_iff_dvd' hki.le).mp h
  have := Nat.le_of_dvd (by omega) hdvd
  omega

lemma inv_produce {s t : St} (hi : Inv nitems s) (h : produce nitems s = some t) :
    Inv nitems t ∧ t.producer.left nitems + 1 = s.producer.left nitems ∧
      t.consumer = s.consumer := by
  obtain ⟨mutex, nempty, nstored, buff, ⟨i, pc⟩, ⟨c, cpc⟩, out⟩ := s
  obtain ⟨hproduced, hconsumed, hmutex, hnempty, hnstored, hbuff, hout⟩ := hi
  dsimp only at hproduced hconsumed hmutex hnempty hnstored hbuff hout
  cases pc <;>
    simp only [Pc.item, Pc.locked, Pc.stored] at hproduced hmutex hnempty hnstored hbuff
  case wait =>
    obtain ⟨hlt : _ < _, h⟩ := Option.ite_none_right_eq_some.mp h
    dsimp only at hlt
    obtain ⟨v, hv, rfl⟩ := Option.map_eq_some_iff.mp h
    have hsem := semWait_eq_some hv
    dsimp only at hsem
    refine ⟨⟨?_, hconsumed, hmutex, ?_, hnstored, hbuff, hout⟩, ?_, rfl⟩
    all_goals simp only [Pc.item, Thr.left, Pc.left]
    all_goals omega
  case lock =>
    obtain ⟨v, hv, rfl⟩ := Option.map_eq_some_iff.mp h
    have hsem := semWait_eq_some hv
    dsimp only at hsem
    refine ⟨⟨hproduced, hconsumed, ?_, hnempty, hnstored, hbuff, hout⟩, ?_, rfl⟩
    all_goals simp only [Pc.locked, Thr.left, Pc.left]
    all_goals omega
  case body =>
    cases h
    refine ⟨⟨hproduced, hconsumed, hmutex, hnempty, hnstored, fun k hk hki => ?_, ?_⟩, ?_, rfl⟩
    · change c ≤ k at hk
      change k < i + 1 at hki
      change Function.update buff (i % NBUFF) (i : ℤ) (k % NBUFF) = k
      rcases Nat.lt_succ_iff_lt_or_eq.mp hki with hlt | rfl
      · rw [Function.update_of_ne (cell_ne hk hlt (by omega)), hbuff k hk hlt]
      · rw [Function.update_self]
    · simpa using hout
    · dsimp only [Thr.left, Pc.left]
      omega
  case unlock =>
    cases h
    refine ⟨⟨hproduced, hconsumed, ?_, hnempty, hnstored, hbuff, hout⟩, ?_, rfl⟩
    all_goals simp only [Pc.locked, semPost, Thr.left, Pc.left]
    all_goals omega
  case post =>
    cases h
    refine ⟨⟨hproduced, hconsumed, hmutex, ?_, ?_, hbuff, hout⟩, ?_, rfl⟩
    all_goals simp only [Pc.item, semPost, Thr.left, Pc.left]
    all_goals omega

lemma Inv.found {s : St} (hi : Inv nitems s) (h : s.consumer.pc ≠ .wait) :
    s.buff (s.consumer.i % NBUFF) = s.consumer.i := by
  have hitem : s.consumer.pc.item = 1 := by
    cases hpc : s.consumer.pc with
    | wait => exact absurd hpc h
    | lock | body | unlock | post => rfl
  have hnstored := hi.nstored
  exact hi.buff _ le_rfl (by omega)

lemma inv_consume {s t : St} (hi : Inv nitems s) (h : consume nitems s = some t) :
    Inv nitems t ∧ t.consumer.left nitems + 1 = s.consumer.left nitems ∧
      t.producer = s.producer := by
  have hfound := hi.found
  obtain ⟨mutex, nempty, nstored, buff, ⟨i, pc⟩, ⟨c, cpc⟩, out⟩ := s
  obtain ⟨hproduced, hconsumed, hmutex, hnempty, hnstored, hbuff, hout⟩ := hi
  dsimp only at hproduced hconsumed hmutex hnempty hnstored hbuff hout hfound
  cases cpc <;> simp only [Pc.item, Pc.locked] at hconsumed hmutex hnempty hnstored
  case wait =>
    obtain ⟨hlt : _ < _, h⟩ := Option.ite_none_right_eq_some.mp h
    dsimp only at hlt
    obtain ⟨v, hv, rfl⟩ := Option.map_eq_some_iff.mp h
    have hsem := semWait_eq_some hv
    dsimp only at hsem
    refine ⟨⟨hproduced, ?_, hmutex, hnempty, ?_, hbuff, hout⟩, ?_, rfl⟩
    all_goals simp only [Pc.item, Thr.left, Pc.left]
    all_goals omega
  case lock =>
    obtain ⟨v, hv, rfl⟩ := Option.map_eq_some_iff.mp h
    have hsem := semWait_eq_some hv
    dsimp only at hsem
    refine ⟨⟨hproduced, hconsumed, ?_, hnempty, hnstored, hbuff, hout⟩, ?_, rfl⟩
    all_goals simp only [Pc.locked, Thr.left, Pc.left]
    all_goals omega
  case body =>
    cases h
    refine ⟨⟨hproduced, hconsumed, hmutex, hnempty, hnstored, hbuff, ?_⟩, ?_, rfl⟩
    · simpa [inspect, hfound] using hout
    · dsimp only [Thr.left, Pc.left]
      omega
  case unlock =>
    cases h
    refine ⟨⟨hproduced, hconsumed, ?_, hnempty, hnstored, hbuff, hout⟩, ?_, rfl⟩
    all_goals simp only [Pc.locked, semPost, Thr.left, Pc.left]
    all_goals omega
  case post =>
    cases h
    have hrest : ∀ k, c + 1 ≤ k → k < i + pc.stored → buff (k % NBUFF) = k :=
      fun k hk => hbuff k (Nat.le_of_succ_le hk)
    refine ⟨⟨hproduced, hconsumed, hmutex, ?_, ?_, hrest, hout⟩, ?_, rfl⟩
    all_goals simp only [Pc.item, semPost, Thr.left, Pc.left]
    all_goals omega

/-- The steps that are left of both loops. -/
def St.left (s : St) : ℕ := s.producer.left nitems + s.consumer.left nitems

lemma inv_step {s t : St} {a : Act} (hi : Inv nitems s) (h : step nitems s a = some t) :
    Inv nitems t ∧ t.left nitems < s.left nitems := by
  cases a with
  | produce =>
    obtain ⟨ht, hleft, hcons⟩ := inv_produce nitems hi h
    refine ⟨ht, ?_⟩
    rw [St.left, St.left, hcons]
    omega
  | consume =>
    obtain ⟨ht, hleft, hprod⟩ := inv_consume nitems hi h
    refine ⟨ht, ?_⟩
    rw [St.left, St.left, hprod]
    omega

/-! ### Progress -/

lemma semWait_eq_none {sem : ℕ} (h : semWait sem = none) : sem = 0 := by
  by_contra hne
  rw [semWait, if_pos (by omega)] at h
  cases h

lemma held_up {α : Type*} {i sem : ℕ} {f : ℕ → α}
    (h : (if i < nitems then (semWait sem).map f else none) = none) : nitems ≤ i ∨ sem = 0 := by
  by_cases hlt : i < nitems
  · rw [if_pos hlt, Option.map_eq_none_iff] at h
    exact Or.inr (semWait_eq_none h)
  · exact Or.inl (by omega)

lemma produce_eq_none {s : St} (h : produce nitems s = none) :
    (s.producer.pc = .wait ∧ (nitems ≤ s.producer.i ∨ s.nempty = 0)) ∨
      (s.producer.pc = .lock ∧ s.mutex = 0) := by
  unfold produce at h
  cases hpc : s.producer.pc <;> rw [hpc] at h
  case wait => exact Or.inl ⟨rfl, held_up nitems h⟩
  case lock =>
    rw [Option.map_eq_none_iff] at h
    exact Or.inr ⟨rfl, semWait_eq_none h⟩
  all_goals cases h

lemma consume_eq_none {s : St} (h : consume nitems s = none) :
    (s.consumer.pc = .wait ∧ (nitems ≤ s.consumer.i ∨ s.nstored = 0)) ∨
      (s.consumer.pc = .lock ∧ s.mutex = 0) := by
  unfold consume at h
  cases hpc : s.consumer.pc <;> rw [hpc] at h
  case wait => exact Or.inl ⟨rfl, held_up nitems h⟩
  case lock =>
    rw [Option.map_eq_none_iff] at h
    exact Or.inr ⟨rfl, semWait_eq_none h⟩
  all_goals cases h

lemma Inv.done_of_stuck {s : St} (hi : Inv nitems s) (h : ∀ a, step nitems s a = none) :
    s.producer = ⟨nitems, .wait⟩ ∧ s.consumer = ⟨nitems, .wait⟩ := by
  obtain ⟨mutex, nempty, nstored, buff, ⟨i, pc⟩, ⟨c, cpc⟩, out⟩ := s
  obtain ⟨hproduced, hconsumed, hmutex, hnempty, hnstored, -, -⟩ := hi
  have hsize : 0 < NBUFF := by decide
  rcases produce_eq_none nitems (h .produce) with ⟨hpc, hp⟩ | ⟨hpc, hp⟩ <;>
    rcases consume_eq_none nitems (h .consume) with ⟨hcpc, hc⟩ | ⟨hcpc, hc⟩ <;>
    dsimp only at * <;> subst hpc hcpc <;>
    simp only [Pc.item, Pc.locked] at hproduced hconsumed hmutex hnempty hnstored
  · have hi : i = nitems := by omega
    have hc : c = nitems := by omega
    exact ⟨by rw [hi], by rw [hc]⟩
  -- a thread that waits for the mutex waits for nobody
  all_goals omega

/-- What the threads may rely on, in a state. -/
structure Agree (s : St) : Prop where
  /-- The consumer finds the item of its round. -/
  found : s.consumer.pc = .body → s.buff (s.consumer.i % NBUFF) = s.consumer.i
  quiet : ∀ i v, .mismatch i v ∉ s.out
  /-- The producer does not write to the cell of an item that is not consumed. -/
  kept : s.producer.pc = .body →
    ∀ k, s.consumer.i ≤ k → k < s.producer.i → k % NBUFF ≠ s.producer.i % NBUFF
  permits : s.nempty + s.nstored + s.producer.pc.item + s.consumer.pc.item = NBUFF

lemma Inv.agree {s : St} (hi : Inv nitems s) : Agree s where
  found hpc := hi.found nitems (by rw [hpc]; decide)
  quiet := hi.out
  kept hpc k hk hki := by
    have hnempty := hi.nempty
    rw [hpc] at hnempty
    exact cell_ne hk hki (by simp only [Pc.item] at hnempty; omega)
  permits := by
    have hnempty := hi.nempty
    have hnstored := hi.nstored
    omega

/-- **The producer and the consumer agree**, for any number of items and in any interleaving. A
run has at most ten steps for an item, and where it cannot go on both threads have returned. -/
theorem sem_buffer_agrees {as : List Act} {s : St} (h : exec (step nitems) init as = some s) :
    Agree s ∧ as.length ≤ 10 * nitems ∧
      ((∀ a, step nitems s a = none) →
        s.producer = ⟨nitems, .wait⟩ ∧ s.consumer = ⟨nitems, .wait⟩) := by
  have hi : Inv nitems s :=
    Reach.invariant ⟨as, h⟩ (inv_init nitems) fun _ _ _ hu hstep => (inv_step nitems hu hstep).1
  have hlen := length_le_of_exec (fun _ _ _ hu hstep => inv_step nitems hu hstep)
    (inv_init nitems) h
  have hrank : init.left nitems = 10 * nitems := by
    simp only [St.left, Thr.left, init, Pc.left]
    omega
  exact ⟨hi.agree, by omega, hi.done_of_stuck⟩

/-- Both items are stored before the first is looked at. -/
def twoItems : List Act :=
  List.replicate 10 .produce ++ List.replicate 3 .consume

theorem sem_buffer_agrees_twoItems :
    ∃ s, exec (step 2) init twoItems = some s ∧
      (s.nempty = 98 ∧ s.nstored = 1 ∧ s.consumer = ⟨0, .unlock⟩ ∧
        s.out = [.product 0, .product 1, .consumer 0]) ∧ Agree s := by
  obtain ⟨s, hrun, hfacts⟩ : ∃ s, exec (step 2) init twoItems = some s ∧
      (s.nempty = 98 ∧ s.nstored = 1 ∧ s.consumer = ⟨0, .unlock⟩ ∧
        s.out = [.product 0, .product 1, .consumer 0]) := by
    apply exists_exec_of_any
    decide +kernel
  exact ⟨s, hrun, hfacts, (sem_buffer_agrees 2 hrun).1⟩

end LinuxSamples.SemBuffer
