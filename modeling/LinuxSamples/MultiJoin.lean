import LinuxSamples.Mutex
import LinuxSamples.Run
import LinuxSamples.Tally

/-!
`thread_multijoin.c`: one thread per argument, and a main thread that joins them as they end.

A thread records its end under the mutex and signals after it has released it, so a signal can
come when its thread has already been joined, and one wake-up can stand for several threads. The
main thread joins whatever it finds terminated in one go over the array, and the loop ends by a
counter that only the main thread writes.
-/

namespace LinuxSamples.MultiJoin

open Mutex Run Tally

inductive TState
  | alive
  | terminated
  | joined
deriving DecidableEq

/-- Where a thread is: not created, in `sleep`, before `pthread_mutex_lock`, before the record of
its end, before `pthread_mutex_unlock`, before `pthread_cond_signal`, and returned. -/
inductive Pc
  | absent
  | working
  | lock
  | record
  | unlock
  | signal
  | returned
deriving DecidableEq

variable {n : ℕ}

inductive MainPc (n : ℕ)
  /-- The loop that creates the threads. -/
  | create (idx : ℕ)
  /-- The test of `numLive`. -/
  | test
  | lock
  /-- The test of `numUnjoined`. -/
  | waitTest
  | blocked
  | woken
  /-- The loop over the array. -/
  | scan (idx : ℕ)
  /-- In `pthread_join`. -/
  | join (idx : Fin n)
  | unlock
  | exited
deriving DecidableEq

inductive Who (n : ℕ)
  | main
  | thread (i : Fin n)
deriving DecidableEq

/-- The calls of `pthread_join` are kept beside the variables of the program. -/
structure St (n : ℕ) where
  numLive : ℤ
  numUnjoined : ℤ
  state : Fin n → TState
  owner : Option (Who n)
  pc : Fin n → Pc
  main : MainPc n
  joins : List (Fin n)

def start (n : ℕ) : St n where
  numLive := 0
  numUnjoined := 0
  state := fun _ => .alive
  owner := none
  pc := fun _ => .absent
  main := .create 0
  joins := []

inductive Act (n : ℕ)
  | main
  | thread (i : Fin n)
  | spurious
deriving DecidableEq

namespace St

def goto (s : St n) (p : MainPc n) : St n := { s with main := p }

def setPc (s : St n) (i : Fin n) (p : Pc) : St n := { s with pc := Function.update s.pc i p }

def take (s : St n) (w : Who n) : St n := { s with owner := some w }

def free (s : St n) : St n := { s with owner := none }

/-- The main thread leaves the wait, if it is blocked in it. -/
def wake (s : St n) : St n := if s.main = .blocked then s.goto .woken else s

end St

def mainStep (s : St n) : Option (St n) :=
  match s.main with
  | .create idx =>
    if h : idx < n then
      some { (s.goto (.create (idx + 1))).setPc ⟨idx, h⟩ .working with
        state := Function.update s.state ⟨idx, h⟩ .alive }
    else some { s.goto .test with numLive := n }
  | .test => some (s.goto (if 0 < s.numLive then .lock else .exited))
  | .lock => if s.owner = none then some ((s.take .main).goto .waitTest) else none
  | .waitTest =>
    some (if s.numUnjoined = 0 then s.free.goto .blocked else s.goto (.scan 0))
  | .blocked => none
  | .woken => if s.owner = none then some ((s.take .main).goto .waitTest) else none
  | .scan idx =>
    if h : idx < n then
      if s.state ⟨idx, h⟩ = .terminated then
        some { s.goto (.join ⟨idx, h⟩) with joins := s.joins ++ [⟨idx, h⟩] }
      else some (s.goto (.scan (idx + 1)))
    else some (s.goto .unlock)
  | .join i =>
    if s.pc i = .returned then
      some { s.goto (.scan (i + 1)) with
        state := Function.update s.state i .joined
        numLive := s.numLive - 1
        numUnjoined := s.numUnjoined - 1 }
    else none
  | .unlock => some (s.free.goto .test)
  | .exited => none

def threadStep (s : St n) (i : Fin n) : Option (St n) :=
  match s.pc i with
  | .absent => none
  | .working => some (s.setPc i .lock)
  | .lock => if s.owner = none then some ((s.take (.thread i)).setPc i .record) else none
  | .record =>
    some { s.setPc i .unlock with
      numUnjoined := s.numUnjoined + 1
      state := Function.update s.state i .terminated }
  | .unlock => some (s.free.setPc i .signal)
  | .signal => some (s.wake.setPc i .returned)
  | .returned => none

def step (s : St n) : Act n → Option (St n)
  | .main => mainStep s
  | .thread i => if s.main = .exited then none else threadStep s i
  | .spurious => if s.main = .blocked then some (s.goto .woken) else none

/-! ### What a step does -/

inductive MainStep (s : St n) : St n → Prop
  | create (i : Fin n) (hm : s.main = .create i) :
      MainStep s { (s.goto (.create (i + 1))).setPc i .working with
        state := Function.update s.state i .alive }
  | created (idx : ℕ) (hm : s.main = .create idx) (hidx : n ≤ idx) :
      MainStep s { s.goto .test with numLive := n }
  | loop (hm : s.main = .test) (hlive : 0 < s.numLive) : MainStep s (s.goto .lock)
  | exit (hm : s.main = .test) (hlive : s.numLive ≤ 0) : MainStep s (s.goto .exited)
  | lock (hm : s.main = .lock ∨ s.main = .woken) (ho : s.owner = none) :
      MainStep s ((s.take .main).goto .waitTest)
  | block (hm : s.main = .waitTest) (hz : s.numUnjoined = 0) :
      MainStep s (s.free.goto .blocked)
  | found (hm : s.main = .waitTest) (hz : s.numUnjoined ≠ 0) : MainStep s (s.goto (.scan 0))
  | pick (i : Fin n) (hm : s.main = .scan i) (hs : s.state i = .terminated) :
      MainStep s { s.goto (.join i) with joins := s.joins ++ [i] }
  | pass (i : Fin n) (hm : s.main = .scan i) (hs : s.state i ≠ .terminated) :
      MainStep s (s.goto (.scan (i + 1)))
  | scanned (idx : ℕ) (hm : s.main = .scan idx) (hidx : n ≤ idx) : MainStep s (s.goto .unlock)
  | reap (i : Fin n) (hm : s.main = .join i) (hp : s.pc i = .returned) :
      MainStep s { s.goto (.scan (i + 1)) with
        state := Function.update s.state i .joined
        numLive := s.numLive - 1
        numUnjoined := s.numUnjoined - 1 }
  | unlock (hm : s.main = .unlock) : MainStep s (s.free.goto .test)

inductive ThreadStep (s : St n) (i : Fin n) : St n → Prop
  | wakeUp (hp : s.pc i = .working) : ThreadStep s i (s.setPc i .lock)
  | lock (hp : s.pc i = .lock) (ho : s.owner = none) :
      ThreadStep s i ((s.take (.thread i)).setPc i .record)
  | record (hp : s.pc i = .record) :
      ThreadStep s i { s.setPc i .unlock with
        numUnjoined := s.numUnjoined + 1
        state := Function.update s.state i .terminated }
  | unlock (hp : s.pc i = .unlock) : ThreadStep s i (s.free.setPc i .signal)
  | signal (hp : s.pc i = .signal) : ThreadStep s i (s.wake.setPc i .returned)

variable {s s' : St n}

lemma mainStep_cases (h : mainStep s = some s') : MainStep s s' := by
  unfold mainStep at h
  cases hm : s.main with
  | create idx =>
    simp only [hm] at h
    split at h
    · rename_i hlt
      exact Option.some.inj h ▸ .create ⟨idx, hlt⟩ hm
    · exact Option.some.inj h ▸ .created idx hm (by omega)
  | test =>
    simp only [hm, Option.some.injEq] at h
    subst h
    split
    · exact .loop hm ‹_›
    · exact .exit hm (by omega)
  | lock =>
    simp only [hm] at h
    split at h
    · exact Option.some.inj h ▸ .lock (Or.inl hm) ‹_›
    · cases h
  | waitTest =>
    simp only [hm, Option.some.injEq] at h
    subst h
    split
    · exact .block hm ‹_›
    · exact .found hm ‹_›
  | blocked => simp [hm] at h
  | woken =>
    simp only [hm] at h
    split at h
    · exact Option.some.inj h ▸ .lock (Or.inr hm) ‹_›
    · cases h
  | scan idx =>
    simp only [hm] at h
    split at h
    · rename_i hlt
      split at h
      · exact Option.some.inj h ▸ .pick ⟨idx, hlt⟩ hm ‹_›
      · exact Option.some.inj h ▸ .pass ⟨idx, hlt⟩ hm ‹_›
    · exact Option.some.inj h ▸ .scanned idx hm (by omega)
  | join i =>
    simp only [hm] at h
    split at h
    · exact Option.some.inj h ▸ .reap i hm ‹_›
    · cases h
  | unlock =>
    simp only [hm, Option.some.injEq] at h
    exact h ▸ .unlock hm
  | exited => simp [hm] at h

lemma threadStep_cases {i : Fin n} (h : threadStep s i = some s') : ThreadStep s i s' := by
  unfold threadStep at h
  cases hp : s.pc i with
  | absent => simp [hp] at h
  | working =>
    simp only [hp, Option.some.injEq] at h
    exact h ▸ .wakeUp hp
  | lock =>
    simp only [hp] at h
    split at h
    · exact Option.some.inj h ▸ .lock hp ‹_›
    · cases h
  | record =>
    simp only [hp, Option.some.injEq] at h
    exact h ▸ .record hp
  | unlock =>
    simp only [hp, Option.some.injEq] at h
    exact h ▸ .unlock hp
  | signal =>
    simp only [hp, Option.some.injEq] at h
    exact h ▸ .signal hp
  | returned => simp [hp] at h

lemma step_cases {a : Act n} (h : step s a = some s') :
    MainStep s s' ∨ (∃ i, ThreadStep s i s') ∨ (s.main = .blocked ∧ s' = s.goto .woken) := by
  cases a with
  | main => exact Or.inl (mainStep_cases h)
  | thread i =>
    rw [step] at h
    split at h
    · cases h
    · exact Or.inr (Or.inl ⟨i, threadStep_cases h⟩)
  | spurious =>
    rw [step] at h
    split at h
    · exact Or.inr (Or.inr ⟨‹_›, (Option.some.inj h).symm⟩)
    · cases h

/-! ### The invariant -/

/-- Whether the main thread is at a point where it owns the mutex. -/
def MainPc.inside : MainPc n → Bool
  | .waitTest => true
  | .scan _ => true
  | .join _ => true
  | .unlock => true
  | _ => false

def Pc.inside : Pc → Bool
  | .record => true
  | .unlock => true
  | _ => false

def St.inside (s : St n) : Who n → Bool
  | .main => s.main.inside
  | .thread i => (s.pc i).inside

/-- How many threads have been created. -/
def MainPc.created : MainPc n → ℕ
  | .create idx => idx
  | _ => n

/-- Whether `numLive` has been set. -/
def MainPc.isSet : MainPc n → Bool
  | .create _ => false
  | _ => true

/-- The thread that `pthread_join` has been called for. -/
def MainPc.joining : MainPc n → Option (Fin n)
  | .join i => some i
  | _ => none

/-- The state in the array that a thread can have at a point. -/
def fits : Pc → TState → Bool
  | .returned, .joined => true
  | .unlock, .terminated => true
  | .signal, .terminated => true
  | .returned, .terminated => true
  | .absent, .alive => true
  | .working, .alive => true
  | .lock, .alive => true
  | .record, .alive => true
  | _, _ => false

def TState.isTerminated (x : TState) : Bool := x = .terminated

def TState.isUnjoined (x : TState) : Bool := x ≠ .joined

/-- What holds at a point of the main thread. When it blocks there is nothing to join, and whoever
ends afterwards has still to signal. -/
def St.Phase (s : St n) : MainPc n → Prop
  | .create _ => ∀ i, s.state i ≠ .joined
  | .test => True
  | .lock => 0 < s.numLive
  | .waitTest => 0 < s.numLive
  | .woken => 0 < s.numLive
  | .blocked => 0 < s.numLive ∧
      ∀ i, s.state i = .terminated → s.pc i = .unlock ∨ s.pc i = .signal
  | .scan idx => ∀ i : Fin n, i < idx → s.state i ≠ .terminated
  | .join i => s.state i = .terminated ∧ ∀ j < i, s.state j ≠ .terminated
  | .unlock => ∀ i, s.state i ≠ .terminated
  | .exited => s.numLive ≤ 0

structure Inv (s : St n) : Prop where
  created : ∀ i, s.pc i = .absent ↔ s.main.created ≤ i
  held : Held s.owner s.inside
  fits : ∀ i, fits (s.pc i) (s.state i) = true
  phase : s.Phase s.main
  unjoined : s.numUnjoined = count TState.isTerminated s.state
  live : s.main.isSet = true → s.numLive = count TState.isUnjoined s.state
  joins : ∀ i, i ∈ s.joins ↔ s.state i = .joined ∨ s.main.joining = some i
  nodup : s.joins.Nodup

lemma start_inv (n : ℕ) : Inv (start n) where
  created i := by simp [start, MainPc.created]
  held w := by cases w <;> simp [start, St.inside, MainPc.inside, Pc.inside]
  fits _ := rfl
  phase _ := by simp [start]
  unjoined := by
    have hzero : count TState.isTerminated (start n).state = 0 :=
      (count_eq_zero_iff ..).mpr fun _ => by simp [start, TState.isTerminated]
    rw [hzero]
    rfl
  live h := by cases h
  joins i := by simp [start, MainPc.joining]
  nodup := List.nodup_nil

section Inside

variable {i : Fin n} {p : Pc}

lemma map_update {β : Type*} (f : Pc → β) {pc : Fin n → Pc} (h : f p = f (pc i)) (j : Fin n) :
    f (Function.update pc i p j) = f (pc j) := by
  by_cases hji : j = i
  · rw [hji, Function.update_self, h]
  · rw [Function.update_of_ne hji]

lemma held_stay (h : Held s.owner s.inside) (ho : s'.owner = s.owner)
    (hm : s'.main.inside = s.main.inside) (hp : ∀ i, (s'.pc i).inside = (s.pc i).inside) :
    Held s'.owner s'.inside := by
  have hin : s'.inside = s.inside := by
    funext w
    cases w with
    | main => exact hm
    | thread i => exact hp i
  rwa [ho, hin]

lemma inside_main (hp : s'.pc = s.pc) :
    s'.inside = Function.update s.inside .main s'.main.inside := by
  funext w
  cases w with
  | main => rw [Function.update_self]; rfl
  | thread i => rw [Function.update_of_ne (by simp)]; exact congrArg (fun f => (f i).inside) hp

lemma held_main_enter (h : Held s.owner s.inside) (hnone : s.owner = none)
    (ho : s'.owner = some .main) (hm : s'.main.inside = true) (hp : s'.pc = s.pc) :
    Held s'.owner s'.inside := by
  rw [hnone] at h
  rw [ho, inside_main hp, hm]
  exact h.enter .main

lemma held_main_leave (h : Held s.owner s.inside) (hin : s.main.inside = true)
    (ho : s'.owner = none) (hm : s'.main.inside = false) (hp : s'.pc = s.pc) :
    Held s'.owner s'.inside := by
  rw [ho, inside_main hp, hm]
  exact h.leave hin

lemma inside_thread (hm : s'.main = s.main) (hp : s'.pc = Function.update s.pc i p) :
    s'.inside = Function.update s.inside (.thread i) p.inside := by
  funext w
  by_cases hw : w = .thread i
  · subst hw
    simp [St.inside, hp]
  · rw [Function.update_of_ne hw]
    cases w with
    | main => exact congrArg MainPc.inside hm
    | thread j =>
      have hji : j ≠ i := fun h => hw (congrArg Who.thread h)
      simp [St.inside, hp, hji]

lemma held_thread_enter (h : Held s.owner s.inside) (hnone : s.owner = none)
    (ho : s'.owner = some (.thread i)) (hm : s'.main = s.main)
    (hp : s'.pc = Function.update s.pc i p) (hin : p.inside = true) : Held s'.owner s'.inside := by
  rw [hnone] at h
  rw [ho, inside_thread hm hp, hin]
  exact h.enter (.thread i)

lemma held_thread_leave (h : Held s.owner s.inside) (hin : (s.pc i).inside = true)
    (ho : s'.owner = none) (hm : s'.main = s.main) (hp : s'.pc = Function.update s.pc i p)
    (hout : p.inside = false) : Held s'.owner s'.inside := by
  rw [ho, inside_thread hm hp, hout]
  exact h.leave hin

end Inside

lemma Inv.create {i : Fin n} (h : Inv s) (hm : s.main = .create i) :
    Inv { (s.goto (.create (i + 1))).setPc i .working with
      state := Function.update s.state i .alive } := by
  obtain ⟨numLive, numUnjoined, state, owner, pc, main, joins⟩ := s
  obtain rfl : main = .create i := hm
  have habsent : pc i = .absent := (h.created i).mpr le_rfl
  have halive : state i = .alive := by
    have hfits := h.fits i
    simp only [habsent] at hfits
    cases hst : state i with
    | alive => rfl
    | terminated => rw [hst] at hfits; cases hfits
    | joined => rw [hst] at hfits; cases hfits
  have hstate : Function.update state i .alive = state := by rw [← halive, Function.update_eq_self]
  simp only [hstate]
  refine { h with created := fun j => ?_, held := ?_, fits := fun j => ?_ }
  · simp only [St.setPc, St.goto, MainPc.created]
    by_cases hji : j = i
    · subst hji
      simp
    · have hne : (j : ℕ) ≠ i := fun heq => hji (Fin.ext heq)
      rw [Function.update_of_ne hji]
      refine (h.created j).trans ?_
      simp only [MainPc.created]
      omega
  · have hout : Pc.inside .working = (pc i).inside := by rw [habsent]; rfl
    exact held_stay h.held rfl rfl (map_update Pc.inside hout)
  · by_cases hji : j = i
    · subst hji
      simp [St.setPc, halive, MultiJoin.fits]
    · simpa [St.setPc, St.goto, hji] using h.fits j

lemma Inv.created_test {idx : ℕ} (h : Inv s) (hm : s.main = .create idx) (hidx : n ≤ idx) :
    Inv { s.goto .test with numLive := n } := by
  obtain ⟨numLive, numUnjoined, state, owner, pc, main, joins⟩ := s
  obtain rfl : main = .create idx := hm
  have hall : count TState.isUnjoined state = n := by
    have hcard := (count_eq_card_iff TState.isUnjoined state).mpr fun i =>
      decide_eq_true (h.phase i)
    rwa [Fintype.card_fin] at hcard
  refine { h with created := fun i => ?_, held := ?_, phase := trivial, live := fun _ => ?_ }
  · refine (h.created i).trans ?_
    simp only [St.goto, MainPc.created]
    omega
  · exact held_stay h.held rfl rfl fun _ => rfl
  · exact congrArg Int.ofNat hall.symm

lemma phase_goto (s : St n) (p q : MainPc n) : (s.goto q).Phase p ↔ s.Phase p := by
  cases p <;> rfl

lemma Inv.goto {p q : MainPc n} (h : Inv s) (hm : s.main = q) (hc : p.created = q.created)
    (hin : p.inside = q.inside) (hset : p.isSet = q.isSet) (hj : p.joining = q.joining)
    (hp : s.Phase p) : Inv (s.goto p) where
  created i := (h.created i).trans (by rw [hm, ← hc]; rfl)
  held := held_stay h.held rfl (by rw [hm, ← hin]; rfl) fun _ => rfl
  fits := h.fits
  phase := (phase_goto s p p).mpr hp
  unjoined := h.unjoined
  live hs := h.live (by rw [hm, ← hset]; exact hs)
  joins i := (h.joins i).trans (by rw [hm, ← hj]; rfl)
  nodup := h.nodup

lemma Inv.lock (h : Inv s) (hm : s.main = .lock ∨ s.main = .woken) (ho : s.owner = none) :
    Inv ((s.take .main).goto .waitTest) := by
  have hheld : Held ((s.take .main).goto .waitTest).owner ((s.take .main).goto .waitTest).inside :=
    held_main_enter h.held ho rfl rfl rfl
  obtain ⟨numLive, numUnjoined, state, owner, pc, main, joins⟩ := s
  rcases hm with hm | hm
  · obtain rfl : main = .lock := hm
    exact { h with held := hheld }
  · obtain rfl : main = .woken := hm
    exact { h with held := hheld }

lemma Inv.block (h : Inv s) (hm : s.main = .waitTest) (hz : s.numUnjoined = 0) :
    Inv (s.free.goto .blocked) := by
  have hnone : ∀ i, s.state i ≠ .terminated := by
    intro i hi
    have hcount : count TState.isTerminated s.state = 0 := by
      have := h.unjoined
      omega
    exact (count_eq_zero_iff ..).mp hcount i (decide_eq_true hi)
  obtain ⟨numLive, numUnjoined, state, owner, pc, main, joins⟩ := s
  obtain rfl : main = .waitTest := hm
  exact { h with
    held := held_main_leave h.held rfl rfl rfl rfl
    phase := ⟨h.phase, fun i hi => absurd hi (hnone i)⟩ }

lemma Inv.unlock (h : Inv s) (hm : s.main = .unlock) : Inv (s.free.goto .test) := by
  obtain ⟨numLive, numUnjoined, state, owner, pc, main, joins⟩ := s
  obtain rfl : main = .unlock := hm
  exact { h with held := held_main_leave h.held rfl rfl rfl rfl, phase := trivial }

lemma Inv.pick {i : Fin n} (h : Inv s) (hm : s.main = .scan i) (hs : s.state i = .terminated) :
    Inv { s.goto (.join i) with joins := s.joins ++ [i] } := by
  obtain ⟨numLive, numUnjoined, state, owner, pc, main, joins⟩ := s
  obtain rfl : main = .scan i := hm
  have hnew : i ∉ joins := by
    intro hi
    rcases (h.joins i).mp hi with hj | hj
    · exact TState.noConfusion (hj.symm.trans hs)
    · cases hj
  refine { h with held := ?_, phase := ⟨hs, h.phase⟩, joins := fun j => ?_, nodup := ?_ }
  · exact held_stay h.held rfl rfl fun _ => rfl
  · rw [List.mem_append, List.mem_singleton, h.joins j]
    simp only [St.goto, MainPc.joining, reduceCtorEq, or_false, Option.some.injEq]
    rw [eq_comm (a := i)]
  · exact List.nodup_append.mpr ⟨h.nodup, List.nodup_singleton i, fun a ha b hb hab =>
      hnew (List.mem_singleton.mp hb ▸ hab ▸ ha)⟩

lemma Inv.reap {i : Fin n} (h : Inv s) (hm : s.main = .join i) (hp : s.pc i = .returned) :
    Inv { s.goto (.scan (i + 1)) with
      state := Function.update s.state i .joined
      numLive := s.numLive - 1
      numUnjoined := s.numUnjoined - 1 } := by
  obtain ⟨numLive, numUnjoined, state, owner, pc, main, joins⟩ := s
  obtain rfl : main = .join i := hm
  obtain ⟨hs, hbefore⟩ : state i = .terminated ∧ ∀ j < i, state j ≠ .terminated := h.phase
  refine { h with
    held := ?_, fits := fun j => ?_, phase := fun j hj => ?_, unjoined := ?_, live := fun _ => ?_
    joins := fun j => ?_ }
  · exact held_stay h.held rfl rfl fun _ => rfl
  · by_cases hji : j = i
    · subst hji
      simp [St.goto, show pc j = .returned from hp, MultiJoin.fits]
    · simpa [St.goto, hji] using h.fits j
  · by_cases hji : j = i
    · subst hji
      simp
    · simp only [ne_eq, hji, not_false_eq_true, Function.update_of_ne]
      refine hbefore j (Fin.lt_def.mpr ?_)
      have hne : (j : ℕ) ≠ i := fun heq => hji (Fin.ext heq)
      omega
  · have hcount := count_update TState.isTerminated state i .joined
    have := h.unjoined
    simp only [hs, ind, TState.isTerminated] at hcount this ⊢
    simp at hcount
    omega
  · have hcount := count_update TState.isUnjoined state i .joined
    have := h.live rfl
    simp only [hs, ind, TState.isUnjoined] at hcount this ⊢
    simp at hcount
    omega
  · refine (h.joins j).trans ?_
    by_cases hji : j = i
    · subst hji
      simp [St.goto, MainPc.joining]
    · simp [St.goto, MainPc.joining, hji, Ne.symm hji]

/-! ### The steps of the threads -/

section Threads

variable {i : Fin n} {p : Pc}

lemma Inv.alive (h : Inv s) (hp : s.pc i = .working ∨ s.pc i = .lock ∨ s.pc i = .record) :
    s.state i = .alive := by
  have hfits := h.fits i
  rcases hp with hp | hp | hp <;> rw [hp] at hfits <;>
    cases hst : s.state i <;> rw [hst] at hfits <;> first | rfl | cases hfits

lemma Inv.terminated (h : Inv s) (hp : s.pc i = .unlock ∨ s.pc i = .signal) :
    s.state i = .terminated := by
  have hfits := h.fits i
  rcases hp with hp | hp <;> rw [hp] at hfits <;>
    cases hst : s.state i <;> rw [hst] at hfits <;> first | rfl | cases hfits

lemma Inv.created_update (h : Inv s) (hi : s.pc i ≠ .absent) (hp : p ≠ .absent) (j : Fin n) :
    Function.update s.pc i p j = .absent ↔ s.main.created ≤ j := by
  by_cases hji : j = i
  · subst hji
    rw [Function.update_self, ← h.created]
    exact iff_of_false hp hi
  · rw [Function.update_of_ne hji, h.created]

lemma Inv.fits_update (h : Inv s) (hp : MultiJoin.fits p (s.state i) = true) (j : Fin n) :
    MultiJoin.fits (Function.update s.pc i p j) (s.state j) = true := by
  by_cases hji : j = i
  · subst hji
    rwa [Function.update_self]
  · rw [Function.update_of_ne hji]
    exact h.fits j

lemma St.Phase.setPc {m : MainPc n} (h : s.Phase m)
    (hi : m = .blocked → s.state i = .terminated → p = .unlock ∨ p = .signal) :
    (s.setPc i p).Phase m := by
  cases m with
  | blocked =>
    refine ⟨h.1, fun j hj => ?_⟩
    by_cases hji : j = i
    · subst hji
      simp only [St.setPc, Function.update_self]
      exact hi rfl hj
    · simp only [St.setPc, ne_eq, hji, not_false_eq_true, Function.update_of_ne]
      exact h.2 j hj
  | _ => exact h

lemma Inv.wakeUp (h : Inv s) (hp : s.pc i = .working) : Inv (s.setPc i .lock) := by
  have halive := h.alive (Or.inl hp)
  have hin : Pc.inside .lock = (s.pc i).inside := by rw [hp]; rfl
  exact { h with
    created := h.created_update (by rw [hp]; decide) (by decide)
    held := held_stay h.held rfl rfl (map_update Pc.inside hin)
    fits := h.fits_update (by rw [halive]; rfl)
    phase := h.phase.setPc fun _ hterm => TState.noConfusion (halive.symm.trans hterm) }

lemma Inv.threadLock (h : Inv s) (hp : s.pc i = .lock) (ho : s.owner = none) :
    Inv ((s.take (.thread i)).setPc i .record) := by
  have halive := h.alive (Or.inr (Or.inl hp))
  have hphase : (s.take (.thread i)).Phase s.main := by
    have := h.phase
    revert this
    cases s.main <;> exact id
  exact { h with
    created := h.created_update (by rw [hp]; decide) (by decide)
    held := held_thread_enter h.held ho rfl rfl rfl rfl
    fits := h.fits_update (by rw [halive]; rfl)
    phase := hphase.setPc fun _ hterm => TState.noConfusion (halive.symm.trans hterm) }

lemma Inv.main_outside (h : Inv s) (hp : s.pc i = .record) : s.main.inside = false := by
  have howner := (h.held (.thread i)).mp (show (s.pc i).inside = true by rw [hp]; rfl)
  by_contra hin
  have := (h.held .main).mp (Bool.not_eq_false _ ▸ hin)
  rw [howner] at this
  cases this

lemma St.Phase.record {m : MainPc n} (h : s.Phase m) (hm : m.inside = false) :
    St.Phase { s.setPc i .unlock with
      numUnjoined := s.numUnjoined + 1
      state := Function.update s.state i .terminated } m := by
  cases m with
  | create idx =>
    intro j
    by_cases hji : j = i
    · subst hji
      simp
    · simpa [St.setPc, hji] using h j
  | blocked =>
    refine ⟨h.1, fun j hj => ?_⟩
    by_cases hji : j = i
    · subst hji
      simp [St.setPc]
    · simp only [St.setPc, ne_eq, hji, not_false_eq_true, Function.update_of_ne] at hj ⊢
      exact h.2 j hj
  | test => trivial
  | lock => exact h
  | woken => exact h
  | exited => exact h
  | waitTest => cases hm
  | scan idx => cases hm
  | join idx => cases hm
  | unlock => cases hm

/-- **A thread records its end.** It owns the mutex, so the main thread is not in the array. -/
lemma Inv.record (h : Inv s) (hp : s.pc i = .record) :
    Inv { s.setPc i .unlock with
      numUnjoined := s.numUnjoined + 1
      state := Function.update s.state i .terminated } := by
  have halive := h.alive (Or.inr (Or.inr hp))
  have hout := h.main_outside hp
  have hin : Pc.inside .unlock = (s.pc i).inside := by rw [hp]; rfl
  refine { h with
    created := h.created_update (by rw [hp]; decide) (by decide)
    held := held_stay h.held rfl rfl (map_update Pc.inside hin)
    fits := fun j => ?_
    phase := ?_
    unjoined := ?_
    live := fun hset => ?_
    joins := fun j => (h.joins j).trans ?_ }
  · by_cases hji : j = i
    · subst hji
      simp [St.setPc, MultiJoin.fits]
    · simpa [St.setPc, hji] using h.fits j
  · exact h.phase.record hout
  · have hcount := count_update TState.isTerminated s.state i .terminated
    have := h.unjoined
    simp only [halive, ind, TState.isTerminated] at hcount this ⊢
    simp at hcount
    omega
  · have hcount := count_update TState.isUnjoined s.state i .terminated
    have := h.live hset
    simp only [halive, ind, TState.isUnjoined] at hcount this ⊢
    simp at hcount
    simp only [St.setPc]
    omega
  · by_cases hji : j = i
    · subst hji
      simp [St.setPc, halive]
    · simp [St.setPc, hji]

lemma Inv.threadUnlock (h : Inv s) (hp : s.pc i = .unlock) : Inv (s.free.setPc i .signal) := by
  have hterm := h.terminated (Or.inl hp)
  have hphase : s.free.Phase s.main := by
    have := h.phase
    revert this
    cases s.main <;> exact id
  exact { h with
    created := h.created_update (by rw [hp]; decide) (by decide)
    held := held_thread_leave h.held (by rw [hp]; rfl) rfl rfl rfl rfl
    fits := h.fits_update (by rw [hterm]; rfl)
    phase := hphase.setPc fun _ _ => Or.inr rfl }

lemma Inv.woken (h : Inv s) (hm : s.main = .blocked) : Inv (s.goto .woken) := by
  have hphase := h.phase
  rw [hm] at hphase
  exact h.goto hm rfl rfl rfl rfl hphase.1

lemma Inv.signal (h : Inv s) (hp : s.pc i = .signal) : Inv (s.wake.setPc i .returned) := by
  have hwake : Inv s.wake ∧ s.wake.pc = s.pc ∧ s.wake.main ≠ .blocked := by
    unfold St.wake
    split
    · exact ⟨h.woken ‹_›, rfl, by simp [St.goto]⟩
    · exact ⟨h, rfl, ‹_›⟩
  obtain ⟨hinv, hpc, hne⟩ := hwake
  have hp' : s.wake.pc i = .signal := by rw [hpc, hp]
  have hterm := hinv.terminated (Or.inr hp')
  have hin : Pc.inside .returned = (s.wake.pc i).inside := by rw [hp']; rfl
  exact { hinv with
    created := hinv.created_update (by rw [hp']; decide) (by decide)
    held := held_stay hinv.held rfl rfl (map_update Pc.inside hin)
    fits := hinv.fits_update (by rw [hterm]; rfl)
    phase := hinv.phase.setPc fun hm _ => absurd hm hne }

end Threads

lemma Inv.threadStep {i : Fin n} (h : Inv s) (hs : ThreadStep s i s') : Inv s' := by
  cases hs with
  | wakeUp hp => exact h.wakeUp hp
  | lock hp ho => exact h.threadLock hp ho
  | record hp => exact h.record hp
  | unlock hp => exact h.threadUnlock hp
  | signal hp => exact h.signal hp

lemma Inv.mainStep (h : Inv s) (hs : MainStep s s') : Inv s' := by
  have hphase := h.phase
  cases hs with
  | create i hm => exact h.create hm
  | created idx hm hidx => exact h.created_test hm hidx
  | loop hm hlive =>
    exact h.goto hm rfl rfl rfl rfl hlive
  | exit hm hlive =>
    exact h.goto hm rfl rfl rfl rfl hlive
  | lock hm ho => exact h.lock hm ho
  | block hm hz => exact h.block hm hz
  | found hm hz =>
    refine h.goto hm rfl rfl rfl rfl ?_
    exact fun i hi => absurd hi (Nat.not_lt_zero _)
  | pick i hm hs => exact h.pick hm hs
  | pass i hm hs =>
    refine h.goto hm rfl rfl rfl rfl ?_
    intro j hj
    rw [hm] at hphase
    rcases Nat.lt_succ_iff_lt_or_eq.mp hj with hlt | heq
    · exact hphase j hlt
    · rwa [Fin.ext heq]
  | scanned idx hm hidx =>
    refine h.goto hm rfl rfl rfl rfl ?_
    rw [hm] at hphase
    exact fun i => hphase i (i.isLt.trans_le hidx)
  | reap i hm hp => exact h.reap hm hp
  | unlock hm => exact h.unlock hm

lemma Inv.next {a : Act n} (h : Inv s) (hv : step s a = some s') : Inv s' := by
  rcases step_cases hv with hs | ⟨i, hs⟩ | ⟨hm, rfl⟩
  · exact h.mainStep hs
  · exact h.threadStep hs
  · exact h.woken hm

lemma inv_of_reach (h : Reach step (start n) s) : Inv s :=
  h.invariant (start_inv n) fun _ _ _ hu => hu.next

/-! ### Safety -/

/-- What the counters, the calls of `pthread_join` and the wake-ups are like. -/
structure Safe (s : St n) : Prop where
  unjoined : s.owner = none → s.numUnjoined = count TState.isTerminated s.state
  live : s.owner = none → s.main.isSet = true → s.numLive = count TState.isUnjoined s.state
  once : s.joins.Nodup
  recorded : ∀ i ∈ s.joins, s.state i ≠ .alive
  called : ∀ i, s.state i = .joined → i ∈ s.joins
  wakeUp : s.main = .blocked → 0 < s.numUnjoined → ∃ i, s.pc i = .unlock ∨ s.pc i = .signal
  exited : s.main = .exited → ∀ i, s.state i = .joined ∧ s.joins.count i = 1

lemma Inv.safe (h : Inv s) : Safe s where
  unjoined _ := h.unjoined
  live _ := h.live
  once := h.nodup
  recorded i hi halive := by
    rcases (h.joins i).mp hi with hj | hj
    · exact TState.noConfusion (halive.symm.trans hj)
    · have hphase := h.phase
      cases hm : s.main with
      | join k =>
        rw [hm] at hj hphase
        obtain rfl := Option.some.inj hj
        exact TState.noConfusion (halive.symm.trans hphase.1)
      | _ => rw [hm] at hj; cases hj
  called i hi := (h.joins i).mpr (Or.inl hi)
  wakeUp hm hpos := by
    have hphase := h.phase
    rw [hm] at hphase
    have hne : count TState.isTerminated s.state ≠ 0 := by
      have := h.unjoined
      omega
    rw [ne_eq, count_eq_zero_iff] at hne
    push Not at hne
    obtain ⟨i, hi⟩ := hne
    exact ⟨i, hphase.2 i (of_decide_eq_true hi)⟩
  exited hm i := by
    have hphase := h.phase
    have hlive := h.live (by rw [hm]; rfl)
    rw [hm] at hphase
    have hzero : count TState.isUnjoined s.state = 0 := by
      have : s.numLive ≤ 0 := hphase
      omega
    have hjoined : s.state i = .joined := by
      have := (count_eq_zero_iff ..).mp hzero i
      simpa [TState.isUnjoined] using this
    exact ⟨hjoined, List.count_eq_one_of_mem h.nodup ((h.joins i).mpr (Or.inl hjoined))⟩

end LinuxSamples.MultiJoin
