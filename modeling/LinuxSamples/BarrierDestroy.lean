import LinuxSamples.Barrier
import LinuxSamples.Mutex

/-!
The destruction of the barrier of `barrier.c`.

The entry checks of `barrier_wait` and `barrier_destroy` read `valid` without the mutex, and the
busy test of `barrier_destroy` looks at `counter` alone. It finds the threads that wait for the
round under way. It does not find those that have passed an entry check and have still to lock the
mutex, nor those that a complete round has released and that have still to retake it: `counter` is
reset before they leave. So every operation on the mutex is a step of its own here.
-/

namespace LinuxSamples.BarrierDestroy

open LinuxSamples.Run LinuxSamples.Tally LinuxSamples.CondVar LinuxSamples.Mutex
open LinuxSamples.Barrier (Bar BARRIER_VALID EINVAL barrierInit barrierWaitWoken)

def EBUSY : ℤ := 16

inductive Pc
  | out
  /-- In `barrier_wait`, behind the entry check. -/
  | lock
  | locked
  | wait (cycle : ℤ) (woken : Bool)
  | retest (cycle : ℤ)
  | unlock (status : ℤ)
  /-- In `barrier_destroy`, behind the entry check. -/
  | desLock
  | desLocked
  | desBusy
  | desUnlock
  | desMutex
  | desCond (status : ℤ)
  deriving DecidableEq

inductive Fn
  | wait | destroy
  deriving DecidableEq

/-- The threads `ι` call both functions, the threads `κ` only `barrier_destroy`. -/
structure St (ι κ : Type) where
  bar : Bar
  owner : Option (ι ⊕ κ)
  mutexGone : Bool
  condGone : Bool
  thr : ι ⊕ κ → Pc
  /-- What the calls have returned. -/
  returns : List (Fn × ℤ)
  /-- A destroyed mutex or condition variable has been used; nothing can be said of what follows. -/
  fault : Bool

inductive Act (ι κ : Type)
  /-- The entry checks. -/
  | enter (i : ι)
  | destroy (t : ι ⊕ κ)
  /-- The mutex is taken, in `pthread_mutex_lock` or on the way out of `pthread_cond_wait`. -/
  | lock (t : ι ⊕ κ)
  /-- What is done under the mutex. -/
  | run (t : ι ⊕ κ)
  | unlock (t : ι ⊕ κ)
  | spurious (t : ι ⊕ κ)
  /-- With the status that `pthread_mutex_destroy` or `pthread_cond_destroy` returns. -/
  | mutexDestroy (t : ι ⊕ κ) (status : ℤ)
  | condDestroy (t : ι ⊕ κ) (status : ℤ)

def Pc.blocked : Pc → Bool
  | .wait _ false => true
  | _ => false

def Pc.wake : Pc → Pc
  | .wait cycle _ => .wait cycle true
  | p => p

/-- Where a thread is once it has taken the mutex. -/
def Pc.taken : Pc → Option Pc
  | .lock => some .locked
  | .wait cycle true => some (.retest cycle)
  | .desLock => some .desLocked
  | _ => none

section Step

variable {ι κ : Type} [DecidableEq ι] [DecidableEq κ]

def St.goto (s : St ι κ) (t : ι ⊕ κ) (p : Pc) : St ι κ :=
  { s with thr := Function.update s.thr t p }

def St.ret (s : St ι κ) (t : ι ⊕ κ) (f : Fn) (status : ℤ) : St ι κ :=
  { s.goto t .out with returns := s.returns ++ [(f, status)] }

/-- An operation on an object that may have been destroyed. -/
def St.use (s : St ι κ) (gone : Bool) (s' : St ι κ) : St ι κ :=
  if gone then { s with fault := true } else s'

/-- `pthread_cond_wait`, up to the wake-up. -/
def St.sleep (s : St ι κ) (t : ι ⊕ κ) (cycle : ℤ) : St ι κ :=
  s.use (s.mutexGone || s.condGone) { s.goto t (.wait cycle false) with owner := none }

/-- `barrier_wait` under the mutex, up to the first wait. -/
def barrierWait (s : St ι κ) (t : ι ⊕ κ) : St ι κ :=
  let cycle := s.bar.cycle
  let b : Bar := { s.bar with counter := s.bar.counter - 1 }
  if b.counter = 0 then
    s.use s.condGone { s with
      bar := { b with cycle := if b.cycle = 0 then 1 else 0, counter := b.threshold }
      thr := broadcast Pc.blocked Pc.wake (Function.update s.thr t (.unlock (-1))) }
  else ({ s with bar := b } : St ι κ).sleep t cycle

/-- The test of the loop in `barrier_wait`, when a wait is over. -/
def barrierRetest (s : St ι κ) (t : ι ⊕ κ) (cycle : ℤ) : St ι κ :=
  match barrierWaitWoken s.bar cycle with
  | .wait cycle => s.sleep t cycle
  | .ret status => s.goto t (.unlock status)

def barrierDestroy (s : St ι κ) (t : ι ⊕ κ) : St ι κ :=
  if s.bar.counter ≠ s.bar.threshold then s.goto t .desBusy
  else { s.goto t .desUnlock with bar := { s.bar with valid := 0 } }

/-- The entry check of either function. -/
def St.check (s : St ι κ) (t : ι ⊕ κ) (f : Fn) (p : Pc) : Option (St ι κ) :=
  if s.thr t = .out then
    some (if s.bar.valid ≠ BARRIER_VALID then s.ret t f EINVAL else s.goto t p)
  else none

def stepOf (s : St ι κ) : Act ι κ → Option (St ι κ)
  | .enter i => s.check (.inl i) .wait .lock
  | .destroy t => s.check t .destroy .desLock
  | .lock t =>
    match (s.thr t).taken with
    | none => none
    | some p =>
      if s.mutexGone then some { s with fault := true }
      else if s.owner = none then some { s.goto t p with owner := some t }
      else none
  | .run t =>
    match s.thr t with
    | .locked => some (barrierWait s t)
    | .retest cycle => some (barrierRetest s t cycle)
    | .desLocked => some (barrierDestroy s t)
    | _ => none
  | .unlock t =>
    match s.thr t with
    | .unlock status => some (s.use s.mutexGone { s.ret t .wait status with owner := none })
    | .desBusy => some (s.use s.mutexGone { s.ret t .destroy EBUSY with owner := none })
    | .desUnlock => some (s.use s.mutexGone { s.goto t .desMutex with owner := none })
    | _ => none
  | .spurious t => if (s.thr t).blocked then some (s.goto t (s.thr t).wake) else none
  | .mutexDestroy t status =>
    match s.thr t with
    | .desMutex =>
      some (s.use s.mutexGone { s.goto t (.desCond status) with mutexGone := status = 0 })
    | _ => none
  | .condDestroy t status2 =>
    match s.thr t with
    | .desCond status =>
      some (s.use s.condGone
        { s.ret t .destroy (if status = 0 then status else status2) with condGone := status2 = 0 })
    | _ => none

def step (s : St ι κ) (a : Act ι κ) : Option (St ι κ) := if s.fault then none else stepOf s a

/-- As many threads as the threshold call `barrier_wait`. -/
def init [Fintype ι] : St ι κ :=
  ⟨barrierInit (Fintype.card ι), none, false, false, fun _ => .out, [], false⟩

/-! ### What a step can do -/

/-- The next operation of the thread is one on the mutex. -/
def Pc.usesMutex : Pc → Bool
  | .out | .wait _ false | .desLocked | .desCond _ => false
  | _ => true

/-- The next operation of the thread is one on the condition variable. -/
def Pc.usesCond : Pc → Bool
  | .locked | .retest _ | .desCond _ => true
  | _ => false

lemma Pc.usesMutex_of_taken {p q : Pc} (h : p.taken = some q) : p.usesMutex = true := by
  unfold Pc.taken at h
  split at h <;> first | rfl | cases h

/-- The entry check of the function `f`, with the place `p` behind it. -/
inductive Checks : Act ι κ → ι ⊕ κ → Fn → Pc → Prop
  | wait (i : ι) : Checks (.enter i) (.inl i) .wait .lock
  | destroy (t : ι ⊕ κ) : Checks (.destroy t) t .destroy .desLock

inductive Step (s : St ι κ) : Act ι κ → St ι κ → Prop
  | refuse {a : Act ι κ} {t : ι ⊕ κ} {f : Fn} {p : Pc} (ha : Checks a t f p)
      (ht : s.thr t = .out) : Step s a (s.ret t f EINVAL)
  | accept {a : Act ι κ} {t : ι ⊕ κ} {f : Fn} {p : Pc} (ha : Checks a t f p)
      (ht : s.thr t = .out) (hvalid : s.bar.valid = BARRIER_VALID) : Step s a (s.goto t p)
  | fault {a : Act ι κ} (t : ι ⊕ κ) {b : Bar} (hb : b.valid = s.bar.valid)
      (hgone : s.mutexGone = true ∧ (s.thr t).usesMutex = true ∨
        s.condGone = true ∧ (s.thr t).usesCond = true) :
      Step s a { s with bar := b, fault := true }
  | take {t : ι ⊕ κ} {p : Pc} (ht : (s.thr t).taken = some p) (hfree : s.owner = none) :
      Step s (.lock t) { s.goto t p with owner := some t }
  | last {t : ι ⊕ κ} (ht : s.thr t = .locked) (hlast : s.bar.counter - 1 = 0) :
      Step s (.run t) { s with
        bar := { s.bar with
          cycle := if s.bar.cycle = 0 then 1 else 0, counter := s.bar.threshold }
        thr := broadcast Pc.blocked Pc.wake (Function.update s.thr t (.unlock (-1))) }
  | sleep {t : ι ⊕ κ} (ht : s.thr t = .locked) (hlast : s.bar.counter - 1 ≠ 0) :
      Step s (.run t) { s.goto t (.wait s.bar.cycle false) with
        bar := { s.bar with counter := s.bar.counter - 1 }
        owner := none }
  | again {t : ι ⊕ κ} (ht : s.thr t = .retest s.bar.cycle) :
      Step s (.run t) { s.goto t (.wait s.bar.cycle false) with owner := none }
  | released {t : ι ⊕ κ} {cycle : ℤ} (ht : s.thr t = .retest cycle) (hc : cycle ≠ s.bar.cycle) :
      Step s (.run t) (s.goto t (.unlock 0))
  | busy {t : ι ⊕ κ} (ht : s.thr t = .desLocked) : Step s (.run t) (s.goto t .desBusy)
  | invalidate {t : ι ⊕ κ} (ht : s.thr t = .desLocked) :
      Step s (.run t) { s.goto t .desUnlock with bar := { s.bar with valid := 0 } }
  | leave {t : ι ⊕ κ} {status : ℤ} (ht : s.thr t = .unlock status) :
      Step s (.unlock t) { s.ret t .wait status with owner := none }
  | leaveBusy {t : ι ⊕ κ} (ht : s.thr t = .desBusy) :
      Step s (.unlock t) { s.ret t .destroy EBUSY with owner := none }
  | unlock {t : ι ⊕ κ} (ht : s.thr t = .desUnlock) :
      Step s (.unlock t) { s.goto t .desMutex with owner := none }
  | spurious {t : ι ⊕ κ} (ht : (s.thr t).blocked = true) :
      Step s (.spurious t) (s.goto t (s.thr t).wake)
  | mutexDestroy {t : ι ⊕ κ} {status : ℤ} (ht : s.thr t = .desMutex) :
      Step s (.mutexDestroy t status)
        { s.goto t (.desCond status) with mutexGone := status = 0 }
  | condDestroy {t : ι ⊕ κ} {status status2 : ℤ} (ht : s.thr t = .desCond status) :
      Step s (.condDestroy t status2)
        { s.ret t .destroy (if status = 0 then status else status2) with condGone := status2 = 0 }

lemma Step.of_mutex {s s' : St ι κ} {a : Act ι κ} {t : ι ⊕ κ} (huses : (s.thr t).usesMutex = true)
    (h : Step s a s') : Step s a (s.use s.mutexGone s') := by
  unfold St.use
  split
  · exact .fault t rfl (Or.inl ⟨‹_›, huses⟩)
  · exact h

lemma Step.of_cond {s s' : St ι κ} {a : Act ι κ} {t : ι ⊕ κ} (huses : (s.thr t).usesCond = true)
    (h : Step s a s') : Step s a (s.use s.condGone s') := by
  unfold St.use
  split
  · exact .fault t rfl (Or.inr ⟨‹_›, huses⟩)
  · exact h

lemma Step.of_check {s s' : St ι κ} {a : Act ι κ} {t : ι ⊕ κ} {f : Fn} {p : Pc}
    (ha : Checks a t f p) (hs : s.check t f p = some s') : Step s a s' := by
  unfold St.check at hs
  split at hs
  · rename_i hout
    cases hs
    split
    · exact .refuse ha hout
    · rename_i hvalid
      exact .accept ha hout (not_not.mp hvalid)
  · cases hs

lemma Step.of_sleep {s : St ι κ} {a : Act ι κ} {t : ι ⊕ κ} {b : Bar} {cycle : ℤ}
    (hb : b.valid = s.bar.valid) (hmutex : (s.thr t).usesMutex = true)
    (hcond : (s.thr t).usesCond = true)
    (h : Step s a { s.goto t (.wait cycle false) with bar := b, owner := none }) :
    Step s a (({ s with bar := b } : St ι κ).sleep t cycle) := by
  unfold St.sleep St.use
  split
  · rename_i hgone
    rcases Bool.or_eq_true_iff.mp hgone with hgone | hgone
    · exact .fault t hb (Or.inl ⟨hgone, hmutex⟩)
    · exact .fault t hb (Or.inr ⟨hgone, hcond⟩)
  · exact h

lemma Step.of_lock {s s' : St ι κ} {t : ι ⊕ κ} (hs : stepOf s (.lock t) = some s') :
    Step s (.lock t) s' := by
  simp only [stepOf] at hs
  split at hs
  · cases hs
  · rename_i p htaken
    split at hs
    · cases hs
      exact .fault t rfl (Or.inl ⟨‹_›, Pc.usesMutex_of_taken htaken⟩)
    · split at hs
      · cases hs
        exact .take htaken ‹_›
      · cases hs

lemma Step.of_run {s s' : St ι κ} {t : ι ⊕ κ} (hs : stepOf s (.run t) = some s') :
    Step s (.run t) s' := by
  cases hpc : s.thr t <;> simp only [stepOf, hpc, Option.some.injEq, reduceCtorEq] at hs <;>
    subst hs
  case locked =>
    unfold barrierWait
    dsimp only
    split
    · exact .of_cond (t := t) (by rw [hpc]; rfl) (.last hpc ‹_›)
    · exact .of_sleep rfl (by rw [hpc]; rfl) (by rw [hpc]; rfl) (.sleep hpc ‹_›)
  case retest cycle =>
    unfold barrierRetest barrierWaitWoken
    by_cases hc : cycle = s.bar.cycle
    · subst hc
      rw [if_pos rfl]
      exact .of_sleep (b := s.bar) rfl (by rw [hpc]; rfl) (by rw [hpc]; rfl) (.again hpc)
    · rw [if_neg hc]
      exact .released hpc hc
  case desLocked =>
    unfold barrierDestroy
    split
    · exact .busy hpc
    · exact .invalidate hpc

lemma step_cases {s s' : St ι κ} {a : Act ι κ} (hs : step s a = some s') : Step s a s' := by
  unfold step at hs
  split at hs
  · cases hs
  cases a with
  | enter i => exact .of_check (.wait i) hs
  | destroy t => exact .of_check (.destroy t) hs
  | lock t => exact .of_lock hs
  | run t => exact .of_run hs
  | unlock t =>
    cases hpc : s.thr t <;> simp only [stepOf, hpc, Option.some.injEq, reduceCtorEq] at hs <;>
      subst hs
    case unlock status => exact .of_mutex (t := t) (by rw [hpc]; rfl) (.leave hpc)
    case desBusy => exact .of_mutex (t := t) (by rw [hpc]; rfl) (.leaveBusy hpc)
    case desUnlock => exact .of_mutex (t := t) (by rw [hpc]; rfl) (.unlock hpc)
  | spurious t =>
    simp only [stepOf] at hs
    split at hs <;> cases hs
    exact .spurious ‹_›
  | mutexDestroy t status =>
    cases hpc : s.thr t <;> simp only [stepOf, hpc, Option.some.injEq, reduceCtorEq] at hs
    subst hs
    exact .of_mutex (t := t) (by rw [hpc]; rfl) (.mutexDestroy hpc)
  | condDestroy t status =>
    cases hpc : s.thr t <;> simp only [stepOf, hpc, Option.some.injEq, reduceCtorEq] at hs
    subst hs
    exact .of_cond (t := t) (by rw [hpc]; rfl) (.condDestroy hpc)

end Step

/-! ### Threads inside -/

/-- The thread has passed the entry check of `barrier_wait`, and not yet given the mutex back. -/
def Pc.inWait : Pc → Bool
  | .lock | .locked | .wait _ _ | .retest _ | .unlock _ => true
  | _ => false

def Pc.holds : Pc → Bool
  | .locked | .retest _ | .unlock _ | .desLocked | .desBusy | .desUnlock => true
  | _ => false

def Pc.late : Pc → Bool
  | .desUnlock | .desMutex | .desCond _ => true
  | _ => false

def Pc.pending (cycle : ℤ) : Pc → Bool
  | .wait c _ | .retest c => c = cycle
  | _ => false

/-- The thread is on its way to the mutex and does not count: it has passed an entry check, or its
round is complete. -/
def Pc.straggles (cycle : ℤ) : Pc → Bool
  | .lock | .desLock => true
  | .wait c _ => c ≠ cycle
  | _ => false

/-- Nothing destroyed is used, and where `barrier_destroy` has returned zero, no thread is inside
`barrier_wait`. -/
structure Safe {ι κ : Type} (s : St ι κ) : Prop where
  fault : s.fault = false
  returned : (Fn.destroy, 0) ∈ s.returns → ∀ u, (s.thr u).inWait = false

structure Open {ι κ : Type} [Fintype ι] (s : St ι κ) : Prop where
  fault : s.fault = false
  mutex : s.mutexGone = false
  cond : s.condGone = false
  returned : (Fn.destroy, 0) ∉ s.returns
  early : ∀ u, (s.thr u).late = false
  guest : ∀ k, (s.thr (.inr k)).inWait = false
  exclusive : Exclusive Pc.holds s.owner s.thr
  threshold : s.bar.threshold = Fintype.card ι
  counter : s.bar.counter + count (Pc.pending s.bar.cycle) (s.thr ∘ .inl) = Fintype.card ι
  counter_pos : 0 < s.bar.counter

/-- Behind a successful busy test of the thread `t`, with nobody else inside. -/
structure Closed {ι κ : Type} (t : ι ⊕ κ) (s : St ι κ) : Prop where
  fault : s.fault = false
  valid : s.bar.valid ≠ BARRIER_VALID
  others : ∀ u, u ≠ t → s.thr u = .out
  own : s.thr t = .out ∨ (s.thr t = .desUnlock ∧ s.mutexGone = false ∧ s.condGone = false) ∨
    (s.thr t = .desMutex ∧ s.mutexGone = false ∧ s.condGone = false) ∨
    ((∃ status, s.thr t = .desCond status) ∧ s.condGone = false)

lemma Pc.inWait_of_pending {p : Pc} {cycle : ℤ} (h : p.pending cycle = true) : p.inWait = true := by
  cases p <;> first | rfl | cases h

lemma Pc.taken_spec {p q : Pc} (h : p.taken = some q) :
    q.late = false ∧ q.inWait = p.inWait ∧ ∀ cycle, q.pending cycle = p.pending cycle := by
  unfold Pc.taken at h
  split at h <;> cases h <;> exact ⟨rfl, rfl, fun _ => rfl⟩

lemma Pc.inWait_or_of_straggles {p : Pc} {cycle : ℤ} (h : p.straggles cycle = true) :
    p.inWait = true ∨ p = .desLock := by
  cases p <;> first | exact Or.inl rfl | exact Or.inr rfl | cases h

lemma Pc.cycle_unique {p : Pc} {c d : ℤ} (hc : p.pending c = true) (hd : p.pending d = true) :
    c = d := by
  cases p <;> simp only [Pc.pending, decide_eq_true_eq, Bool.false_eq_true] at hc hd
  all_goals exact hc.symm.trans hd

@[simp] lemma Pc.inWait_wake (p : Pc) : p.wake.inWait = p.inWait := by cases p <;> rfl

@[simp] lemma Pc.holds_wake (p : Pc) : p.wake.holds = p.holds := by cases p <;> rfl

@[simp] lemma Pc.late_wake (p : Pc) : p.wake.late = p.late := by cases p <;> rfl

@[simp] lemma Pc.pending_wake (cycle : ℤ) (p : Pc) : p.wake.pending cycle = p.pending cycle := by
  cases p <;> rfl

section

variable {ι κ : Type}

lemma Closed.safe {t : ι ⊕ κ} {s : St ι κ} (h : Closed t s) : Safe s where
  fault := h.fault
  returned := by
    intro _ u
    by_cases hu : u = t
    · subst hu
      rcases h.own with ho | ⟨ho, -⟩ | ⟨ho, -⟩ | ⟨⟨st, ho⟩, -⟩ <;> rw [ho] <;> rfl
    · rw [h.others u hu]
      rfl

variable [Fintype ι]

lemma Open.safe {s : St ι κ} (h : Open s) : Safe s :=
  ⟨h.fault, fun hret => absurd hret h.returned⟩

lemma open_init [DecidableEq ι] [Nonempty ι] : Open (init : St ι κ) where
  fault := rfl
  mutex := rfl
  cond := rfl
  returned := List.not_mem_nil
  early _ := rfl
  guest _ := rfl
  exclusive _ hu := absurd hu (by simp [init, Pc.holds])
  threshold := rfl
  counter := by
    have hnone : count (Pc.pending 0) ((init : St ι κ).thr ∘ .inl) = 0 :=
      (count_eq_zero_iff _ _).mpr fun i => by simp [init, Pc.pending]
    have hcycle : (init : St ι κ).bar.cycle = 0 := rfl
    rw [hcycle, hnone]
    simp [init, barrierInit]
  counter_pos := by simp [init, barrierInit, Fintype.card_pos]

lemma Open.ret {s : St ι κ} (h : Open s) {f : Fn} {status : ℤ} (hne : (f, status) ≠ (.destroy, 0)) :
    Open { s with returns := s.returns ++ [(f, status)] } where
  fault := h.fault
  mutex := h.mutex
  cond := h.cond
  returned hm := by
    rcases List.mem_append.mp hm with hm | hm
    · exact h.returned hm
    · exact hne (List.mem_singleton.mp hm).symm
  early := h.early
  guest := h.guest
  exclusive := h.exclusive
  threshold := h.threshold
  counter := h.counter
  counter_pos := h.counter_pos

variable [DecidableEq ι] [DecidableEq κ]

lemma count_update_thr (cycle : ℤ) (f : ι ⊕ κ → Pc) {t : ι ⊕ κ} {p : Pc}
    (hguest : ∀ k, t = .inr k → (f t).inWait = false ∧ p.inWait = false) :
    (count (Pc.pending cycle) (Function.update f t p ∘ .inl) : ℤ) =
      count (Pc.pending cycle) (f ∘ .inl) +
        (ind (Pc.pending cycle) p - ind (Pc.pending cycle) (f t)) := by
  cases t with
  | inl i => rw [Sum.update_inl_comp_inl, count_update, Function.comp_apply]
  | inr k =>
    obtain ⟨hf, hp⟩ := hguest k rfl
    have hzero : ∀ q : Pc, q.inWait = false → ind (Pc.pending cycle) q = 0 := fun q hq =>
      ind_eq_zero_iff.mpr (Bool.eq_false_iff.mpr fun h =>
        Bool.false_ne_true (hq.symm.trans (Pc.inWait_of_pending h)))
    rw [Sum.update_inr_comp_inl, hzero _ hf, hzero _ hp, sub_zero, add_zero]

omit [DecidableEq ι] [DecidableEq κ] in
lemma Open.guest_of_move {s : St ι κ} (h : Open s) {t : ι ⊕ κ} {p : Pc}
    (hin : p.inWait = true → (s.thr t).inWait = true ∨ t.isLeft = true) {k : κ}
    (hk : t = .inr k) : p.inWait = false := by
  refine Bool.eq_false_iff.mpr fun hp => ?_
  subst hk
  rcases hin hp with hin | hleft
  · exact Bool.false_ne_true ((h.guest k).symm.trans hin)
  · exact Bool.false_ne_true hleft

lemma Open.move {s : St ι κ} (h : Open s) {t : ι ⊕ κ} {p : Pc} {o : Option (ι ⊕ κ)} {c : ℤ}
    (hlate : p.late = false)
    (hin : p.inWait = true → (s.thr t).inWait = true ∨ t.isLeft = true)
    (hm : Moves Pc.holds t (s.thr t) p s.owner o)
    (hc : c + ind (Pc.pending s.bar.cycle) p =
      s.bar.counter + ind (Pc.pending s.bar.cycle) (s.thr t)) (hpos : 0 < c) :
    Open { s with
      bar := { s.bar with counter := c }
      owner := o
      thr := Function.update s.thr t p } where
  fault := h.fault
  mutex := h.mutex
  cond := h.cond
  returned := h.returned
  early u := by
    dsimp only
    rw [Function.update_apply]
    split
    · exact hlate
    · exact h.early u
  guest k := by
    dsimp only
    rw [Function.update_apply]
    split
    · exact h.guest_of_move hin (Eq.symm ‹_›)
    · exact h.guest k
  exclusive := h.exclusive.step hm
  threshold := h.threshold
  counter := by
    have hupdate := count_update_thr s.bar.cycle s.thr (t := t) (p := p) fun k hk =>
      ⟨hk ▸ h.guest k, h.guest_of_move hin hk⟩
    have hcount := h.counter
    dsimp only
    omega
  counter_pos := hpos

lemma Open.goto {s : St ι κ} (h : Open s) {t : ι ⊕ κ} {p : Pc} {o : Option (ι ⊕ κ)}
    (hlate : p.late = false)
    (hin : p.inWait = true → (s.thr t).inWait = true ∨ t.isLeft = true)
    (hm : Moves Pc.holds t (s.thr t) p s.owner o)
    (hp : p.pending s.bar.cycle = (s.thr t).pending s.bar.cycle) :
    Open { s with owner := o, thr := Function.update s.thr t p } :=
  h.move (c := s.bar.counter) hlate hin hm (by rw [ind, ind, hp]) h.counter_pos

omit [DecidableEq κ] in
lemma Open.all_pending {s : St ι κ} (h : Open s) {i : ι}
    (hi : (s.thr (.inl i)).pending s.bar.cycle = false) (hlast : s.bar.counter = 1) {j : ι}
    (hj : j ≠ i) : (s.thr (.inl j)).pending s.bar.cycle = true := by
  have hcount := h.counter
  have hupdate := count_update (Pc.pending s.bar.cycle) (s.thr ∘ .inl) i (.retest s.bar.cycle)
  have hnew : ind (Pc.pending s.bar.cycle) (.retest s.bar.cycle) = 1 := by simp [ind, Pc.pending]
  have hold : ind (Pc.pending s.bar.cycle) ((s.thr ∘ .inl) i) = 0 := ind_eq_zero_iff.mpr hi
  have hall : count (Pc.pending s.bar.cycle)
      (Function.update (s.thr ∘ .inl) i (.retest s.bar.cycle)) = Fintype.card ι := by
    omega
  have hpend := (count_eq_card_iff _ _).mp hall j
  rwa [Function.update_of_ne hj] at hpend

lemma Open.release {s : St ι κ} (h : Open s) {t : ι ⊕ κ} (ht : s.thr t = .locked)
    (hlast : s.bar.counter = 1) {cycle : ℤ} (hcycle : cycle ≠ s.bar.cycle) :
    Open { s with
      bar := { s.bar with cycle := cycle, counter := s.bar.threshold }
      thr := broadcast Pc.blocked Pc.wake (Function.update s.thr t (.unlock (-1))) } where
  fault := h.fault
  mutex := h.mutex
  cond := h.cond
  returned := h.returned
  early u := by
    dsimp only
    rw [map_broadcast Pc.late fun p _ => p.late_wake, Function.update_apply]
    split
    · rfl
    · exact h.early u
  guest k := by
    dsimp only
    rw [map_broadcast Pc.inWait fun p _ => p.inWait_wake, Function.update_apply]
    split
    · rename_i hk
      have hguest := h.guest k
      rw [hk, ht] at hguest
      cases hguest
    · exact h.guest k
  exclusive u hu := by
    dsimp only at hu
    rw [map_broadcast Pc.holds fun p _ => p.holds_wake] at hu
    exact h.exclusive.step (.stay (by rw [ht]; rfl)) u hu
  threshold := h.threshold
  counter := by
    have hnone : count (Pc.pending cycle)
        (broadcast Pc.blocked Pc.wake (Function.update s.thr t (.unlock (-1))) ∘ .inl) = 0 := by
      refine (count_eq_zero_iff _ _).mpr fun j => ?_
      rw [Function.comp_apply, map_broadcast (Pc.pending cycle) fun p _ => p.pending_wake cycle,
        Function.update_apply]
      split
      · simp [Pc.pending]
      · rename_i hj
        cases t with
        | inr k =>
          have hguest := h.guest k
          rw [ht] at hguest
          cases hguest
        | inl i =>
          have hpend := h.all_pending (by rw [ht]; rfl) hlast fun hji => hj (congrArg Sum.inl hji)
          exact fun hnew => hcycle (Pc.cycle_unique hnew hpend)
    dsimp only
    rw [hnone, h.threshold]
    simp
  counter_pos := by
    have hcount := h.counter
    have hthreshold := h.threshold
    dsimp only
    omega

lemma Open.goto_out {s : St ι κ} (h : Open s) {t : ι ⊕ κ} {p : Pc} {o : Option (ι ⊕ κ)}
    (hp : p.inWait = false) (hlate : p.late = false)
    (hm : Moves Pc.holds t (s.thr t) p s.owner o)
    (hpend : (s.thr t).pending s.bar.cycle = false) :
    Open { s with owner := o, thr := Function.update s.thr t p } := by
  refine h.goto hlate (fun hin => absurd hin (ne_true_of_eq_false hp)) hm ?_
  rw [hpend]
  exact Bool.eq_false_iff.mpr fun hpp => ne_true_of_eq_false hp (Pc.inWait_of_pending hpp)

/-- **While the barrier is valid, nothing is destroyed**, and `counter` tells how many threads wait
for the round under way. -/
lemma open_step {s s' : St ι κ} {a : Act ι κ} (h : Open s) (hs : step s a = some s')
    (hvalid : s'.bar.valid = BARRIER_VALID) : Open s' := by
  cases step_cases hs with
  | @refuse _ t f _ _ ht =>
    refine (h.goto_out (p := .out) rfl rfl (.stay (by rw [ht])) (by rw [ht]; rfl)).ret ?_
    exact fun heq => absurd (Prod.mk.inj heq).2 (by decide)
  | accept ha ht =>
    cases ha with
    | wait i => exact h.goto rfl (fun _ => Or.inr rfl) (.stay (by rw [ht]; rfl)) (by rw [ht]; rfl)
    | destroy t => exact h.goto_out rfl rfl (.stay (by rw [ht]; rfl)) (by rw [ht]; rfl)
  | fault t _ hgone =>
    rcases hgone with ⟨hgone, -⟩ | ⟨hgone, -⟩
    · exact absurd (h.mutex.symm.trans hgone) Bool.false_ne_true
    · exact absurd (h.cond.symm.trans hgone) Bool.false_ne_true
  | take ht hfree =>
    obtain ⟨hlate, hin, hpend⟩ := Pc.taken_spec ht
    exact h.goto hlate (fun hp => Or.inl (hin ▸ hp)) (hfree ▸ .enter) (hpend _)
  | last ht hlast =>
    refine h.release ht (by omega) ?_
    split <;> omega
  | @sleep t ht hlast =>
    have hpos := h.counter_pos
    have hold : ind (Pc.pending s.bar.cycle) (s.thr t) = 0 := by rw [ht]; rfl
    have hnew : ind (Pc.pending s.bar.cycle) (.wait s.bar.cycle false) = 1 := by
      simp [ind, Pc.pending]
    refine h.move rfl (fun _ => Or.inl (by rw [ht]; rfl)) (.leave (by rw [ht]; rfl) rfl) ?_
      (by omega)
    rw [hold, hnew]
    omega
  | again ht =>
    refine h.goto rfl (fun _ => Or.inl (by rw [ht]; rfl)) (.leave (by rw [ht]; rfl) rfl) ?_
    rw [ht]
    rfl
  | released ht hc =>
    refine h.goto rfl (fun _ => Or.inl (by rw [ht]; rfl)) (.stay (by rw [ht]; rfl)) ?_
    simp [ht, hc, Pc.pending]
  | busy ht => exact h.goto_out rfl rfl (.stay (by rw [ht]; rfl)) (by rw [ht]; rfl)
  | invalidate ht => cases hvalid
  | leave ht =>
    refine (h.goto_out (p := .out) rfl rfl (.leave (by rw [ht]; rfl) rfl) (by rw [ht]; rfl)).ret ?_
    exact fun heq => by cases heq
  | leaveBusy ht =>
    refine (h.goto_out (p := .out) rfl rfl (.leave (by rw [ht]; rfl) rfl) (by rw [ht]; rfl)).ret ?_
    exact fun heq => by cases heq
  | spurious ht =>
    exact h.goto ((Pc.late_wake _).trans (h.early _)) (fun hp => Or.inl (Pc.inWait_wake _ ▸ hp))
      (.stay (Pc.holds_wake _)) (Pc.pending_wake _ _)
  | @unlock t ht | @mutexDestroy t _ ht | @condDestroy t _ _ ht =>
    have hearly := h.early t
    rw [ht] at hearly
    cases hearly

omit [Fintype ι] in
lemma valid_step {s s' : St ι κ} {a : Act ι κ} (hs : step s a = some s') :
    s'.bar.valid = s.bar.valid ∨ s'.bar.valid = 0 := by
  cases step_cases hs with
  | invalidate => exact Or.inr rfl
  | fault _ hb => exact Or.inl hb
  | _ => exact Or.inl rfl

lemma open_of_valid [Nonempty ι] {s : St ι κ} {as : List (Act ι κ)}
    (h : exec step init as = some s) (hvalid : s.bar.valid = BARRIER_VALID) : Open s := by
  have hreach : Reach step init s := ⟨as, h⟩
  refine hreach.invariant (I := fun s => s.bar.valid = BARRIER_VALID → Open s)
    (fun _ => open_init) ?_ hvalid
  intro u a v hu hs hv
  refine open_step (hu ?_) hs hv
  rcases valid_step hs with heq | hzero
  · rw [← heq, hv]
  · rw [hzero] at hv
    cases hv

/-! ### A busy test that succeeds -/

omit [Fintype ι] [DecidableEq ι] [DecidableEq κ] in
lemma Closed.pc {s : St ι κ} {t : ι ⊕ κ} (h : Closed t s) (u : ι ⊕ κ) :
    s.thr u = .out ∨ u = t ∧ (s.thr u = .desUnlock ∧ s.mutexGone = false ∧ s.condGone = false ∨
      s.thr u = .desMutex ∧ s.mutexGone = false ∧ s.condGone = false ∨
      (∃ status, s.thr u = .desCond status) ∧ s.condGone = false) := by
  by_cases hu : u = t
  · subst hu
    exact h.own.imp id fun hown => ⟨rfl, hown⟩
  · exact Or.inl (h.others u hu)

omit [Fintype ι] [DecidableEq ι] [DecidableEq κ] in
lemma Closed.intact {s : St ι κ} {t : ι ⊕ κ} (h : Closed t s) (u : ι ⊕ κ) :
    ((s.thr u).usesMutex = true → s.mutexGone = false) ∧
      ((s.thr u).usesCond = true → s.condGone = false) := by
  rcases h.pc u with hu | ⟨-, ⟨hu, hmutex, hcond⟩ | ⟨hu, hmutex, hcond⟩ | ⟨⟨status, hu⟩, hcond⟩⟩ <;>
    rw [hu]
  · exact ⟨fun h => absurd h Bool.false_ne_true, fun h => absurd h Bool.false_ne_true⟩
  · exact ⟨fun _ => hmutex, fun _ => hcond⟩
  · exact ⟨fun _ => hmutex, fun _ => hcond⟩
  · exact ⟨fun h => absurd h Bool.false_ne_true, fun _ => hcond⟩

omit [Fintype ι] in
lemma Closed.ret {s : St ι κ} {t u : ι ⊕ κ} (h : Closed t s) (hu : s.thr u = .out) (f : Fn)
    (status : ℤ) : Closed t (s.ret u f status) := by
  have hthr : (s.ret u f status).thr = s.thr := Function.update_eq_self_iff.mpr hu.symm
  refine ⟨h.fault, h.valid, ?_, ?_⟩
  · rw [hthr]
    exact h.others
  · rw [hthr]
    exact h.own

omit [Fintype ι] in
/-- **Nobody gets in any more**, and the thread that destroys the barrier has it for itself. -/
lemma closed_step {s s' : St ι κ} {t : ι ⊕ κ} {a : Act ι κ} (h : Closed t s)
    (hs : step s a = some s') : Closed t s' := by
  have hothers : ∀ p u, u ≠ t → Function.update s.thr t p u = .out := fun p u hu => by
    rw [Function.update_of_ne hu, h.others u hu]
  cases step_cases hs with
  | refuse _ hu => exact h.ret hu _ EINVAL
  | accept _ _ hvalid => exact absurd hvalid h.valid
  | fault u _ hgone =>
    obtain ⟨hmutex, hcond⟩ := h.intact u
    rcases hgone with ⟨hgone, huses⟩ | ⟨hgone, huses⟩
    · exact absurd ((hmutex huses).symm.trans hgone) Bool.false_ne_true
    · exact absurd ((hcond huses).symm.trans hgone) Bool.false_ne_true
  | @unlock u hu =>
    rcases h.pc u with hpc | ⟨rfl, ⟨-, hmutex, hcond⟩ | ⟨hpc, -⟩ | ⟨⟨status, hpc⟩, -⟩⟩
    case inr.inl =>
      exact ⟨h.fault, h.valid, hothers _,
        Or.inr (Or.inr (Or.inl ⟨Function.update_self .., hmutex, hcond⟩))⟩
    all_goals cases hpc.symm.trans hu
  | @mutexDestroy u status hu =>
    rcases h.pc u with hpc | ⟨rfl, ⟨hpc, -⟩ | ⟨-, hmutex, hcond⟩ | ⟨⟨status, hpc⟩, -⟩⟩
    case inr.inr.inl =>
      exact ⟨h.fault, h.valid, hothers _,
        Or.inr (Or.inr (Or.inr ⟨⟨status, Function.update_self ..⟩, hcond⟩))⟩
    all_goals cases hpc.symm.trans hu
  | @condDestroy u status status2 hu =>
    rcases h.pc u with hpc | ⟨rfl, ⟨hpc, -⟩ | ⟨hpc, -⟩ | ⟨-, hcond⟩⟩
    case inr.inr.inr =>
      exact ⟨h.fault, h.valid, hothers _, Or.inl (Function.update_self ..)⟩
    all_goals cases hpc.symm.trans hu
  | @take u _ hu _ | @spurious u hu =>
    rcases h.pc u with hpc | ⟨-, ⟨hpc, -⟩ | ⟨hpc, -⟩ | ⟨⟨status, hpc⟩, -⟩⟩ <;>
      rw [hpc] at hu <;> cases hu
  | @last u hu _ | @sleep u hu _ | @again u hu | @released u _ hu _ | @busy u hu | @invalidate u hu
  | @leave u _ hu | @leaveBusy u hu =>
    rcases h.pc u with hpc | ⟨-, ⟨hpc, -⟩ | ⟨hpc, -⟩ | ⟨⟨status, hpc⟩, -⟩⟩ <;>
      cases hpc.symm.trans hu

/-- Where the busy test succeeds and nobody straggles, nobody else is inside: a thread that waits
for the round under way would show in `counter`. -/
lemma Open.closed {s : St ι κ} (h : Open s) {t : ι ⊕ κ} (ht : s.thr t = .desLocked)
    (hfree : s.bar.counter = s.bar.threshold)
    (hclear : ∀ u, (s.thr u).straggles s.bar.cycle = false) : Closed t (barrierDestroy s t) := by
  have hnone : count (Pc.pending s.bar.cycle) (s.thr ∘ .inl) = 0 := by
    have hcount := h.counter
    rw [hfree, h.threshold] at hcount
    omega
  have hout : ∀ u, u ≠ t → s.thr u = .out := by
    intro u hu
    have hholds := h.exclusive.outside (t := t) (by rw [ht]; rfl) hu
    have hlate := h.early u
    have hstraggles := hclear u
    have hpend : (s.thr u).pending s.bar.cycle = false := by
      refine Bool.eq_false_iff.mpr fun hp => ?_
      cases u with
      | inl i => exact (count_eq_zero_iff _ _).mp hnone i hp
      | inr k => exact Bool.false_ne_true ((h.guest k).symm.trans (Pc.inWait_of_pending hp))
    cases hpc : s.thr u with
    | out => rfl
    | wait c woken =>
      rw [hpc] at hpend hstraggles
      simp only [Pc.pending, Pc.straggles, decide_eq_false_iff_not, not_not] at hpend hstraggles
      exact absurd hstraggles hpend
    | lock | desLock =>
      rw [hpc] at hstraggles
      cases hstraggles
    | desMutex | desCond =>
      rw [hpc] at hlate
      cases hlate
    | locked | retest | unlock | desLocked | desBusy | desUnlock =>
      rw [hpc] at hholds
      cases hholds
  rw [barrierDestroy, if_neg (not_not.mpr hfree)]
  have hvalid : (0 : ℤ) ≠ BARRIER_VALID := by decide
  refine ⟨h.fault, hvalid, fun u hu => ?_, Or.inr (Or.inl ⟨?_, h.mutex, h.cond⟩)⟩
  · exact (Function.update_of_ne hu ..).trans (hout u hu)
  · exact Function.update_self ..

/-- What the destroying thread does if it is not interrupted. -/
def destroyRun (t : ι ⊕ κ) : List (Act ι κ) :=
  [.run t, .unlock t, .mutexDestroy t 0, .condDestroy t 0]

lemma Open.exec_destroyRun {s : St ι κ} (h : Open s) {t : ι ⊕ κ} (ht : s.thr t = .desLocked)
    (hfree : s.bar.counter = s.bar.threshold) :
    exec step s (destroyRun t) = some { s with
      bar := { s.bar with valid := 0 }
      owner := none
      mutexGone := true
      condGone := true
      thr := Function.update s.thr t .out
      returns := s.returns ++ [(.destroy, 0)] } := by
  simp [destroyRun, exec_cons, exec_nil, step, stepOf, ht, barrierDestroy, hfree, St.use, St.goto,
    St.ret, h.fault, h.mutex, h.cond]

lemma Open.exists_not_safe {s : St ι κ} (h : Open s) {t u : ι ⊕ κ} (ht : s.thr t = .desLocked)
    (hfree : s.bar.counter = s.bar.threshold) (hu : (s.thr u).straggles s.bar.cycle = true) :
    ∃ bs v, exec step s (.run t :: bs) = some v ∧ ¬ Safe v := by
  have hne : u ≠ t := by
    rintro rfl
    rw [ht] at hu
    cases hu
  have hrun := h.exec_destroyRun ht hfree
  rcases Pc.inWait_or_of_straggles hu with hin | hpc
  · -- the thread is in `barrier_wait` when `barrier_destroy` returns
    refine ⟨_, _, hrun, fun hsafe => ?_⟩
    have hreturned := hsafe.returned (by simp) u
    dsimp only at hreturned
    rw [Function.update_of_ne hne, hin] at hreturned
    cases hreturned
  · -- the thread is in `barrier_destroy`, and locks the mutex that is gone
    have hlock : ∃ v, exec step s (destroyRun t ++ [.lock u]) = some v ∧ v.fault = true := by
      rw [exec_append, hrun]
      simp [exec_cons, exec_nil, step, stepOf, h.fault, Function.update_of_ne hne, hpc, Pc.taken]
    obtain ⟨v, hv, hfault⟩ := hlock
    exact ⟨_, v, hv, fun hsafe => Bool.false_ne_true (hsafe.fault.symm.trans hfault)⟩

lemma Open.safe_of_clear {s v : St ι κ} (h : Open s) {t : ι ⊕ κ} (ht : s.thr t = .desLocked)
    (hfree : s.bar.counter = s.bar.threshold)
    (hclear : ∀ u, (s.thr u).straggles s.bar.cycle = false) {bs : List (Act ι κ)}
    (hv : exec step s (.run t :: bs) = some v) : Safe v := by
  have hrun : step s (.run t) = some (barrierDestroy s t) := by
    simp only [step, h.fault, stepOf, ht, Bool.false_eq_true, if_false]
  rw [exec_cons, hrun, Option.bind_some] at hv
  have hreach : Reach step (barrierDestroy s t) v := ⟨bs, hv⟩
  exact (hreach.invariant (h.closed ht hfree hclear) fun _ _ _ hc hs => closed_step hc hs).safe

/-- **When `barrier_destroy` is safe.** As long as the barrier is valid, nothing has gone wrong. A
busy test that succeeds is safe in every continuation just if no thread is on its way to the mutex
with a passed entry check or out of a complete round. -/
theorem barrier_destroy_safe_iff [Nonempty ι] {s : St ι κ} {as : List (Act ι κ)}
    (h : exec step init as = some s) (hvalid : s.bar.valid = BARRIER_VALID) :
    Safe s ∧ ∀ t, s.thr t = .desLocked → s.bar.counter = s.bar.threshold →
      ((∀ bs v, exec step s (.run t :: bs) = some v → Safe v) ↔
        ∀ u, (s.thr u).straggles s.bar.cycle = false) := by
  have hopen := open_of_valid h hvalid
  refine ⟨hopen.safe, fun t ht hfree => ⟨fun hsafe u => ?_, fun hclear bs v hv => ?_⟩⟩
  · refine Bool.eq_false_iff.mpr fun hu => ?_
    obtain ⟨bs, v, hv, hunsafe⟩ := hopen.exists_not_safe ht hfree hu
    exact hunsafe (hsafe bs v hv)
  · exact hopen.safe_of_clear ht hfree hclear hv

end

/-- Two threads go through a round, and the last one has left. -/
def oneLeft : List (Act Bool Unit) :=
  [.enter false, .lock (.inl false), .run (.inl false), .enter true, .lock (.inl true),
    .run (.inl true), .unlock (.inl true)]

/-- The other one leaves too, and a third thread comes to its busy test. -/
def otherLeaves : List (Act Bool Unit) :=
  [.lock (.inl false), .run (.inl false), .unlock (.inl false), .destroy (.inr ()),
    .lock (.inr ())]

theorem barrier_destroy_safe_iff_both_left :
    ∃ s : St Bool Unit, exec step init (oneLeft ++ otherLeaves) = some s ∧
      ∀ bs v, exec step s (.run (.inr ()) :: bs) = some v → Safe v := by
  have hrun : exec step init (oneLeft ++ otherLeaves) = some _ := rfl
  exact ⟨_, hrun, ((barrier_destroy_safe_iff hrun rfl).2 (.inr ()) rfl rfl).mpr (by decide)⟩

/-- The thread `t` comes to its busy test and destroys the barrier. -/
def destroys (t : Bool ⊕ Unit) : List (Act Bool Unit) := .destroy t :: .lock t :: destroyRun t

/-- The last thread of a round destroys the barrier before the other one has left, and a third one
destroys it behind the entry check of `barrier_wait`. -/
theorem barrier_destroy_unsafe :
    (∃ s : St Bool Unit, exec step init (oneLeft ++ destroys (.inl true)) = some s ∧
      s.returns = [(.wait, -1), (.destroy, 0)] ∧ (s.thr (.inl false)).inWait = true ∧
      ∃ v, step s (.lock (.inl false)) = some v ∧ v.fault = true) ∧
    ∃ s : St Bool Unit, exec step init (.enter false :: destroys (.inr ())) = some s ∧
      s.returns = [(.destroy, 0)] ∧ (s.thr (.inl false)).inWait = true ∧
      ∃ v, step s (.lock (.inl false)) = some v ∧ v.fault = true :=
  ⟨⟨_, rfl, by decide, rfl, _, rfl, rfl⟩, ⟨_, rfl, by decide, rfl, _, rfl, rfl⟩⟩

end LinuxSamples.BarrierDestroy
