import LinuxSamples.GlobalFifoQueue

/-!
When `globalfifo` loses a wake-up.

A task that goes to sleep has seen, under the mutex, that it must wait. A read wakes the
writers and a write wakes the readers, and neither makes the own side wait in vain.
`FIFO_CLEAR` empties the device and wakes nobody: a writer that sleeps on the full device
stays asleep on an empty one. Up to the first clear that is made while a writer is about to
sleep or sleeps, no wake-up is lost, and that clear loses one.
-/

namespace LinuxSamples.GlobalFifo

open LinuxSamples.Run LinuxSamples.Word LinuxSamples.CondVar LinuxSamples.BoundedQueue

/-- The task is in `TASK_INTERRUPTIBLE` on the queue, and no signal is pending. -/
def Task.waitsOn (q : Queue) (x : Task) : Bool :=
  x.interruptible && !x.sig && x.queue == some q

/-- The task sits in `schedule()` on the queue, neither woken nor signalled. -/
def Task.unwoken (q : Queue) (x : Task) : Bool :=
  match x.pc with
  | .asleep _ => x.waitsOn q
  | _ => false

variable {ι : Type}

/-- A sleeping writer means a full device and a sleeping reader an empty one; so they do
not both sleep. -/
def NoLostWake (s : St ι) : Prop :=
  (∀ t, (s.task t).unwoken .wWait = true → s.dev.currentLen = GLOBALFIFO_SIZE) ∧
    (∀ t, (s.task t).unwoken .rWait = true → s.dev.currentLen = 0) ∧
    ¬ ∃ t u, (s.task t).unwoken .rWait = true ∧ (s.task u).unwoken .wWait = true

/-- The step is not a `FIFO_CLEAR` made while a writer waits. -/
def ClearsUnwaited (s : St ι) (a : Act ι) : Prop :=
  a.move = .clear → ∀ u, (s.task u).waitsOn .wWait = false

/-! ### What is true of every task -/

def Pc.holds : Pc → Bool
  | .test _ | .arm _ | .armed _ | .copy _ | .out _ _ | .clearHeld | .clearOut => true
  | _ => false

/-- The queue a task in the loop has its wait entry on. -/
def Pc.loop : Pc → Option Queue
  | .test c | .arm c | .armed c | .unlocked c | .asleep c | .awake c | .relock c => some c.queue
  | _ => none

/-- The program points between `__set_current_state` and the return of `schedule()`. -/
def Pc.sleepy : Pc → Bool
  | .armed _ | .unlocked _ | .asleep _ => true
  | _ => false

/-- What holds of a task, given the device and whether the task owns the mutex. -/
structure Task.Ok (d : Dev) (own : Prop) (x : Task) : Prop where
  holds : x.pc.holds = true → own
  queue : ∀ q, x.pc.loop = some q → x.queue = some q
  arm : ∀ c, x.pc = .arm c → d.mustWait c.queue = true
  sleepy : x.interruptible = true → x.pc.sleepy = true
  waits : ∀ q, x.waitsOn q = true → d.mustWait q = true

def Inv (s : St ι) : Prop := ∀ t, (s.task t).Ok s.dev (s.owner = some t)

lemma inv_init : Inv (init : St ι) := fun _ => by
  constructor <;> simp [init, Task.new, Pc.holds, Pc.loop, Task.waitsOn]

lemma Task.Ok.running {d : Dev} {own : Prop} {x : Task} (hrun : x.interruptible = false)
    (holds : x.pc.holds = true → own) (queue : ∀ q, x.pc.loop = some q → x.queue = some q)
    (arm : ∀ c, x.pc = .arm c → d.mustWait c.queue = true) : x.Ok d own :=
  ⟨holds, queue, arm, by simp [hrun], by simp [Task.waitsOn, hrun]⟩

lemma Task.Ok.goto_sleepy {d : Dev} {own own' : Prop} {x : Task} {pc : Pc} (h : x.Ok d own)
    (hloop : pc.loop = x.pc.loop) (hs : pc.sleepy = true) (hh : pc.holds = false) :
    ({ x with pc := pc } : Task).Ok d own' := by
  refine ⟨fun ht => ?_, fun q hq => h.queue q (hloop ▸ hq), ?_, fun _ => hs, h.waits⟩
  · rw [hh] at ht
    cases ht
  · rintro c rfl
    cases hs

lemma Task.Ok.goto {d : Dev} {own own' : Prop} {x : Task} {pc : Pc} (h : x.Ok d own)
    (hrun : x.interruptible = false) (hholds : pc.holds = true → own')
    (hloop : pc.loop = none ∨ pc.loop = x.pc.loop)
    (harm : ∀ c, pc = .arm c → d.mustWait c.queue = true) :
    ({ x with pc := pc } : Task).Ok d own' := by
  refine .running hrun hholds (fun q hq => ?_) harm
  rcases hloop with hnone | hsame
  · cases hnone.symm.trans hq
  · exact h.queue q (hsame.symm.trans hq)

lemma Inv.interruptible_eq_false {s : St ι} (h : Inv s) {t : ι}
    (ht : (s.task t).pc.sleepy = false) : (s.task t).interruptible = false := by
  rw [← Bool.not_eq_true]
  intro hi
  simp [(h t).sleepy hi] at ht

lemma Inv.unwoken {s : St ι} (h : Inv s) {t : ι} {q : Queue}
    (ht : (s.task t).unwoken q = true) : s.dev.mustWait q = true := by
  refine (h t).waits q ?_
  unfold Task.unwoken at ht
  split at ht
  · exact ht
  · cases ht

lemma Inv.noLostWake {s : St ι} (h : Inv s) : NoLostWake s := by
  have hw {t : ι} (ht : (s.task t).unwoken .wWait = true) :
      s.dev.currentLen = GLOBALFIFO_SIZE := by simpa [Dev.mustWait] using h.unwoken ht
  have hr {t : ι} (ht : (s.task t).unwoken .rWait = true) : s.dev.currentLen = 0 := by
    simpa [Dev.mustWait] using h.unwoken ht
  refine ⟨fun _ => hw, fun _ => hr, ?_⟩
  rintro ⟨t, u, ht, hu⟩
  exact absurd ((hr ht).symm.trans (hw hu)) (by decide)

lemma not_noLostWake {s : St ι} {u : ι} (hlen : s.dev.currentLen = 0)
    (hu : (s.task u).unwoken .wWait = true) : ¬ NoLostWake s := fun h =>
  absurd (hlen.symm.trans (h.1 u hu)) (by decide)

variable [DecidableEq ι] {s s' : St ι} {t : ι}

lemma Inv.local {x : Task} (h : Inv s) (hdev : s'.dev = s.dev)
    (htask : s'.task = Function.update s.task t x)
    (hown : ∀ u, u ≠ t → s.owner = some u → s'.owner = some u)
    (hx : x.Ok s.dev (s'.owner = some t)) : Inv s' := by
  intro u
  rw [hdev, htask]
  by_cases hu : u = t
  · subst hu
    rwa [Function.update_self]
  · rw [Function.update_of_ne hu]
    obtain ⟨h1, h2, h3, h4, h5⟩ := h u
    exact ⟨fun hh => hown u hu (h1 hh), h2, h3, h4, h5⟩

lemma Inv.outside {x : Task} (h : Inv s) (hdev : s'.dev = s.dev)
    (htask : s'.task = Function.update s.task t x)
    (hown : ∀ u, u ≠ t → s.owner = some u → s'.owner = some u) (hrun : x.interruptible = false)
    (hholds : x.pc.holds = false) (hloop : x.pc.loop = none) : Inv s' := by
  refine h.local hdev htask hown (.running hrun (fun hh => ?_) (fun q hq => ?_) fun c hc => ?_)
  · rw [hholds] at hh
    cases hh
  · rw [hloop] at hq
    cases hq
  · rw [hc] at hloop
    cases hloop

/-- A step of `t` that changes the device: `t` holds the mutex and is about to give it up, the
others are woken or left alone, and whoever still waits has to. -/
lemma Inv.critical (h : Inv s) (ht : s.owner = some t) (hown : s'.owner = s.owner)
    (hrun : (s'.task t).interruptible = false) (hloop : (s'.task t).pc.loop = none)
    (hothers : ∀ u, u ≠ t → s'.task u = s.task u ∨ s'.task u = (s.task u).wake)
    (hwaits : ∀ u q, u ≠ t → (s'.task u).waitsOn q = true → s'.dev.mustWait q = true) :
    Inv s' := by
  intro u
  by_cases hu : u = t
  · subst hu
    refine .running hrun (fun _ => hown.trans ht) (fun q hq => ?_) fun c hc => ?_
    · rw [hloop] at hq
      cases hq
    · rw [hc] at hloop
      cases hloop
  · -- nobody else is between the test and the change of state
    have hfree : (s.task u).pc.holds = true → False := fun hh =>
      hu (Option.some.inj (((h u).holds hh).symm.trans ht))
    have harm (c : Call) (hc : (s.task u).pc = .arm c) : False := hfree (by rw [hc]; rfl)
    rcases hothers u hu with he | he
    · have hw (q : Queue) := hwaits u q hu
      rw [he] at hw ⊢
      exact ⟨fun hh => (hfree hh).elim, (h u).queue, fun c hc => (harm c hc).elim,
        (h u).sleepy, hw⟩
    · rw [he]
      exact .running rfl (fun hh => (hfree hh).elim) (h u).queue fun c hc => (harm c hc).elim

lemma Task.waitsOn_wake (x : Task) (q : Queue) : x.wake.waitsOn q = false := by
  simp [Task.waitsOn, Task.wake]

lemma Task.queue_of_waitsOn {x : Task} {q : Queue} (h : x.waitsOn q = true) :
    x.queue = some q := by
  simp only [Task.waitsOn, Bool.and_eq_true, beq_iff_eq] at h
  exact h.2

/-- A step of `t` that changes the device and wakes the queue `q`: it is enough that those on
the other queue still have to wait. -/
lemma Inv.critical_wake {x : Task} {q : Queue} (h : Inv s) (ht : s.owner = some t)
    (hown : s'.owner = s.owner) (htask : s'.task = wakeUp q (Function.update s.task t x))
    (hrun : x.interruptible = false) (hloop : x.pc.loop = none)
    (hwait : ∀ q', q' ≠ q → s.dev.mustWait q' = true → s'.dev.mustWait q' = true) :
    Inv s' := by
  have hself := wakeUp_cases q (Function.update s.task t x) t
  rw [Function.update_self, ← htask] at hself
  have hothers (u : ι) (hu : u ≠ t) := wakeUp_cases q (Function.update s.task t x) u
  refine h.critical ht hown ?_ ?_ (fun u hu => ?_) fun u q' hu hq' => ?_
  · rcases hself with ⟨-, he⟩ | ⟨-, he⟩
    · rw [he]; rfl
    · rwa [he]
  · rcases hself with ⟨-, he⟩ | ⟨-, he⟩
    · rw [he]; exact hloop
    · rwa [he]
  · have := hothers u hu
    rw [Function.update_of_ne hu, ← htask] at this
    exact this.symm.imp And.right And.right
  · have := hothers u hu
    rw [Function.update_of_ne hu, ← htask] at this
    rcases this with ⟨-, he⟩ | ⟨hne, he⟩
    · rw [he, Task.waitsOn_wake] at hq'
      cases hq'
    · rw [he] at hq'
      refine hwait q' (fun heq => hne ?_) ((h u).waits q' hq')
      rw [← heq]
      exact Task.queue_of_waitsOn hq'

lemma Inv.critical_quiet {x : Task} (h : Inv s) (ht : s.owner = some t)
    (hown : s'.owner = s.owner) (htask : s'.task = Function.update s.task t x)
    (hrun : x.interruptible = false) (hloop : x.pc.loop = none)
    (hwait : ∀ u q, (s.task u).waitsOn q = true → s'.dev.mustWait q = true) : Inv s' := by
  refine h.critical ht hown ?_ ?_ (fun u hu => Or.inl ?_) fun u q hu hq => hwait u q ?_
  · rwa [htask, Function.update_self]
  · rwa [htask, Function.update_self]
  · rw [htask, Function.update_of_ne hu]
  · rwa [htask, Function.update_of_ne hu] at hq

/-! ### One step -/

lemma mustWait_afterRead {d : Dev} {q : Queue} (count : ℕ) (hq : q ≠ .wWait)
    (h : d.mustWait q = true) : (d.afterRead (d.readCount count)).mustWait q = true := by
  cases q with
  | wWait => exact absurd rfl hq
  | rWait =>
    have hlen : d.currentLen = 0 := by simpa [Dev.mustWait] using h
    have hn : d.readCount count = 0 := Nat.le_zero.mp (hlen ▸ d.readCount_le count)
    simp [Dev.mustWait, Dev.afterRead, hn, hlen, subU]

lemma mustWait_afterWrite {d : Dev} {q : Queue} {bs : List UInt8} {count : ℕ}
    (hbs : bs.length = d.writeCount count) (hq : q ≠ .rWait) (h : d.mustWait q = true) :
    (d.afterWrite bs).mustWait q = true := by
  cases q with
  | rWait => exact absurd rfl hq
  | wWait =>
    have hlen : d.currentLen = GLOBALFIFO_SIZE := by simpa [Dev.mustWait] using h
    have hfit := hbs ▸ Dev.writeCount_le hlen.le count
    simp only [Dev.mustWait, beq_iff_eq]
    rw [Dev.currentLen_afterWrite hfit]
    omega

lemma Inv.fault (h : Inv s) {c : Call} (hpc : (s.task t).pc = .copy c)
    (hdev : s'.dev.currentLen = s.dev.currentLen) (hown : s'.owner = s.owner)
    (htask : s'.task = Function.update s.task t { s.task t with pc := .out c (-EFAULT) }) :
    Inv s' := by
  refine h.critical_quiet ((h t).holds (by rw [hpc]; rfl)) hown htask
    (h.interruptible_eq_false (by rw [hpc]; rfl)) rfl fun u q hq => ?_
  have hwaits := (h u).waits q hq
  cases q <;> simpa [Dev.mustWait, hdev] using hwaits

theorem inv_step {a : Act ι} (h : Inv s) (hok : ClearsUnwaited s a) (ha : step s a = some s') :
    Inv s' := by
  obtain ⟨t, m⟩ := a
  have hrun (hpc : (s.task t).pc.sleepy = false) := h.interruptible_eq_false hpc
  obtain ⟨hholds, hqueue, harm, hsleepy, hwaits⟩ := h t
  -- nobody else has the mutex when `t` takes it or gives it up
  have htake (hown : s.owner = none) (u : ι) (_ : u ≠ t) (ho : s.owner = some u) :
      some t = some u := by
    rw [hown] at ho
    cases ho
  have hdrop (hpc : (s.task t).pc.holds = true) (u : ι) (hu : u ≠ t)
      (ho : s.owner = some u) : (none : Option ι) = some u :=
    absurd (Option.some.inj (ho.symm.trans (hholds hpc))) hu
  cases step_cases ha with
  | @readOk c hpc =>
    exact h.critical_wake (hholds (by rw [hpc]; rfl)) rfl rfl (hrun (by rw [hpc]; rfl)) rfl
      fun q hq => mustWait_afterRead c.count hq
  | writeOk hpc hbs =>
    exact h.critical_wake (hholds (by rw [hpc]; rfl)) rfl rfl (hrun (by rw [hpc]; rfl)) rfl
      fun q hq => mustWait_afterWrite hbs hq
  | faultRead hpc => exact h.fault hpc rfl rfl rfl
  | faultWrite hpc => exact h.fault hpc rfl rfl rfl
  | clear hpc =>
    refine h.critical_quiet (hholds (by rw [hpc]; rfl)) rfl rfl (hrun (by rw [hpc]; rfl)) rfl
      fun u q hq => ?_
    cases q with
    | rWait => simp [Dev.mustWait, St.doClear, Dev.clear]
    | wWait =>
      rw [hok rfl u] at hq
      cases hq
  | @arm c hpc =>
    refine h.local rfl rfl (fun _ _ ho => ho) ⟨fun _ => hholds (by rw [hpc]; rfl),
      fun q hq => hqueue q (by rw [hpc]; exact hq), fun _ hc => (nomatch hc), fun _ => rfl,
      fun q hq => ?_⟩
    -- the task has just seen, under the mutex, that it must wait
    have hq1 := Task.queue_of_waitsOn hq
    have hq2 := hqueue c.queue (by rw [hpc]; rfl)
    obtain rfl : q = c.queue := Option.some.inj (hq1.symm.trans hq2)
    exact harm c hpc
  | unlockArmed hpc =>
    exact h.local rfl rfl (hdrop (by rw [hpc]; rfl))
      ((h t).goto_sleepy (by rw [hpc]; rfl) rfl rfl)
  | unlockOut hpc =>
    exact h.outside rfl rfl (hdrop (by rw [hpc]; rfl)) (hrun (by rw [hpc]; rfl)) rfl rfl
  | unlockClear hpc =>
    exact h.outside rfl rfl (hdrop (by rw [hpc]; rfl)) (hrun (by rw [hpc]; rfl)) rfl rfl
  | schedule hpc =>
    exact h.local rfl rfl (fun _ _ ho => ho) ((h t).goto_sleepy (by rw [hpc]; rfl) rfl rfl)
  | signal => exact h.local rfl rfl (fun _ _ ho => ho) (.running rfl hholds hqueue harm)
  | call hpc => exact h.outside rfl rfl (fun _ _ ho => ho) (hrun (by rw [hpc]; rfl)) rfl rfl
  | ioctlClear hpc =>
    exact h.outside rfl rfl (fun _ _ ho => ho) (hrun (by rw [hpc]; rfl)) rfl rfl
  | ioctlInvalid hpc =>
    exact h.outside rfl rfl (fun _ _ ho => ho) (hrun (by rw [hpc]; rfl)) (by rw [hpc]; rfl)
      (by rw [hpc]; rfl)
  | lockEnter hpc hown =>
    exact h.local rfl rfl (htake hown) (.running (hrun (by rw [hpc]; rfl)) (fun _ => rfl)
      (fun _ hq => hq) fun _ hc => nomatch hc)
  | lockAgain hpc hown =>
    exact h.local rfl rfl (htake hown) ((h t).goto (hrun (by rw [hpc]; rfl)) (fun _ => rfl)
      (Or.inr (by rw [hpc]; rfl)) fun _ hc => nomatch hc)
  | lockClear hpc hown =>
    exact h.local rfl rfl (htake hown) ((h t).goto (hrun (by rw [hpc]; rfl)) (fun _ => rfl)
      (Or.inl rfl) fun _ hc => nomatch hc)
  | testAgain hpc =>
    exact h.local rfl rfl (fun _ _ ho => ho) ((h t).goto (hrun (by rw [hpc]; rfl))
      (fun _ => hholds (by rw [hpc]; rfl)) (Or.inl rfl) fun _ hc => nomatch hc)
  | testWait hpc hwait =>
    refine h.local rfl rfl (fun _ _ ho => ho) ((h t).goto (hrun (by rw [hpc]; rfl))
      (fun _ => hholds (by rw [hpc]; rfl)) (Or.inr (by rw [hpc]; rfl)) fun c' hc => ?_)
    obtain rfl := Pc.arm.inj hc
    exact hwait
  | testGo hpc =>
    exact h.local rfl rfl (fun _ _ ho => ho) ((h t).goto (hrun (by rw [hpc]; rfl))
      (fun _ => hholds (by rw [hpc]; rfl)) (Or.inl rfl) fun _ hc => nomatch hc)
  | resume hpc =>
    exact h.local rfl rfl (fun _ _ ho => ho) (.running rfl (fun hh => nomatch hh)
      (fun q hq => hqueue q (by rw [hpc]; exact hq)) fun _ hc => nomatch hc)
  | checkSignal hpc =>
    exact h.outside rfl rfl (fun _ _ ho => ho) (hrun (by rw [hpc]; rfl)) rfl rfl
  | checkNone hpc =>
    exact h.local rfl rfl (fun _ _ ho => ho) ((h t).goto (hrun (by rw [hpc]; rfl))
      (fun hh => nomatch hh) (Or.inr (by rw [hpc]; rfl)) fun _ hc => nomatch hc)
  | finish => exact h.outside rfl rfl (fun _ _ ho => ho) rfl rfl rfl
  | handled hpc =>
    exact h.outside rfl rfl (fun _ _ ho => ho) (hrun (by rw [hpc]; rfl)) (by rw [hpc]; rfl)
      (by rw [hpc]; rfl)

/-! ### Whole runs -/

/-- A clear made while a writer waits loses the wake-up: the writer sleeps on the empty
device, at the latest when it gets to `schedule()`. -/
lemma clear_loses {a : Act ι} (h : Inv s) (hok : ¬ ClearsUnwaited s a)
    (ha : step s a = some s') :
    ∃ bs s'', exec step s' bs = some s'' ∧ ¬ NoLostWake s'' := by
  obtain ⟨t, m⟩ := a
  simp only [ClearsUnwaited, Classical.not_imp, not_forall, Bool.not_eq_false] at hok
  obtain ⟨rfl, u, hu⟩ := hok
  obtain ⟨hpc, rfl⟩ : (s.task t).pc = .clearHeld ∧ s' = s.doClear t := by
    cases step_cases ha with
    | clear hpc => exact ⟨hpc, rfl⟩
  have hown : s.owner = some t := (h t).holds (by rw [hpc]; rfl)
  have hint : (s.task u).interruptible = true := by
    simp only [Task.waitsOn, Bool.and_eq_true] at hu
    exact hu.1.1
  have hsleepy := (h u).sleepy hint
  have hut : u ≠ t := by
    rintro rfl
    rw [hpc] at hsleepy
    cases hsleepy
  have htask : (s.doClear t).task u = s.task u := Function.update_of_ne hut ..
  rcases hpcu : (s.task u).pc with _ | _ | _ | _ | c | c | c | _ | _ | _ | _ | _ | _ | _ | _
  all_goals try (rw [hpcu] at hsleepy; cases hsleepy)
  · -- at the `mutex_unlock`: the mutex is not its own
    have := (h u).holds (by rw [hpcu]; rfl)
    exact absurd (Option.some.inj (this.symm.trans hown)) hut
  · -- before `schedule()`
    refine ⟨[⟨u, .schedule⟩], (s.doClear t).goto u (.asleep c), ?_, not_noLostWake (u := u) rfl ?_⟩
    · simp [exec_cons, step, htask, hpcu]
    · simpa [Task.unwoken, Task.waitsOn, St.goto, St.set, htask] using hu
  · refine ⟨[], s.doClear t, rfl, not_noLostWake (u := u) rfl ?_⟩
    simpa [Task.unwoken, htask, hpcu] using hu

/-- **When `globalfifo` loses no wake-up.** In a run in which no `FIFO_CLEAR` is made while a
writer waits, a task that sits unwoken in `schedule()` has to wait, in every state reached.
The first `FIFO_CLEAR` that is made while a writer waits loses the writer's wake-up. -/
theorem globalfifo_no_lost_wake {as : List (Act ι)} (has : exec step init as = some s)
    (hg : Guarded step ClearsUnwaited init as) :
    NoLostWake s ∧ ∀ a s', ¬ ClearsUnwaited s a → step s a = some s' →
      ∃ bs s'', exec step s' bs = some s'' ∧ ¬ NoLostWake s'' := by
  have hinv : Inv s := hg.invariant has inv_init fun _ _ _ hu hok ha => inv_step hu hok ha
  exact ⟨hinv.noLostWake, fun _ _ hok ha => clear_loses hinv hok ha⟩

/-! ### Calls that run alone -/

def writeAlone (t : ι) (bs : List UInt8) : List (Act ι) :=
  [⟨t, .call ⟨.wWait, bs.length, false⟩⟩, ⟨t, .lock⟩, ⟨t, .test⟩, ⟨t, .writeOk bs⟩, ⟨t, .unlock⟩,
    ⟨t, .finish⟩]

def sleepAlone (t : ι) (c : Call) : List (Act ι) :=
  [⟨t, .call c⟩, ⟨t, .lock⟩, ⟨t, .test⟩, ⟨t, .arm⟩, ⟨t, .unlock⟩, ⟨t, .schedule⟩]

def clearAlone (t : ι) : List (Act ι) :=
  [⟨t, .ioctl FIFO_CLEAR⟩, ⟨t, .lock⟩, ⟨t, .clear⟩, ⟨t, .unlock⟩]

lemma exec_enter {c : Call} (hpc : (s.task t).pc = .user) (hown : s.owner = none)
    (as : List (Act ι)) :
    exec step s (⟨t, .call c⟩ :: ⟨t, .lock⟩ :: as) =
      exec step ((s.take t).set t { s.task t with pc := .test c, queue := some c.queue }) as := by
  simp only [exec_cons, step, hpc, Option.bind_some]
  simp only [St.goto, St.set, St.take, hown, Function.update_self, Function.update_idem, if_true,
    Option.bind_some]

lemma exec_copy {c : Call} {bs : List UInt8} (hpc : (s.task t).pc = .copy c)
    (hq : c.queue = .wWait) (hbs : bs.length = s.dev.writeCount c.count) :
    exec step s [⟨t, .writeOk bs⟩, ⟨t, .unlock⟩, ⟨t, .finish⟩] = some
      ((s.doWrite t c bs).drop.set t
        ⟨.user, false, none, ((s.doWrite t c bs).task t).sig, bs.length⟩) := by
  have hout : ((s.doWrite t c bs).task t).pc = .out c bs.length := by
    rcases wakeUp_cases .rWait (Function.update s.task t
      { s.task t with pc := .out c bs.length }) t with ⟨-, h⟩ | ⟨-, h⟩ <;>
    simp [St.doWrite, h, Task.wake]
  simp only [exec_cons, step, hpc, hq, hbs, and_self, if_true, Option.bind_some, hout]
  simp [St.goto, St.set, St.drop]

lemma exec_writeAlone {bs : List UInt8} (hpc : (s.task t).pc = .user) (hown : s.owner = none)
    (hfull : s.dev.mustWait .wWait = false) (hbs : s.dev.writeCount bs.length = bs.length) :
    ∃ s', exec step s (writeAlone t bs) = some s' ∧ s'.dev = s.dev.afterWrite bs ∧
      s'.owner = none ∧ ∀ u, u ≠ t → (s.task u).queue ≠ some .rWait → s'.task u = s.task u := by
  set c : Call := ⟨.wWait, bs.length, false⟩ with hc
  set s0 := (s.take t).set t { s.task t with pc := .test c, queue := some c.queue } with hs0
  have htest : step s0 ⟨t, .test⟩ = some (s0.goto t (.copy c)) := by
    simp [step, hs0, hc, St.set, St.take, hfull]
  have hcopy : ((s0.goto t (.copy c)).task t).pc = .copy c := by simp [St.goto, St.set]
  rw [writeAlone, exec_enter hpc hown, exec_cons, htest, Option.bind_some,
    exec_copy hcopy rfl hbs.symm]
  refine ⟨_, rfl, rfl, rfl, fun u hu hq => ?_⟩
  -- no other task is touched but those on the readers' queue
  have hu0 : Function.update (s0.goto t (.copy c)).task t
      { (s0.goto t (.copy c)).task t with pc := .out c bs.length } u = s.task u := by
    simp [hs0, St.goto, St.set, St.take, hu]
  have hwake : ((s0.goto t (.copy c)).doWrite t c bs).task u = s.task u := by
    rcases wakeUp_cases .rWait (Function.update (s0.goto t (.copy c)).task t
      { (s0.goto t (.copy c)).task t with pc := .out c bs.length }) u with ⟨h, -⟩ | ⟨-, h⟩
    · rw [hu0] at h
      exact absurd h hq
    · exact h.trans hu0
  exact (Function.update_of_ne hu ..).trans hwake

lemma exec_arm {c : Call} (hpc : (s.task t).pc = .arm c) :
    exec step s [⟨t, .arm⟩, ⟨t, .unlock⟩, ⟨t, .schedule⟩] = some
      (s.drop.set t { s.task t with pc := .asleep c, interruptible := true }) := by
  simp only [exec_cons, step, hpc, Option.bind_some]
  simp only [St.goto, St.set, St.drop, Function.update_self, Function.update_idem, exec_nil,
    Option.bind_some]

lemma exec_sleepAlone {c : Call} (hpc : (s.task t).pc = .user) (hown : s.owner = none)
    (hwait : s.dev.mustWait c.queue = true) (hblock : c.nonblock = false) :
    exec step s (sleepAlone t c) = some (s.set t
      { s.task t with pc := .asleep c, interruptible := true, queue := some c.queue }) := by
  set s0 := (s.take t).set t { s.task t with pc := .test c, queue := some c.queue } with hs0
  have htest : step s0 ⟨t, .test⟩ = some (s0.goto t (.arm c)) := by
    simp [step, hs0, St.set, St.take, hwait, hblock]
  have harm : ((s0.goto t (.arm c)).task t).pc = .arm c := by simp [St.goto, St.set]
  rw [sleepAlone, exec_enter hpc hown, exec_cons, htest, Option.bind_some, exec_arm harm]
  simp [hs0, St.goto, St.set, St.take, St.drop, hown]

lemma exec_clearAlone (hpc : (s.task t).pc = .user) (hown : s.owner = none) :
    exec step s (clearAlone t) = some
      ⟨s.dev.clear, none, Function.update s.task t { s.task t with ret := 0 },
        s.log ++ [.clear]⟩ := by
  simp only [clearAlone, exec_cons, step, hpc, if_true, Option.bind_some]
  simp only [St.goto, St.set, St.take, St.drop, St.doClear, hown, Function.update_self,
    Function.update_idem, if_true, exec_nil, Option.bind_some]

/-- Task 0 fills the device, task 1 goes to sleep on it, task 2 clears it, reads from it and
goes to sleep as well. -/
def clearedFull (bs : List UInt8) : List (Act (Fin 3)) :=
  writeAlone 0 bs ++ (sleepAlone 1 ⟨.wWait, 1, false⟩ ++
    (clearAlone 2 ++ sleepAlone 2 ⟨.rWait, 1, false⟩))

lemma clearedFull_strands {bs : List UInt8} (hbs : bs.length = GLOBALFIFO_SIZE) :
    ∃ s, exec step init (clearedFull bs) = some s ∧ s.dev.currentLen = 0 ∧
      (s.task 1).unwoken .wWait = true ∧ (s.task 2).unwoken .rWait = true := by
  have hcount : Dev.zero.writeCount bs.length = bs.length := by rw [hbs]; decide
  obtain ⟨s, hs, hdev, hown, htask⟩ :=
    exec_writeAlone (s := init) (t := (0 : Fin 3)) rfl rfl rfl hcount
  have h1 : s.task 1 = Task.new := htask 1 (by decide) (by decide)
  have h2 : s.task 2 = Task.new := htask 2 (by decide) (by decide)
  have hfull : s.dev.mustWait .wWait = true := by
    simp [hdev, Dev.mustWait, Dev.afterWrite, Dev.zero, init, hbs, GLOBALFIFO_SIZE, wrap]
  rw [clearedFull, exec_append, hs, Option.bind_some, exec_append,
    exec_sleepAlone (by rw [h1]; rfl) hown hfull rfl, Option.bind_some, exec_append,
    exec_clearAlone (by simp [St.set, h2, Task.new]) (by exact hown), Option.bind_some,
    exec_sleepAlone (by simp [St.set, h2, Task.new]) rfl rfl rfl]
  refine ⟨_, rfl, rfl, ?_, ?_⟩ <;> simp [St.set, Task.unwoken, Task.waitsOn, h1, h2, Task.new]

theorem globalfifo_clear_strands_writer :
    ∃ s, exec step init (clearedFull (List.replicate GLOBALFIFO_SIZE 7)) = some s ∧
      s.dev.currentLen = 0 ∧ (s.task 1).unwoken .wWait = true ∧
      (s.task 2).unwoken .rWait = true ∧ ¬ NoLostWake s := by
  obtain ⟨s, hs, hlen, h1, h2⟩ := clearedFull_strands List.length_replicate
  exact ⟨s, hs, hlen, h1, h2, not_noLostWake hlen h1⟩

/-- The reader of `sleepyReader`, before the writer comes. -/
theorem globalfifo_no_lost_wake_sleepyReader : ∃ s, exec step init (sleepyReader.take 6) = some s ∧
    (s.task 0).unwoken .rWait = true ∧ NoLostWake s := by
  refine ⟨(exec step init (sleepyReader.take 6)).get (by decide), (Option.some_get _).symm,
    by decide, ?_⟩
  refine (globalfifo_no_lost_wake (Option.some_get _).symm (.of_forall (fun a ha s hc => ?_) _)).1
  exact absurd hc ((by decide : ∀ a ∈ sleepyReader.take 6, a.move ≠ .clear) a ha)

end LinuxSamples.GlobalFifo
