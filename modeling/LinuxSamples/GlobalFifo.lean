import LinuxSamples.CondVar
import LinuxSamples.Bytes
import LinuxSamples.Word
import LinuxSamples.BoundedQueue

/-!
The `globalfifo` driver: the device, what its file operations do to it under `dev->mutex`,
and the system of any number of tasks that are inside `globalfifo_read`,
`globalfifo_write` and `globalfifo_ioctl` at once.

The program points of a task are those between which the driver takes or gives up the
mutex, changes the task's state, or sleeps. The memory of the device is a function on
addresses, of which the array `mem` is the part below `GLOBALFIFO_SIZE`. The `SIGIO` that a
write sends to the readers that asked for it is one of the signals a task may get at any time.
-/

namespace LinuxSamples.GlobalFifo

open LinuxSamples.Bytes LinuxSamples.Word LinuxSamples.CondVar LinuxSamples.BoundedQueue

def GLOBALFIFO_SIZE : ℕ := 0x1000
def FIFO_CLEAR : ℕ := 0x1
def EAGAIN : ℤ := 11
def EFAULT : ℤ := 14
def EINVAL : ℤ := 22
def ERESTARTSYS : ℤ := 512

/-! ### The device -/

structure Dev where
  currentLen : ℕ
  mem : ℕ → UInt8

def Dev.zero : Dev := ⟨0, fun _ => 0⟩

/-- The bytes `mem[0..current_len)`. -/
def Dev.contents (d : Dev) : List UInt8 := load d.mem 0 d.currentLen

/-- The count `globalfifo_read` passes to `copy_to_user`. -/
def Dev.readCount (d : Dev) (count : ℕ) : ℕ :=
  if count > d.currentLen then d.currentLen else count

/-- `globalfifo_read` once `copy_to_user` has returned zero. -/
def Dev.afterRead (d : Dev) (count : ℕ) : Dev :=
  -- the length of the `memcpy` is a `size_t`, that of the device an `unsigned int`
  ⟨subU 32 d.currentLen count, move d.mem 0 count (subU 64 d.currentLen count)⟩

/-- The count `globalfifo_write` passes to `copy_from_user`. -/
def Dev.writeCount (d : Dev) (count : ℕ) : ℕ :=
  if count > subU 32 GLOBALFIFO_SIZE d.currentLen then subU 32 GLOBALFIFO_SIZE d.currentLen
  else count

/-- `copy_from_user` has brought the bytes `bs` to `dev->mem + dev->current_len`. -/
def Dev.copyIn (d : Dev) (bs : List UInt8) : Dev := { d with mem := store d.mem d.currentLen bs }

/-- `globalfifo_write` once `copy_from_user` has returned zero. -/
def Dev.afterWrite (d : Dev) (bs : List UInt8) : Dev :=
  { d.copyIn bs with currentLen := wrap 32 (d.currentLen + bs.length) }

/-- The `FIFO_CLEAR` of `globalfifo_ioctl`. -/
def Dev.clear (d : Dev) : Dev := ⟨0, store d.mem 0 (List.replicate GLOBALFIFO_SIZE 0)⟩

/-! ### Tasks -/

inductive Queue
  | rWait | wWait
  deriving DecidableEq, Repr

/-- A call of `globalfifo_read` or of `globalfifo_write`; the queue it waits on says which. -/
structure Call where
  queue : Queue
  count : ℕ
  nonblock : Bool
  deriving DecidableEq, Repr

/-- The condition of the `while` loop of the call. -/
def Dev.mustWait (d : Dev) : Queue → Bool
  | .rWait => d.currentLen == 0
  | .wWait => d.currentLen == GLOBALFIFO_SIZE

inductive Pc
  /-- outside the driver -/
  | user
  /-- at the first `mutex_lock` -/
  | enter (c : Call)
  /-- at the test of the loop, holding the mutex -/
  | test (c : Call)
  /-- at `__set_current_state(TASK_INTERRUPTIBLE)`, holding the mutex -/
  | arm (c : Call)
  /-- at the `mutex_unlock` of the loop -/
  | armed (c : Call)
  /-- before `schedule()` -/
  | unlocked (c : Call)
  /-- in `schedule()` -/
  | asleep (c : Call)
  /-- at the test of `signal_pending` -/
  | awake (c : Call)
  /-- at the `mutex_lock` of the loop -/
  | relock (c : Call)
  /-- behind the loop, holding the mutex -/
  | copy (c : Call)
  /-- at the label `out`, holding the mutex -/
  | out (c : Call) (ret : ℤ)
  /-- at the label `out2` -/
  | out2 (ret : ℤ)
  /-- at the `mutex_lock` of `FIFO_CLEAR` -/
  | clearEnter
  /-- in `FIFO_CLEAR`, holding the mutex -/
  | clearHeld
  /-- at the `mutex_unlock` of `FIFO_CLEAR` -/
  | clearOut
  deriving DecidableEq, Repr

/-- A task: its program point, whether its state is `TASK_INTERRUPTIBLE`, the queue its wait
entry is on, whether a signal is pending, and what its last call returned. -/
structure Task where
  pc : Pc
  interruptible : Bool
  queue : Option Queue
  sig : Bool
  ret : ℤ
  deriving DecidableEq, Repr

def Task.new : Task := ⟨.user, false, none, false, 0⟩

def Task.wake (x : Task) : Task := { x with interruptible := false }

/-- `wake_up_interruptible`: every task on the queue becomes runnable. -/
def wakeUp {ι : Type} (q : Queue) (f : ι → Task) : ι → Task :=
  broadcast (fun x => x.queue = some q) Task.wake f

lemma wakeUp_cases {ι : Type} (q : Queue) (f : ι → Task) (u : ι) :
    (f u).queue = some q ∧ wakeUp q f u = (f u).wake ∨
      (f u).queue ≠ some q ∧ wakeUp q f u = f u := by
  by_cases h : (f u).queue = some q
  · exact Or.inl ⟨h, broadcast_of_blocked (by simpa using h)⟩
  · exact Or.inr ⟨h, broadcast_of_not_blocked (by simpa using h)⟩

/-- What a task may do next, with what its environment adds: the call it makes, the bytes a
copy from the user brings in, a signal. -/
inductive Move
  | call (c : Call)
  | ioctl (cmd : ℕ)
  | lock
  | test
  | arm
  | unlock
  | schedule
  | resume
  | check
  | readOk
  | writeOk (bs : List UInt8)
  | fault (junk : List UInt8)
  | finish
  | clear
  | signal
  | handled
  deriving DecidableEq, Repr

/-- The device, the owner of its mutex, the tasks, and what has been read, written and
cleared, in the order of the critical sections. -/
structure St (ι : Type) where
  dev : Dev
  owner : Option ι
  task : ι → Task
  log : List (Event UInt8)

def init {ι : Type} : St ι := ⟨Dev.zero, none, fun _ => Task.new, []⟩

structure Act (ι : Type) where
  t : ι
  move : Move
  deriving DecidableEq, Repr

variable {ι : Type} [DecidableEq ι]

def St.set (s : St ι) (t : ι) (x : Task) : St ι := { s with task := Function.update s.task t x }

def St.goto (s : St ι) (t : ι) (pc : Pc) : St ι := s.set t { s.task t with pc := pc }

def St.take (s : St ι) (t : ι) : St ι := { s with owner := some t }

def St.drop (s : St ι) : St ι := { s with owner := none }

/-- The read of at most `count` bytes behind the loop. -/
def St.doRead (s : St ι) (t : ι) (c : Call) : St ι where
  dev := s.dev.afterRead (s.dev.readCount c.count)
  owner := s.owner
  task := wakeUp .wWait
    (Function.update s.task t { s.task t with pc := .out c (s.dev.readCount c.count) })
  log := s.log ++ [.read (load s.dev.mem 0 (s.dev.readCount c.count))]

/-- The write of `bs` behind the loop. -/
def St.doWrite (s : St ι) (t : ι) (c : Call) (bs : List UInt8) : St ι where
  dev := s.dev.afterWrite bs
  owner := s.owner
  task := wakeUp .rWait (Function.update s.task t { s.task t with pc := .out c bs.length })
  log := s.log ++ [.write bs]

def St.doClear (s : St ι) (t : ι) : St ι where
  dev := s.dev.clear
  owner := s.owner
  task := Function.update s.task t { s.task t with pc := .clearOut }
  log := s.log ++ [.clear]

def step (s : St ι) (a : Act ι) : Option (St ι) :=
  let t := a.t
  let x := s.task t
  match a.move, x.pc with
  | .call c, .user => some (s.goto t (.enter c))
  | .ioctl cmd, .user =>
    if cmd = FIFO_CLEAR then some (s.goto t .clearEnter)
    else some (s.set t { x with ret := -EINVAL })
  | .lock, .enter c =>
    -- `add_wait_queue` follows
    if s.owner = none then
      some ((s.take t).set t { x with pc := .test c, queue := some c.queue })
    else none
  | .lock, .relock c => if s.owner = none then some ((s.take t).goto t (.test c)) else none
  | .lock, .clearEnter => if s.owner = none then some ((s.take t).goto t .clearHeld) else none
  | .test, .test c =>
    if s.dev.mustWait c.queue then
      if c.nonblock then some (s.goto t (.out c (-EAGAIN))) else some (s.goto t (.arm c))
    else some (s.goto t (.copy c))
  | .arm, .arm c => some (s.set t { x with pc := .armed c, interruptible := true })
  | .unlock, .armed c => some (s.drop.goto t (.unlocked c))
  | .unlock, .out _ ret => some (s.drop.goto t (.out2 ret))
  | .unlock, .clearOut => some (s.drop.set t { x with pc := .user, ret := 0 })
  | .schedule, .unlocked c => some (s.goto t (.asleep c))
  | .resume, .asleep c =>
    -- `schedule()` returns to a task that is runnable or has a signal pending
    if x.interruptible = false ∨ x.sig = true then
      some (s.set t { x with pc := .awake c, interruptible := false })
    else none
  | .check, .awake c =>
    if x.sig then some (s.goto t (.out2 (-ERESTARTSYS))) else some (s.goto t (.relock c))
  | .readOk, .copy c => if c.queue = .rWait then some (s.doRead t c) else none
  | .writeOk bs, .copy c =>
    if c.queue = .wWait ∧ bs.length = s.dev.writeCount c.count then some (s.doWrite t c bs)
    else none
  | .fault junk, .copy c =>
    match c.queue with
    | .rWait => some (s.goto t (.out c (-EFAULT)))
    | .wWait =>
      -- some bytes may have arrived before the fault
      if junk.length ≤ s.dev.writeCount c.count then
        some ({ s with dev := s.dev.copyIn junk }.goto t (.out c (-EFAULT)))
      else none
  | .finish, .out2 ret =>
    -- `remove_wait_queue` and `set_current_state(TASK_RUNNING)`
    some (s.set t { x with pc := .user, interruptible := false, queue := none, ret := ret })
  | .clear, .clearHeld => some (s.doClear t)
  | .signal, _ => some (s.set t { x with sig := true, interruptible := false })
  | .handled, .user => some (s.set t { x with sig := false })
  | _, _ => none

/-! ### What a step can do -/

/-- The steps of task `t` as rules, one for each program point and branch. -/
inductive Step (s : St ι) (t : ι) : Move → St ι → Prop
  | call {c : Call} (hpc : (s.task t).pc = .user) : Step s t (.call c) (s.goto t (.enter c))
  | ioctlClear {cmd : ℕ} (hpc : (s.task t).pc = .user) :
    Step s t (.ioctl cmd) (s.goto t .clearEnter)
  | ioctlInvalid {cmd : ℕ} (hpc : (s.task t).pc = .user) :
    Step s t (.ioctl cmd) (s.set t { s.task t with ret := -EINVAL })
  | lockEnter {c : Call} (hpc : (s.task t).pc = .enter c) (hown : s.owner = none) :
    Step s t .lock ((s.take t).set t { s.task t with pc := .test c, queue := some c.queue })
  | lockAgain {c : Call} (hpc : (s.task t).pc = .relock c) (hown : s.owner = none) :
    Step s t .lock ((s.take t).goto t (.test c))
  | lockClear (hpc : (s.task t).pc = .clearEnter) (hown : s.owner = none) :
    Step s t .lock ((s.take t).goto t .clearHeld)
  | testAgain {c : Call} (hpc : (s.task t).pc = .test c) :
    Step s t .test (s.goto t (.out c (-EAGAIN)))
  | testWait {c : Call} (hpc : (s.task t).pc = .test c) (hwait : s.dev.mustWait c.queue = true) :
    Step s t .test (s.goto t (.arm c))
  | testGo {c : Call} (hpc : (s.task t).pc = .test c) : Step s t .test (s.goto t (.copy c))
  | arm {c : Call} (hpc : (s.task t).pc = .arm c) :
    Step s t .arm (s.set t { s.task t with pc := .armed c, interruptible := true })
  | unlockArmed {c : Call} (hpc : (s.task t).pc = .armed c) :
    Step s t .unlock (s.drop.goto t (.unlocked c))
  | unlockOut {c : Call} {ret : ℤ} (hpc : (s.task t).pc = .out c ret) :
    Step s t .unlock (s.drop.goto t (.out2 ret))
  | unlockClear (hpc : (s.task t).pc = .clearOut) :
    Step s t .unlock (s.drop.set t { s.task t with pc := .user, ret := 0 })
  | schedule {c : Call} (hpc : (s.task t).pc = .unlocked c) :
    Step s t .schedule (s.goto t (.asleep c))
  | resume {c : Call} (hpc : (s.task t).pc = .asleep c) :
    Step s t .resume (s.set t { s.task t with pc := .awake c, interruptible := false })
  | checkSignal {c : Call} (hpc : (s.task t).pc = .awake c) :
    Step s t .check (s.goto t (.out2 (-ERESTARTSYS)))
  | checkNone {c : Call} (hpc : (s.task t).pc = .awake c) : Step s t .check (s.goto t (.relock c))
  | readOk {c : Call} (hpc : (s.task t).pc = .copy c) : Step s t .readOk (s.doRead t c)
  | writeOk {c : Call} {bs : List UInt8} (hpc : (s.task t).pc = .copy c)
    (hbs : bs.length = s.dev.writeCount c.count) : Step s t (.writeOk bs) (s.doWrite t c bs)
  | faultRead {c : Call} {junk : List UInt8} (hpc : (s.task t).pc = .copy c) :
    Step s t (.fault junk) (s.goto t (.out c (-EFAULT)))
  | faultWrite {c : Call} {junk : List UInt8} (hpc : (s.task t).pc = .copy c) :
    Step s t (.fault junk) ({ s with dev := s.dev.copyIn junk }.goto t (.out c (-EFAULT)))
  | finish {ret : ℤ} (hpc : (s.task t).pc = .out2 ret) :
    Step s t .finish
      (s.set t { s.task t with pc := .user, interruptible := false, queue := none, ret := ret })
  | clear (hpc : (s.task t).pc = .clearHeld) : Step s t .clear (s.doClear t)
  | signal : Step s t .signal (s.set t { s.task t with sig := true, interruptible := false })
  | handled (hpc : (s.task t).pc = .user) :
    Step s t .handled (s.set t { s.task t with sig := false })

/-- **What a step can do.** -/
theorem step_cases {s s' : St ι} {a : Act ι} (h : step s a = some s') : Step s a.t a.move s' := by
  obtain ⟨t, m⟩ := a
  unfold step at h
  dsimp only at h ⊢
  split at h <;> (repeat' split at h) <;> try contradiction
  all_goals obtain rfl := Option.some.inj h
  · exact .call ‹_›
  · exact .ioctlClear ‹_›
  · exact .ioctlInvalid ‹_›
  · exact .lockEnter ‹_› ‹_›
  · exact .lockAgain ‹_› ‹_›
  · exact .lockClear ‹_› ‹_›
  · exact .testAgain ‹_›
  · exact .testWait ‹_› ‹_›
  · exact .testGo ‹_›
  · exact .arm ‹_›
  · exact .unlockArmed ‹_›
  · exact .unlockOut ‹_›
  · exact .unlockClear ‹_›
  · exact .schedule ‹_›
  · exact .resume ‹_›
  · exact .checkSignal ‹_›
  · exact .checkNone ‹_›
  · exact .readOk ‹_›
  · next hbs => exact .writeOk ‹_› hbs.2
  · exact .faultRead ‹_›
  · exact .faultWrite ‹_›
  · exact .finish ‹_›
  · exact .clear ‹_›
  · exact .signal
  · exact .handled ‹_›

end LinuxSamples.GlobalFifo
