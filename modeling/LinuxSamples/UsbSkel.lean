import LinuxSamples.Run
import LinuxSamples.Word
import LinuxSamples.Bytes
import LinuxSamples.Mutex

/-!
The USB skeleton driver: its file operations, its transfers and the unplugging of the device.

Any number of threads are in calls of the driver. A thread is a program point; every access
to what the threads and the completion handlers share is a step, and a completion handler is
a step of its own. What the library calls return is up to the action.
-/

namespace LinuxSamples.UsbSkel

open LinuxSamples.Word LinuxSamples.Bytes LinuxSamples.Mutex

def WRITES_IN_FLIGHT : ℕ := 8

def MAX_TRANSFER : ℕ := 3584

def ENOENT : ℤ := 2
def EINTR : ℤ := 4
def EIO : ℤ := 5
def EAGAIN : ℤ := 11
def ENOMEM : ℤ := 12
def EFAULT : ℤ := 14
def ENODEV : ℤ := 19
def EPIPE : ℤ := 32
def ECONNRESET : ℤ := 104
def ESHUTDOWN : ℤ := 108
def ERESTARTSYS : ℤ := 512

/-! ### The device -/

/-- The receiving side of `struct usb_skel`. `urb` is the length asked for by `bulk_in_urb`
while it is in flight. `delivered` are the payloads of the successful transfers and `returned`
the bytes handed out by `skel_read`. -/
structure BulkIn where
  size : ℕ
  filled : ℕ
  copied : ℕ
  buffer : ℕ → UInt8
  ongoingRead : Bool
  urb : Option ℕ
  delivered : List UInt8
  returned : List UInt8

/-- The program points of `skel_read` and of `skel_do_read_io`. A transfer is started with what
is left of `count`, and `next` is the result of the read, or nothing if it tries again. -/
inductive ReadPc
  | lock
  | check
  | retry
  | wait
  | errors
  | filled
  | copy (available : ℕ)
  | start (count : ℕ) (next : Option ℤ)
  | clear (count : ℕ) (next : Option ℤ)
  | submit (count : ℕ) (next : Option ℤ)
  | failed (rv : ℤ) (next : Option ℤ)
  | unlock (rv : ℤ)
  deriving DecidableEq

inductive WritePc
  | down
  | errors
  | prepare
  | lock
  | check
  | submit
  | unlock (rv : ℤ)
  | report (rv : ℤ)
  | up (rv : ℤ)
  deriving DecidableEq

inductive FlushPc
  | lock
  | drain
  | killUrb
  | errors
  | unlock (rv : ℤ)
  deriving DecidableEq

inductive DisconnectPc
  | lock
  | clear
  | unlock
  | kill
  deriving DecidableEq

/-- Where a thread stands: behind a call that returned `rv`, or in a call with its arguments. -/
inductive Pc
  | ret (rv : ℤ)
  | read (count : ℕ) (nonblock : Bool) (pc : ReadPc)
  | write (count : ℕ) (nonblock : Bool) (pc : WritePc)
  | flush (pc : FlushPc)
  | disconnect (pc : DisconnectPc)
  deriving DecidableEq

/-- The rest of `struct usb_skel`. `interface` says whether the pointer is set, `bound` whether
the interface still knows the device, and `submitted` counts the transfers of the anchor that
are in flight. `gone` is set when `skel_disconnect` returns, `oops` when the interface is used
while the pointer is null. -/
structure Dev where
  interface : Bool
  bound : Bool
  ioMutex : Option ℕ
  limitSem : ℕ
  submitted : ℕ
  errors : ℤ
  bulkIn : BulkIn
  gone : Bool
  oops : Bool

/-- The interface is named in a message. -/
def Dev.deref (d : Dev) : Dev := { d with oops := d.oops || !d.interface }

structure St where
  dev : Dev
  pc : ℕ → Pc

/-- The device after `skel_probe`, whose endpoint takes packets of `maxp` bytes. -/
def init (maxp : BitVec 16) : St where
  dev :=
    { interface := true
      bound := true
      ioMutex := none
      limitSem := WRITES_IN_FLIGHT
      submitted := 0
      errors := 0
      bulkIn := ⟨maxp.toNat, 0, 0, fun _ => 0, false, none, [], []⟩
      gone := false
      oops := false }
  pc := fun _ => .ret 0

/-- The error that a call reports for the one that is stored. -/
def reportedError (e : ℤ) : ℤ := if e = -EPIPE then e else - EIO

/-! ### Calls -/

/-- A step of `skel_read` in the thread `t`; `rv` is the result of the library call made in it. -/
def readStep (d : Dev) (t count : ℕ) (nonblock : Bool) (rv : ℤ) : ReadPc → Option (Dev × Pc)
  | .lock =>
    if d.ioMutex = none then
      some ({ d with ioMutex := some t }, .read count nonblock .check)
    else none
  | .check =>
    some (d, .read count nonblock (if d.interface then .retry else .unlock (-ENODEV)))
  | .retry =>
    some (d, .read count nonblock
      (if d.bulkIn.ongoingRead then if nonblock then .unlock (-EAGAIN) else .wait else .errors))
  | .wait => if d.bulkIn.ongoingRead then none else some (d, .read count nonblock .errors)
  | .errors =>
    if d.errors < 0 then
      some ({ d with errors := 0 }, .read count nonblock (.unlock (reportedError d.errors)))
    else some (d, .read count nonblock .filled)
  | .filled =>
    let available := subU 64 d.bulkIn.filled d.bulkIn.copied
    some (d, .read count nonblock
      (if d.bulkIn.filled ≠ 0 ∧ available ≠ 0 then .copy available else .start count none))
  | .copy available =>
    let chunk := min available count
    let result := if rv = 0 then (chunk : ℤ) else -EFAULT
    let data := if rv = 0 then load d.bulkIn.buffer d.bulkIn.copied chunk else []
    some ({ d with
      bulkIn := { d.bulkIn with
        copied := d.bulkIn.copied + chunk
        returned := d.bulkIn.returned ++ data } },
      .read count nonblock
        (if available < count then .start (count - chunk) (some result) else .unlock result))
  | .start n next =>
    some ({ d with bulkIn := { d.bulkIn with ongoingRead := true } },
      .read count nonblock (.clear n next))
  | .clear n next =>
    -- nobody looks at the counters between the two assignments
    some ({ d with bulkIn := { d.bulkIn with filled := 0, copied := 0 } },
      .read count nonblock (.submit n next))
  | .submit n next =>
    if rv < 0 then some (d, .read count nonblock (.failed rv next))
    else if d.bulkIn.urb = none then
      some ({ d with bulkIn := { d.bulkIn with urb := some (min d.bulkIn.size n) } },
        .read count nonblock (next.elim .retry .unlock))
    else none
  | .failed e next =>
    some ({ d.deref with bulkIn := { d.bulkIn with ongoingRead := false } },
      .read count nonblock (.unlock (next.getD (if e = -ENOMEM then e else - EIO))))
  | .unlock r => some ({ d with ioMutex := none }, .ret r)

def writeStep (d : Dev) (t count : ℕ) (nonblock : Bool) (rv : ℤ) : WritePc → Option (Dev × Pc)
  | .down =>
    if 0 < d.limitSem then
      some ({ d with limitSem := d.limitSem - 1 }, .write count nonblock .errors)
    else if nonblock then some (d, .ret (-EAGAIN))
    else none
  | .errors =>
    if d.errors < 0 then
      some ({ d with errors := 0 }, .write count nonblock (.up (reportedError d.errors)))
    else some (d, .write count nonblock .prepare)
  | .prepare =>
    -- the allocations and `copy_from_user`
    some (d, .write count nonblock (if rv < 0 then .up rv else .lock))
  | .lock =>
    if d.ioMutex = none then
      some ({ d with ioMutex := some t }, .write count nonblock .check)
    else none
  | .check =>
    if d.interface then some (d, .write count nonblock .submit)
    else some ({ d with ioMutex := none }, .write count nonblock (.up (-ENODEV)))
  | .submit =>
    if rv = 0 then
      some ({ d with submitted := d.submitted + 1 }, .write count nonblock (.unlock 0))
    else some (d, .write count nonblock (.unlock rv))
  | .unlock r =>
    some ({ d with ioMutex := none },
      if r = 0 then .ret (min count MAX_TRANSFER) else .write count nonblock (.report r))
  | .report r => some (d.deref, .write count nonblock (.up r))
  | .up r => some ({ d with limitSem := d.limitSem + 1 }, .ret r)

/-- A step of `skel_flush`. The waits of `skel_draw_down` end when nothing is in flight. -/
def flushStep (d : Dev) (t : ℕ) : FlushPc → Option (Dev × Pc)
  | .lock =>
    if d.ioMutex = none then some ({ d with ioMutex := some t }, .flush .drain) else none
  | .drain => if d.submitted = 0 then some (d, .flush .killUrb) else none
  | .killUrb => if d.bulkIn.urb = none then some (d, .flush .errors) else none
  | .errors =>
    some ({ d with errors := 0 },
      .flush (.unlock (if d.errors ≠ 0 then reportedError d.errors else 0)))
  | .unlock r => some ({ d with ioMutex := none }, .ret r)

/-- A step of `skel_disconnect`. `usb_kill_anchored_urbs` returns when nothing of the anchor is
in flight. -/
def disconnectStep (d : Dev) (t : ℕ) : DisconnectPc → Option (Dev × Pc)
  | .lock =>
    if d.ioMutex = none then some ({ d with ioMutex := some t }, .disconnect .clear) else none
  | .clear => some ({ d with interface := false }, .disconnect .unlock)
  | .unlock => some ({ d with ioMutex := none }, .disconnect .kill)
  | .kill => if d.submitted = 0 then some ({ d with gone := true }, .ret 0) else none

def threadStep (d : Dev) (t : ℕ) (rv : ℤ) : Pc → Option (Dev × Pc)
  | .ret _ => none
  | .read count nonblock pc => readStep d t count nonblock rv pc
  | .write count nonblock pc => writeStep d t count nonblock rv pc
  | .flush pc => flushStep d t pc
  | .disconnect pc => disconnectStep d t pc

inductive Call
  | read (count : ℕ) (nonblock : Bool)
  | write (count : ℕ) (nonblock : Bool)
  | flush
  | disconnect
  deriving DecidableEq

/-- The beginning of a call in a thread that is in none. -/
def enter (d : Dev) (c : Call) : Pc → Option (Dev × Pc)
  | .ret _ =>
    match c with
    | .read count nonblock => some (d, if count = 0 then .ret 0 else .read count nonblock .lock)
    | .write count nonblock => some (d, if count = 0 then .ret 0 else .write count nonblock .down)
    | .flush => some (d, .flush .lock)
    | .disconnect => if d.bound then some ({ d with bound := false }, .disconnect .lock) else none
  | _ => none

/-- A signal ends the waits that can be interrupted. -/
def interrupt (d : Dev) : Pc → Option (Dev × Pc)
  | .read _ _ .lock => some (d, .ret (-EINTR))
  | .read count nonblock .wait => some (d, .read count nonblock (.unlock (-ERESTARTSYS)))
  | .write _ false .down => some (d, .ret (-ERESTARTSYS))
  | _ => none

/-! ### Completions -/

/-- The status is one that a handler writes to the log. -/
def Reported (status : ℤ) : Prop :=
  status ≠ 0 ∧ ¬ (status = -ENOENT ∨ status = -ECONNRESET ∨ status = -ESHUTDOWN)

instance (status : ℤ) : Decidable (Reported status) := inferInstanceAs (Decidable (_ ∧ _))

def Dev.log (d : Dev) (status : ℤ) : Dev := if Reported status then d.deref else d

/-- `skel_read_bulk_callback`, with what the transfer has put into the buffer. -/
def readCallback (d : Dev) (status : ℤ) (data : List UInt8) : Dev :=
  let b := { d.bulkIn with
    buffer := store d.bulkIn.buffer 0 data
    urb := none
    ongoingRead := false }
  if status ≠ 0 then { d.log status with errors := status, bulkIn := b }
  else
    { d with
      bulkIn := { b with filled := data.length, delivered := d.bulkIn.delivered ++ data } }

/-- `skel_write_bulk_callback`. -/
def writeCallback (d : Dev) (status : ℤ) : Dev :=
  let d' := { d with submitted := d.submitted - 1, limitSem := d.limitSem + 1 }
  if status ≠ 0 then { d'.log status with errors := status } else d'

/-! ### The system -/

inductive Act
  | call (t : ℕ) (c : Call)
  | run (t : ℕ) (rv : ℤ)
  | signal (t : ℕ)
  | readDone (status : ℤ) (data : List UInt8)
  | writeDone (status : ℤ)
  deriving DecidableEq

/-- The thread `t` goes on to the device and the program point of `r`. -/
def St.goto (s : St) (t : ℕ) (r : Dev × Pc) : St := ⟨r.1, Function.update s.pc t r.2⟩

def step (s : St) : Act → Option St
  | .call t c => (enter s.dev c (s.pc t)).map (s.goto t)
  | .run t rv => (threadStep s.dev t rv (s.pc t)).map (s.goto t)
  | .signal t => (interrupt s.dev (s.pc t)).map (s.goto t)
  | .readDone status data =>
    -- no more data than was asked for
    s.dev.bulkIn.urb.bind fun n =>
      if data.length ≤ n then some { s with dev := readCallback s.dev status data } else none
  | .writeDone status =>
    if 0 < s.dev.submitted then some { s with dev := writeCallback s.dev status } else none

/-! ### The section of the mutex -/

def ReadPc.locked : ReadPc → Bool
  | .lock => false
  | _ => true

def WritePc.locked : WritePc → Bool
  | .check | .submit | .unlock _ => true
  | _ => false

def FlushPc.locked : FlushPc → Bool
  | .lock => false
  | _ => true

def DisconnectPc.locked : DisconnectPc → Bool
  | .clear | .unlock => true
  | _ => false

def Pc.locked : Pc → Bool
  | .ret _ => false
  | .read _ _ pc => pc.locked
  | .write _ _ pc => pc.locked
  | .flush pc => pc.locked
  | .disconnect pc => pc.locked

section Moves

variable {d d' : Dev} {t : ℕ} {rv : ℤ} {p p' : Pc}

lemma readStep_moves {count : ℕ} {nonblock : Bool} {pc : ReadPc}
    (h : readStep d t count nonblock rv pc = some (d', p')) :
    Moves Pc.locked t (.read count nonblock pc) p' d.ioMutex d'.ioMutex := by
  cases pc with
  | lock =>
    obtain ⟨hfree, h⟩ := Option.ite_none_right_eq_some.mp h
    cases h
    rw [hfree]
    exact .enter
  | check =>
    cases h
    exact .stay (by split <;> rfl)
  | retry =>
    cases h
    exact .stay (by split <;> [split; skip] <;> rfl)
  | wait =>
    obtain ⟨-, h⟩ := Option.ite_none_left_eq_some.mp h
    cases h
    exact .stay rfl
  | errors =>
    simp only [readStep] at h
    split at h <;> cases h <;> exact .stay rfl
  | filled =>
    cases h
    exact .stay (by split <;> rfl)
  | copy available =>
    cases h
    exact .stay (by split <;> rfl)
  | start n next =>
    cases h
    exact .stay rfl
  | clear n next =>
    cases h
    exact .stay rfl
  | submit n next =>
    simp only [readStep] at h
    split at h
    · cases h
      exact .stay rfl
    · obtain ⟨-, h⟩ := Option.ite_none_right_eq_some.mp h
      cases h
      exact .stay (by cases next <;> rfl)
  | failed e next =>
    cases h
    exact .stay rfl
  | unlock r =>
    cases h
    exact .leave rfl rfl

lemma writeStep_moves {count : ℕ} {nonblock : Bool} {pc : WritePc}
    (h : writeStep d t count nonblock rv pc = some (d', p')) :
    Moves Pc.locked t (.write count nonblock pc) p' d.ioMutex d'.ioMutex := by
  cases pc with
  | down =>
    simp only [writeStep] at h
    split at h
    · cases h
      exact .stay rfl
    · obtain ⟨-, h⟩ := Option.ite_none_right_eq_some.mp h
      cases h
      exact .stay rfl
  | errors =>
    simp only [writeStep] at h
    split at h <;> cases h <;> exact .stay rfl
  | prepare =>
    cases h
    exact .stay (by split <;> rfl)
  | lock =>
    obtain ⟨hfree, h⟩ := Option.ite_none_right_eq_some.mp h
    cases h
    rw [hfree]
    exact .enter
  | check =>
    simp only [writeStep] at h
    split at h
    · cases h
      exact .stay rfl
    · cases h
      exact .leave rfl rfl
  | submit =>
    simp only [writeStep] at h
    split at h <;> cases h <;> exact .stay rfl
  | unlock r =>
    cases h
    exact .leave rfl (by split <;> rfl)
  | report r =>
    cases h
    exact .stay rfl
  | up r =>
    cases h
    exact .stay rfl

lemma flushStep_moves {pc : FlushPc} (h : flushStep d t pc = some (d', p')) :
    Moves Pc.locked t (.flush pc) p' d.ioMutex d'.ioMutex := by
  cases pc with
  | lock =>
    obtain ⟨hfree, h⟩ := Option.ite_none_right_eq_some.mp h
    cases h
    rw [hfree]
    exact .enter
  | drain =>
    obtain ⟨-, h⟩ := Option.ite_none_right_eq_some.mp h
    cases h
    exact .stay rfl
  | killUrb =>
    obtain ⟨-, h⟩ := Option.ite_none_right_eq_some.mp h
    cases h
    exact .stay rfl
  | errors =>
    cases h
    exact .stay rfl
  | unlock r =>
    cases h
    exact .leave rfl rfl

lemma disconnectStep_moves {pc : DisconnectPc} (h : disconnectStep d t pc = some (d', p')) :
    Moves Pc.locked t (.disconnect pc) p' d.ioMutex d'.ioMutex := by
  cases pc with
  | lock =>
    obtain ⟨hfree, h⟩ := Option.ite_none_right_eq_some.mp h
    cases h
    rw [hfree]
    exact .enter
  | clear =>
    cases h
    exact .stay rfl
  | unlock =>
    cases h
    exact .leave rfl rfl
  | kill =>
    obtain ⟨-, h⟩ := Option.ite_none_right_eq_some.mp h
    cases h
    exact .stay rfl

lemma threadStep_moves (h : threadStep d t rv p = some (d', p')) :
    Moves Pc.locked t p p' d.ioMutex d'.ioMutex := by
  cases p with
  | ret r => cases h
  | read count nonblock pc => exact readStep_moves h
  | write count nonblock pc => exact writeStep_moves h
  | flush pc => exact flushStep_moves h
  | disconnect pc => exact disconnectStep_moves h

lemma enter_cases {c : Call} (h : enter d c p = some (d', p')) :
    p.locked = false ∧ p'.locked = false ∧ ∃ b, d' = { d with bound := b } := by
  cases p with
  | ret r =>
    cases c with
    | read count nonblock =>
      cases h
      exact ⟨rfl, by split <;> rfl, d.bound, rfl⟩
    | write count nonblock =>
      cases h
      exact ⟨rfl, by split <;> rfl, d.bound, rfl⟩
    | flush =>
      cases h
      exact ⟨rfl, rfl, d.bound, rfl⟩
    | disconnect =>
      obtain ⟨-, h⟩ := Option.ite_none_right_eq_some.mp h
      cases h
      exact ⟨rfl, rfl, false, rfl⟩
  | read count nonblock pc => cases h
  | write count nonblock pc => cases h
  | flush pc => cases h
  | disconnect pc => cases h

lemma interrupt_cases (h : interrupt d p = some (d', p')) :
    d' = d ∧ p'.locked = p.locked ∧
      ((∃ r, p' = .ret r) ∨ ∃ count nonblock r, p' = .read count nonblock (.unlock r)) := by
  unfold interrupt at h
  split at h
  · cases h
    exact ⟨rfl, rfl, Or.inl ⟨_, rfl⟩⟩
  · cases h
    exact ⟨rfl, rfl, Or.inr ⟨_, _, _, rfl⟩⟩
  · cases h
    exact ⟨rfl, rfl, Or.inl ⟨_, rfl⟩⟩
  · cases h

end Moves

/-! ### What a step can do -/

inductive Step (s : St) : Act → St → Prop
  | call {t : ℕ} {c : Call} {d' : Dev} {p' : Pc} (h : enter s.dev c (s.pc t) = some (d', p')) :
    Step s (.call t c) (s.goto t (d', p'))
  | run {t : ℕ} {rv : ℤ} {d' : Dev} {p' : Pc}
    (h : threadStep s.dev t rv (s.pc t) = some (d', p')) :
    Step s (.run t rv) (s.goto t (d', p'))
  | signal {t : ℕ} {d' : Dev} {p' : Pc} (h : interrupt s.dev (s.pc t) = some (d', p')) :
    Step s (.signal t) (s.goto t (d', p'))
  | readDone {status : ℤ} {data : List UInt8} {n : ℕ} (hurb : s.dev.bulkIn.urb = some n)
    (hlen : data.length ≤ n) :
    Step s (.readDone status data) { s with dev := readCallback s.dev status data }
  | writeDone {status : ℤ} (hpos : 0 < s.dev.submitted) :
    Step s (.writeDone status) { s with dev := writeCallback s.dev status }

lemma step_cases {s s' : St} {a : Act} (h : step s a = some s') : Step s a s' := by
  cases a with
  | call t c =>
    obtain ⟨⟨d', p'⟩, hr, rfl⟩ := Option.map_eq_some_iff.mp h
    exact .call hr
  | run t rv =>
    obtain ⟨⟨d', p'⟩, hr, rfl⟩ := Option.map_eq_some_iff.mp h
    exact .run hr
  | signal t =>
    obtain ⟨⟨d', p'⟩, hr, rfl⟩ := Option.map_eq_some_iff.mp h
    exact .signal hr
  | readDone status data =>
    obtain ⟨n, hn, h⟩ := Option.bind_eq_some_iff.mp h
    obtain ⟨hlen, h⟩ := Option.ite_none_right_eq_some.mp h
    cases h
    exact .readDone hn hlen
  | writeDone status =>
    obtain ⟨hpos, h⟩ := Option.ite_none_right_eq_some.mp h
    cases h
    exact .writeDone hpos

/-- The threads inside the section hold the mutex. -/
def St.Exclusive (s : St) : Prop := Mutex.Exclusive Pc.locked s.dev.ioMutex s.pc

lemma ioMutex_readCallback (d : Dev) (status : ℤ) (data : List UInt8) :
    (readCallback d status data).ioMutex = d.ioMutex := by
  unfold readCallback Dev.log Dev.deref
  split <;> [split; skip] <;> rfl

lemma ioMutex_writeCallback (d : Dev) (status : ℤ) :
    (writeCallback d status).ioMutex = d.ioMutex := by
  unfold writeCallback Dev.log Dev.deref
  split <;> [split; skip] <;> rfl

lemma exclusive_init (maxp : BitVec 16) : (init maxp).Exclusive := fun t ht => by cases ht

lemma exclusive_step {s s' : St} {a : Act} (hx : s.Exclusive) (h : Step s a s') :
    s'.Exclusive := by
  cases h with
  | call h =>
    obtain ⟨hp, hp', b, rfl⟩ := enter_cases h
    exact hx.step (.stay (hp'.trans hp.symm))
  | run h => exact hx.step (threadStep_moves h)
  | signal h =>
    obtain ⟨rfl, hlocked, -⟩ := interrupt_cases h
    exact hx.step (.stay hlocked)
  | readDone =>
    unfold St.Exclusive
    rw [ioMutex_readCallback]
    exact hx
  | writeDone =>
    unfold St.Exclusive
    rw [ioMutex_writeCallback]
    exact hx

end LinuxSamples.UsbSkel
