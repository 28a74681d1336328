import LinuxSamples.Run
import LinuxSamples.CondVar

/-!
The read-write lock of `rwlock.c`: the sections its functions run under `rwl->mutex`, and
the system of any number of threads that use one lock.

A section ends by returning to the caller or in `pthread_cond_wait`, which gives the mutex
back; the thread takes it up again when it has been woken, or cancelled. All pthread calls
succeed, so the status variable is zero wherever the code tests it after such a call.
-/

namespace LinuxSamples.RwLock

open LinuxSamples.CondVar

def RWLOCK_VALID : ℤ := 0xfacade
def EBUSY : ℤ := 16
def EINVAL : ℤ := 22

/-- The fields of `rwlock_t` besides the mutex and the two condition variables. -/
@[ext]
structure Rwlock where
  valid : ℤ
  rActive : ℤ
  wActive : ℤ
  rWait : ℤ
  wWait : ℤ
  deriving DecidableEq, Repr

def rwlInit : Rwlock := ⟨RWLOCK_VALID, 0, 0, 0, 0⟩

/-- How a section gives up the mutex. -/
inductive Exit
  | ret (status : ℤ)
  | wait
  deriving DecidableEq, Repr

/-- What a section does to the condition variables. -/
inductive Notify
  | nobody | signalWrite | broadcastRead
  deriving DecidableEq, Repr

/-! ### The sections -/

def rwlReadlock (l : Rwlock) : Rwlock × Exit :=
  if l.valid ≠ RWLOCK_VALID then (l, .ret EINVAL)
  else if l.wActive ≠ 0 then ({ l with rWait := l.rWait + 1 }, .wait)
  else ({ l with rActive := l.rActive + 1 }, .ret 0)

/-- `rwl_readlock` after `pthread_cond_wait` has returned. -/
def rwlReadlockWoken (l : Rwlock) : Rwlock × Exit :=
  if l.wActive ≠ 0 then (l, .wait)
  else ({ l with rWait := l.rWait - 1, rActive := l.rActive + 1 }, .ret 0)

def rwlReadcleanup (l : Rwlock) : Rwlock := { l with rWait := l.rWait - 1 }

def rwlReadtrylock (l : Rwlock) : Rwlock × Exit :=
  if l.valid ≠ RWLOCK_VALID then (l, .ret EINVAL)
  else if l.wActive ≠ 0 then (l, .ret EBUSY)
  else ({ l with rActive := l.rActive + 1 }, .ret 0)

def rwlReadunlock (l : Rwlock) : Rwlock × Notify × ℤ :=
  if l.valid ≠ RWLOCK_VALID then (l, .nobody, EINVAL)
  else
    let l := { l with rActive := l.rActive - 1 }
    (l, if l.rActive = 0 ∧ 0 < l.wWait then .signalWrite else .nobody, 0)

def rwlWritelock (l : Rwlock) : Rwlock × Exit :=
  if l.valid ≠ RWLOCK_VALID then (l, .ret EINVAL)
  else if l.wActive ≠ 0 ∨ 0 < l.rActive then ({ l with wWait := l.wWait + 1 }, .wait)
  else ({ l with wActive := 1 }, .ret 0)

/-- `rwl_writelock` after `pthread_cond_wait` has returned. -/
def rwlWritelockWoken (l : Rwlock) : Rwlock × Exit :=
  if l.wActive ≠ 0 ∨ 0 < l.rActive then (l, .wait)
  else ({ l with wWait := l.wWait - 1, wActive := 1 }, .ret 0)

def rwlWritecleanup (l : Rwlock) : Rwlock := { l with wWait := l.wWait - 1 }

def rwlWritetrylock (l : Rwlock) : Rwlock × Exit :=
  if l.valid ≠ RWLOCK_VALID then (l, .ret EINVAL)
  else if l.wActive ≠ 0 ∨ 0 < l.rActive then (l, .ret EBUSY)
  else ({ l with wActive := 1 }, .ret 0)

def rwlWriteunlock (l : Rwlock) : Rwlock × Notify × ℤ :=
  if l.valid ≠ RWLOCK_VALID then (l, .nobody, EINVAL)
  else
    ({ l with wActive := 0 },
      if 0 < l.rWait then .broadcastRead
      else if 0 < l.wWait then .signalWrite else .nobody, 0)

/-! ### The threads -/

/-- A thread is outside the lock functions, in one of the two waits, or has been cancelled
and has run its handler. -/
inductive Pc
  | run
  | inRead (z : Sleep)
  | inWrite (z : Sleep)
  | gone
  deriving DecidableEq, Repr

/-- A thread: the read locks it holds, whether it holds the write lock, and where it is. -/
structure Thr where
  rd : ℕ
  wr : Bool
  pc : Pc
  deriving DecidableEq, Repr

structure St (ι : Type) where
  lock : Rwlock
  thr : ι → Thr

def init {ι : Type} : St ι := ⟨rwlInit, fun _ => ⟨0, false, .run⟩⟩

/-- One section, a wake-up out of turn, or a cancellation. The choice `c` of an unlock is
the writer that its `pthread_cond_signal` wakes, if it makes that call. -/
inductive Act (ι : Type)
  | readlock (t : ι)
  | readtrylock (t : ι)
  | readunlock (t : ι) (c : Option ι)
  | writelock (t : ι)
  | writetrylock (t : ι)
  | writeunlock (t : ι) (c : Option ι)
  | resume (t : ι)
  | spurious (t : ι)
  | cancel (t : ι)
  deriving DecidableEq, Repr

/-- The thread after a section of a read lock function. -/
def Thr.afterRead (x : Thr) : Exit → Thr
  | .ret status => { x with rd := if status = 0 then x.rd + 1 else x.rd, pc := .run }
  | .wait => { x with pc := .inRead .blocked }

/-- The thread after a section of a write lock function. -/
def Thr.afterWrite (x : Thr) : Exit → Thr
  | .ret status => { x with wr := if status = 0 then true else x.wr, pc := .run }
  | .wait => { x with pc := .inWrite .blocked }

def Thr.wake (x : Thr) : Thr :=
  match x.pc with
  | .inRead .blocked => { x with pc := .inRead .woken }
  | .inWrite .blocked => { x with pc := .inWrite .woken }
  | _ => x

def Thr.blockedR (x : Thr) : Bool := x.pc = .inRead .blocked
def Thr.blockedW (x : Thr) : Bool := x.pc = .inWrite .blocked

variable {ι : Type} [Fintype ι] [DecidableEq ι]

def notify (n : Notify) (f : ι → Thr) (c : Option ι) : Option (ι → Thr) :=
  match n with
  | .nobody => if c = none then some f else none
  | .signalWrite => signal Thr.blockedW Thr.wake f c
  | .broadcastRead => if c = none then some (broadcast Thr.blockedR Thr.wake f) else none

def step (s : St ι) : Act ι → Option (St ι)
  | .readlock t =>
    if (s.thr t).pc = .run then
      let r := rwlReadlock s.lock
      some ⟨r.1, Function.update s.thr t ((s.thr t).afterRead r.2)⟩
    else none
  | .readtrylock t =>
    if (s.thr t).pc = .run then
      let r := rwlReadtrylock s.lock
      some ⟨r.1, Function.update s.thr t ((s.thr t).afterRead r.2)⟩
    else none
  | .readunlock t c =>
    -- unlocks match: only a thread that holds a read lock releases one
    if (s.thr t).pc = .run ∧ 0 < (s.thr t).rd then
      let r := rwlReadunlock s.lock
      let x := { s.thr t with rd := (s.thr t).rd - 1 }
      (notify r.2.1 (Function.update s.thr t x) c).map fun f => ⟨r.1, f⟩
    else none
  | .writelock t =>
    if (s.thr t).pc = .run then
      let r := rwlWritelock s.lock
      some ⟨r.1, Function.update s.thr t ((s.thr t).afterWrite r.2)⟩
    else none
  | .writetrylock t =>
    if (s.thr t).pc = .run then
      let r := rwlWritetrylock s.lock
      some ⟨r.1, Function.update s.thr t ((s.thr t).afterWrite r.2)⟩
    else none
  | .writeunlock t c =>
    if (s.thr t).pc = .run ∧ (s.thr t).wr = true then
      let r := rwlWriteunlock s.lock
      let x := { s.thr t with wr := false }
      (notify r.2.1 (Function.update s.thr t x) c).map fun f => ⟨r.1, f⟩
    else none
  | .resume t =>
    match (s.thr t).pc with
    | .inRead .woken =>
      let r := rwlReadlockWoken s.lock
      some ⟨r.1, Function.update s.thr t ((s.thr t).afterRead r.2)⟩
    | .inWrite .woken =>
      let r := rwlWritelockWoken s.lock
      some ⟨r.1, Function.update s.thr t ((s.thr t).afterWrite r.2)⟩
    | .inRead .cancelled =>
      some ⟨rwlReadcleanup s.lock, Function.update s.thr t { s.thr t with pc := .gone }⟩
    | .inWrite .cancelled =>
      some ⟨rwlWritecleanup s.lock, Function.update s.thr t { s.thr t with pc := .gone }⟩
    | _ => none
  | .spurious t =>
    if (s.thr t).blockedR ∨ (s.thr t).blockedW then
      some { s with thr := Function.update s.thr t (s.thr t).wake }
    else none
  | .cancel t =>
    -- the thread leaves the condition variable at once and has still to retake the mutex
    match (s.thr t).pc with
    | .inRead z =>
      if z = .cancelled then none
      else some { s with thr := Function.update s.thr t { s.thr t with pc := .inRead .cancelled } }
    | .inWrite z =>
      if z = .cancelled then none
      else some { s with thr := Function.update s.thr t { s.thr t with pc := .inWrite .cancelled } }
    | _ => none

/-! ### What a section and a step can do -/

/-- How a section of a read lock function can end; `waits` says whether the thread comes from the
wait, so that it is counted in `r_wait`. -/
inductive ReadSection (l : Rwlock) (waits : Bool) : Rwlock × Exit → Prop
  | got (hw : l.wActive = 0) :
    ReadSection l waits
      ({ l with rActive := l.rActive + 1, rWait := l.rWait - if waits then 1 else 0 }, .ret 0)
  | refused (hno : waits = false) (hw : l.wActive ≠ 0) : ReadSection l waits (l, .ret EBUSY)
  | wait (hw : l.wActive ≠ 0) :
    ReadSection l waits ({ l with rWait := l.rWait + if waits then 0 else 1 }, .wait)

/-- The same for the write lock functions. -/
inductive WriteSection (l : Rwlock) (waits : Bool) : Rwlock × Exit → Prop
  | got (hw : l.wActive = 0) (hr : ¬ 0 < l.rActive) :
    WriteSection l waits
      ({ l with wActive := 1, wWait := l.wWait - if waits then 1 else 0 }, .ret 0)
  | refused (hno : waits = false) (hheld : l.wActive ≠ 0 ∨ 0 < l.rActive) :
    WriteSection l waits (l, .ret EBUSY)
  | wait (hheld : l.wActive ≠ 0 ∨ 0 < l.rActive) :
    WriteSection l waits ({ l with wWait := l.wWait + if waits then 0 else 1 }, .wait)

section Sections

variable {l : Rwlock}

lemma rwlReadlock_cases (h : l.valid = RWLOCK_VALID) : ReadSection l false (rwlReadlock l) := by
  by_cases hw : l.wActive = 0
  · have hgot : ReadSection l false _ := .got hw
    simpa [rwlReadlock, h, hw] using hgot
  · have hwait : ReadSection l false _ := .wait hw
    simpa [rwlReadlock, h, hw] using hwait

lemma rwlReadlockWoken_cases : ReadSection l true (rwlReadlockWoken l) := by
  by_cases hw : l.wActive = 0
  · have hgot : ReadSection l true _ := .got hw
    simpa [rwlReadlockWoken, hw] using hgot
  · have hwait : ReadSection l true _ := .wait hw
    simpa [rwlReadlockWoken, hw] using hwait

lemma rwlReadtrylock_cases (h : l.valid = RWLOCK_VALID) :
    ReadSection l false (rwlReadtrylock l) := by
  by_cases hw : l.wActive = 0
  · have hgot : ReadSection l false _ := .got hw
    simpa [rwlReadtrylock, h, hw] using hgot
  · have hbusy : ReadSection l false _ := .refused rfl hw
    simpa [rwlReadtrylock, h, hw] using hbusy

lemma rwlWritelock_cases (h : l.valid = RWLOCK_VALID) : WriteSection l false (rwlWritelock l) := by
  by_cases hheld : l.wActive ≠ 0 ∨ 0 < l.rActive
  · have hwait : WriteSection l false _ := .wait hheld
    simpa [rwlWritelock, h, hheld] using hwait
  · have hgot : WriteSection l false _ := .got (by tauto) (by tauto)
    simpa [rwlWritelock, h, hheld] using hgot

lemma rwlWritelockWoken_cases : WriteSection l true (rwlWritelockWoken l) := by
  by_cases hheld : l.wActive ≠ 0 ∨ 0 < l.rActive
  · have hwait : WriteSection l true _ := .wait hheld
    simpa [rwlWritelockWoken, hheld] using hwait
  · have hgot : WriteSection l true _ := .got (by tauto) (by tauto)
    simpa [rwlWritelockWoken, hheld] using hgot

lemma rwlWritetrylock_cases (h : l.valid = RWLOCK_VALID) :
    WriteSection l false (rwlWritetrylock l) := by
  by_cases hheld : l.wActive ≠ 0 ∨ 0 < l.rActive
  · have hbusy : WriteSection l false _ := .refused rfl hheld
    simpa [rwlWritetrylock, h, hheld] using hbusy
  · have hgot : WriteSection l false _ := .got (by tauto) (by tauto)
    simpa [rwlWritetrylock, h, hheld] using hgot

end Sections

/-- Thread `t` has gone through a section of a read lock function. -/
def St.afterRead (s : St ι) (t : ι) (r : Rwlock × Exit) : St ι :=
  ⟨r.1, Function.update s.thr t ((s.thr t).afterRead r.2)⟩

/-- Thread `t` has gone through a section of a write lock function. -/
def St.afterWrite (s : St ι) (t : ι) (r : Rwlock × Exit) : St ι :=
  ⟨r.1, Function.update s.thr t ((s.thr t).afterWrite r.2)⟩

inductive Step (s : St ι) : Act ι → St ι → Prop
  | readlock {t : ι} (hpc : (s.thr t).pc = .run) :
    Step s (.readlock t) (s.afterRead t (rwlReadlock s.lock))
  | readtrylock {t : ι} (hpc : (s.thr t).pc = .run) :
    Step s (.readtrylock t) (s.afterRead t (rwlReadtrylock s.lock))
  | readRetry {t : ι} (hpc : (s.thr t).pc = .inRead .woken) :
    Step s (.resume t) (s.afterRead t (rwlReadlockWoken s.lock))
  | readCleanup {t : ι} (hpc : (s.thr t).pc = .inRead .cancelled) :
    Step s (.resume t)
      ⟨rwlReadcleanup s.lock, Function.update s.thr t { s.thr t with pc := .gone }⟩
  | readunlock {t : ι} {c : Option ι} {f : ι → Thr} (hpc : (s.thr t).pc = .run)
    (hrd : 0 < (s.thr t).rd)
    (hf : notify (rwlReadunlock s.lock).2.1
      (Function.update s.thr t { s.thr t with rd := (s.thr t).rd - 1 }) c = some f) :
    Step s (.readunlock t c) ⟨(rwlReadunlock s.lock).1, f⟩
  | writelock {t : ι} (hpc : (s.thr t).pc = .run) :
    Step s (.writelock t) (s.afterWrite t (rwlWritelock s.lock))
  | writetrylock {t : ι} (hpc : (s.thr t).pc = .run) :
    Step s (.writetrylock t) (s.afterWrite t (rwlWritetrylock s.lock))
  | writeRetry {t : ι} (hpc : (s.thr t).pc = .inWrite .woken) :
    Step s (.resume t) (s.afterWrite t (rwlWritelockWoken s.lock))
  | writeCleanup {t : ι} (hpc : (s.thr t).pc = .inWrite .cancelled) :
    Step s (.resume t)
      ⟨rwlWritecleanup s.lock, Function.update s.thr t { s.thr t with pc := .gone }⟩
  | writeunlock {t : ι} {c : Option ι} {f : ι → Thr} (hpc : (s.thr t).pc = .run)
    (hwr : (s.thr t).wr = true)
    (hf : notify (rwlWriteunlock s.lock).2.1
      (Function.update s.thr t { s.thr t with wr := false }) c = some f) :
    Step s (.writeunlock t c) ⟨(rwlWriteunlock s.lock).1, f⟩
  | spurious {t : ι} (hb : (s.thr t).blockedR ∨ (s.thr t).blockedW) :
    Step s (.spurious t) { s with thr := Function.update s.thr t (s.thr t).wake }
  | cancelRead {t : ι} {z : Sleep} (hpc : (s.thr t).pc = .inRead z) (hz : z ≠ .cancelled) :
    Step s (.cancel t)
      { s with thr := Function.update s.thr t { s.thr t with pc := .inRead .cancelled } }
  | cancelWrite {t : ι} {z : Sleep} (hpc : (s.thr t).pc = .inWrite z) (hz : z ≠ .cancelled) :
    Step s (.cancel t)
      { s with thr := Function.update s.thr t { s.thr t with pc := .inWrite .cancelled } }

/-- **What a step can do.** -/
theorem step_cases {s s' : St ι} {a : Act ι} (h : step s a = some s') : Step s a s' := by
  cases a with
  | readlock t =>
    obtain ⟨hpc, h⟩ := Option.ite_none_right_eq_some.mp h
    obtain rfl := Option.some.inj h
    exact .readlock hpc
  | readtrylock t =>
    obtain ⟨hpc, h⟩ := Option.ite_none_right_eq_some.mp h
    obtain rfl := Option.some.inj h
    exact .readtrylock hpc
  | readunlock t c =>
    obtain ⟨⟨hpc, hrd⟩, h⟩ := Option.ite_none_right_eq_some.mp h
    obtain ⟨f, hf, rfl⟩ := Option.map_eq_some_iff.mp h
    exact .readunlock hpc hrd hf
  | writelock t =>
    obtain ⟨hpc, h⟩ := Option.ite_none_right_eq_some.mp h
    obtain rfl := Option.some.inj h
    exact .writelock hpc
  | writetrylock t =>
    obtain ⟨hpc, h⟩ := Option.ite_none_right_eq_some.mp h
    obtain rfl := Option.some.inj h
    exact .writetrylock hpc
  | writeunlock t c =>
    obtain ⟨⟨hpc, hwr⟩, h⟩ := Option.ite_none_right_eq_some.mp h
    obtain ⟨f, hf, rfl⟩ := Option.map_eq_some_iff.mp h
    exact .writeunlock hpc hwr hf
  | resume t =>
    simp only [step] at h
    split at h
    · obtain rfl := Option.some.inj h
      exact .readRetry ‹_›
    · obtain rfl := Option.some.inj h
      exact .writeRetry ‹_›
    · obtain rfl := Option.some.inj h
      exact .readCleanup ‹_›
    · obtain rfl := Option.some.inj h
      exact .writeCleanup ‹_›
    · cases h
  | spurious t =>
    obtain ⟨hb, h⟩ := Option.ite_none_right_eq_some.mp h
    obtain rfl := Option.some.inj h
    exact .spurious hb
  | cancel t =>
    simp only [step] at h
    split at h
    · obtain ⟨hz, h⟩ := Option.ite_none_left_eq_some.mp h
      obtain rfl := Option.some.inj h
      exact .cancelRead ‹_› hz
    · obtain ⟨hz, h⟩ := Option.ite_none_left_eq_some.mp h
      obtain rfl := Option.some.inj h
      exact .cancelWrite ‹_› hz
    · cases h

end LinuxSamples.RwLock
