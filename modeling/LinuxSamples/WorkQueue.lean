import LinuxSamples.Run
import LinuxSamples.CondVar
import LinuxSamples.Pool

/-!
The work queue of `workq.c`: its fields, what its functions do to them under the mutex, and the
system of the threads that call `workq_add` and `workq_destroy` and of the servers these
calls create.

The test of `valid` at the beginning of a call is made without the mutex, so it is a step of
its own; so are the call of the engine and its return. Waiting servers and a waiting
`workq_destroy` share the condition variable. The system also records what was added, dequeued,
passed to the engine and finished by it.
-/

namespace LinuxSamples.WorkQueue

open LinuxSamples.CondVar

def WORKQ_VALID : ℤ := 0xdec1992

/-- The fields of `workq_t` that change, and `parallelism`; `queue` is the list from `first` to
`last`. -/
structure Wq (α : Type) where
  queue : List α
  valid : ℤ
  quit : Bool
  parallelism : ℤ
  counter : ℤ
  idle : ℤ
  deriving DecidableEq, Repr

def workqInit (α : Type) (threads : ℤ) : Wq α := ⟨[], WORKQ_VALID, false, threads, 0, 0⟩

/-- A thread is a caller of `workq_add` and `workq_destroy`, in either of them or not, or a
server. The flag of a server is its variable `timedout`. -/
inductive Thr (α : Type)
  | out
  /-- in `workq_add`, behind the test of `valid` -/
  | adding (x : α)
  /-- in `workq_destroy`, behind the test of `valid` -/
  | destroying
  | destroyWait (woken : Bool)
  /-- in `workq_destroy`, behind the unlock -/
  | leaving
  /-- a server that waits for the mutex for the first time -/
  | start
  | wait (z : Timed)
  /-- a server that has dequeued `x` and unlocked the mutex -/
  | took (x : α) (timedout : Bool)
  | engine (x : α) (timedout : Bool)
  /-- a server that waits for the mutex after the engine has returned -/
  | back (timedout : Bool)
  | gone
  deriving DecidableEq, Repr

variable {α : Type}

def Thr.blocked : Thr α → Bool
  | .wait .blocked => true
  | .destroyWait woken => !woken
  | _ => false

def Thr.wake : Thr α → Thr α
  | .wait _ => .wait .woken
  | .destroyWait _ => .destroyWait true
  | x => x

/-! ### The sections of a server -/

/-- How a section of a server ends: the queue, whether it broadcasts, and the server. -/
abbrev Section (α : Type) := Wq α × Bool × Thr α

/-- The server shuts down because of `quit`. -/
def serverQuit (wq : Wq α) : Section α :=
  let wq := { wq with counter := wq.counter - 1 }
  (wq, wq.counter = 0, .gone)

/-- The server shuts down because it timed out. -/
def serverExpire (wq : Wq α) : Section α := ({ wq with counter := wq.counter - 1 }, false, .gone)

/-- From the head of the loop, or from a wait that returned zero. With nothing in the queue
the loop is left only because of `quit`, and then the server shuts down. -/
def serverTop (wq : Wq α) : Section α :=
  match wq.queue with
  | [] => if wq.quit then serverQuit wq else (wq, false, .wait .blocked)
  | x :: rest => ({ wq with queue := rest }, false, .took x false)

def serverTimedout (wq : Wq α) : Section α :=
  match wq.queue with
  | [] => if wq.quit then serverQuit wq else serverExpire wq
  | x :: rest => ({ wq with queue := rest }, false, .took x true)

/-- From the lock after the engine has returned: the two tests at the end of the loop. -/
def serverBack (wq : Wq α) (timedout : Bool) : Section α :=
  if wq.queue = [] ∧ wq.quit then serverQuit wq
  else if wq.queue = [] ∧ timedout then serverExpire wq
  else serverTop wq

/-- The section a server goes through when it gets the mutex. -/
def serverSection (wq : Wq α) : Thr α → Option (Section α)
  | .start => some (serverTop wq)
  | .wait .woken => some (serverTop wq)
  | .wait .timedout => some (serverTimedout wq)
  | .back timedout => some (serverBack wq timedout)
  | _ => none

def Thr.dequeued : Thr α → List α
  | .took x _ => [x]
  | _ => []

/-! ### The sections of the callers -/

/-- How `workq_add` sees to it that the element is served. -/
inductive Service
  | signal | create | nothing
  deriving DecidableEq, Repr

/-- `workq_add` under the mutex. -/
def workqAdd (wq : Wq α) (x : α) : Wq α × Service :=
  let wq := { wq with queue := wq.queue ++ [x] }
  if wq.idle > 0 then (wq, .signal)
  else if wq.counter < wq.parallelism then ({ wq with counter := wq.counter + 1 }, .create)
  else (wq, .nothing)

/-- `workq_destroy` in the loop that waits for the servers. -/
def destroyLoop (wq : Wq α) : Thr α := if wq.counter > 0 then .destroyWait false else .leaving

/-- `workq_destroy` under the mutex, with the flag for the broadcast. -/
def workqDestroy (wq : Wq α) : Section α :=
  let wq := { wq with valid := 0 }
  if wq.counter > 0 then
    let wq := { wq with quit := true }
    (wq, wq.idle > 0, destroyLoop wq)
  else (wq, false, .leaving)

/-! ### The system -/

structure St (α : Type) where
  wq : Wq α
  thr : List (Thr α)
  added : List α
  taken : List α
  called : List α
  returned : List α
  deriving DecidableEq, Repr

inductive Act (α : Type)
  | addCall (t : ℕ) (x : α)
  /-- `c` is the thread that the signal wakes -/
  | addLock (t : ℕ) (c : Option ℕ)
  | destroyCall (t : ℕ)
  | destroyLock (t : ℕ)
  | destroyReturn (t : ℕ)
  /-- a server, or a woken `workq_destroy`, gets the mutex -/
  | resume (t : ℕ)
  | callEngine (t : ℕ)
  | returnEngine (t : ℕ)
  | spurious (t : ℕ)
  | timeout (t : ℕ)
  deriving DecidableEq, Repr

/-- Thread `t` moves, and the threads that sleep are woken if `wake` says so. -/
def St.move (s : St α) (t : ℕ) (x : Thr α) (wake : Bool) : List (Thr α) :=
  if wake then (Pool.broadcast Thr.blocked Thr.wake s.thr).set t x else s.thr.set t x

def step (s : St α) : Act α → Option (St α)
  | .addCall t x =>
    match s.thr[t]? with
    | some .out =>
      -- otherwise the call returns `EINVAL`
      if s.wq.valid = WORKQ_VALID then some { s with thr := s.thr.set t (.adding x) } else some s
    | _ => none
  | .addLock t c =>
    match s.thr[t]? with
    | some (.adding x) =>
      let r := workqAdd s.wq x
      let thr := s.thr.set t .out
      match r.2 with
      | .signal => (Pool.signal Thr.blocked Thr.wake thr c).map fun thr =>
          { s with wq := r.1, thr := thr, added := s.added ++ [x] }
      | .create => some { s with wq := r.1, thr := thr ++ [.start], added := s.added ++ [x] }
      | .nothing => some { s with wq := r.1, thr := thr, added := s.added ++ [x] }
    | _ => none
  | .destroyCall t =>
    match s.thr[t]? with
    | some .out =>
      if s.wq.valid = WORKQ_VALID then some { s with thr := s.thr.set t .destroying } else some s
    | _ => none
  | .destroyLock t =>
    match s.thr[t]? with
    | some .destroying =>
      let r := workqDestroy s.wq
      some { s with wq := r.1, thr := s.move t r.2.2 r.2.1 }
    | _ => none
  | .destroyReturn t =>
    match s.thr[t]? with
    | some .leaving => some { s with thr := s.thr.set t .out }
    | _ => none
  | .resume t =>
    match s.thr[t]? with
    | some (.destroyWait true) => some { s with thr := s.thr.set t (destroyLoop s.wq) }
    | some x => (serverSection s.wq x).map fun r =>
        { s with wq := r.1, thr := s.move t r.2.2 r.2.1, taken := s.taken ++ r.2.2.dequeued }
    | none => none
  | .callEngine t =>
    match s.thr[t]? with
    | some (.took x timedout) =>
      some { s with thr := s.thr.set t (.engine x timedout), called := s.called ++ [x] }
    | _ => none
  | .returnEngine t =>
    match s.thr[t]? with
    | some (.engine x timedout) =>
      some { s with thr := s.thr.set t (.back timedout), returned := s.returned ++ [x] }
    | _ => none
  | .spurious t =>
    match s.thr[t]? with
    | some x => if x.blocked then some { s with thr := s.thr.set t x.wake } else none
    | none => none
  | .timeout t =>
    match s.thr[t]? with
    | some (.wait z) =>
      if z = .timedout then none else some { s with thr := s.thr.set t (.wait .timedout) }
    | _ => none

/-- A queue of `parallelism` at most `p`, and `n` threads that may use it. -/
def init (α : Type) (p : ℤ) (n : ℕ) : St α :=
  ⟨workqInit α p, List.replicate n .out, [], [], [], []⟩

/-! ### What a step can do -/

/-- The steps as rules, one for each way a section can go. -/
inductive Step (s : St α) : Act α → St α → Prop
  | addCall {t : ℕ} {x : α} (hx : s.thr[t]? = some .out) :
    Step s (.addCall t x) { s with thr := s.thr.set t (.adding x) }
  | addInvalid {t : ℕ} {x : α} (hx : s.thr[t]? = some .out) : Step s (.addCall t x) s
  | addSignal {t : ℕ} {c : Option ℕ} {x : α} {thr : List (Thr α)}
    (hx : s.thr[t]? = some (.adding x)) (hidle : s.wq.idle > 0)
    (hsig : Pool.signal Thr.blocked Thr.wake (s.thr.set t .out) c = some thr) :
    Step s (.addLock t c) { s with
      wq := { s.wq with queue := s.wq.queue ++ [x] }, thr := thr, added := s.added ++ [x] }
  | addCreate {t : ℕ} {c : Option ℕ} {x : α} (hx : s.thr[t]? = some (.adding x))
    (hroom : s.wq.counter < s.wq.parallelism) :
    Step s (.addLock t c) { s with
      wq := { s.wq with queue := s.wq.queue ++ [x], counter := s.wq.counter + 1 }
      thr := s.thr.set t .out ++ [.start], added := s.added ++ [x] }
  | addFull {t : ℕ} {c : Option ℕ} {x : α} (hx : s.thr[t]? = some (.adding x))
    (hroom : ¬ s.wq.counter < s.wq.parallelism) :
    Step s (.addLock t c) { s with
      wq := { s.wq with queue := s.wq.queue ++ [x] }, thr := s.thr.set t .out
      added := s.added ++ [x] }
  | destroyCall {t : ℕ} (hx : s.thr[t]? = some .out) :
    Step s (.destroyCall t) { s with thr := s.thr.set t .destroying }
  | destroyInvalid {t : ℕ} (hx : s.thr[t]? = some .out) : Step s (.destroyCall t) s
  | destroyLock {t : ℕ} (hx : s.thr[t]? = some .destroying) :
    Step s (.destroyLock t) { s with
      wq := (workqDestroy s.wq).1, thr := s.move t (workqDestroy s.wq).2.2 (workqDestroy s.wq).2.1 }
  | destroyReturn {t : ℕ} (hx : s.thr[t]? = some .leaving) :
    Step s (.destroyReturn t) { s with thr := s.thr.set t .out }
  | destroyLoop {t : ℕ} (hx : s.thr[t]? = some (.destroyWait true)) :
    Step s (.resume t) { s with thr := s.thr.set t (destroyLoop s.wq) }
  | serve {t : ℕ} {x : Thr α} {r : Section α} (hx : s.thr[t]? = some x)
    (hr : serverSection s.wq x = some r) :
    Step s (.resume t) { s with
      wq := r.1, thr := s.move t r.2.2 r.2.1, taken := s.taken ++ r.2.2.dequeued }
  | callEngine {t : ℕ} {x : α} {timedout : Bool} (hx : s.thr[t]? = some (.took x timedout)) :
    Step s (.callEngine t) { s with
      thr := s.thr.set t (.engine x timedout), called := s.called ++ [x] }
  | returnEngine {t : ℕ} {x : α} {timedout : Bool} (hx : s.thr[t]? = some (.engine x timedout)) :
    Step s (.returnEngine t) { s with
      thr := s.thr.set t (.back timedout), returned := s.returned ++ [x] }
  | spurious {t : ℕ} {x : Thr α} (hx : s.thr[t]? = some x) (hb : x.blocked) :
    Step s (.spurious t) { s with thr := s.thr.set t x.wake }
  | timeout {t : ℕ} {z : Timed} (hx : s.thr[t]? = some (.wait z)) :
    Step s (.timeout t) { s with thr := s.thr.set t (.wait .timedout) }

/-- **What a step can do.** -/
theorem step_cases {s s' : St α} {a : Act α} (h : step s a = some s') : Step s a s' := by
  cases a with
  | addLock t c =>
    simp only [step] at h
    split at h
    · next x hx =>
      by_cases hidle : s.wq.idle > 0
      · simp only [workqAdd, hidle, if_true] at h
        obtain ⟨thr, hsig, rfl⟩ := Option.map_eq_some_iff.mp h
        exact .addSignal hx hidle hsig
      · by_cases hroom : s.wq.counter < s.wq.parallelism
        · simp only [workqAdd, hidle, hroom, if_true, if_false, Option.some.injEq] at h
          subst h
          exact .addCreate hx hroom
        · simp only [workqAdd, hidle, hroom, if_false, Option.some.injEq] at h
          subst h
          exact .addFull hx hroom
    · cases h
  | addCall t x =>
    simp only [step] at h
    split at h
    · split at h <;> obtain rfl := Option.some.inj h
      · exact .addCall ‹_›
      · exact .addInvalid ‹_›
    · cases h
  | destroyCall t =>
    simp only [step] at h
    split at h
    · split at h <;> obtain rfl := Option.some.inj h
      · exact .destroyCall ‹_›
      · exact .destroyInvalid ‹_›
    · cases h
  | destroyLock t =>
    simp only [step] at h
    split at h
    · obtain rfl := Option.some.inj h
      exact .destroyLock ‹_›
    · cases h
  | destroyReturn t =>
    simp only [step] at h
    split at h
    · obtain rfl := Option.some.inj h
      exact .destroyReturn ‹_›
    · cases h
  | resume t =>
    simp only [step] at h
    split at h
    · obtain rfl := Option.some.inj h
      exact .destroyLoop ‹_›
    · next hx =>
      obtain ⟨r, hr, rfl⟩ := Option.map_eq_some_iff.mp h
      exact .serve hx hr
    · cases h
  | callEngine t =>
    simp only [step] at h
    split at h
    · obtain rfl := Option.some.inj h
      exact .callEngine ‹_›
    · cases h
  | returnEngine t =>
    simp only [step] at h
    split at h
    · obtain rfl := Option.some.inj h
      exact .returnEngine ‹_›
    · cases h
  | spurious t =>
    simp only [step] at h
    split at h
    · obtain ⟨hb, h⟩ := Option.ite_none_right_eq_some.mp h
      obtain rfl := Option.some.inj h
      exact .spurious ‹_› hb
    · cases h
  | timeout t =>
    simp only [step] at h
    split at h
    · obtain ⟨-, h⟩ := Option.ite_none_left_eq_some.mp h
      obtain rfl := Option.some.inj h
      exact .timeout ‹_›
    · cases h

end LinuxSamples.WorkQueue
