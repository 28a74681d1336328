import LinuxSamples.Run
import LinuxSamples.CondVar
import LinuxSamples.Chain

/-!
The pipeline of `pipe.c`.

There are `n + 1` stages, 0 to `n`. Every stage but the last has a thread, which keeps the
mutex of its stage for ever except in the wait for `avail`: it takes the mutex of the next stage
in `pipe_send` while it holds its own, and it sleeps there, on `ready` of the next stage, still
holding its own. So the mutex of a stage can be taken by others exactly when the thread of
the stage does not hold it, and all other sections are atomic. The last stage has no thread; any
number of threads call `pipe_start` and `pipe_result`.
-/

namespace LinuxSamples.Pipe

open LinuxSamples.CondVar

/-- A value brought back into the range of a `long` of 64 bits. -/
def long (x : ℤ) : ℤ := Int.bmod x (2 ^ 64)

/-- What a stage passes on for the value `x`. -/
def incr (x : ℤ) : ℤ := long (x + 1)

/-- Where the thread of a stage is in `pipe_stage`. -/
inductive Thr
  | start
  | avail (woken : Bool)
  /-- in `pipe_send` to the next stage, before the lock -/
  | send (data : ℤ)
  | ready (data : ℤ) (woken : Bool)
  /-- back from `pipe_send` -/
  | sent
  deriving DecidableEq, Repr

/-- The thread holds the mutex of its own stage. -/
def Thr.holds : Thr → Bool
  | .start => false
  | .avail _ => false
  | _ => true

/-- The thread goes on when it gets the mutex of its own stage. -/
def Thr.locks : Thr → Bool
  | .start => true
  | .avail woken => woken
  | _ => false

/-- What the thread sends when it gets the mutex of the next stage. -/
def Thr.sends : Thr → Option ℤ
  | .send data => some data
  | .ready data true => some data
  | _ => none

def Thr.wakeAvail : Thr → Thr
  | .avail _ => .avail true
  | x => x

def Thr.wakeReady : Thr → Thr
  | .ready data _ => .ready data true
  | x => x

def Thr.spurious : Thr → Option Thr
  | .avail false => some (.avail true)
  | .ready data false => some (.ready data true)
  | _ => none

/-- A caller of `pipe_start` and `pipe_result`. -/
inductive Caller
  | out
  /-- in `pipe_send` to the head, before the lock -/
  | start (value : ℤ)
  | startReady (value : ℤ) (woken : Bool)
  /-- in `pipe_result` with `empty` set -/
  | empty
  /-- in `pipe_result`, before the lock of the tail -/
  | result
  | resultAvail (woken : Bool)
  deriving DecidableEq, Repr

/-- What the caller sends when it gets the mutex of the head. -/
def Caller.starts : Caller → Option ℤ
  | .start value => some value
  | .startReady value true => some value
  | _ => none

/-- The caller looks for a result when it gets the mutex of the tail. -/
def Caller.takes : Caller → Bool
  | .result => true
  | .resultAvail woken => woken
  | _ => false

/-- The caller sleeps on `ready` of the head, or has been woken there. -/
def Caller.atReady (woken : Bool) : Caller → Bool
  | .startReady _ w => w = woken
  | _ => false

/-- The caller sleeps on `avail` of the tail, or has been woken there. -/
def Caller.atAvail (woken : Bool) : Caller → Bool
  | .resultAvail w => w = woken
  | _ => false

def Caller.wake : Caller → Caller
  | .startReady value _ => .startReady value true
  | .resultAvail _ => .resultAvail true
  | x => x

/-- The stages, their threads, the callers, and a record of the values stored at the head, of the
results taken at the tail, and of the calls that were counted. -/
structure St (ι : Type) where
  dataReady : ℕ → Bool
  data : ℕ → ℤ
  active : ℤ
  thr : ℕ → Thr
  caller : ι → Caller
  stored : List ℤ
  results : List ℤ
  started : ℕ
  admitted : ℕ

/-- A step of the thread of stage `j` or of the caller `i`; `c` is the caller that a signal
wakes. -/
inductive Act (ι : Type)
  | stageLock (j : ℕ)
  | stageSend (j : ℕ) (c : Option ι)
  | stageDone (j : ℕ) (c : Option ι)
  | startCall (i : ι) (value : ℤ)
  | startSend (i : ι) (c : Option ι)
  | resultCall (i : ι)
  | resultEmpty (i : ι)
  | resultTake (i : ι) (c : Option ι)
  | spuriousStage (j : ℕ)
  | spuriousCaller (i : ι)
  deriving DecidableEq, Repr

variable {ι : Type} [Fintype ι] [DecidableEq ι]

def St.setThr (s : St ι) (j : ℕ) (x : Thr) : St ι := { s with thr := Function.update s.thr j x }

def St.setCaller (s : St ι) (i : ι) (x : Caller) : St ι :=
  { s with caller := Function.update s.caller i x }

/-- The mutex of stage `k` can be taken by a thread other than that of the stage. -/
def St.free (n : ℕ) (s : St ι) (k : ℕ) : Bool := k < n → (s.thr k).holds = false

/-- `pthread_cond_signal` on `avail` of stage `k`: only its thread waits there, and on the last
stage callers of `pipe_result` do. -/
def signalAvail (n : ℕ) (s : St ι) (k : ℕ) (c : Option ι) : Option (St ι) :=
  if k < n then some (s.setThr k (s.thr k).wakeAvail)
  else (signal (Caller.atAvail false) Caller.wake s.caller c).map fun f => { s with caller := f }

/-- `pthread_cond_signal` on `ready` of stage `k`: the thread of the stage before waits there,
and callers of `pipe_start` on the head. -/
def signalReady (s : St ι) (k : ℕ) (c : Option ι) : Option (St ι) :=
  match k with
  | 0 => (signal (Caller.atReady false) Caller.wake s.caller c).map fun f => { s with caller := f }
  | j + 1 => some (s.setThr j (s.thr j).wakeReady)

/-- `pipe_send` to stage `k`, behind its loop. -/
def pipeSend (n : ℕ) (s : St ι) (k : ℕ) (data : ℤ) (c : Option ι) : Option (St ι) :=
  signalAvail n { s with
    data := Function.update s.data k data
    dataReady := Function.update s.dataReady k true } k c

/-- The end of a use of the value of stage `k`. -/
def clear (s : St ι) (k : ℕ) (c : Option ι) : Option (St ι) :=
  signalReady { s with dataReady := Function.update s.dataReady k false } k c

/-- The threads and callers of a pipeline of `n` stages with threads. -/
def step (n : ℕ) (s : St ι) : Act ι → Option (St ι)
  | .stageLock j =>
    if j < n ∧ (s.thr j).locks then
      some (s.setThr j (if s.dataReady j then .send (incr (s.data j)) else .avail false))
    else none
  | .stageSend j c =>
    match (s.thr j).sends with
    | some data =>
      if j < n ∧ s.free n (j + 1) then
        if s.dataReady (j + 1) then some (s.setThr j (.ready data false))
        else pipeSend n (s.setThr j .sent) (j + 1) data c
      else none
    | none => none
  | .stageDone j c =>
    -- the loop goes round and waits for `avail`, as `data_ready` is 0 and the mutex held
    if j < n ∧ s.thr j = .sent then clear (s.setThr j (.avail false)) j c else none
  | .startCall i value =>
    if s.caller i = .out then
      some { s with
        caller := Function.update s.caller i (.start value)
        active := s.active + 1, started := s.started + 1 }
    else none
  | .startSend i c =>
    match (s.caller i).starts with
    | some value =>
      if s.free n 0 then
        if s.dataReady 0 then some (s.setCaller i (.startReady value false))
        else pipeSend n { s with
          caller := Function.update s.caller i .out, stored := s.stored ++ [value] } 0 value c
      else none
    | none => none
  | .resultCall i =>
    if s.caller i = .out then
      if s.active ≤ 0 then some (s.setCaller i .empty)
      else some { s with
        caller := Function.update s.caller i .result
        active := s.active - 1, admitted := s.admitted + 1 }
    else none
  | .resultEmpty i => if s.caller i = .empty then some (s.setCaller i .out) else none
  | .resultTake i c =>
    if (s.caller i).takes then
      if s.dataReady n then
        clear { s with
          caller := Function.update s.caller i .out, results := s.results ++ [s.data n] } n c
      else some (s.setCaller i (.resultAvail false))
    else none
  | .spuriousStage j => if j < n then (s.thr j).spurious.map (s.setThr j) else none
  | .spuriousCaller i =>
    if (s.caller i).atReady false ∨ (s.caller i).atAvail false then
      some (s.setCaller i (s.caller i).wake)
    else none

/-- The pipeline of `pipe_create`; the `data` fields are not initialised. -/
def init (data : ℕ → ℤ) : St ι :=
  ⟨fun _ => false, data, 0, fun _ => .start, fun _ => .out, [], [], 0, 0⟩

end LinuxSamples.Pipe
