import LinuxSamples.Run
import LinuxSamples.CondVar

/-!
The barrier of `barrier.c`, used by exactly as many threads as its threshold says.

A thread remembers the value of `cycle` it found on entry and waits while `cycle` has that
value. The bit tells a round from the next one; that it cannot tell it from the round after
is harmless, because no thread can be two rounds behind another.
-/

namespace LinuxSamples.Barrier

open LinuxSamples.Run LinuxSamples.Tally LinuxSamples.CondVar

def BARRIER_VALID : ℤ := 0xdbcafe
def EINVAL : ℤ := 22

/-- The fields of `barrier_t` besides the mutex and the condition variable. -/
structure Bar where
  valid : ℤ
  threshold : ℤ
  counter : ℤ
  cycle : ℤ
  deriving DecidableEq, Repr

def barrierInit (count : ℤ) : Bar := ⟨BARRIER_VALID, count, count, 0⟩

/-- How a section under the mutex ends: with a return, or in `pthread_cond_wait`, the value
of the local variable `cycle` kept. -/
inductive Exit
  | ret (status : ℤ)
  | wait (cycle : ℤ)
  deriving DecidableEq, Repr

/-- `barrier_wait` up to the first wait. The flag says whether it broadcasts. -/
def barrierWait (b : Bar) : Bar × Bool × Exit :=
  if b.valid ≠ BARRIER_VALID then (b, false, .ret EINVAL)
  else
    let cycle := b.cycle
    let b := { b with counter := b.counter - 1 }
    if b.counter = 0 then
      ({ b with cycle := if b.cycle = 0 then 1 else 0, counter := b.threshold }, true, .ret (-1))
    else (b, false, .wait cycle)

/-- `barrier_wait` after `pthread_cond_wait` has returned. -/
def barrierWaitWoken (b : Bar) (cycle : ℤ) : Exit :=
  if cycle = b.cycle then .wait cycle else .ret 0

/-- A thread is outside `barrier_wait` or in its wait; cancellation is disabled there. -/
inductive Pc
  | out
  | inWait (cycle : ℤ) (woken : Bool)
  deriving DecidableEq, Repr

/-- A thread, with the number of calls it has entered and the statuses they returned. -/
structure Thr where
  pc : Pc
  entered : ℕ
  rets : List ℤ
  deriving DecidableEq, Repr

structure St (ι : Type) where
  bar : Bar
  thr : ι → Thr

inductive Act (ι : Type)
  | enter (t : ι)
  | resume (t : ι)
  | spurious (t : ι)
  deriving DecidableEq, Repr

def Thr.after (x : Thr) : Exit → Thr
  | .ret status => { x with pc := .out, rets := x.rets ++ [status] }
  | .wait cycle => { x with pc := .inWait cycle false }

def Thr.blocked (x : Thr) : Bool :=
  match x.pc with
  | .inWait _ false => true
  | _ => false

def Thr.wake (x : Thr) : Thr :=
  match x.pc with
  | .inWait cycle _ => { x with pc := .inWait cycle true }
  | .out => x

variable {ι : Type} [DecidableEq ι]

def step (s : St ι) : Act ι → Option (St ι)
  | .enter t =>
    if (s.thr t).pc = .out then
      let r := barrierWait s.bar
      let f := Function.update s.thr t
        (({ s.thr t with entered := (s.thr t).entered + 1 } : Thr).after r.2.2)
      some ⟨r.1, if r.2.1 then broadcast Thr.blocked Thr.wake f else f⟩
    else none
  | .resume t =>
    match (s.thr t).pc with
    | .inWait cycle true =>
      some { s with
        thr := Function.update s.thr t ((s.thr t).after (barrierWaitWoken s.bar cycle)) }
    | _ => none
  | .spurious t =>
    if (s.thr t).blocked then some { s with thr := Function.update s.thr t (s.thr t).wake }
    else none

def init [Fintype ι] : St ι := ⟨barrierInit (Fintype.card ι), fun _ => ⟨.out, 0, []⟩⟩

end LinuxSamples.Barrier
