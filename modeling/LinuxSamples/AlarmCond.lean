import LinuxSamples.Run
import LinuxSamples.CondVar
import Mathlib.Data.List.Sort

/-!
The alarm list of `alarm_cond.c`: the requests of the main thread and the alarm thread.

The alarm thread takes the first alarm off the list and waits for its time, with
`current_alarm` set to that time; an insertion that changes `current_alarm` sends it back to the
list. The value zero of `current_alarm` stands for "not busy", but it is also the time of an
alarm requested for second zero, and that alarm can hide an earlier change.
-/

namespace LinuxSamples.AlarmCond

open LinuxSamples.Run LinuxSamples.CondVar

/-- `alarm_t`. -/
structure Alarm where
  seconds : ℤ
  time : ℤ
  message : String
  deriving DecidableEq, Repr

/-- The order of `alarm_list`. -/
def Alarm.Before (a b : Alarm) : Prop := a.time ≤ b.time

instance : DecidableRel Alarm.Before := fun a b => inferInstanceAs (Decidable (a.time ≤ b.time))

instance : Std.Total Alarm.Before := ⟨fun a b => le_total a.time b.time⟩

instance : IsTrans Alarm Alarm.Before := ⟨fun _ _ _ => le_trans⟩

/-- `alarm_list` and `current_alarm`. -/
structure Shared where
  alarmList : List Alarm
  currentAlarm : ℤ

/-- The new alarm goes in front of the first one whose time is not before its own. -/
def linkIn (alarm : Alarm) (l : List Alarm) : List Alarm := l.orderedInsert Alarm.Before alarm

/-- `alarm_insert`. The flag says whether it signals. -/
def alarmInsert (m : Shared) (alarm : Alarm) : Shared × Bool :=
  if m.currentAlarm = 0 ∨ alarm.time < m.currentAlarm then
    (⟨linkIn alarm m.alarmList, alarm.time⟩, true)
  else (⟨linkIn alarm m.alarmList, m.currentAlarm⟩, false)

/-- The alarm thread has not got the mutex yet, is at the head of its loop and holds it, or is in
one of the two waits. -/
inductive Pc
  | start
  | top
  | listWait (woken : Bool)
  | timedWait (alarm : Alarm) (z : Timed)
  deriving DecidableEq, Repr

/-- The alarm thread is the only one that waits on `alarm_cond`. -/
def Pc.signal : Pc → Pc
  | .listWait _ => .listWait true
  | .timedWait alarm .blocked => .timedWait alarm .woken
  | pc => pc

/-- The alarm the thread has taken off the list. -/
def Pc.held : Pc → List Alarm
  | .timedWait alarm _ => [alarm]
  | _ => []

/-- The alarm whose timed wait the thread has been woken from. -/
def Pc.wokenFor : Pc → Option Alarm
  | .timedWait alarm .woken => some alarm
  | _ => none

/-- The program, the seconds since the Epoch, the alarms inserted so far, and those printed and
freed, with the second at which they were. -/
structure St where
  clock : ℕ
  mem : Shared
  pc : Pc
  inserted : List Alarm
  printed : List (Alarm × ℕ)

def St.print (s : St) (alarm : Alarm) : St :=
  { s with pc := .top, printed := s.printed ++ [(alarm, s.clock)] }

/-- `alarm_thread` from `while (alarm_list == NULL)` to the next wait or the end of the loop. -/
def alarmNext (s : St) : St :=
  match s.mem.alarmList with
  | [] => { s with pc := .listWait false }
  | alarm :: link =>
    if alarm.time > s.clock then
      { s with mem := ⟨link, alarm.time⟩, pc := .timedWait alarm .blocked }
    else ({ s with mem := ⟨link, s.mem.currentAlarm⟩ } : St).print alarm

inductive Act
  | tick (d : ℕ)
  /-- the main thread inserts an alarm -/
  | request (seconds : ℤ) (message : String)
  | lock
  /-- the alarm thread goes through its loop -/
  | loop
  /-- a wait of the alarm thread returns -/
  | resume
  | spurious
  /-- the deadline of the timed wait passes -/
  | timeout
  deriving DecidableEq, Repr

def step (s : St) : Act → Option St
  | .tick d => some { s with clock := s.clock + d }
  | .request seconds message =>
    -- the alarm thread has the mutex at the head of its loop
    if s.pc = .top then none
    else
      let alarm : Alarm := ⟨seconds, s.clock + seconds, message⟩
      let r := alarmInsert s.mem alarm
      some { s with
        mem := r.1
        pc := if r.2 then s.pc.signal else s.pc
        inserted := s.inserted ++ [alarm] }
  | .lock => if s.pc = .start then some { s with pc := .top } else none
  | .loop =>
    if s.pc = .top then some (alarmNext { s with mem := { s.mem with currentAlarm := 0 } })
    else none
  | .resume =>
    match s.pc with
    | .listWait true => some (alarmNext s)
    | .timedWait alarm .woken =>
      if s.mem.currentAlarm = alarm.time then some { s with pc := .timedWait alarm .blocked }
      else some { s with mem := (alarmInsert s.mem alarm).1, pc := .top }
    | .timedWait alarm .timedout => some (s.print alarm)
    | _ => none
  | .spurious =>
    match s.pc with
    | .listWait false => some { s with pc := .listWait true }
    | .timedWait alarm .blocked => some { s with pc := .timedWait alarm .woken }
    | _ => none
  | .timeout =>
    match s.pc with
    | .timedWait alarm z =>
      if alarm.time ≤ s.clock ∧ z ≠ .timedout then some { s with pc := .timedWait alarm .timedout }
      else none
    | _ => none

/-- The clock at the start of the program, and empty lists. -/
def init (clock : ℕ) : St := ⟨clock, ⟨[], 0⟩, .start, [], []⟩

/-- The steps as rules, one for each way a wait can end. -/
inductive Step (s : St) : Act → St → Prop
  | tick {d : ℕ} : Step s (.tick d) { s with clock := s.clock + d }
  | request {seconds : ℤ} {message : String} {alarm : Alarm}
    (halarm : alarm = ⟨seconds, s.clock + seconds, message⟩) :
    Step s (.request seconds message) { s with
      mem := (alarmInsert s.mem alarm).1
      pc := if (alarmInsert s.mem alarm).2 then s.pc.signal else s.pc
      inserted := s.inserted ++ [alarm] }
  | lock (hpc : s.pc = .start) : Step s .lock { s with pc := .top }
  | loop (hpc : s.pc = .top) :
    Step s .loop (alarmNext { s with mem := { s.mem with currentAlarm := 0 } })
  | listed (hpc : s.pc = .listWait true) : Step s .resume (alarmNext s)
  | unchanged {alarm : Alarm} (hpc : s.pc = .timedWait alarm .woken)
    (hcur : s.mem.currentAlarm = alarm.time) :
    Step s .resume { s with pc := .timedWait alarm .blocked }
  | changed {alarm : Alarm} (hpc : s.pc = .timedWait alarm .woken)
    (hcur : s.mem.currentAlarm ≠ alarm.time) :
    Step s .resume { s with mem := (alarmInsert s.mem alarm).1, pc := .top }
  | expired {alarm : Alarm} (hpc : s.pc = .timedWait alarm .timedout) :
    Step s .resume (s.print alarm)
  | spuriousList (hpc : s.pc = .listWait false) : Step s .spurious { s with pc := .listWait true }
  | spuriousTimed {alarm : Alarm} (hpc : s.pc = .timedWait alarm .blocked) :
    Step s .spurious { s with pc := .timedWait alarm .woken }
  | timeout {alarm : Alarm} {z : Timed} (hpc : s.pc = .timedWait alarm z)
    (hdue : alarm.time ≤ s.clock) : Step s .timeout { s with pc := .timedWait alarm .timedout }

/-- **What a step can do.** -/
theorem step_cases {s s' : St} {a : Act} (h : step s a = some s') : Step s a s' := by
  cases a with
  | tick d =>
    obtain rfl := Option.some.inj h
    exact .tick
  | request seconds message =>
    obtain ⟨-, h⟩ := Option.ite_none_left_eq_some.mp h
    obtain rfl := Option.some.inj h
    exact .request rfl
  | lock =>
    obtain ⟨hpc, h⟩ := Option.ite_none_right_eq_some.mp h
    obtain rfl := Option.some.inj h
    exact .lock hpc
  | loop =>
    obtain ⟨hpc, h⟩ := Option.ite_none_right_eq_some.mp h
    obtain rfl := Option.some.inj h
    exact .loop hpc
  | resume =>
    simp only [step] at h
    split at h
    · next hpc =>
      obtain rfl := Option.some.inj h
      exact .listed hpc
    · next hpc =>
      split at h
      · next hcur =>
        obtain rfl := Option.some.inj h
        exact .unchanged hpc hcur
      · next hcur =>
        obtain rfl := Option.some.inj h
        exact .changed hpc hcur
    · next hpc =>
      obtain rfl := Option.some.inj h
      exact .expired hpc
    · cases h
  | spurious =>
    simp only [step] at h
    split at h
    · next hpc =>
      obtain rfl := Option.some.inj h
      exact .spuriousList hpc
    · next hpc =>
      obtain rfl := Option.some.inj h
      exact .spuriousTimed hpc
    · cases h
  | timeout =>
    simp only [step] at h
    split at h
    · next hpc =>
      obtain ⟨⟨hdue, -⟩, h⟩ := Option.ite_none_right_eq_some.mp h
      obtain rfl := Option.some.inj h
      exact .timeout hpc hdue
    · cases h

/-- While the alarm thread sleeps, the list is empty, or nothing in it is due before the
deadline. -/
def Attentive (s : St) : Prop :=
  match s.pc with
  | .listWait false => s.mem.alarmList = []
  | .timedWait alarm .blocked => ∀ a ∈ s.mem.alarmList, alarm.time ≤ a.time
  | _ => True

/-- The list is in order, every alarm is in it, with the thread, or printed, none was printed
early, and the thread sleeps no longer than it may. -/
structure Delivers (s : St) : Prop where
  sorted : s.mem.alarmList.Pairwise Alarm.Before
  once : (s.printed.map Prod.fst ++ s.pc.held ++ s.mem.alarmList).Perm s.inserted
  onTime : ∀ p ∈ s.printed, p.1.time ≤ p.2
  attentive : Attentive s

/-- An insertion for `time` sets `current_alarm` back to the time of `alarm`, which it was not. -/
def Shared.SetBack (m : Shared) (time : ℤ) (alarm : Alarm) : Prop :=
  time = alarm.time ∧ m.currentAlarm ≠ alarm.time ∧
    (m.currentAlarm = 0 ∨ alarm.time < m.currentAlarm)

/-- The insertion does not set `current_alarm` back to the time the alarm thread, already woken
in its timed wait, is waiting for. -/
def KeepsChange (s : St) : Act → Prop
  | .request seconds _ => ∀ alarm ∈ s.pc.wokenFor, ¬ s.mem.SetBack (s.clock + seconds) alarm
  | _ => True

instance (m : Shared) (time : ℤ) (alarm : Alarm) : Decidable (m.SetBack time alarm) :=
  inferInstanceAs (Decidable (_ ∧ _))

instance (s : St) : (a : Act) → Decidable (KeepsChange s a)
  | .request seconds _ =>
    inferInstanceAs (Decidable (∀ alarm ∈ s.pc.wokenFor, ¬ s.mem.SetBack (s.clock + seconds) alarm))
  | .tick _ => isTrue trivial
  | .lock => isTrue trivial
  | .loop => isTrue trivial
  | .resume => isTrue trivial
  | .spurious => isTrue trivial
  | .timeout => isTrue trivial

end LinuxSamples.AlarmCond
