import LinuxSamples.Run
import LinuxSamples.Pool

/-!
Readers of a POSIX message queue that ask to be notified.

A notification is sent when a message comes to an empty queue and somebody is registered, and it
ends the registration. A reader registers again before it drains the queue, so that what comes
while it drains is either read or makes a new notification. The notification is a new thread or a
signal, and the program may drain the queue behind its first registration or not.
-/

namespace LinuxSamples.MqNotify

open LinuxSamples.Run LinuxSamples.Pool

/-! ### The queue -/

structure Msg where
  prio : ℕ
  text : List UInt8
  deriving DecidableEq

structure Mq where
  msgs : List Msg
  registered : Bool
  deriving DecidableEq

/-- A message goes behind those of its own priority. -/
def enqueue (m : Msg) (q : List Msg) : List Msg :=
  q.takeWhile (fun x => m.prio ≤ x.prio) ++ m :: q.dropWhile (fun x => m.prio ≤ x.prio)

/-- `mq_send` makes a notification. -/
def Mq.notifies (q : Mq) : Bool := q.registered && q.msgs.isEmpty

def Mq.send (q : Mq) (m : Msg) : Mq := ⟨enqueue m q.msgs, q.registered && !q.notifies⟩

lemma perm_enqueue (m : Msg) (q : List Msg) : (enqueue m q).Perm (m :: q) := by
  refine List.perm_middle.trans ?_
  rw [List.takeWhile_append_dropWhile]

lemma enqueue_ne_nil (m : Msg) (q : List Msg) : enqueue m q ≠ [] := by simp [enqueue]

lemma Mq.notifies_iff {q : Mq} : q.notifies = true ↔ q.registered = true ∧ q.msgs = [] := by
  simp [Mq.notifies]

/-! ### The programs -/

/-- `SIGEV_THREAD` or `SIGEV_SIGNAL`. -/
inductive Notify
  | thread
  | signal
  deriving DecidableEq

/-- A thread before `mq_notify`, in the loop that reads, asleep until there is a signal, and at its
end or in `pause`. -/
inductive Pc
  | register
  | drain
  | wait
  | done
  deriving DecidableEq

/-- Where a program goes when the queue is empty. -/
def Notify.idle : Notify → Pc
  | .thread => .done
  | .signal => .wait

/-- `pending` is the signal, or the variable `gotSig` that its handler sets; `exited` says whether
`mq_notify` has failed. -/
structure St where
  mq : Mq
  threads : List Pc
  pending : Bool
  exited : Bool
  sent : List Msg
  got : List Msg
  deriving DecidableEq

/-- The programs `mq_notify_via_thread` and `mq_notify_via_signal` before they register. -/
def init (q : List Msg) : St := ⟨⟨q, false⟩, [.register], false, false, q, []⟩

/-- The programs `mq_notify_thread`, `mq_notify_sig` and `mq_notify_sigwaitinfo` behind their first
registration: they do not look at the queue. -/
def initPause (sev : Notify) (q : List Msg) : St := ⟨⟨q, true⟩, [sev.idle], false, false, q, []⟩

def St.notify (s : St) : Notify → St
  | .thread => { s with threads := s.threads ++ [.register] }
  | .signal => { s with pending := true }

def St.send (s : St) (m : Msg) : St := { s with mq := s.mq.send m, sent := s.sent ++ [m] }

def St.goto (s : St) (k : ℕ) (pc : Pc) : St := { s with threads := s.threads.set k pc }

inductive Act
  | send (m : Msg)
  | run (k : ℕ)
  deriving DecidableEq

def step (sev : Notify) (s : St) : Act → Option St
  | .send m => some (if s.mq.notifies then (s.send m).notify sev else s.send m)
  | .run k =>
    if s.exited then none
    else
      match s.threads[k]? with
      | some .register =>
        -- somebody else is registered: `EBUSY`
        if s.mq.registered then some { s with exited := true }
        else some { s.goto k .drain with mq.registered := true }
      | some .drain =>
        match s.mq.msgs with
        | [] => some (s.goto k sev.idle)
        | m :: q => some { s with mq.msgs := q, got := s.got ++ [m] }
      | some .wait =>
        if s.pending then some { s.goto k .register with pending := false } else none
      | _ => none

inductive Step (sev : Notify) (s : St) : St → Prop
  | notify {m : Msg} (hn : s.mq.notifies = true) : Step sev s ((s.send m).notify sev)
  | send {m : Msg} (hn : s.mq.notifies = false) : Step sev s (s.send m)
  | busy {k : ℕ} (hk : s.threads[k]? = some .register) (hr : s.mq.registered = true) :
    Step sev s { s with exited := true }
  | register {k : ℕ} (hk : s.threads[k]? = some .register) (hr : s.mq.registered = false) :
    Step sev s { s.goto k .drain with mq.registered := true }
  | done {k : ℕ} (hk : s.threads[k]? = some .drain) (hq : s.mq.msgs = []) :
    Step sev s (s.goto k sev.idle)
  | read {k : ℕ} {m : Msg} {q : List Msg} (hk : s.threads[k]? = some .drain)
    (hq : s.mq.msgs = m :: q) : Step sev s { s with mq.msgs := q, got := s.got ++ [m] }
  | wake {k : ℕ} (hk : s.threads[k]? = some .wait) (hp : s.pending = true) :
    Step sev s { s.goto k .register with pending := false }

variable {sev : Notify} {s s' : St}

lemma step_cases {a : Act} (h : step sev s a = some s') : Step sev s s' := by
  cases a with
  | send m =>
    cases h
    split
    · exact .notify (by assumption)
    · exact .send ((Bool.not_eq_true _).mp (by assumption))
  | run k =>
    obtain ⟨-, h⟩ := Option.ite_none_left_eq_some.mp h
    split at h
    · split at h <;> cases h
      · exact .busy (by assumption) (by assumption)
      · exact .register (by assumption) ((Bool.not_eq_true _).mp (by assumption))
    · split at h <;> cases h
      · exact .done (by assumption) (by assumption)
      · exact .read (by assumption) (by assumption)
    · obtain ⟨hp, h⟩ := Option.ite_none_right_eq_some.mp h
      cases h
      exact .wake (by assumption) hp
    · cases h

/-! ### One registration at a time -/

def Pc.due : Pc → ℕ
  | .register => 1
  | _ => 0

/-- The thread is going to find the queue empty. -/
def Pc.active : Pc → ℕ
  | .register | .drain => 1
  | _ => 0

structure Inv (s : St) : Prop where
  /-- There is one registration, signal or thread that is going to register. -/
  once : total Pc.due s.threads + s.pending.toNat + s.mq.registered.toNat = 1
  active : s.mq.msgs ≠ [] → 0 < total Pc.active s.threads + s.pending.toNat
  perm : (s.got ++ s.mq.msgs).Perm s.sent
  running : s.exited = false

lemma inv_init (q : List Msg) : Inv (init q) where
  once := rfl
  active := fun _ => Nat.one_pos
  perm := .refl _
  running := rfl

lemma inv_initPause (sev : Notify) : Inv (initPause sev []) where
  once := by cases sev <;> rfl
  active := fun h => absurd rfl h
  perm := .refl _
  running := rfl

lemma due_le_active (l : List Pc) : total Pc.due l ≤ total Pc.active l := by
  induction l with
  | nil => exact le_rfl
  | cons x l ih =>
    rw [total_cons, total_cons]
    cases x <;> simp only [Pc.due, Pc.active] <;> omega

lemma perm_send (h : (s.got ++ s.mq.msgs).Perm s.sent) (m : Msg) :
    (s.got ++ enqueue m s.mq.msgs).Perm (s.sent ++ [m]) := by
  refine ((perm_enqueue m _).append_left _).trans ?_
  refine List.perm_middle.trans ((h.cons m).trans ?_)
  exact (List.perm_append_singleton m s.sent).symm

lemma Inv.notify (hi : Inv s) (m : Msg) (hn : s.mq.notifies = true) :
    Inv ((s.send m).notify sev) := by
  have honce := hi.once
  have hr : (s.send m).mq.registered = false := by simp [St.send, Mq.send, hn]
  rw [(Mq.notifies_iff.mp hn).1, Bool.toNat_true] at honce
  cases sev with
  | thread =>
    refine ⟨?_, fun _ => ?_, perm_send hi.perm m, hi.running⟩
    · change total Pc.due (s.threads ++ [.register]) + _ + (s.send m).mq.registered.toNat = 1
      rw [hr, total_append, total_singleton, Pc.due]
      change total Pc.due s.threads + 1 + s.pending.toNat + 0 = 1
      omega
    · change 0 < total Pc.active (s.threads ++ [.register]) + _
      rw [total_append, total_singleton, Pc.active]
      omega
  | signal =>
    refine ⟨?_, fun _ => Nat.succ_pos _, perm_send hi.perm m, hi.running⟩
    change total Pc.due s.threads + 1 + (s.send m).mq.registered.toNat = 1
    rw [hr, Bool.toNat_false]
    omega

lemma Inv.send (hi : Inv s) (m : Msg) (hn : s.mq.notifies = false) : Inv (s.send m) := by
  have honce := hi.once
  have hr : (s.send m).mq.registered = s.mq.registered := by simp [St.send, Mq.send, hn]
  refine ⟨by rw [hr]; exact honce, fun _ => ?_, perm_send hi.perm m, hi.running⟩
  -- nobody is registered, or a message was there already
  change 0 < total Pc.active s.threads + s.pending.toNat
  by_cases hq : s.mq.msgs = []
  · have hfree : s.mq.registered = false := by
      by_contra hreg
      rw [Mq.notifies_iff.mpr ⟨(Bool.not_eq_false _).mp hreg, hq⟩] at hn
      cases hn
    have := due_le_active s.threads
    rw [hfree, Bool.toNat_false] at honce
    omega
  · exact hi.active hq

lemma inv_step (hi : Inv s) (h : Step sev s s') : Inv s' := by
  have honce := hi.once
  cases h with
  | notify hn => exact hi.notify _ hn
  | send hn => exact hi.send _ hn
  | busy hk hr =>
    have := total_set Pc.due hk .drain
    simp only [Pc.due] at this
    rw [hr, Bool.toNat_true] at honce
    omega
  | @register k hk hr =>
    have hdue := total_set Pc.due hk .drain
    have hactive := total_set Pc.active hk .drain
    simp only [Pc.due, Pc.active] at hdue hactive
    rw [hr, Bool.toNat_false] at honce
    refine ⟨?_, fun _ => ?_, hi.perm, hi.running⟩
    · change total Pc.due (s.threads.set k .drain) + s.pending.toNat + 1 = 1
      omega
    · change 0 < total Pc.active (s.threads.set k .drain) + s.pending.toNat
      have := due_le_active s.threads
      omega
  | @done k hk hq =>
    refine ⟨?_, fun hne => absurd hq hne, hi.perm, hi.running⟩
    change total Pc.due (s.threads.set k sev.idle) + s.pending.toNat + s.mq.registered.toNat = 1
    rw [total_set_eq Pc.due hk (by cases sev <;> rfl)]
    exact honce
  | @read k m q hk hq =>
    refine ⟨honce, fun _ => hi.active (by rw [hq]; nofun), ?_, hi.running⟩
    have hperm := hi.perm
    rw [hq] at hperm
    change (s.got ++ [m] ++ q).Perm s.sent
    rwa [List.append_assoc, List.singleton_append]
  | @wake k hk hp =>
    have hdue := total_set Pc.due hk .register
    have hactive := total_set Pc.active hk .register
    simp only [Pc.due, Pc.active] at hdue hactive
    rw [hp, Bool.toNat_true] at honce
    refine ⟨?_, fun _ => ?_, hi.perm, hi.running⟩
    · change total Pc.due (s.threads.set k .register) + 0 + s.mq.registered.toNat = 1
      omega
    · change 0 < total Pc.active (s.threads.set k .register) + 0
      omega

/-! ### What the program owes to the senders -/

structure Attentive (s : St) : Prop where
  /-- `mq_notify` does not fail. -/
  running : s.exited = false
  /-- Every message is read once or in the queue. -/
  perm : (s.got ++ s.mq.msgs).Perm s.sent
  /-- When nobody is going to look at the queue, it is empty, and the next message is noticed. -/
  idle : (∀ pc ∈ s.threads, pc = .wait ∨ pc = .done) → s.pending = false →
    s.mq.msgs = [] ∧ s.mq.registered = true

lemma Inv.attentive (hi : Inv s) : Attentive s := by
  refine ⟨hi.running, hi.perm, fun hidle hp => ?_⟩
  have hactive : total Pc.active s.threads = 0 := by
    refine List.sum_eq_zero fun x hx => ?_
    obtain ⟨pc, hpc, rfl⟩ := List.mem_map.mp hx
    rcases hidle pc hpc with rfl | rfl <;> rfl
  have hdue := due_le_active s.threads
  have honce := hi.once
  rw [hp, Bool.toNat_false] at honce
  constructor
  · by_contra hne
    have := hi.active hne
    rw [hactive, hp] at this
    cases this
  · by_contra hr
    rw [(Bool.not_eq_true _).mp hr, Bool.toNat_false] at honce
    omega

/-- **A program that drains the queue behind every registration overlooks no message**, however
the messages come between its steps, and whether a thread or a signal tells it of them. -/
theorem mq_notify_drains {q : List Msg} (h : Reach (step sev) (init q) s) : Attentive s :=
  Inv.attentive (h.invariant (inv_init q) fun _ _ _ hu hstep => inv_step hu (step_cases hstep))

/-- A message comes before the program registers, and one while it drains the queue. -/
def twoSent : List Act :=
  [.send ⟨5, [2]⟩, .run 0, .run 0, .run 0, .send ⟨0, [3]⟩, .run 1, .run 0, .run 0, .run 1]

theorem mq_notify_drains_twoSent :
    ∃ s, exec (step .thread) (init [⟨0, [1]⟩]) twoSent = some s ∧
      s.got = [⟨5, [2]⟩, ⟨0, [1]⟩, ⟨0, [3]⟩] ∧ Attentive s := by
  obtain ⟨s, hrun, hgot⟩ : ∃ s, exec (step .thread) (init [⟨0, [1]⟩]) twoSent = some s ∧
      s.got = [⟨5, [2]⟩, ⟨0, [1]⟩, ⟨0, [3]⟩] := by
    apply exists_exec_of_any
    decide
  exact ⟨s, hrun, hgot, mq_notify_drains ⟨_, hrun⟩⟩

/-- The program sleeps beside a message, and nothing is going to wake it. -/
structure Deaf (sev : Notify) (s : St) : Prop where
  threads : s.threads = [sev.idle]
  pending : s.pending = false
  msgs : s.mq.msgs ≠ []
  got : s.got = []

lemma deaf_step (hd : Deaf sev s) (h : Step sev s s') : Deaf sev s' := by
  have hidle : ∀ {k : ℕ} {pc : Pc}, s.threads[k]? = some pc → pc = sev.idle := by
    intro k pc hk
    rw [hd.threads] at hk
    exact List.mem_singleton.mp (List.mem_of_getElem? hk)
  cases h with
  | notify hn => exact absurd (Mq.notifies_iff.mp hn).2 hd.msgs
  | send hn => exact ⟨hd.threads, hd.pending, enqueue_ne_nil _ _, hd.got⟩
  | busy hk => cases sev <;> cases hidle hk
  | register hk => cases sev <;> cases hidle hk
  | done hk => cases sev <;> cases hidle hk
  | read hk => cases sev <;> cases hidle hk
  | wake hk hp =>
    rw [hd.pending] at hp
    cases hp

/-- **A program that sleeps behind its first registration** is as good if the queue was empty then.
If it was not, the program never reads anything. -/
theorem mq_notify_pauses {q : List Msg} (h : Reach (step sev) (initPause sev q) s) :
    (q = [] → Attentive s) ∧ (q ≠ [] → Deaf sev s) := by
  constructor
  · rintro rfl
    exact Inv.attentive (h.invariant (inv_initPause sev) fun _ _ _ hu hstep =>
      inv_step hu (step_cases hstep))
  · intro hq
    exact h.invariant ⟨rfl, rfl, hq, rfl⟩ fun _ _ _ hu hstep => deaf_step hu (step_cases hstep)

/-- With one message in the queue, a second one changes nothing. -/
theorem mq_notify_pauses_one :
    ∃ s, exec (step .signal) (initPause .signal [⟨0, [1]⟩]) [.send ⟨0, [2]⟩] = some s ∧
      Deaf .signal s := by
  obtain ⟨s, hrun⟩ : ∃ s, exec (step .signal) (initPause .signal [⟨0, [1]⟩])
      [.send ⟨0, [2]⟩] = some s := ⟨_, rfl⟩
  exact ⟨s, hrun, (mq_notify_pauses ⟨_, hrun⟩).2 nofun⟩

end LinuxSamples.MqNotify
