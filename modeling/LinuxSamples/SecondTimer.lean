import LinuxSamples.Run

/-!
The timer of the second driver and the handles that use it.

Every open initialises the one timer of the device and adds it, every release deletes it,
and the handler arms it again. With one handle at a time this keeps the timer pending while
the device is open. A second handle adds a timer that the wheel already holds, the first
release of two stops the timer for both, and a release between the dequeueing of the timer
and its handler leaves a handler that arms the timer of a closed device. A run has none of
these exactly when its opens and releases meet the condition `Orderly`.
-/

namespace LinuxSamples.SecondTimer

open LinuxSamples.Run

/-! ### Kernel timers -/

/-- A timer. `linked` is what `timer_pending` tests, and `wheel` is how often the timer wheel
holds the timer: the two part when a pending timer is initialised again. -/
structure Timer where
  linked : Bool
  wheel : ℕ
  deriving DecidableEq

/-- `init_timer` clears the links of the timer and does not look at the wheel. -/
def initTimer (t : Timer) : Timer := { t with linked := false }

def addTimer (t : Timer) : Timer := ⟨true, t.wheel + 1⟩

/-- `mod_timer` of a pending timer only changes its expiry. -/
def modTimer (t : Timer) : Timer := if t.linked then t else addTimer t

def delTimer (t : Timer) : Timer := if t.linked then ⟨false, t.wheel - 1⟩ else t

/-- The links of the timer say whether the wheel holds it. -/
def Timer.Sound (t : Timer) : Prop := t.wheel = if t.linked then 1 else 0

lemma Timer.Sound.delTimer {t : Timer} (h : t.Sound) : delTimer t = ⟨false, 0⟩ := by
  obtain ⟨linked, wheel⟩ := t
  obtain rfl : wheel = if linked then 1 else 0 := h
  cases linked <;> rfl

lemma Timer.Sound.modTimer {t : Timer} (h : t.Sound) : modTimer t = ⟨true, 1⟩ := by
  obtain ⟨linked, wheel⟩ := t
  obtain rfl : wheel = if linked then 1 else 0 := h
  cases linked <;> rfl

lemma Timer.Sound.wheel_le_one {t : Timer} (h : t.Sound) : t.wheel ≤ 1 := by
  rw [h]
  split <;> simp

/-! ### The driver -/

/-- The device, the number of its open handles and the number of handlers that have been
dequeued and have not run. `readded` records that a timer was added that the wheel held. -/
structure St where
  timer : Timer
  counter : ℕ
  users : ℕ
  running : ℕ
  readded : Bool
  freed : Bool
  deriving DecidableEq

def init : St := ⟨⟨false, 0⟩, 0, 0, 0, false, false⟩

def secondOpen (s : St) : St :=
  { s with
    timer := addTimer (initTimer s.timer)
    counter := 0
    users := s.users + 1
    readded := s.readded || 0 < s.timer.wheel }

def secondRelease (s : St) : St := { s with timer := delTimer s.timer, users := s.users - 1 }

def secondTimerHandler (s : St) : St :=
  { s with timer := modTimer s.timer, counter := s.counter + 1, running := s.running - 1 }

inductive Act
  | open
  | release
  /-- The timer expires: it leaves the wheel, and its handler is about to run. -/
  | expire
  | handler
  | exit
  deriving DecidableEq

def step (s : St) : Act → Option St
  | .open => if s.freed then none else some (secondOpen s)
  | .release => if 0 < s.users then some (secondRelease s) else none
  | .expire =>
    if 0 < s.timer.wheel then
      some { s with timer := ⟨false, s.timer.wheel - 1⟩, running := s.running + 1 }
    else none
  | .handler => if 0 < s.running then some (secondTimerHandler s) else none
  -- the module is removed when no handle is open
  | .exit => if s.users = 0 ∧ s.freed = false then some { s with freed := true } else none

/-- The timer follows its users. -/
structure Follows (s : St) : Prop where
  fresh : s.readded = false
  served : 0 < s.users → 0 < s.timer.wheel ∨ 0 < s.running
  quiet : s.users = 0 → s.timer.wheel = 0 ∧ s.running = 0

/-- An open finds the timer out of the wheel, the last release finds no handler about to run,
and any other release finds one, which arms the timer again. -/
def Orderly (s : St) : Act → Prop
  | .open => s.timer.wheel = 0
  | .release => if s.users = 1 then s.running = 0 else 0 < s.running
  | _ => True

instance (s : St) (a : Act) : Decidable (Orderly s a) := by
  cases a <;> unfold Orderly <;> infer_instance

/-! ### Orderly runs -/

/-- The timer follows its users, and its links can be trusted. -/
structure Good (s : St) : Prop extends Follows s where
  sound : s.timer.Sound

lemma good_init : Good init := by
  constructor
  · exact ⟨rfl, fun h => absurd h (by decide), fun _ => ⟨rfl, rfl⟩⟩
  · rfl

lemma good_open {s : St} (h : Good s) (hw : s.timer.wheel = 0) : Good (secondOpen s) where
  fresh := by simp [secondOpen, h.fresh, hw]
  served _ := Or.inl (Nat.succ_pos _)
  quiet hu := absurd hu (Nat.succ_ne_zero _)
  sound := by simp [secondOpen, addTimer, initTimer, Timer.Sound, hw]

lemma good_release {s : St} (h : Good s) (hu : 0 < s.users)
    (hok : if s.users = 1 then s.running = 0 else 0 < s.running) : Good (secondRelease s) := by
  have htimer : (secondRelease s).timer = ⟨false, 0⟩ := h.sound.delTimer
  have hsound : (secondRelease s).timer.Sound := htimer ▸ rfl
  by_cases hone : s.users = 1
  · rw [if_pos hone] at hok
    refine ⟨⟨h.fresh, fun hpos => ?_, fun _ => ⟨by rw [htimer], hok⟩⟩, hsound⟩
    simp [secondRelease, hone] at hpos
  · rw [if_neg hone] at hok
    refine ⟨⟨h.fresh, fun _ => Or.inr hok, fun hzero => ?_⟩, hsound⟩
    simp only [secondRelease] at hzero
    omega

lemma good_handler {s : St} (h : Good s) (hr : 0 < s.running) : Good (secondTimerHandler s) := by
  -- a handler is about to run, so the device is open
  have hu : s.users ≠ 0 := fun hzero => by
    have := (h.quiet hzero).2
    omega
  have htimer : (secondTimerHandler s).timer = ⟨true, 1⟩ := h.sound.modTimer
  refine ⟨⟨h.fresh, fun _ => Or.inl ?_, fun hzero => absurd hzero hu⟩, htimer ▸ rfl⟩
  rw [htimer]
  exact Nat.one_pos

lemma good_step {s s' : St} {a : Act} (h : Good s) (hok : Orderly s a)
    (hs : step s a = some s') : Good s' := by
  cases a with
  | «open» =>
    obtain ⟨-, hs⟩ := Option.ite_none_left_eq_some.mp hs
    obtain rfl := Option.some.inj hs
    exact good_open h hok
  | release =>
    obtain ⟨hu, hs⟩ := Option.ite_none_right_eq_some.mp hs
    obtain rfl := Option.some.inj hs
    exact good_release h hu hok
  | expire =>
    obtain ⟨hw, hs⟩ := Option.ite_none_right_eq_some.mp hs
    obtain rfl := Option.some.inj hs
    have hone := h.sound.wheel_le_one
    refine ⟨⟨h.fresh, fun _ => Or.inr (Nat.succ_pos _), fun hzero => ?_⟩, ?_⟩
    · have := (h.quiet hzero).1
      omega
    · exact Nat.sub_eq_zero_of_le hone
  | handler =>
    obtain ⟨hr, hs⟩ := Option.ite_none_right_eq_some.mp hs
    obtain rfl := Option.some.inj hs
    exact good_handler h hr
  | exit =>
    obtain ⟨-, hs⟩ := Option.ite_none_right_eq_some.mp hs
    obtain rfl := Option.some.inj hs
    exact ⟨⟨h.fresh, h.served, h.quiet⟩, h.sound⟩

lemma not_follows_of_not_orderly {s s' : St} {a : Act} (h : Good s) (hbad : ¬ Orderly s a)
    (hs : step s a = some s') : ¬ Follows s' := by
  cases a with
  | «open» =>
    obtain ⟨-, hs⟩ := Option.ite_none_left_eq_some.mp hs
    obtain rfl := Option.some.inj hs
    intro hf
    have hfresh := hf.fresh
    have hpos : 0 < s.timer.wheel := Nat.pos_of_ne_zero hbad
    simp [secondOpen, hpos] at hfresh
  | release =>
    obtain ⟨hu, hs⟩ := Option.ite_none_right_eq_some.mp hs
    obtain rfl := Option.some.inj hs
    intro hf
    have htimer : (secondRelease s).timer = ⟨false, 0⟩ := h.sound.delTimer
    simp only [Orderly] at hbad
    by_cases hone : s.users = 1
    · rw [if_pos hone] at hbad
      exact hbad (hf.quiet (by simp [secondRelease, hone])).2
    · rw [if_neg hone] at hbad
      rcases hf.served (by simp only [secondRelease]; omega) with hpos | hpos
      · rw [htimer] at hpos
        exact absurd hpos (lt_irrefl 0)
      · exact hbad hpos
  | expire => exact absurd trivial hbad
  | handler => exact absurd trivial hbad
  | exit => exact absurd trivial hbad

/-- **The timer follows its users all along a run exactly when the run is orderly.** -/
theorem second_timer_follows_iff {s : St} {as : List Act} (h : exec step init as = some s) :
    Always step Follows init as ↔ Guarded step Orderly init as :=
  always_iff_guarded (I := Good) (fun _ hg => hg.toFollows)
    (fun _ _ _ hg hok hs => good_step hg hok hs)
    (fun _ _ _ hg hbad hs => not_follows_of_not_orderly hg hbad hs) h good_init

/-- One handle after another, with expiries in between. -/
theorem second_timer_follows_iff_one_user :
    Always step Follows init [.open, .expire, .handler, .release, .open, .release, .exit] :=
  (second_timer_follows_iff (s := ⟨⟨false, 0⟩, 0, 0, 0, false, true⟩) (by decide)).mpr (by decide)

/-- Two handles add the timer twice; the release of one of two handles stops the timer; and a
release during an expiry lets the handler arm the timer of a device that has been freed. -/
theorem second_timer_parts :
    (∃ s, exec step init [.open, .open] = some s ∧ s.readded = true) ∧
    (∃ s, exec step init [.open, .expire, .open, .handler, .release] = some s ∧
      s.users = 1 ∧ s.timer.wheel = 0 ∧ s.running = 0) ∧
    ∃ s, exec step init [.open, .expire, .release, .exit, .handler] = some s ∧
      s.freed = true ∧ s.timer.wheel = 1 :=
  ⟨⟨_, rfl, rfl⟩, ⟨_, rfl, rfl, rfl, rfl⟩, ⟨_, rfl, rfl, rfl⟩⟩

end LinuxSamples.SecondTimer
