import LinuxSamples.GlobalFifoSleep

/-!
What a call of `globalfifo` does that fails.

A read or a write fails without waiting, because of a signal in one of its sleeps, or because
the copy faults. Whatever the other tasks do in the meantime, none of its steps changes what is
in the device, it unlocks the mutex only where it holds it and does not hold it at the end,
and its entry leaves the wait queue once, at the end.
-/

namespace LinuxSamples.GlobalFifo

open LinuxSamples.Run

variable {ι : Type}

/-- The program points between `add_wait_queue` and `remove_wait_queue`. -/
def Pc.waiting : Pc → Bool
  | .test _ | .arm _ | .armed _ | .unlocked _ | .asleep _ | .awake _ | .relock _ | .copy _
  | .out _ _ | .out2 _ => true
  | _ => false

/-- Who holds the mutex and who has an entry on a wait queue can be told from where the tasks
are. -/
structure Tidy (s : St ι) : Prop where
  held : ∀ t, s.owner = some t ↔ (s.task t).pc.holds = true
  entry : ∀ t, (s.task t).queue.isSome = (s.task t).pc.waiting

/-- The ways in which a read or a write fails. -/
def errors : List ℤ := [-EAGAIN, -ERESTARTSYS, -EFAULT]

def Pc.InCall : Pc → Prop
  | .user | .clearEnter | .clearHeld | .clearOut => False
  | .out _ ret | .out2 ret => 0 ≤ ret ∨ ret ∈ errors
  | _ => True

/-- The copy was made, and the call will not fail. -/
def Pc.Succeeded : Pc → Prop
  | .out _ ret | .out2 ret => 0 ≤ ret
  | _ => False

/-! ### What a step does to the tasks and to the mutex -/

lemma wakeUp_same (q : Queue) (f : ι → Task) (u : ι) :
    (wakeUp q f u).pc = (f u).pc ∧ (wakeUp q f u).queue = (f u).queue ∧
      (wakeUp q f u).ret = (f u).ret := by
  rcases wakeUp_cases q f u with ⟨-, h⟩ | ⟨-, h⟩ <;> rw [h] <;> exact ⟨rfl, rfl, rfl⟩

variable [DecidableEq ι] {s s' : St ι} {t : ι}

/-- What a step of `t` does to the tasks and to the mutex. -/
structure Local (s s' : St ι) (t : ι) : Prop where
  others : ∀ u, u ≠ t → (s'.task u).pc = (s.task u).pc ∧ (s'.task u).queue = (s.task u).queue
  /-- It leaves the mutex alone, takes it, or gives it up. -/
  mutex : (s'.owner = s.owner ∧ (s'.task t).pc.holds = (s.task t).pc.holds) ∨
    (s.owner = none ∧ s'.owner = some t ∧ (s'.task t).pc.holds = true) ∨
    ((s.task t).pc.holds = true ∧ s'.owner = none ∧ (s'.task t).pc.holds = false)
  entry : (s.task t).queue.isSome = (s.task t).pc.waiting →
    (s'.task t).queue.isSome = (s'.task t).pc.waiting

lemma Local.of_update {x : Task}
    (htask : s'.task = Function.update s.task t x ∨
      ∃ q, s'.task = wakeUp q (Function.update s.task t x))
    (hmutex : (s'.owner = s.owner ∧ x.pc.holds = (s.task t).pc.holds) ∨
      (s.owner = none ∧ s'.owner = some t ∧ x.pc.holds = true) ∨
      ((s.task t).pc.holds = true ∧ s'.owner = none ∧ x.pc.holds = false))
    (hentry : (s.task t).queue.isSome = (s.task t).pc.waiting → x.queue.isSome = x.pc.waiting) :
    Local s s' t := by
  have hsame : ∀ u, (s'.task u).pc = (Function.update s.task t x u).pc ∧
      (s'.task u).queue = (Function.update s.task t x u).queue := by
    intro u
    rcases htask with h | ⟨q, h⟩
    · rw [h]
      exact ⟨rfl, rfl⟩
    · rw [h]
      exact ⟨(wakeUp_same q _ u).1, (wakeUp_same q _ u).2.1⟩
  have hself := hsame t
  rw [Function.update_self] at hself
  refine ⟨fun u hu => ?_, ?_, ?_⟩
  · have := hsame u
    rwa [Function.update_of_ne hu] at this
  · rwa [hself.1]
  · rwa [hself.1, hself.2]

lemma step_local {a : Act ι} (h : step s a = some s') : Local s s' a.t := by
  obtain ⟨t, m⟩ := a
  cases step_cases h with
  | lockEnter hpc hown =>
    exact .of_update (Or.inl rfl) (Or.inr (Or.inl ⟨hown, rfl, rfl⟩)) fun _ => rfl
  | lockAgain hpc hown =>
    refine .of_update (Or.inl rfl) (Or.inr (Or.inl ⟨hown, rfl, rfl⟩)) fun hq => ?_
    rw [hpc] at hq
    exact hq
  | lockClear hpc hown =>
    refine .of_update (Or.inl rfl) (Or.inr (Or.inl ⟨hown, rfl, rfl⟩)) fun hq => ?_
    rw [hpc] at hq
    exact hq
  | unlockArmed hpc =>
    refine .of_update (Or.inl rfl) (Or.inr (Or.inr ⟨by rw [hpc]; rfl, rfl, rfl⟩)) fun hq => ?_
    rw [hpc] at hq
    exact hq
  | unlockOut hpc =>
    refine .of_update (Or.inl rfl) (Or.inr (Or.inr ⟨by rw [hpc]; rfl, rfl, rfl⟩)) fun hq => ?_
    rw [hpc] at hq
    exact hq
  | unlockClear hpc =>
    refine .of_update (Or.inl rfl) (Or.inr (Or.inr ⟨by rw [hpc]; rfl, rfl, rfl⟩)) fun hq => ?_
    rw [hpc] at hq
    exact hq
  | readOk hpc =>
    refine .of_update (Or.inr ⟨_, rfl⟩) (Or.inl ⟨rfl, by rw [hpc]; rfl⟩) fun hq => ?_
    rw [hpc] at hq
    exact hq
  | writeOk hpc _ =>
    refine .of_update (Or.inr ⟨_, rfl⟩) (Or.inl ⟨rfl, by rw [hpc]; rfl⟩) fun hq => ?_
    rw [hpc] at hq
    exact hq
  | finish hpc =>
    exact .of_update (Or.inl rfl) (Or.inl ⟨rfl, by rw [hpc]; rfl⟩) fun _ => rfl
  | signal => exact .of_update (Or.inl rfl) (Or.inl ⟨rfl, rfl⟩) fun hq => hq
  | ioctlInvalid hpc => exact .of_update (Or.inl rfl) (Or.inl ⟨rfl, rfl⟩) fun hq => hq
  | handled hpc => exact .of_update (Or.inl rfl) (Or.inl ⟨rfl, rfl⟩) fun hq => hq
  | call hpc | ioctlClear hpc | testAgain hpc | testWait hpc _ | testGo hpc | arm hpc
  | schedule hpc | resume hpc | checkSignal hpc | checkNone hpc | faultRead hpc | faultWrite hpc
  | clear hpc =>
    refine .of_update (Or.inl rfl) (Or.inl ⟨rfl, by rw [hpc]; rfl⟩) fun hq => ?_
    rw [hpc] at hq
    exact hq

omit [DecidableEq ι] in
lemma tidy_init : Tidy (init : St ι) :=
  ⟨fun _ => by simp [init, Task.new, Pc.holds], fun _ => rfl⟩

lemma tidy_step {a : Act ι} (h : Tidy s) (hstep : step s a = some s') : Tidy s' := by
  obtain ⟨hothers, hmutex, hentry⟩ := step_local hstep
  refine ⟨fun u => ?_, fun u => ?_⟩
  · by_cases hu : u = a.t
    · subst hu
      rcases hmutex with ⟨hown, hholds⟩ | ⟨-, hown, hholds⟩ | ⟨-, hown, hholds⟩
      · rw [hown, hholds, h.held]
      · simp [hown, hholds]
      · simp [hown, hholds]
    · rw [(hothers u hu).1, ← h.held]
      rcases hmutex with ⟨hown, -⟩ | ⟨hfree, hown, -⟩ | ⟨hholds, hown, -⟩
      · rw [hown]
      · simp [hown, hfree, Ne.symm hu]
      · -- the mutex was held by the task that gives it up
        simp [hown, (h.held a.t).mpr hholds, Ne.symm hu]
  · by_cases hu : u = a.t
    · subst hu
      exact hentry (h.entry _)
    · rw [(hothers u hu).1, (hothers u hu).2, h.entry]

lemma reach_tidy (h : Reach step init s) : Tidy s :=
  h.invariant (I := Tidy) tidy_init fun _ _ _ => tidy_step

/-! ### One step of a call -/

def SameContents (d d' : Dev) : Prop := d'.currentLen = d.currentLen ∧ d'.contents = d.contents

lemma sameContents_copyIn (d : Dev) (junk : List UInt8) : SameContents d (d.copyIn junk) :=
  ⟨rfl, d.contents_copyIn junk⟩

/-- What a step of a call is like before its end. -/
structure CallStep (s s' : St ι) (t : ι) : Prop where
  inCall : (s'.task t).pc.InCall
  contents : SameContents s.dev s'.dev ∨ (s'.task t).pc.Succeeded
  lasting : (s.task t).pc.Succeeded → (s'.task t).pc.Succeeded
  entered : (s.task t).pc.waiting = true → (s'.task t).pc.waiting = true

omit [DecidableEq ι] in
lemma CallStep.of_undecided {pc : Pc} (hpc : (s'.task t).pc = pc) (hin : pc.InCall)
    (hsame : SameContents s.dev s'.dev) (hwait : pc.waiting = true)
    (hopen : ¬ (s.task t).pc.Succeeded) : CallStep s s' t :=
  ⟨hpc ▸ hin, Or.inl hsame, fun h => absurd h hopen, fun _ => hpc ▸ hwait⟩

lemma callStep_of_step {m : Move} (h : step s ⟨t, m⟩ = some s') (hin : (s.task t).pc.InCall)
    (hm : m ≠ .finish) : CallStep s s' t := by
  have hsame : SameContents s.dev s.dev := ⟨rfl, rfl⟩
  have hself (x : Task) : (Function.update s.task t x t).pc = x.pc := by rw [Function.update_self]
  cases step_cases h with
  | call hpc | ioctlClear hpc | ioctlInvalid hpc | lockClear hpc _ | unlockClear hpc | clear hpc
  | handled hpc =>
    rw [hpc] at hin
    exact hin.elim
  | finish => exact absurd rfl hm
  | lockEnter hpc _ | lockAgain hpc _ | testWait hpc _ | testGo hpc | arm hpc | unlockArmed hpc
  | schedule hpc | resume hpc | checkNone hpc =>
    exact .of_undecided (hself _) trivial hsame rfl (by rw [hpc]; exact id)
  | testAgain hpc | checkSignal hpc | faultRead hpc =>
    exact .of_undecided (hself _) (Or.inr (by simp [errors])) hsame rfl (by rw [hpc]; exact id)
  | @faultWrite _ junk hpc =>
    exact .of_undecided (hself _) (Or.inr (by simp [errors])) (sameContents_copyIn s.dev junk)
      rfl (by rw [hpc]; exact id)
  | unlockOut hpc =>
    rw [hpc] at hin
    have hpc' : ∀ ret, ((s.drop.goto t (.out2 ret)).task t).pc = .out2 ret := fun ret => hself _
    refine ⟨?_, Or.inl hsame, fun hs => ?_, fun _ => by rw [hpc']; rfl⟩
    · rw [hpc']
      exact hin
    · rw [hpc] at hs
      rw [hpc']
      exact hs
  | @readOk c hpc =>
    have hpc' : ((s.doRead t c).task t).pc = .out c (s.dev.readCount c.count) :=
      (wakeUp_same _ _ t).1.trans (hself _)
    have hsucceeded : ((s.doRead t c).task t).pc.Succeeded := hpc' ▸ Int.natCast_nonneg _
    exact ⟨hpc' ▸ Or.inl (Int.natCast_nonneg _), Or.inr hsucceeded, fun _ => hsucceeded,
      fun _ => hpc' ▸ rfl⟩
  | @writeOk c bs hpc _ =>
    have hpc' : ((s.doWrite t c bs).task t).pc = .out c bs.length :=
      (wakeUp_same _ _ t).1.trans (hself _)
    have hsucceeded : ((s.doWrite t c bs).task t).pc.Succeeded := hpc' ▸ Int.natCast_nonneg _
    exact ⟨hpc' ▸ Or.inl (Int.natCast_nonneg _), Or.inr hsucceeded, fun _ => hsucceeded,
      fun _ => hpc' ▸ rfl⟩
  | signal =>
    have hpc' : ((s.set t { s.task t with sig := true, interruptible := false }).task t).pc =
        (s.task t).pc := hself _
    exact ⟨hpc' ▸ hin, Or.inl hsame, fun hs => hpc' ▸ hs, fun hw => hpc' ▸ hw⟩

/-! ### A whole call -/

/-- A step of `t` leaves what is in the device, and unlocks the mutex only if `t` holds it. -/
def Untouched (t : ι) (s : St ι) (a : Act ι) : Prop :=
  a.t = t → (∀ s' ∈ step s a, SameContents s.dev s'.dev) ∧ (a.move = .unlock → s.owner = some t)

/-- How often the entry of `t` is taken off a wait queue. -/
def removals (t : ι) (s : St ι) : List (Act ι) → ℕ
  | [] => 0
  | a :: as =>
    match step s a with
    | none => 0
    | some s' =>
      (if (s.task t).queue.isSome ∧ (s'.task t).queue = none then 1 else 0) + removals t s' as

/-- **What a failed call leaves.** -/
structure FailsCleanly (t : ι) (s s' : St ι) (as : List (Act ι)) : Prop where
  untouched : Guarded step (Untouched t) s as
  released : s'.owner ≠ some t
  removed : removals t s as = 1
  error : (s'.task t).ret ∈ errors

lemma holds_of_unlock (h : step s ⟨t, .unlock⟩ = some s') : (s.task t).pc.holds = true := by
  cases step_cases h with
  | unlockArmed hpc | unlockOut hpc | unlockClear hpc => rw [hpc]; rfl

lemma removals_cons {a : Act ι} {as : List (Act ι)} (h : step s a = some s') :
    removals t s (a :: as) =
      (if (s.task t).queue.isSome ∧ (s'.task t).queue = none then 1 else 0) +
        removals t s' as := by
  rw [removals, h]

lemma FailsCleanly.cons {a : Act ι} {u : St ι} {as : List (Act ι)} (h : FailsCleanly t u s' as)
    (hstep : step s a = some u) (hok : Untouched t s a)
    (hkept : (s.task t).queue.isSome → (u.task t).queue.isSome) :
    FailsCleanly t s s' (a :: as) := by
  refine ⟨⟨hok, fun v hv => ?_⟩, h.released, ?_, h.error⟩
  · obtain rfl : u = v := Option.some.inj (hstep.symm.trans hv)
    exact h.untouched
  · rw [removals_cons hstep, h.removed, if_neg]
    rintro ⟨hsome, hnone⟩
    have := hkept hsome
    rw [hnone] at this
    cases this

lemma failsCleanly_finish (hs : Tidy s) (hin : (s.task t).pc.InCall)
    (hstep : step s ⟨t, .finish⟩ = some s') (hret : (s'.task t).ret < 0) :
    ¬ (s.task t).pc.Succeeded ∧ FailsCleanly t s s' [⟨t, .finish⟩] := by
  have hs' := tidy_step hs hstep
  have hentry := hs.entry t
  cases step_cases hstep with
  | @finish ret hpc =>
    rw [hpc] at hin hentry
    have hself : ((s.set t { s.task t with
        pc := .user, interruptible := false, queue := none, ret := ret }).task t) =
        { s.task t with pc := .user, interruptible := false, queue := none, ret := ret } :=
      Function.update_self ..
    rw [hself] at hret
    have hneg : ¬ 0 ≤ ret := not_le.mpr hret
    refine ⟨by rw [hpc]; exact hneg, ⟨fun _ => ⟨fun v hv => ?_, nofun⟩, fun _ _ => trivial⟩,
      fun hown => ?_, ?_, ?_⟩
    · obtain rfl := Option.some.inj (hstep.symm.trans hv)
      exact ⟨rfl, rfl⟩
    · have := (hs'.held t).mp hown
      rw [hself] at this
      cases this
    · rw [removals_cons hstep, hself, if_pos ⟨hentry, rfl⟩]
      rfl
    · rw [hself]
      exact hin.resolve_left hneg

lemma failsCleanly_of_exec {mid : List (Act ι)} (hs : Tidy s) (hin : (s.task t).pc.InCall)
    (hmid : ⟨t, .finish⟩ ∉ mid) (hrun : exec step s (mid ++ [⟨t, .finish⟩]) = some s')
    (hret : (s'.task t).ret < 0) :
    ¬ (s.task t).pc.Succeeded ∧ FailsCleanly t s s' (mid ++ [⟨t, .finish⟩]) := by
  induction mid generalizing s with
  | nil =>
    rw [List.nil_append, exec_cons] at hrun
    obtain ⟨u, hu, hrest⟩ := Option.bind_eq_some_iff.mp hrun
    obtain rfl : u = s' := Option.some.inj hrest
    exact failsCleanly_finish hs hin hu hret
  | cons a mid ih =>
    rw [List.cons_append, exec_cons] at hrun
    obtain ⟨u, hu, hrest⟩ := Option.bind_eq_some_iff.mp hrun
    obtain ⟨hfirst, hlater⟩ := not_or.mp (List.mem_cons.not.mp hmid)
    have hs' := tidy_step hs hu
    by_cases hat : a.t = t
    · obtain ⟨_, m⟩ := a
      obtain rfl : _ = t := hat
      have hcall := callStep_of_step hu hin fun hm => hfirst (by rw [hm])
      obtain ⟨hopen, hclean⟩ := ih hs' hcall.inCall hlater hrest
      refine ⟨fun h => hopen (hcall.lasting h), hclean.cons hu (fun _ => ⟨fun v hv => ?_, ?_⟩) ?_⟩
      · obtain rfl : u = v := Option.some.inj (hu.symm.trans hv)
        exact hcall.contents.resolve_right hopen
      · rintro rfl
        exact (hs.held _).mpr (holds_of_unlock hu)
      · rw [hs.entry, hs'.entry]
        exact hcall.entered
    · obtain ⟨hpc, hqueue⟩ := (step_local hu).others t (Ne.symm hat)
      obtain ⟨hopen, hclean⟩ := ih hs' (hpc ▸ hin) hlater hrest
      exact ⟨hpc ▸ hopen, hclean.cons hu (fun h => absurd h hat) (by rw [hqueue]; exact id)⟩

/-- **A call that fails does nothing.** Between the call of `globalfifo_read` or
`globalfifo_write` and its return the other tasks may do anything. -/
theorem globalfifo_failed_call (h : Reach step init s) {c : Call} {mid : List (Act ι)}
    (hmid : ⟨t, .finish⟩ ∉ mid)
    (hrun : exec step s (⟨t, .call c⟩ :: mid ++ [⟨t, .finish⟩]) = some s')
    (hret : (s'.task t).ret < 0) :
    FailsCleanly t s s' (⟨t, .call c⟩ :: mid ++ [⟨t, .finish⟩]) := by
  have hs := reach_tidy h
  rw [List.cons_append, exec_cons] at hrun
  obtain ⟨u, hu, hrest⟩ := Option.bind_eq_some_iff.mp hrun
  have hs' := tidy_step hs hu
  have hentry := hs.entry t
  cases step_cases hu with
  | call hpc =>
    have hin : ((s.goto t (.enter c)).task t).pc = .enter c := by simp [St.goto, St.set]
    obtain ⟨-, hclean⟩ := failsCleanly_of_exec hs' (by rw [hin]; trivial) hmid hrest hret
    refine hclean.cons hu (fun _ => ⟨fun v hv => ?_, fun hmove => ?_⟩) fun hsome => ?_
    · obtain rfl := Option.some.inj (hu.symm.trans hv)
      exact ⟨rfl, rfl⟩
    · cases hmove
    · rw [hentry, hpc] at hsome
      cases hsome

/-- A reader sleeps on the empty device, a writer puts in three bytes, and a signal interrupts
the reader nonetheless. -/
def interruptedReader : List (Act Bool) :=
  [⟨false, .lock⟩, ⟨false, .test⟩, ⟨false, .arm⟩, ⟨false, .unlock⟩, ⟨false, .schedule⟩,
    ⟨true, .call ⟨.wWait, 3, false⟩⟩, ⟨true, .lock⟩, ⟨true, .test⟩, ⟨false, .signal⟩,
    ⟨true, .writeOk [7, 8, 9]⟩, ⟨false, .resume⟩, ⟨true, .unlock⟩, ⟨false, .check⟩]

theorem globalfifo_failed_call_interruptedReader :
    ∃ s, exec step init
        (⟨false, .call ⟨.rWait, 2, false⟩⟩ :: interruptedReader ++ [⟨false, .finish⟩]) = some s ∧
      (s.task false).ret = -ERESTARTSYS ∧ s.dev.currentLen = 3 ∧
      FailsCleanly false init s
        (⟨false, .call ⟨.rWait, 2, false⟩⟩ :: interruptedReader ++ [⟨false, .finish⟩]) := by
  obtain ⟨s, hs, hret, hlen⟩ : ∃ s, exec step init
      (⟨false, .call ⟨.rWait, 2, false⟩⟩ :: interruptedReader ++ [⟨false, .finish⟩]) = some s ∧
      (s.task false).ret = -ERESTARTSYS ∧ s.dev.currentLen = 3 := by
    apply exists_exec_of_any
    decide +kernel
  refine ⟨s, hs, hret, hlen, globalfifo_failed_call ⟨[], rfl⟩ (by decide) hs ?_⟩
  rw [hret]
  decide

end LinuxSamples.GlobalFifo
