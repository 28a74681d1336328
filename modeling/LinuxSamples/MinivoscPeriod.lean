import LinuxSamples.MinivoscBuffer

/-!
The periods that `minivosc` reports.

The timer is armed for the tick at which the position reaches the end of the period, as far as
can be told when it is armed. Until then `pointer` callbacks bring the position up to date, and
may cross the end of the period before the timer does. The invariant is that either a period
is waiting to be reported, or the position reaches the end of the period by the time the timer
expires. Times are compared as the kernel does, modulo `2 ^ 64`.
-/

namespace LinuxSamples.Minivosc

open LinuxSamples.Run LinuxSamples.Word

/-! ### What is asked of the calls -/

/-- The `tick` that `minivosc_timer_start` computes. -/
def Dev.tick (d : Dev) : ℕ :=
  subU 64 (wrap 64 (subU 32 d.periodSizeFrac d.irqPos + d.pcmBps)) 1 / d.pcmBps

lemma timerStart_eq (jiffies : ℕ) (d : Dev) :
    minivoscTimerStart jiffies d = { d with timer := some (wrap 64 (jiffies + d.tick)) } := rfl

/-- Where an update takes the position, if nothing overflows. -/
def Dev.reached (jiffies : ℕ) (d : Dev) : ℕ :=
  d.irqPos + subU 64 jiffies d.lastJiffies * d.pcmBps

/-- The timer is pending and has expired: `time_after_eq`. -/
def Dev.Due (jiffies : ℕ) (d : Dev) : Prop :=
  match d.timer with
  | some expires => subU 64 jiffies expires < 2 ^ 63
  | none => False

/-- No update overflows `irq_pos`, and the timer is run when it has expired. -/
def Timely (s : St) (c : Call) : Prop :=
  match c.op with
  | .pointer => s.dev.running ≠ 0 → s.dev.reached (wrap 64 c.time) < 2 ^ 32
  | .timer => s.dev.reached (wrap 64 c.time) < 2 ^ 32 ∧ s.dev.Due (wrap 64 c.time)
  | _ => True

instance (jiffies : ℕ) (d : Dev) : Decidable (d.Due jiffies) :=
  match h : d.timer with
  | some expires => decidable_of_iff (subU 64 jiffies expires < 2 ^ 63) (by simp [Dev.Due, h])
  | none => isFalse (by simp [Dev.Due, h])

instance (s : St) : (c : Call) → Decidable (Timely s c)
  | ⟨_, .pointer⟩ => inferInstanceAs (Decidable (_ → _))
  | ⟨_, .timer⟩ => inferInstanceAs (Decidable (_ ∧ _))
  | ⟨_, .prepare _⟩ => isTrue trivial
  | ⟨_, .trigger _⟩ => isTrue trivial

/-- What the kernel does with the card. -/
def Proper (s : St) (c : Call) : Prop := Admits s c ∧ Timely s c

/-- The periods reported by some events. -/
def reports (events : List Event) : ℕ := events.count .periodElapsed

/-- **What exact reporting is** in a state of the card. -/
structure PeriodExact (HZ : ℕ) (s : St) : Prop where
  /-- `minivosc_timer_start` is entered by the `trigger` callback. -/
  start : s.dev.valid ≠ 0 → s.dev.running = 0 →
    s.dev.irqPos < s.dev.periodSizeFrac ∧ 1 ≤ s.dev.tick
  /-- It is entered by the timer, behind the update; a period is waiting there. -/
  fire : ∀ t, Proper s ⟨t, .timer⟩ →
    let d := (minivoscPosUpdate HZ (wrap 64 t) { s.dev with timer := none }).1
    d.irqPos < d.periodSizeFrac ∧ 1 ≤ d.tick ∧ d.periodUpdatePending = true
  report : ∀ t, Proper s ⟨t, .timer⟩ →
    reports (Op.timer.run HZ (wrap 64 t) s).2 = 1 ∧
      (Op.timer.run HZ (wrap 64 t) s).1.periodUpdatePending = false
  /-- A `pointer` callback that crosses the end of the period leaves it waiting. -/
  crossed : ∀ t, Proper s ⟨t, .pointer⟩ → s.dev.running ≠ 0 →
    s.dev.periodSizeFrac ≤ s.dev.reached (wrap 64 t) →
    (Op.pointer.run HZ (wrap 64 t) s).1.periodUpdatePending = true
  /-- Until the timer is run or the position is reset, it goes on waiting, unreported. -/
  kept : ∀ c, Proper s c → c.op ≠ .timer → (∀ rt, c.op = .prepare rt → s.dev.running ≠ 0) →
    reports (c.op.run HZ (wrap 64 c.time) s).2 = 0 ∧ (s.dev.periodUpdatePending = true →
      (c.op.run HZ (wrap 64 c.time) s).1.periodUpdatePending = true)

/-! ### One update -/

section

variable {HZ jiffies : ℕ} {d : Dev}

lemma Configured.periodSizeFrac (h : Configured HZ d) (hHZ : 48 * HZ < 2 ^ 32)
    (hvalid : d.valid ≠ 0) : d.periodSizeFrac = 48 * HZ := by
  have hperiod : d.periodSizeFrac = fracPos HZ d.pcmPeriodSize := h.sound.period
  rw [hperiod, (h.prepared hvalid).period, fracPos]
  exact wrap_of_lt hHZ

/-- What an update makes of the position and of the period that may be waiting. -/
structure Updated (jiffies : ℕ) (d d' : Dev) : Prop where
  params : d'.params = d.params
  timer : d'.timer = d.timer
  last : d'.lastJiffies = jiffies
  inPeriod : d'.irqPos < d.periodSizeFrac
  crossed : d.periodSizeFrac ≤ d.reached jiffies → d'.periodUpdatePending = true
  short : d.reached jiffies < d.periodSizeFrac →
    d'.irqPos = d.reached jiffies ∧ d'.periodUpdatePending = d.periodUpdatePending

lemma reduced_spec (d : Dev) : d.reduced.timer = d.timer ∧ d.reduced.lastJiffies = d.lastJiffies ∧
    (d.periodSizeFrac ≤ d.irqPos → d.reduced.irqPos = d.irqPos % d.periodSizeFrac ∧
      d.reduced.periodUpdatePending = true) ∧
    (d.irqPos < d.periodSizeFrac → d.reduced = d) := by
  unfold Dev.reduced
  split
  · exact ⟨rfl, rfl, fun _ => ⟨rfl, rfl⟩, fun h => by omega⟩
  · exact ⟨rfl, rfl, fun h => by omega, fun _ => rfl⟩

lemma Configured.updated (h : Configured HZ d) (hHZ : 0 < HZ ∧ 48 * HZ < 2 ^ 32)
    (hrun : d.running ≠ 0) (hlast : d.lastJiffies < 2 ^ 64) (hj : jiffies < 2 ^ 64)
    (hirq : d.irqPos < d.periodSizeFrac) (hover : d.reached jiffies < 2 ^ 32) :
    Updated jiffies d (minivoscPosUpdate HZ jiffies d).1 := by
  obtain ⟨hcapture, hvalid, hp⟩ := h.of_running hrun
  have hfrac := h.periodSizeFrac hHZ.2 hvalid
  have hparams := posUpdate_params HZ jiffies d
  have hnext : d.nextPos jiffies = d.reached jiffies := by
    unfold Dev.reached at hover
    rw [Dev.nextPos, wrap_of_lt (a := _ * _) (by omega), wrap_of_lt hover, Dev.reached]
  have hge : d.irqPos ≤ d.reached jiffies := Nat.le_add_right ..
  rcases posUpdate_cases HZ jiffies hcapture hp.silent.ge with
    ⟨hdelta, heq⟩ | ⟨hcount, heq⟩ | ⟨hcount, heq⟩
  all_goals rw [heq] at hparams ⊢
  · -- no time has passed
    have hsame : d.reached jiffies = d.irqPos := by rw [Dev.reached, hdelta]; simp
    refine ⟨rfl, rfl, (eq_of_subU_eq_zero hj hlast hdelta).symm, hirq, fun hc => ?_, fun _ => ?_⟩
    · omega
    · exact ⟨hsame.symm, rfl⟩
  · -- not a whole byte yet, so that the period does not end
    have hbyte : d.reached jiffies / HZ ≤ d.irqPos / HZ := by
      rw [Dev.count, hnext, bytePos, bytePos, subU_of_le (Nat.div_le_div_right hge)
        ((Nat.div_le_self ..).trans_lt hover)] at hcount
      omega
    have hin : d.reached jiffies < d.periodSizeFrac := by
      rw [hfrac] at hirq ⊢
      exact (Nat.div_lt_iff_lt_mul hHZ.1).mp
        (hbyte.trans_lt ((Nat.div_lt_iff_lt_mul hHZ.1).mpr hirq))
    refine ⟨hparams, rfl, wrap_add_subU hj, hnext.trans_lt hin, fun hc => ?_, fun _ => ?_⟩
    · omega
    · exact ⟨hnext, rfl⟩
  · generalize hm : ({ d.waited jiffies with
      bufPos := wrap 32 (d.bufPos + d.count HZ jiffies) % d.pcmBufferSize } : Dev) = m
    have hmoved : d.moved HZ jiffies = m.reduced := congrArg Dev.reduced hm
    obtain ⟨htimer, hlast', hend, hshort⟩ := reduced_spec m
    obtain ⟨hmtimer, hmlast, hmirq, hmfrac, hmpending⟩ : m.timer = d.timer ∧
        m.lastJiffies = jiffies ∧ m.irqPos = d.reached jiffies ∧
        m.periodSizeFrac = d.periodSizeFrac ∧ m.periodUpdatePending = d.periodUpdatePending := by
      rw [← hm]
      exact ⟨rfl, wrap_add_subU hj, hnext, rfl, rfl⟩
    rw [hmfrac, hmirq] at hend hshort
    rw [hmoved] at hparams ⊢
    refine ⟨hparams, htimer.trans hmtimer, hlast'.trans hmlast, ?_, fun hc => (hend hc).2,
      fun hc => ?_⟩
    · rcases Nat.lt_or_ge (d.reached jiffies) d.periodSizeFrac with hc | hc
      · rwa [hshort hc, hmirq]
      · rw [(hend hc).1]
        exact Nat.mod_lt _ (by omega)
    · rw [hshort hc]
      exact ⟨hmirq, hmpending⟩

/-! ### The timer -/

/-- **The deadline.** A tick or more from now, the position is at the end of the period. -/
lemma tick_spec (hbps : d.pcmBps = 8000) (hfrac : d.periodSizeFrac < 2 ^ 32)
    (hirq : d.irqPos < d.periodSizeFrac) :
    1 ≤ d.tick ∧ d.tick < 2 ^ 32 ∧ d.periodSizeFrac ≤ d.irqPos + d.tick * 8000 := by
  have htick : d.tick = (d.periodSizeFrac - d.irqPos + 7999) / 8000 := by
    rw [Dev.tick, hbps, subU_of_le hirq.le hfrac, wrap_of_lt (by omega),
      subU_of_le (by omega) (by omega)]
    rfl
  omega

/-- Either a period is waiting, or the timer expires when the position has reached its end. -/
structure Armed (HZ : ℕ) (d : Dev) : Prop where
  configured : Configured HZ d
  inPeriod : d.valid ≠ 0 → d.irqPos < d.periodSizeFrac
  idle : d.running = 0 → d.timer = none
  last : d.running ≠ 0 → d.lastJiffies < 2 ^ 64
  deadline : d.running ≠ 0 → ∃ expires, d.timer = some expires ∧
    (d.periodUpdatePending = true ∨ subU 64 expires d.lastJiffies < 2 ^ 32 ∧
      d.periodSizeFrac ≤ d.irqPos + subU 64 expires d.lastJiffies * 8000)

lemma Armed.due_running (h : Armed HZ d) (hdue : d.Due jiffies) : d.running ≠ 0 := by
  intro hrun
  rw [Dev.Due, h.idle hrun] at hdue
  exact hdue

lemma Armed.pending_of_due {d' : Dev} (h : Armed HZ d) (hdue : d.Due jiffies)
    (hu : Updated jiffies { d with timer := none } d') : d'.periodUpdatePending = true := by
  have hrun := h.due_running hdue
  obtain ⟨-, -, hp⟩ := h.configured.of_running hrun
  obtain ⟨expires, htimer, hdeadline⟩ := h.deadline hrun
  have hexpired : subU 64 jiffies expires < 2 ^ 63 := by
    rw [Dev.Due, htimer] at hdue
    exact hdue
  rcases Nat.lt_or_ge (d.reached jiffies) d.periodSizeFrac with hshort | hcrossed
  · rw [(hu.short hshort).2]
    refine hdeadline.resolve_right fun ⟨hsmall, hend⟩ => ?_
    -- the update would come before the timer has expired
    have hbefore : subU 64 jiffies d.lastJiffies < subU 64 expires d.lastJiffies := by
      rw [Dev.reached, hp.bps] at hshort
      omega
    rw [← subU_subU 64 jiffies expires d.lastJiffies, subU_of_lt hbefore (subU_lt ..)] at hexpired
    omega
  · exact hu.crossed hcrossed

lemma Configured.armed_start (h : Configured HZ d) (hHZ : 48 * HZ < 2 ^ 32)
    (hvalid : d.valid ≠ 0) (hlast : d.lastJiffies = jiffies) (hj : jiffies < 2 ^ 64)
    (hirq : d.irqPos < d.periodSizeFrac) (pending : Bool) :
    ∃ expires, (minivoscTimerStart jiffies d).timer = some expires ∧
      (pending = true ∨ subU 64 expires d.lastJiffies < 2 ^ 32 ∧
        d.periodSizeFrac ≤ d.irqPos + subU 64 expires d.lastJiffies * 8000) := by
  have hfrac := h.periodSizeFrac hHZ hvalid
  obtain ⟨-, hsmall, hend⟩ := tick_spec (h.prepared hvalid).bps (by omega) hirq
  refine ⟨wrap 64 (jiffies + d.tick), rfl, Or.inr ?_⟩
  rw [hlast, subU_wrap_add hj (by omega)]
  exact ⟨hsmall, hend⟩

/-! ### The calls -/

lemma Armed.updated (h : Armed HZ d) (hHZ : 0 < HZ ∧ 48 * HZ < 2 ^ 32) (hrun : d.running ≠ 0)
    (hj : jiffies < 2 ^ 64) (hover : d.reached jiffies < 2 ^ 32) (timer : Option ℕ) :
    Updated jiffies { d with timer := timer }
      (minivoscPosUpdate HZ jiffies { d with timer := timer }).1 := by
  have hc : Configured HZ { d with timer := timer } :=
    h.configured.of_same rfl rfl rfl
  have hvalid := (h.configured.of_running hrun).2.1
  exact hc.updated hHZ hrun (h.last hrun) hj (h.inPeriod hvalid) hover

lemma Armed.prepare {rt : Runtime} (h : Armed HZ d) (hHZ : 0 < HZ ∧ 48 * HZ < 2 ^ 32)
    (hrt : rt.Admitted) : Armed HZ (minivoscPcmPrepare HZ rt d).2.1 := by
  have hc := h.configured.prepare hrt
  have hfrac : (minivoscPcmPrepare HZ rt d).2.1.periodSizeFrac = 48 * HZ := by
    refine hc.periodSizeFrac hHZ.2 ?_
    rw [prepare_eq h.configured.sound (by rw [hrt.values.1]; decide)]
    exact capture_ne_zero
  have hbps : rt.bps ≠ 0 := by
    rw [hrt.values.1]
    decide
  rw [prepare_eq h.configured.sound hbps] at hc hfrac ⊢
  dsimp only at hfrac
  by_cases hrun : d.running = 0
  · refine ⟨hc, fun _ => ?_, h.idle, fun hr => absurd hrun hr, fun hr => absurd hrun hr⟩
    simp only [hrun, if_true, hfrac]
    omega
  · obtain ⟨-, hvalid, -⟩ := h.configured.of_running hrun
    have hsame := h.configured.periodSizeFrac hHZ.2 hvalid
    refine ⟨hc, fun _ => ?_, h.idle, h.last, fun _ => ?_⟩
    · simp only [if_neg hrun, hfrac, ← hsame]
      exact h.inPeriod hvalid
    · simp only [if_neg hrun, hfrac, ← hsame]
      exact h.deadline hrun

lemma Armed.trigger {cmd : Cmd} (h : Armed HZ d) (hHZ : 48 * HZ < 2 ^ 32) (hj : jiffies < 2 ^ 64)
    (hcmd : cmd = .start → d.valid ≠ 0) : Armed HZ (minivoscPcmTrigger cmd jiffies d).2 := by
  have hc := h.configured.trigger jiffies hcmd
  cases cmd with
  | start =>
    have hvalid := hcmd rfl
    by_cases hrun : d.running = 0
    · rw [trigger_start hrun] at hc ⊢
      have hset : Configured HZ { d with lastJiffies := jiffies } :=
        h.configured.of_same rfl rfl rfl
      have hdeadline := hset.armed_start hHZ hvalid rfl hj (h.inPeriod hvalid)
        d.periodUpdatePending
      exact ⟨hc, fun _ => h.inPeriod hvalid, fun hr => absurd hr capture_ne_zero, fun _ => hj,
        fun _ => hdeadline⟩
    · rwa [h.configured.trigger_start_running hrun]
  | stop =>
    rw [h.configured.trigger_stop] at hc ⊢
    exact ⟨hc, h.inPeriod, fun _ => rfl, fun hr => absurd rfl hr, fun hr => absurd rfl hr⟩
  | other => exact h

lemma Armed.pointer (h : Armed HZ d) (hHZ : 0 < HZ ∧ 48 * HZ < 2 ^ 32) (hj : jiffies < 2 ^ 64)
    (hover : d.running ≠ 0 → d.reached jiffies < 2 ^ 32) :
    Armed HZ (minivoscPosUpdate HZ jiffies d).1 := by
  by_cases hrun : d.running = 0
  · rwa [minivoscPosUpdate, if_pos hrun]
  have hu := h.updated hHZ hrun hj (hover hrun) d.timer
  obtain ⟨hvalid', hrun', hbps', -, hfrac', -⟩ := Params.mk.inj hu.params
  obtain ⟨-, -, hp⟩ := h.configured.of_running hrun
  refine ⟨h.configured.posUpdate _, fun _ => hfrac'.symm ▸ hu.inPeriod,
    fun hr => absurd (hrun'.symm.trans hr) hrun, fun _ => hu.last.trans_lt hj, fun _ => ?_⟩
  obtain ⟨expires, htimer, hdeadline⟩ := h.deadline hrun
  refine ⟨expires, hu.timer.trans htimer, ?_⟩
  rcases Nat.lt_or_ge (d.reached jiffies) d.periodSizeFrac with hshort | hcrossed
  · obtain ⟨hirq, hpending⟩ := hu.short hshort
    refine hdeadline.imp hpending.trans fun hopen => ?_
    obtain ⟨hsmall, hend⟩ := hopen
    -- the time that is left until the timer expires has shrunk by what has passed
    have hirq' : (minivoscPosUpdate HZ jiffies d).1.irqPos =
        d.irqPos + subU 64 jiffies d.lastJiffies * 8000 := by
      rw [← hp.bps]
      exact hirq
    have hbefore : subU 64 jiffies d.lastJiffies ≤ subU 64 expires d.lastJiffies := by
      rw [Dev.reached, hp.bps] at hshort
      omega
    have hleft : subU 64 expires jiffies =
        subU 64 expires d.lastJiffies - subU 64 jiffies d.lastJiffies := by
      rw [← subU_subU 64 expires jiffies d.lastJiffies, subU_of_le hbefore (subU_lt ..)]
    have hfrac : (minivoscPosUpdate HZ jiffies d).1.periodSizeFrac = d.periodSizeFrac := hfrac'
    have hlast : (minivoscPosUpdate HZ jiffies d).1.lastJiffies = jiffies := hu.last
    rw [hlast, hleft, hirq', hfrac]
    omega
  · exact Or.inl (hu.crossed hcrossed)

lemma timerFunction_of_pending (hrun : d.running ≠ 0)
    (hpending : (minivoscPosUpdate HZ jiffies d).1.periodUpdatePending = true) :
    minivoscTimerFunction HZ jiffies d =
      ({ minivoscTimerStart jiffies (minivoscPosUpdate HZ jiffies d).1 with
        periodUpdatePending := false },
        (minivoscPosUpdate HZ jiffies d).2 ++ [.periodElapsed]) := by
  have hstill : (minivoscPosUpdate HZ jiffies d).1.running ≠ 0 := by
    rwa [show (minivoscPosUpdate HZ jiffies d).1.running = d.running from
      congrArg Params.running (posUpdate_params HZ jiffies d)]
  simp only [minivoscTimerFunction, if_neg hrun, timerStart_eq, hpending, if_true]
  rw [if_pos hstill]

lemma Armed.timerFunction (h : Armed HZ d) (hHZ : 0 < HZ ∧ 48 * HZ < 2 ^ 32) (hj : jiffies < 2 ^ 64)
    (hover : d.reached jiffies < 2 ^ 32) (hdue : d.Due jiffies) :
    Armed HZ (minivoscTimerFunction HZ jiffies { d with timer := none }).1 := by
  have hrun := h.due_running hdue
  have hu := h.updated hHZ hrun hj hover none
  have hpending := h.pending_of_due hdue hu
  have hc : Configured HZ { d with timer := none } :=
    h.configured.of_same rfl rfl rfl
  have hc' := hc.timerFunction jiffies
  have hpos := hc.posUpdate jiffies
  rw [timerFunction_of_pending (d := { d with timer := none }) hrun hpending] at hc' ⊢
  generalize (minivoscPosUpdate HZ jiffies { d with timer := none }).1 = d' at hu hpending hc' hpos
  obtain ⟨hvalid', hrun', -, -, hfrac', -⟩ := Params.mk.inj hu.params
  have hvalid : d'.valid ≠ 0 := fun hv => (h.configured.of_running hrun).2.1 (hvalid'.symm.trans hv)
  have hirq : d'.irqPos < d'.periodSizeFrac := hfrac'.symm ▸ hu.inPeriod
  exact ⟨hc', fun _ => hirq, fun hr => absurd (hrun'.symm.trans hr) hrun,
    fun _ => hu.last.trans_lt hj, fun _ => hpos.armed_start hHZ.2 hvalid hu.last hj hirq false⟩

end

/-! ### Runs -/

lemma armed_step {HZ : ℕ} (hHZ : 0 < HZ ∧ 48 * HZ < 2 ^ 32) {s s' : St} {c : Call}
    (h : Armed HZ s.dev) (hc : Proper s c) (hstep : step HZ s c = some s') : Armed HZ s'.dev := by
  obtain ⟨-, -, hdev, -⟩ := step_eq_some hstep
  have hj : wrap 64 c.time < 2 ^ 64 := Nat.mod_lt _ (by decide)
  rw [hdev]
  obtain ⟨t, op⟩ := c
  obtain ⟨hadmits, htimely⟩ := hc
  cases op with
  | prepare rt => exact h.prepare hHZ hadmits
  | trigger cmd =>
    refine h.trigger hHZ.2 hj fun hcmd => ?_
    subst hcmd
    exact hadmits
  | pointer => exact h.pointer hHZ hj htimely
  | timer => exact h.timerFunction hHZ hj htimely.1 htimely.2

lemma armed_zero (HZ : ℕ) : Armed HZ Dev.zero :=
  ⟨configured_zero HZ, fun hv => absurd rfl hv, fun _ => rfl, fun hr => absurd rfl hr,
    fun hr => absurd rfl hr⟩

lemma reports_posUpdate {HZ : ℕ} {d : Dev} (h : Configured HZ d) (jiffies : ℕ) :
    reports (minivoscPosUpdate HZ jiffies d).2 = 0 := by
  by_cases hrun : d.running = 0
  · rw [minivoscPosUpdate, if_pos hrun]
    rfl
  obtain ⟨hcapture, -, hp⟩ := h.of_running hrun
  rcases posUpdate_cases HZ jiffies hcapture hp.silent.ge with
    ⟨-, heq⟩ | ⟨-, heq⟩ | ⟨-, heq⟩
  all_goals rw [heq]
  · rfl
  · rfl
  · refine List.count_eq_zero_of_not_mem ?_
    simp only [bufferMarks]
    split <;> simp

lemma Armed.kept {HZ : ℕ} (hHZ : 0 < HZ ∧ 48 * HZ < 2 ^ 32) {s : St} (h : Armed HZ s.dev)
    {c : Call} (hc : Proper s c) (hop : c.op ≠ .timer)
    (hprepare : ∀ rt, c.op = .prepare rt → s.dev.running ≠ 0)
    (hpending : s.dev.periodUpdatePending = true) :
    (c.op.run HZ (wrap 64 c.time) s).1.periodUpdatePending = true := by
  have hj : wrap 64 c.time < 2 ^ 64 := Nat.mod_lt _ (by decide)
  obtain ⟨t, op⟩ := c
  cases op with
  | prepare rt =>
    have hrun := hprepare rt rfl
    have hbps : rt.bps ≠ 0 := by
      rw [hc.1.values.1]
      decide
    rw [Op.run, prepare_eq h.configured.sound hbps]
    simpa only [if_neg hrun] using hpending
  | trigger cmd =>
    cases cmd with
    | start =>
      by_cases hrun : s.dev.running = 0
      · rw [Op.run, trigger_start hrun]
        exact hpending
      · rwa [Op.run, h.configured.trigger_start_running hrun]
    | stop =>
      rw [Op.run, h.configured.trigger_stop]
      exact hpending
    | other => exact hpending
  | pointer =>
    by_cases hrun : s.dev.running = 0
    · simpa only [Op.run, minivoscPcmPointer, minivoscPosUpdate, if_pos hrun] using hpending
    have hu := h.updated hHZ hrun hj (hc.2 hrun) s.dev.timer
    rcases Nat.lt_or_ge (s.dev.reached (wrap 64 t)) s.dev.periodSizeFrac with hshort | hcrossed
    · exact (hu.short hshort).2.trans hpending
    · exact hu.crossed hcrossed
  | timer => exact absurd rfl hop

lemma reports_of_ne_timer {HZ jiffies : ℕ} {s : St} (h : Configured HZ s.dev) {op : Op}
    (hop : op ≠ .timer) : reports (op.run HZ jiffies s).2 = 0 := by
  cases op with
  | prepare rt =>
    simp only [Op.run, minivoscPcmPrepare]
    split <;> rfl
  | trigger cmd => rfl
  | pointer =>
    have hnone := reports_posUpdate h jiffies
    simp only [Op.run, minivoscPcmPointer, reports, List.count_append] at hnone ⊢
    rw [hnone]
    rfl
  | timer => exact absurd rfl hop

lemma Armed.periodExact {HZ : ℕ} (hHZ : 0 < HZ ∧ 48 * HZ < 2 ^ 32) {s : St}
    (h : Armed HZ s.dev) : PeriodExact HZ s := by
  have hj : ∀ t, wrap 64 t < 2 ^ 64 := fun t => Nat.mod_lt _ (by decide)
  have hcleared : Configured HZ { s.dev with timer := none } :=
    h.configured.of_same rfl rfl rfl
  constructor
  case start =>
    intro hvalid _
    have hfrac := h.configured.periodSizeFrac hHZ.2 hvalid
    have htick := tick_spec (h.configured.prepared hvalid).bps (by omega) (h.inPeriod hvalid)
    exact ⟨h.inPeriod hvalid, htick.1⟩
  case fire =>
    rintro t ⟨-, hover, hdue⟩
    have hrun := h.due_running hdue
    have hvalid := (h.configured.of_running hrun).2.1
    have hu := h.updated hHZ hrun (hj t) hover none
    have hpos := hcleared.posUpdate (wrap 64 t)
    have hpending := h.pending_of_due hdue hu
    generalize (minivoscPosUpdate HZ (wrap 64 t) { s.dev with timer := none }).1 = d' at *
    obtain ⟨hvalid', -, -, -, hfrac', -⟩ := Params.mk.inj hu.params
    have hd' : d'.valid ≠ 0 := fun hv => hvalid (hvalid'.symm.trans hv)
    have hirq : d'.irqPos < d'.periodSizeFrac := hfrac'.symm ▸ hu.inPeriod
    have hfrac := hpos.periodSizeFrac hHZ.2 hd'
    exact ⟨hirq, (tick_spec (hpos.prepared hd').bps (by omega) hirq).1, hpending⟩
  case report =>
    rintro t ⟨-, hover, hdue⟩
    have hrun := h.due_running hdue
    have hpending := h.pending_of_due hdue (h.updated hHZ hrun (hj t) hover none)
    have hnone := reports_posUpdate hcleared (wrap 64 t)
    rw [Op.run, timerFunction_of_pending (d := { s.dev with timer := none }) hrun hpending]
    refine ⟨?_, rfl⟩
    rw [reports, List.count_append]
    exact congrArg (· + 1) hnone
  case crossed =>
    intro t hc hrun hcrossed
    exact (h.updated hHZ hrun (hj t) (hc.2 hrun) s.dev.timer).crossed hcrossed
  case kept =>
    intro c hc hop hprepare
    exact ⟨reports_of_ne_timer h.configured hop, h.kept hHZ hc hop hprepare⟩

/-- **Periods are reported exactly**, in every state that the card comes into. -/
theorem minivosc_period_exact {HZ : ℕ} (hHZ : 0 < HZ ∧ 48 * HZ < 2 ^ 32) {calls : List Call}
    {s : St} (hrun : exec (step HZ) St.init calls = some s)
    (hok : Guarded (step HZ) Proper St.init calls) : PeriodExact HZ s := by
  have harmed : Armed HZ s.dev := hok.invariant (I := fun s => Armed HZ s.dev) hrun
    (armed_zero HZ) fun _ _ _ => armed_step hHZ
  exact harmed.periodExact hHZ

/-- With 250 ticks to the second, the timer is armed for the second tick. A `pointer` callback at
that tick ends the period before the timer is run, at the third. -/
theorem minivosc_period_exact_late_timer :
    ∃ s, exec (step 250) St.init (startCalls 1 ++ [⟨1, .pointer⟩, ⟨2, .pointer⟩]) = some s ∧
      s.dev.periodUpdatePending = true ∧ Timely s ⟨3, .timer⟩ ∧
      reports (Op.timer.run 250 3 s).2 = 1 := by
  obtain ⟨s, hs, hpending, htimely⟩ : ∃ s, exec (step 250) St.init
      (startCalls 1 ++ [⟨1, .pointer⟩, ⟨2, .pointer⟩]) = some s ∧
      s.dev.periodUpdatePending = true ∧ Timely s ⟨3, .timer⟩ := by
    apply exists_exec_of_any
    decide +kernel
  have hok : Guarded (step 250) Proper St.init (startCalls 1 ++ [⟨1, .pointer⟩, ⟨2, .pointer⟩]) :=
    (startCalls_admitted (by decide) 250 (by simp)).and (by decide +kernel)
  have hexact := minivosc_period_exact (by decide) hs hok
  exact ⟨s, hs, hpending, htimely, (hexact.report 3 ⟨trivial, htimely⟩).1⟩

end LinuxSamples.Minivosc
