import LinuxSamples.Minivosc

/-!
The position of `minivosc` does not drift.

However the updates are spread over time, the bytes delivered since the start are the bytes
that the time elapsed is worth, rounded down once. The invariant is that the bytes delivered,
in fractions, and the fraction that the position has beyond a whole byte add up to the time
elapsed. A period is a whole number of bytes, so reducing the position by periods leaves that
fraction alone; this is where the size of a period in fractions has to fit into a word.
-/

namespace LinuxSamples.Minivosc

open LinuxSamples.Run LinuxSamples.Word

/-! ### What is delivered -/

/-- The bytes an event delivers: the count passed to `minivosc_xfer_buf`. -/
def Event.bytes : Event → ℕ
  | .xferBuf count => count
  | _ => 0

def delivered (log : List Event) : ℕ := (log.map Event.bytes).sum

@[simp] lemma delivered_append (log log' : List Event) :
    delivered (log ++ log') = delivered log + delivered log' := by
  simp [delivered]

@[simp] lemma delivered_cons (e : Event) (log : List Event) :
    delivered (e :: log) = e.bytes + delivered log := rfl

lemma delivered_eq_zero {log : List Event} (h : ∀ e ∈ log, e.bytes = 0) : delivered log = 0 := by
  induction log with
  | nil => rfl
  | cons e log ih =>
    obtain ⟨he, h⟩ := List.forall_mem_cons.mp h
    rw [delivered_cons, he, ih h]

lemma delivered_clearLoop (size fuel silent dstOff bytes : ℕ) :
    delivered (clearLoop size fuel silent dstOff bytes).2 = 0 := by
  induction fuel generalizing silent dstOff bytes with
  | zero => rfl
  | succ fuel ih =>
    have hwrites (n : ℕ) : delivered ((List.range n).map fun i : ℕ =>
        Event.memcpy (dstOff + 4 * i) wrdat) = 0 := delivered_eq_zero (by simp [Event.bytes])
    rw [clearLoop]
    dsimp only
    split
    · exact hwrites _
    · rw [delivered_append, hwrites, ih]

lemma delivered_bufferMarks (size dstOff bytes : ℕ) :
    delivered (bufferMarks size dstOff bytes) = 0 := by
  unfold bufferMarks
  split <;> rfl

lemma fillCaptureBuf_spec (d : Dev) (bytes : ℕ) :
    ∃ n, (minivoscFillCaptureBuf d bytes).1 = { d with silentSize := n } ∧
      delivered (minivoscFillCaptureBuf d bytes).2 = 0 := by
  unfold minivoscFillCaptureBuf
  dsimp only
  split
  · exact ⟨d.silentSize, rfl, delivered_bufferMarks ..⟩
  · refine ⟨_, rfl, ?_⟩
    rw [delivered_append, delivered_bufferMarks, delivered_clearLoop]

lemma xferBuf_spec {d : Dev} (hrun : d.running ≠ 0) (count : ℕ) :
    ∃ n, (minivoscXferBuf d count).1 = { d with
        silentSize := n
        bufPos := wrap 32 (d.bufPos + count) % d.pcmBufferSize } ∧
      delivered (minivoscXferBuf d count).2 = count := by
  obtain ⟨n, hdev, hlog⟩ := fillCaptureBuf_spec d count
  unfold minivoscXferBuf
  rcases eq_or_ne d.running CABLE_CAPTURE with hc | hc
  · rw [if_pos hc]
    refine ⟨n, ?_, ?_⟩
    · dsimp only
      rw [hdev]
      exact if_pos hrun
    · rw [delivered_cons, hlog]
      rfl
  · rw [if_neg hc]
    exact ⟨d.silentSize, if_pos hrun, rfl⟩

/-! ### What an update leaves alone -/

/-- The part of the device that only `prepare` and `trigger` change. -/
structure Params where
  valid : UInt32
  running : UInt32
  pcmBps : ℕ
  pcmPeriodSize : ℕ
  periodSizeFrac : ℕ
  pcmBufferSize : ℕ

def Dev.params (d : Dev) : Params :=
  ⟨d.valid, d.running, d.pcmBps, d.pcmPeriodSize, d.periodSizeFrac, d.pcmBufferSize⟩

lemma xferBuf_params (d : Dev) (count : ℕ) : (minivoscXferBuf d count).1.params = d.params := by
  obtain ⟨n, hdev, -⟩ := fillCaptureBuf_spec d count
  unfold minivoscXferBuf
  rcases eq_or_ne d.running CABLE_CAPTURE with hc | hc
  · rw [if_pos hc]
    dsimp only
    rw [hdev]
    split <;> rfl
  · rw [if_neg hc]
    dsimp only
    split <;> rfl

lemma posUpdate_params (HZ jiffies : ℕ) (d : Dev) :
    (minivoscPosUpdate HZ jiffies d).1.params = d.params := by
  unfold minivoscPosUpdate
  dsimp only
  split
  · rfl
  split
  · rfl
  split
  · rfl
  · split <;> exact xferBuf_params ..

lemma timerFunction_params (HZ jiffies : ℕ) (d : Dev) :
    (minivoscTimerFunction HZ jiffies d).1.params = d.params := by
  unfold minivoscTimerFunction
  dsimp only
  split
  · rfl
  · split <;> exact posUpdate_params ..

/-- The calls that bring the position up to date. -/
def Op.IsUpdate (op : Op) : Prop := op = .pointer ∨ op = .timer

lemma Op.IsUpdate.params {op : Op} (h : op.IsUpdate) (HZ jiffies : ℕ) (s : St) :
    (op.run HZ jiffies s).1.params = s.dev.params := by
  rcases h with rfl | rfl
  · exact posUpdate_params ..
  · exact timerFunction_params ..

/-! ### One update -/

/-- What an update at the time `t` makes of a device that was brought up to date at the time
`now`, and of the bytes delivered. -/
structure Moved (HZ now t : ℕ) (d : Dev) (done : Dev × List Event) : Prop where
  last : done.1.lastJiffies = wrap 64 t
  frac : done.1.irqPos % HZ = (d.irqPos + (t - now) * d.pcmBps) % HZ
  count : delivered done.2 = (d.irqPos + (t - now) * d.pcmBps) / HZ - d.irqPos / HZ
  pos : done.1.bufPos = (d.bufPos + delivered done.2) % d.pcmBufferSize

/-- What an update needs of the device. -/
structure Ready (HZ now t : ℕ) (d : Dev) : Prop where
  running : d.running ≠ 0
  bps : 0 < d.pcmBps
  period : HZ ∣ d.periodSizeFrac
  last : d.lastJiffies = wrap 64 now
  clock : now ≤ t
  pos : d.bufPos < d.pcmBufferSize
  irqOk : d.irqPos + (t - now) * d.pcmBps < 2 ^ 32
  bufOk : d.bufPos + ((d.irqPos + (t - now) * d.pcmBps) / HZ - d.irqPos / HZ) < 2 ^ 32

variable {HZ now t : ℕ} {d : Dev}

lemma Ready.delta_lt (h : Ready HZ now t d) : t - now < 2 ^ 32 := by
  have := Nat.le_mul_of_pos_right (t - now) h.bps
  have := h.irqOk
  omega

lemma Ready.delta (h : Ready HZ now t d) : subU 64 (wrap 64 t) d.lastJiffies = t - now := by
  rw [h.last]
  exact subU_wrap h.clock (h.delta_lt.trans (by norm_num))

lemma Ready.irqPos (h : Ready HZ now t d) :
    wrap 32 (d.irqPos + wrap 64 ((t - now) * d.pcmBps)) = d.irqPos + (t - now) * d.pcmBps := by
  have hlt := h.irqOk
  rw [wrap_of_lt (a := (t - now) * d.pcmBps) (by omega), wrap_of_lt hlt]

lemma posUpdate_moved (h : Ready HZ now t d) :
    Moved HZ now t d (minivoscPosUpdate HZ (wrap 64 t) d) := by
  have hx := h.irqOk
  have hle : d.irqPos / HZ ≤ (d.irqPos + (t - now) * d.pcmBps) / HZ :=
    Nat.div_le_div_right (Nat.le_add_right ..)
  have hcount : subU 32 (bytePos HZ (d.irqPos + (t - now) * d.pcmBps)) (bytePos HZ d.irqPos) =
      (d.irqPos + (t - now) * d.pcmBps) / HZ - d.irqPos / HZ :=
    subU_of_le hle ((Nat.div_le_self ..).trans_lt hx)
  have hlast : wrap 64 (d.lastJiffies + (t - now)) = wrap 64 t := by
    rw [h.last, wrap_add_sub h.clock]
  have hposeq : d.bufPos = (d.bufPos + 0) % d.pcmBufferSize := (Nat.mod_eq_of_lt h.pos).symm
  unfold minivoscPosUpdate
  rw [if_neg h.running]
  simp only [h.delta, h.irqPos, hcount, hlast]
  split
  · -- no time has passed
    rename_i hzero
    have hnow : now = t := by have := h.clock; omega
    exact ⟨hnow ▸ h.last, by rw [hzero, Nat.zero_mul, Nat.add_zero],
      by rw [hzero, Nat.zero_mul, Nat.add_zero, Nat.sub_self]; rfl, hposeq⟩
  split
  · -- not a whole byte yet
    rename_i hzero
    exact ⟨rfl, rfl, hzero.symm, hposeq⟩
  · set x := d.irqPos + (t - now) * d.pcmBps with hxdef
    obtain ⟨n, hdev, hlog⟩ := xferBuf_spec
      (d := { d with lastJiffies := wrap 64 t, irqPos := x }) h.running (x / HZ - d.irqPos / HZ)
    rw [hdev]
    dsimp only
    rw [wrap_of_lt h.bufOk]
    have hpos : (d.bufPos + (x / HZ - d.irqPos / HZ)) % d.pcmBufferSize = (d.bufPos + delivered
        (minivoscXferBuf { d with lastJiffies := wrap 64 t, irqPos := x }
          (x / HZ - d.irqPos / HZ)).2) % d.pcmBufferSize := by rw [hlog]
    split
    · -- the position is reduced by whole periods
      exact ⟨rfl, Nat.mod_mod_of_dvd x h.period, hlog, hpos⟩
    · exact ⟨rfl, rfl, hlog, hpos⟩

lemma Op.IsUpdate.moved {op : Op} {s : St} (hop : op.IsUpdate) (h : Ready HZ s.now t s.dev) :
    Moved HZ s.now t s.dev (op.run HZ (wrap 64 t) s) := by
  rcases hop with rfl | rfl
  · obtain ⟨hlast, hfrac, hcount, hpos⟩ := posUpdate_moved h
    have hlog : delivered (Op.pointer.run HZ (wrap 64 t) s).2 =
        delivered (minivoscPosUpdate HZ (wrap 64 t) s.dev).2 := delivered_append ..
    exact ⟨hlast, hfrac, hlog.trans hcount, hlog ▸ hpos⟩
  · -- taking the timer off its list does not concern the update
    have h' : Ready HZ s.now t { s.dev with timer := none } :=
      ⟨h.running, h.bps, h.period, h.last, h.clock, h.pos, h.irqOk, h.bufOk⟩
    obtain ⟨hlast, hfrac, hcount, hpos⟩ := posUpdate_moved h'
    have hlog : delivered (Op.timer.run HZ (wrap 64 t) s).2 =
        delivered (minivoscPosUpdate HZ (wrap 64 t) { s.dev with timer := none }).2 := by
      rw [Op.run, minivoscTimerFunction, if_neg h.running]
      dsimp only
      split
      · rw [delivered_append]
        split <;> rfl
      · rfl
    have hdev : ∃ tm pending, (Op.timer.run HZ (wrap 64 t) s).1 =
        { (minivoscPosUpdate HZ (wrap 64 t) { s.dev with timer := none }).1 with
          timer := tm, periodUpdatePending := pending } := by
      rw [Op.run, minivoscTimerFunction, if_neg h.running]
      dsimp only
      split <;> exact ⟨_, _, rfl⟩
    obtain ⟨tm, pending, hdev⟩ := hdev
    exact ⟨hdev ▸ hlast, hdev ▸ hfrac, hlog.trans hcount, by rw [hdev, hlog]; exact hpos⟩

lemma mul_count_add_mod (H p e : ℕ) :
    H * ((p + e) / H - p / H) + (p + e) % H = e + p % H := by
  have hle : H * (p / H) ≤ H * ((p + e) / H) :=
    Nat.mul_le_mul_left H (Nat.div_le_div_right (Nat.le_add_right p e))
  have h1 := Nat.div_add_mod p H
  have h2 := Nat.div_add_mod (p + e) H
  rw [Nat.mul_sub]
  omega

/-! ### Runs of updates -/

lemma step_eq_some {s s' : St} {c : Call} (h : step HZ s c = some s') :
    s.now ≤ c.time ∧ s'.now = c.time ∧
    s'.dev = (c.op.run HZ (wrap 64 c.time) s).1 ∧
    s'.log = s.log ++ (c.op.run HZ (wrap 64 c.time) s).2 := by
  unfold step at h
  split at h
  · rename_i hclock
    obtain rfl := Option.some.inj h
    exact ⟨hclock, rfl, rfl, rfl⟩
  · cases h

/-- An update whose new position fits into `irq_pos`. -/
def IrqOk (s : St) (c : Call) : Prop :=
  c.op.IsUpdate ∧ s.dev.irqPos + (c.time - s.now) * s.dev.pcmBps < 2 ^ 32

/-- The bytes that `buf_pos` and the update come to fit into 32 bits as well. -/
def BufOk (HZ : ℕ) (s : St) (c : Call) : Prop :=
  s.dev.bufPos + ((s.dev.irqPos + (c.time - s.now) * s.dev.pcmBps) / HZ - s.dev.irqPos / HZ) <
    2 ^ 32

/-- An update that overflows neither position. -/
def UpdateOk (HZ : ℕ) (s : St) (c : Call) : Prop := IrqOk s c ∧ BufOk HZ s c

/-- The card has been started at `v`, and since then its position has been brought up to date
only. -/
structure Inv (HZ : ℕ) (v s : St) : Prop where
  params : s.dev.params = v.dev.params
  last : s.dev.lastJiffies = wrap 64 s.now
  clock : v.now ≤ s.now
  balance : ∃ total, delivered s.log = delivered v.log + total ∧
    HZ * total + s.dev.irqPos % HZ = v.dev.pcmBps * (s.now - v.now) ∧
    s.dev.bufPos = total % v.dev.pcmBufferSize

/-- What the device must be like for its position not to drift. -/
structure Sized (HZ : ℕ) (d : Dev) : Prop where
  running : d.running ≠ 0
  bps : 0 < d.pcmBps
  period : HZ ∣ d.periodSizeFrac
  buffer : 0 < d.pcmBufferSize

lemma Sized.of_params {d' : Dev} (h : Sized HZ d) (hp : d'.params = d.params) : Sized HZ d' := by
  obtain ⟨-, hrun, hbps, -, hfrac, hbuf⟩ := Params.mk.inj hp
  exact ⟨hrun ▸ h.running, hbps ▸ h.bps, hfrac ▸ h.period, hbuf ▸ h.buffer⟩

lemma Inv.bufPos_lt {v s : St} (hv : Sized HZ v.dev) (h : Inv HZ v s) :
    s.dev.bufPos < v.dev.pcmBufferSize := by
  obtain ⟨total, -, -, hpos⟩ := h.balance
  rw [hpos]
  exact Nat.mod_lt total hv.buffer

lemma Inv.ready {v s : St} {c : Call} (hv : Sized HZ v.dev) (h : Inv HZ v s)
    (hc : UpdateOk HZ s c) (hclock : s.now ≤ c.time) : Ready HZ s.now c.time s.dev := by
  have hs := hv.of_params h.params
  have hbuf : s.dev.pcmBufferSize = v.dev.pcmBufferSize := congrArg Params.pcmBufferSize h.params
  exact ⟨hs.running, hs.bps, hs.period, h.last, hclock, hbuf ▸ h.bufPos_lt hv, hc.1.2, hc.2⟩

lemma Inv.update {v s s' : St} {c : Call} (hv : Sized HZ v.dev) (h : Inv HZ v s)
    (hc : UpdateOk HZ s c) (hstep : step HZ s c = some s') : Inv HZ v s' := by
  obtain ⟨hclock, hnow, hdev, hlog⟩ := step_eq_some hstep
  obtain ⟨hlast, hfrac, hcount, hpos⟩ := hc.1.1.moved (h.ready hv hc hclock)
  obtain ⟨total, htotal, hbal, hbuf⟩ := h.balance
  have hbps : s.dev.pcmBps = v.dev.pcmBps := congrArg Params.pcmBps h.params
  have hsize : s.dev.pcmBufferSize = v.dev.pcmBufferSize := congrArg Params.pcmBufferSize h.params
  rw [← hdev] at hlast hfrac hpos
  refine ⟨?_, by rw [hlast, hnow], by rw [hnow]; exact h.clock.trans hclock,
    total + delivered (c.op.run HZ (wrap 64 c.time) s).2, ?_, ?_, ?_⟩
  · rw [hdev, hc.1.1.params, h.params]
  · rw [hlog, delivered_append, htotal, Nat.add_assoc]
  · have hcarry := mul_count_add_mod HZ s.dev.irqPos ((c.time - s.now) * s.dev.pcmBps)
    have helapsed : v.dev.pcmBps * (c.time - v.now) =
        v.dev.pcmBps * (s.now - v.now) + (c.time - s.now) * s.dev.pcmBps := by
      have hsum : c.time - v.now = s.now - v.now + (c.time - s.now) := by
        have := h.clock
        omega
      rw [hbps, hsum, Nat.mul_add, Nat.mul_comm (c.time - s.now)]
    rw [hfrac, hcount, hnow, helapsed, Nat.mul_add]
    omega
  · rw [hpos, hbuf, hsize, Nat.mod_add_mod]

lemma Inv.result {v s : St} (hHZ : 0 < HZ) (h : Inv HZ v s) :
    delivered s.log = delivered v.log + v.dev.pcmBps * (s.now - v.now) / HZ ∧
    s.dev.bufPos = v.dev.pcmBps * (s.now - v.now) / HZ % v.dev.pcmBufferSize := by
  obtain ⟨total, htotal, hbal, hpos⟩ := h.balance
  have hdiv : v.dev.pcmBps * (s.now - v.now) / HZ = total := by
    rw [← hbal, Nat.mul_add_div hHZ, Nat.div_eq_of_lt (Nat.mod_lt _ hHZ), Nat.add_zero]
  rw [hdiv]
  exact ⟨htotal, hpos⟩

/-! ### Starting the card -/

/-- What holds of the device at all times: no stream but the one is valid, and the size of a
period in fractions is that of the period. -/
structure Sound (HZ : ℕ) (p : Params) : Prop where
  valid : p.valid = 0 ∨ p.valid = CABLE_CAPTURE
  period : p.periodSizeFrac = fracPos HZ p.pcmPeriodSize

lemma Sound.branch {p : Params} (h : Sound HZ p) : p.valid &&& ~~~CABLE_CAPTURE = 0 := by
  rcases h.valid with h | h <;> rw [h] <;> decide

lemma Sound.valid_or {p : Params} (h : Sound HZ p) : p.valid ||| CABLE_CAPTURE = CABLE_CAPTURE := by
  rcases h.valid with h | h <;> rw [h] <;> decide

lemma setRate_of_sound (rt : Runtime) (hd : Sound HZ d.params) :
    d.setRate HZ rt = { d with
      pcmBps := rt.bps
      pcmPeriodSize := wrap 32 (framesToBytes rt rt.periodSize)
      periodSizeFrac := fracPos HZ (wrap 32 (framesToBytes rt rt.periodSize)) } :=
  if_pos hd.branch

lemma Sound.reset (hd : Sound HZ d.params) (size : ℕ) :
    Sound HZ (d.setBuffer size).resetPos.params := by
  unfold Dev.resetPos
  split <;> exact ⟨hd.valid, hd.period⟩

lemma prepare_sound {rt : Runtime} (hd : Sound HZ d.params) :
    Sound HZ (minivoscPcmPrepare HZ rt d).2.1.params := by
  unfold minivoscPcmPrepare
  split
  · exact hd
  · have hreset := hd.reset (wrap 32 (framesToBytes rt rt.bufferSize))
    dsimp only
    rw [setRate_of_sound rt hreset]
    exact ⟨.inr hreset.valid_or, rfl⟩

lemma trigger_sound {cmd : Cmd} {jiffies : ℕ} (hd : Sound HZ d.params) :
    Sound HZ (minivoscPcmTrigger cmd jiffies d).2.params := by
  unfold minivoscPcmTrigger
  cases cmd with
  | start =>
    dsimp only
    split <;> exact ⟨hd.valid, hd.period⟩
  | stop =>
    dsimp only
    split <;> exact ⟨hd.valid, hd.period⟩
  | other => exact hd

/-- The card at `v` has been prepared with `rt` and started, not running before. -/
structure Started (HZ : ℕ) (rt : Runtime) (v : St) : Prop where
  running : v.dev.running = CABLE_CAPTURE
  irqPos : v.dev.irqPos = 0
  bufPos : v.dev.bufPos = 0
  last : v.dev.lastJiffies = wrap 64 v.now
  bps : v.dev.pcmBps = rt.bps
  periodSize : v.dev.pcmPeriodSize = wrap 32 (framesToBytes rt rt.periodSize)
  period : v.dev.periodSizeFrac = fracPos HZ v.dev.pcmPeriodSize
  buffer : v.dev.pcmBufferSize = wrap 32 (framesToBytes rt rt.bufferSize)

lemma trigger_start {jiffies : ℕ} (hidle : d.running = 0) :
    (minivoscPcmTrigger .start jiffies d).2 =
      { minivoscTimerStart jiffies { d with lastJiffies := jiffies } with
        running := CABLE_CAPTURE } := by
  have hrun : d.running ||| CABLE_CAPTURE = CABLE_CAPTURE := by
    rw [hidle]
    decide
  unfold minivoscPcmTrigger
  dsimp only
  rw [if_pos hidle]
  exact congrArg (fun r : UInt32 =>
    { minivoscTimerStart jiffies { d with lastJiffies := jiffies } with running := r }) hrun

lemma Started.sized {rt : Runtime} {v : St} (h : Started HZ rt v) (hbps : 0 < v.dev.pcmBps)
    (hperiod : v.dev.pcmPeriodSize * HZ < 2 ^ 32) (hbuffer : 0 < v.dev.pcmBufferSize) :
    Sized HZ v.dev := by
  refine ⟨by rw [h.running]; decide, hbps, ?_, hbuffer⟩
  rw [h.period, fracPos, wrap_of_lt hperiod]
  exact Nat.dvd_mul_left ..

/-! ### The parameters that the sound core admits -/

lemma Runtime.Admitted.values {rt : Runtime} (h : rt.Admitted) :
    rt.bps = 8000 ∧ wrap 32 (framesToBytes rt rt.periodSize) = 48 ∧
      ∃ k, 1 ≤ k ∧ k ≤ 32 ∧ wrap 32 (framesToBytes rt rt.bufferSize) = 48 * k := by
  obtain ⟨hrate, hchannels, hwidth, hframe, hperiod, k, hpos, hle, hbuf⟩ := h
  have hbits : rt.frameBits = 8 := by rw [hframe, hchannels, hwidth]
  have hframes : rt.periodSize = 48 := by
    rw [framesToBytes, hbits] at hperiod
    omega
  refine ⟨?_, by rw [hperiod]; rfl, k, hpos, hle, ?_⟩
  · rw [Runtime.bps, hrate, hchannels, hwidth]
    rfl
  · rw [framesToBytes, hbits, hbuf, hframes, Nat.mul_div_cancel _ (by decide), Nat.mul_comm]
    exact wrap_of_lt (by omega)

-- the buffer is small, so `irq_pos` would overflow before the position in the buffer does
lemma Inv.bufOk {v s : St} {c : Call} (hv : Sized HZ v.dev) (h : Inv HZ v s)
    (hbuffer : v.dev.pcmBufferSize ≤ 1536) (hHZ : 2 ≤ HZ) (hc : IrqOk s c) : BufOk HZ s c := by
  have hpos := h.bufPos_lt hv
  have hdiv : (s.dev.irqPos + (c.time - s.now) * s.dev.pcmBps) / HZ ≤ 2 ^ 32 / 2 :=
    Nat.div_le_div hc.2.le hHZ (by decide)
  calc s.dev.bufPos + ((s.dev.irqPos + (c.time - s.now) * s.dev.pcmBps) / HZ - s.dev.irqPos / HZ)
      ≤ 1536 + 2 ^ 32 / 2 := Nat.add_le_add (by omega) ((Nat.sub_le ..).trans hdiv)
    _ < 2 ^ 32 := by decide

end LinuxSamples.Minivosc
