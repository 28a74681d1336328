import LinuxSamples.MinivoscDrift

/-!
Where `minivosc` writes when it fills its buffer.

With the parameters that `minivosc_pcm_hw` admits, `prepare` has declared the whole buffer
silent, so that an update writes nothing but its marks. All of them but the last lie in the
buffer. The last one is set two bytes before the end of what is delivered, and that end is not
taken modulo the size of the buffer.
-/

namespace LinuxSamples.Minivosc

open LinuxSamples.Run LinuxSamples.Word

/-! ### One update -/

section

variable (HZ jiffies : ℕ) (d : Dev)

/-- `irq_pos` after an update, before it is reduced by periods. -/
def Dev.nextPos : ℕ :=
  wrap 32 (d.irqPos + wrap 64 (subU 64 jiffies d.lastJiffies * d.pcmBps))

def Dev.count : ℕ := subU 32 (bytePos HZ (d.nextPos jiffies)) (bytePos HZ d.irqPos)

/-- The device that an update leaves which delivers nothing yet. -/
def Dev.waited : Dev :=
  { d with
    lastJiffies := wrap 64 (d.lastJiffies + subU 64 jiffies d.lastJiffies)
    irqPos := d.nextPos jiffies }

/-- The position reduced by whole periods, which are to be reported. -/
def Dev.reduced : Dev :=
  if d.irqPos ≥ d.periodSizeFrac then
    { d with irqPos := d.irqPos % d.periodSizeFrac, periodUpdatePending := true }
  else d

/-- The device that an update leaves which delivers something. -/
def Dev.moved : Dev :=
  { d.waited jiffies with
    bufPos := wrap 32 (d.bufPos + d.count HZ jiffies) % d.pcmBufferSize }.reduced

end

variable {HZ jiffies : ℕ} {d : Dev}

lemma capture_ne_zero : CABLE_CAPTURE ≠ 0 := by decide

lemma xferBuf_of_silent (hrun : d.running = CABLE_CAPTURE)
    (hsilent : d.pcmBufferSize ≤ d.silentSize) (count : ℕ) :
    minivoscXferBuf d count =
      ({ d with bufPos := wrap 32 (d.bufPos + count) % d.pcmBufferSize },
        .xferBuf count :: bufferMarks d.pcmBufferSize d.bufPos count) := by
  have hne : d.running ≠ 0 := hrun ▸ capture_ne_zero
  simp only [minivoscXferBuf, minivoscFillCaptureBuf, if_pos hrun, if_pos hsilent]
  rw [if_pos hne]

lemma posUpdate_cases (HZ jiffies : ℕ) (hrun : d.running = CABLE_CAPTURE)
    (hsilent : d.pcmBufferSize ≤ d.silentSize) :
    (subU 64 jiffies d.lastJiffies = 0 ∧ minivoscPosUpdate HZ jiffies d = (d, [])) ∨
    (d.count HZ jiffies = 0 ∧ minivoscPosUpdate HZ jiffies d = (d.waited jiffies, [])) ∨
    (d.count HZ jiffies ≠ 0 ∧ minivoscPosUpdate HZ jiffies d = (d.moved HZ jiffies,
      .xferBuf (d.count HZ jiffies) ::
        bufferMarks d.pcmBufferSize d.bufPos (d.count HZ jiffies))) := by
  have hne : d.running ≠ 0 := hrun ▸ capture_ne_zero
  by_cases hdelta : subU 64 jiffies d.lastJiffies = 0
  · refine Or.inl ⟨hdelta, ?_⟩
    simp only [minivoscPosUpdate, if_neg hne, if_pos hdelta]
  by_cases hcount : d.count HZ jiffies = 0
  · refine Or.inr (Or.inl ⟨hcount, ?_⟩)
    simp only [minivoscPosUpdate, if_neg hne, if_neg hdelta]
    exact if_pos hcount
  · refine Or.inr (Or.inr ⟨hcount, ?_⟩)
    have hxfer := xferBuf_of_silent (d := d.waited jiffies) hrun hsilent (d.count HZ jiffies)
    have hupdate : minivoscPosUpdate HZ jiffies d =
        ((minivoscXferBuf (d.waited jiffies) (d.count HZ jiffies)).1.reduced,
          (minivoscXferBuf (d.waited jiffies) (d.count HZ jiffies)).2) := by
      rw [minivoscPosUpdate, if_neg hne]
      exact (if_neg hdelta).trans (if_neg hcount)
    rw [hupdate, hxfer]
    rfl

/-! ### The marks -/

/-- The bytes that an event writes lie in a buffer of `size` bytes. -/
def Event.Inside (size : ℕ) : Event → Prop
  | .memset off _ n => 0 ≤ off ∧ off + n ≤ size
  | .memcpy off bytes => 0 ≤ off ∧ off + bytes.length ≤ size
  | _ => True

/-- Two bytes are delivered at least from the beginning of the buffer on, and not more than one
byte beyond its end. -/
def EndsInside (size pos count : ℕ) : Prop := 2 ≤ pos + count ∧ pos + count ≤ size + 1

lemma bufferMarks_inside_iff {size pos : ℕ} (hsize : 2 ≤ size) (hpos : pos < size) (count : ℕ) :
    (∀ e ∈ bufferMarks size pos count, e.Inside size) ↔ EndsInside size pos count := by
  have hlast : (Event.memset (pos + count - 2) 90 1).Inside size ↔ EndsInside size pos count := by
    simp only [Event.Inside, EndsInside]
    omega
  rw [← hlast]
  constructor
  · intro h
    refine h _ ?_
    simp [bufferMarks]
  · intro h e he
    simp only [bufferMarks, List.mem_append, List.mem_cons, List.not_mem_nil, or_false] at he
    rcases he with ((rfl | rfl | rfl) | he) | rfl
    · exact ⟨by decide, by omega⟩
    · exact ⟨by omega, by omega⟩
    · exact ⟨by omega, by omega⟩
    · split at he
      · rw [List.mem_singleton] at he
        subst he
        exact ⟨by omega, by omega⟩
      · cases he
    · exact h

/-! ### The card with admitted parameters -/

/-- The sound core prepares the card with what `minivosc_pcm_hw` admits, and starts it only
when it is prepared. -/
def Admits (s : St) (c : Call) : Prop :=
  match c.op with
  | .prepare rt => rt.Admitted
  | .trigger .start => s.dev.valid ≠ 0
  | _ => True

/-- What the parameters of a card are once it has been prepared. -/
structure Prepared (d : Dev) : Prop where
  bps : d.pcmBps = 8000
  period : d.pcmPeriodSize = 48
  buffer : ∃ k, 1 ≤ k ∧ k ≤ 32 ∧ d.pcmBufferSize = 48 * k
  pos : d.bufPos < d.pcmBufferSize
  silent : d.silentSize = d.pcmBufferSize

structure Configured (HZ : ℕ) (d : Dev) : Prop where
  sound : Sound HZ d.params
  running : d.running = 0 ∨ d.running = CABLE_CAPTURE
  idle : d.valid = 0 → d.running = 0
  prepared : d.valid ≠ 0 → Prepared d

lemma Configured.of_running (h : Configured HZ d) (hrun : d.running ≠ 0) :
    d.running = CABLE_CAPTURE ∧ d.valid ≠ 0 ∧ Prepared d := by
  have hvalid : d.valid ≠ 0 := fun hv => hrun (h.idle hv)
  exact ⟨h.running.resolve_left hrun, hvalid, h.prepared hvalid⟩

lemma Prepared.size_le (h : Prepared d) : 48 ≤ d.pcmBufferSize := by
  obtain ⟨k, hk, -, hsize⟩ := h.buffer
  omega

lemma prepare_eq {rt : Runtime} (hd : Sound HZ d.params) (hrt : rt.bps ≠ 0) :
    (minivoscPcmPrepare HZ rt d).2.1 = { d with
      bufPos := 0
      pcmBufferSize := wrap 32 (framesToBytes rt rt.bufferSize)
      silentSize := wrap 32 (framesToBytes rt rt.bufferSize)
      irqPos := if d.running = 0 then 0 else d.irqPos
      periodUpdatePending := if d.running = 0 then false else d.periodUpdatePending
      pcmBps := rt.bps
      pcmPeriodSize := wrap 32 (framesToBytes rt rt.periodSize)
      periodSizeFrac := fracPos HZ (wrap 32 (framesToBytes rt rt.periodSize))
      valid := CABLE_CAPTURE } := by
  have hvalid : d.valid ||| CABLE_CAPTURE = CABLE_CAPTURE := hd.valid_or
  rw [minivoscPcmPrepare, if_neg hrt]
  dsimp only
  rw [setRate_of_sound rt (hd.reset _), Dev.resetPos]
  by_cases hrun : d.running = 0
  · rw [if_pos (by exact hrun), if_pos hrun, if_pos hrun, Dev.setBuffer]
    simp only [hvalid]
  · rw [if_neg (by exact hrun), if_neg hrun, if_neg hrun, Dev.setBuffer]
    simp only [hvalid]

lemma Configured.prepare {rt : Runtime} (h : Configured HZ d) (hrt : rt.Admitted) :
    Configured HZ (minivoscPcmPrepare HZ rt d).2.1 := by
  obtain ⟨hbps, hperiod, k, hpos, hle, hbuffer⟩ := hrt.values
  have hsound : Sound HZ (minivoscPcmPrepare HZ rt d).2.1.params := prepare_sound h.sound
  rw [prepare_eq h.sound (by rw [hbps]; decide)] at hsound ⊢
  have hsize : 0 < wrap 32 (framesToBytes rt rt.bufferSize) := by omega
  exact ⟨hsound, h.running, fun hv => absurd hv capture_ne_zero,
    fun _ => ⟨hbps, hperiod, ⟨k, hpos, hle, hbuffer⟩, hsize, rfl⟩⟩

lemma Configured.trigger_start_running (h : Configured HZ d) (hrun : d.running ≠ 0) :
    (minivoscPcmTrigger .start jiffies d).2 = d := by
  have hor : d.running ||| CABLE_CAPTURE = d.running := by
    rw [(h.of_running hrun).1]
    decide
  simp only [minivoscPcmTrigger, if_neg hrun, hor]

lemma Configured.trigger_stop (h : Configured HZ d) :
    (minivoscPcmTrigger .stop jiffies d).2 = { d with running := 0, timer := none } := by
  have hoff : d.running &&& ~~~CABLE_CAPTURE = 0 := by
    rcases h.running with hrun | hrun <;> rw [hrun] <;> decide
  simp only [minivoscPcmTrigger, hoff, if_true, minivoscTimerStop]

lemma Configured.trigger {cmd : Cmd} (h : Configured HZ d) (jiffies : ℕ)
    (hcmd : cmd = .start → d.valid ≠ 0) : Configured HZ (minivoscPcmTrigger cmd jiffies d).2 := by
  have hsound : Sound HZ (minivoscPcmTrigger cmd jiffies d).2.params := trigger_sound h.sound
  cases cmd with
  | start =>
    have hvalid := hcmd rfl
    have hp := h.prepared hvalid
    by_cases hrun : d.running = 0
    · rw [trigger_start hrun] at hsound ⊢
      exact ⟨hsound, Or.inr rfl, fun hv => absurd hv hvalid,
        fun _ => ⟨hp.bps, hp.period, hp.buffer, hp.pos, hp.silent⟩⟩
    · rwa [h.trigger_start_running hrun]
  | stop =>
    rw [h.trigger_stop] at hsound ⊢
    refine ⟨hsound, Or.inl rfl, fun _ => rfl, fun hv => ?_⟩
    have hp := h.prepared hv
    exact ⟨hp.bps, hp.period, hp.buffer, hp.pos, hp.silent⟩
  | other => exact h

lemma Configured.of_params {d' : Dev} (h : Configured HZ d) (hparams : d'.params = d.params)
    (hpos : d.valid ≠ 0 → d'.bufPos < d.pcmBufferSize) (hsilent : d'.silentSize = d.silentSize) :
    Configured HZ d' := by
  obtain ⟨hvalid, hrun, hbps, hperiod, -, hbuffer⟩ := Params.mk.inj hparams
  refine ⟨hparams ▸ h.sound, hrun ▸ h.running, fun hv => hrun.trans (h.idle (hvalid ▸ hv)),
    fun hv => ?_⟩
  rw [hvalid] at hv
  have hp := h.prepared hv
  exact ⟨hbps.trans hp.bps, hperiod.trans hp.period, hbuffer ▸ hp.buffer, hbuffer ▸ hpos hv,
    by rw [hsilent, hbuffer, hp.silent]⟩

lemma Configured.of_same {d' : Dev} (h : Configured HZ d) (hparams : d'.params = d.params)
    (hpos : d'.bufPos = d.bufPos) (hsilent : d'.silentSize = d.silentSize) : Configured HZ d' :=
  h.of_params hparams (fun hv => hpos ▸ (h.prepared hv).pos) hsilent

lemma reduced_bufPos (d : Dev) :
    d.reduced.bufPos = d.bufPos ∧ d.reduced.silentSize = d.silentSize := by
  unfold Dev.reduced
  split <;> exact ⟨rfl, rfl⟩

lemma Configured.posUpdate (h : Configured HZ d) (jiffies : ℕ) :
    Configured HZ (minivoscPosUpdate HZ jiffies d).1 := by
  by_cases hrun : d.running = 0
  · rw [minivoscPosUpdate, if_pos hrun]
    exact h
  obtain ⟨hcapture, -, hp⟩ := h.of_running hrun
  have hparams := posUpdate_params HZ jiffies d
  rcases posUpdate_cases HZ jiffies hcapture hp.silent.ge with
    ⟨-, heq⟩ | ⟨-, heq⟩ | ⟨-, heq⟩
  all_goals rw [heq] at hparams ⊢
  · exact h
  · exact h.of_params hparams (fun _ => hp.pos) rfl
  · have hreduced := reduced_bufPos { d.waited jiffies with
      bufPos := wrap 32 (d.bufPos + d.count HZ jiffies) % d.pcmBufferSize }
    refine h.of_params hparams (fun _ => ?_) hreduced.2
    have hsize := hp.size_le
    exact hreduced.1.trans_lt (Nat.mod_lt _ (by omega))

lemma Configured.timerFunction (h : Configured HZ d) (jiffies : ℕ) :
    Configured HZ (minivoscTimerFunction HZ jiffies d).1 := by
  have hpos := h.posUpdate jiffies
  unfold minivoscTimerFunction
  dsimp only
  split
  · exact h
  · split <;> exact hpos.of_same rfl rfl rfl

lemma configured_step {s s' : St} {c : Call} (h : Configured HZ s.dev) (hc : Admits s c)
    (hstep : step HZ s c = some s') : Configured HZ s'.dev := by
  obtain ⟨-, -, hdev, -⟩ := step_eq_some hstep
  rw [hdev]
  obtain ⟨t, op⟩ := c
  cases op with
  | prepare rt => exact h.prepare hc
  | trigger cmd =>
    refine h.trigger _ fun hcmd => ?_
    subst hcmd
    exact hc
  | pointer => exact h.posUpdate _
  | timer =>
    have hcleared : Configured HZ { s.dev with timer := none } :=
      h.of_same rfl rfl rfl
    exact hcleared.timerFunction _

lemma configured_zero (HZ : ℕ) : Configured HZ Dev.zero := by
  refine ⟨⟨.inl rfl, ?_⟩, Or.inl rfl, fun _ => rfl, fun hv => absurd rfl hv⟩
  change 0 = wrap 32 (0 * HZ)
  rw [Nat.zero_mul]
  rfl

lemma configured_of_exec {s : St} {calls : List Call} (hrun : exec (step HZ) St.init calls = some s)
    (hok : Guarded (step HZ) Admits St.init calls) : Configured HZ s.dev :=
  hok.invariant (I := fun s => Configured HZ s.dev) hrun (configured_zero HZ)
    fun _ _ _ => configured_step

/-! ### Where an update writes -/

lemma Op.IsUpdate.events {op : Op} (hop : op.IsUpdate) (HZ jiffies : ℕ) (s : St) :
    ∃ timer tail, (op.run HZ jiffies s).2 =
        (minivoscPosUpdate HZ jiffies { s.dev with timer := timer }).2 ++ tail ∧
      ∀ e ∈ tail, e = .periodElapsed ∨ ∃ frames, e = .position frames := by
  rcases hop with rfl | rfl
  · exact ⟨s.dev.timer, _, rfl, fun e he => Or.inr ⟨_, List.mem_singleton.mp he⟩⟩
  · refine ⟨none, ?_⟩
    by_cases hrun : s.dev.running = 0
    · refine ⟨[], ?_, fun e he => by cases he⟩
      simp only [Op.run, minivoscTimerFunction, minivoscPosUpdate, if_pos hrun, List.append_nil]
    · simp only [Op.run, minivoscTimerFunction, if_neg hrun]
      split
      · refine ⟨_, rfl, fun e he => ?_⟩
        split at he
        · exact Or.inl (List.mem_singleton.mp he)
        · cases he
      · exact ⟨[], (List.append_nil _).symm, fun e he => by cases he⟩

lemma xferBuf_not_mem_bufferMarks (size pos bytes count : ℕ) :
    .xferBuf count ∉ bufferMarks size pos bytes := by
  unfold bufferMarks
  split <;> simp

lemma Configured.posUpdate_inside_iff (h : Configured HZ d) (jiffies : ℕ) :
    (∀ e ∈ (minivoscPosUpdate HZ jiffies d).2, e.Inside d.pcmBufferSize) ↔
      ∀ count, .xferBuf count ∈ (minivoscPosUpdate HZ jiffies d).2 →
        EndsInside d.pcmBufferSize d.bufPos count := by
  by_cases hidle : d.running = 0
  · rw [minivoscPosUpdate, if_pos hidle]
    simp
  obtain ⟨hcapture, -, hp⟩ := h.of_running hidle
  rcases posUpdate_cases HZ jiffies hcapture hp.silent.ge with
    ⟨-, heq⟩ | ⟨-, heq⟩ | ⟨-, heq⟩
  · simp [heq]
  · simp [heq]
  · have hsize := hp.size_le
    have hmarks := bufferMarks_inside_iff (by omega) hp.pos (d.count HZ jiffies)
    rw [heq, List.forall_mem_cons, hmarks]
    constructor
    · rintro ⟨-, hends⟩ count hmem
      rcases List.mem_cons.mp hmem with hcount | hmem
      · rw [Event.xferBuf.inj hcount]
        exact hends
      · exact absurd hmem (xferBuf_not_mem_bufferMarks _ _ _ _)
    · intro hends
      exact ⟨trivial, hends _ List.mem_cons_self⟩

/-- **Where an update writes.** Every byte lies in the buffer exactly if what is delivered
ends in it, where one byte more does no harm. -/
theorem minivosc_fill_inside_iff {HZ : ℕ} {calls : List Call} {s : St}
    (hrun : exec (step HZ) St.init calls = some s) (hok : Guarded (step HZ) Admits St.init calls)
    {op : Op} (hop : op.IsUpdate) (jiffies : ℕ) :
    (∀ e ∈ (op.run HZ jiffies s).2, e.Inside s.dev.pcmBufferSize) ↔
      ∀ count, .xferBuf count ∈ (op.run HZ jiffies s).2 →
        EndsInside s.dev.pcmBufferSize s.dev.bufPos count := by
  obtain ⟨timer, tail, hevents, htail⟩ := hop.events HZ jiffies s
  have hinside : ∀ e ∈ tail, e.Inside s.dev.pcmBufferSize := fun e he => by
    rcases htail e he with rfl | ⟨_, rfl⟩ <;> trivial
  have hcount : ∀ count, .xferBuf count ∉ tail := fun count he => by
    rcases htail _ he with h | ⟨_, h⟩ <;> cases h
  have hconf : Configured HZ { s.dev with timer := timer } := by
    have h := configured_of_exec hrun hok
    exact h.of_same rfl rfl rfl
  have hiff := hconf.posUpdate_inside_iff jiffies
  simp only [hevents, List.mem_append, hcount, or_false]
  rw [← hiff]
  exact ⟨fun h e he => h e (Or.inl he), fun h e he => he.elim (h e) (hinside e)⟩

def captureRuntime (periods : ℕ) : Runtime := ⟨8000, 1, 8, 8, 48 * periods, 48⟩

lemma captureRuntime_admitted {periods : ℕ} (h : 1 ≤ periods ∧ periods ≤ 32) :
    (captureRuntime periods).Admitted :=
  ⟨rfl, rfl, rfl, rfl, by simp [framesToBytes, captureRuntime], periods, h.1, h.2, Nat.mul_comm ..⟩

def startCalls (periods : ℕ) : List Call :=
  [⟨0, .prepare (captureRuntime periods)⟩, ⟨0, .trigger .start⟩]

lemma startCalls_admitted {periods : ℕ} (h : 1 ≤ periods ∧ periods ≤ 32) (HZ : ℕ)
    {calls : List Call} (hcalls : ∀ c ∈ calls, c.op = .pointer ∨ c.op = .timer) :
    Guarded (step HZ) Admits St.init (startCalls periods ++ calls) := by
  refine ⟨captureRuntime_admitted h, fun u hu => ⟨?_, fun v _ => ?_⟩⟩
  · obtain ⟨-, -, hdev, -⟩ := step_eq_some hu
    have hvalues := (captureRuntime_admitted h).values
    have hbps : (captureRuntime periods).bps ≠ 0 := by
      rw [hvalues.1]
      decide
    have hprepared := prepare_eq (configured_zero HZ).sound hbps
    have hvalid : u.dev.valid = CABLE_CAPTURE := (congrArg Dev.valid hdev).trans
      (congrArg Dev.valid hprepared)
    exact fun hzero => capture_ne_zero (hvalid.symm.trans hzero)
  · refine Guarded.of_forall (fun c hc s => ?_) v
    unfold Admits
    rcases hcalls c hc with hop | hop <;> rw [hop] <;> trivial

/-- With 250 ticks to the second, the first update of a large buffer stays in it. -/
theorem minivosc_fill_inside_first :
    ∃ s, exec (step 250) St.init (startCalls 32 ++ [⟨1, .pointer⟩]) = some s ∧
      ∀ e ∈ (Op.pointer.run 250 2 s).2, e.Inside s.dev.pcmBufferSize := by
  obtain ⟨s, hs, hcount, hlow, hhigh⟩ : ∃ s,
      exec (step 250) St.init (startCalls 32 ++ [⟨1, .pointer⟩]) = some s ∧
      (∀ e ∈ (Op.pointer.run 250 2 s).2, e.bytes ≤ 32) ∧ 2 ≤ s.dev.bufPos ∧
        s.dev.bufPos + 32 ≤ s.dev.pcmBufferSize + 1 := by
    apply exists_exec_of_any
    decide +kernel
  refine ⟨s, hs, ?_⟩
  have hok := startCalls_admitted (by decide : 1 ≤ 32 ∧ 32 ≤ 32) 250
    (List.forall_mem_singleton.mpr (Or.inl rfl) : ∀ c ∈ [(⟨1, .pointer⟩ : Call)], _)
  refine (minivosc_fill_inside_iff hs hok (Or.inl rfl) 2).mpr fun count hmem => ?_
  have hle : count ≤ 32 := hcount _ hmem
  exact ⟨by omega, by omega⟩

/-- In a buffer of one period, 32 bytes are delivered with each tick. The second 32 end behind
the buffer of 48 bytes, and so does their mark. -/
theorem minivosc_fill_outside :
    ∃ s, exec (step 250) St.init (startCalls 1 ++ [⟨1, .pointer⟩]) = some s ∧
      Guarded (step 250) Admits St.init (startCalls 1 ++ [⟨1, .pointer⟩]) ∧
      s.dev.pcmBufferSize = 48 ∧ s.dev.bufPos = 32 ∧
      .xferBuf 32 ∈ (Op.pointer.run 250 2 s).2 ∧ .memset 62 90 1 ∈ (Op.pointer.run 250 2 s).2 := by
  obtain ⟨s, hs, hout⟩ : ∃ s, exec (step 250) St.init (startCalls 1 ++ [⟨1, .pointer⟩]) = some s ∧
      s.dev.pcmBufferSize = 48 ∧ s.dev.bufPos = 32 ∧
      .xferBuf 32 ∈ (Op.pointer.run 250 2 s).2 ∧ .memset 62 90 1 ∈ (Op.pointer.run 250 2 s).2 := by
    apply exists_exec_of_any
    decide +kernel
  exact ⟨s, hs, startCalls_admitted (by decide) 250 (by simp), hout⟩

end LinuxSamples.Minivosc
