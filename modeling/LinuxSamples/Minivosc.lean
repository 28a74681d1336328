import LinuxSamples.Run
import LinuxSamples.Word

/-!
The `minivosc` sound card: a capture device whose position is driven by the clock.

The position inside the current period is kept in fractions of a byte, `HZ` of them to the
byte, and brought up to date by `minivosc_pos_update`, which both the timer and the `pointer`
callback call. The operations below run with `BUFFERMARKS` and without a `COPYALG`, as the
source ships. What they do besides changing the device is a list of events: the transfers,
the writes to the PCM buffer, the periods reported and the positions answered. The time is
the number of clock ticks so far; `jiffies` holds its low 64 bits.
-/

namespace LinuxSamples.Minivosc

open LinuxSamples.Run LinuxSamples.Word

def EINVAL : ℤ := 22

/-- `1 << ss->stream` for the one substream, `SNDRV_PCM_STREAM_CAPTURE`. -/
def CABLE_CAPTURE : UInt32 := (1 : UInt32) <<< 1

/-- The parameters of the substream that the driver reads. -/
structure Runtime where
  rate : ℕ
  channels : ℕ
  formatWidth : ℕ
  frameBits : ℕ
  bufferSize : ℕ
  periodSize : ℕ
deriving DecidableEq

def framesToBytes (rt : Runtime) (frames : ℕ) : ℕ := frames * rt.frameBits / 8

def bytesToFrames (rt : Runtime) (bytes : ℕ) : ℕ := bytes * 8 / rt.frameBits

/-- The parameters that `minivosc_pcm_hw` admits. -/
structure Runtime.Admitted (rt : Runtime) : Prop where
  rate : rt.rate = 8000
  channels : rt.channels = 1
  formatWidth : rt.formatWidth = 8
  frameBits : rt.frameBits = rt.channels * rt.formatWidth
  period : framesToBytes rt rt.periodSize = 48
  buffer : ∃ periods, 1 ≤ periods ∧ periods ≤ 32 ∧ rt.bufferSize = periods * rt.periodSize

/-- `struct minivosc_device`. -/
structure Dev where
  pcmPeriodSize : ℕ
  pcmBps : ℕ
  valid : UInt32
  running : UInt32
  periodUpdatePending : Bool
  irqPos : ℕ
  periodSizeFrac : ℕ
  lastJiffies : ℕ
  /-- The `expires` of the timer while it is pending. -/
  timer : Option ℕ
  pcmBufferSize : ℕ
  bufPos : ℕ
  silentSize : ℕ
deriving DecidableEq

def Dev.zero : Dev := ⟨0, 0, 0, 0, false, 0, 0, 0, none, 0, 0, 0⟩

inductive Event
  | xferBuf (count : ℕ)
  | memset (off : ℤ) (c : UInt8) (n : ℕ)
  | memcpy (off : ℤ) (bytes : List UInt8)
  | periodElapsed
  | position (frames : ℕ)
deriving DecidableEq

/-! ### The buffer -/

/-- The marks `minivosc_fill_capture_buf` sets. -/
def bufferMarks (bufferSize dstOff bytes : ℕ) : List Event :=
  [.memset 1 160 1, .memset (bufferSize - 2) 140 1, .memset dstOff 120 1] ++
  (if dstOff = 0 then [.memset dstOff 250 1] else []) ++
  [.memset (dstOff + bytes - 2) 90 1]

/-- The `float` -0.2 in memory. -/
def wrdat : List UInt8 := [0xCD, 0xCC, 0x4C, 0xBE]

/-- The bytes one round of the loop below clears: not beyond the end of the buffer. -/
def clearSize (bufferSize dstOff bytes : ℕ) : ℕ :=
  if wrap 32 (dstOff + bytes) > bufferSize then subU 32 bufferSize dstOff else bytes

/-- The loop that clears what `silent_size` does not cover yet: `silent_size` afterwards, and
the writes. As long as `dst_off` is in the buffer, every round takes at least one of the bytes. -/
def clearLoop (bufferSize : ℕ) : ℕ → ℕ → ℕ → ℕ → ℕ × List Event
  | 0, silent, _, _ => (silent, [])
  | fuel + 1, silent, dstOff, bytes =>
    let size := clearSize bufferSize dstOff bytes
    let writes := (List.range ((size + 3) / 4)).map fun i => .memcpy (dstOff + 4 * i) wrdat
    let silent := wrap 32 (silent + size)
    let left := subU 32 bytes size
    if left = 0 then (silent, writes)
    else
      let rest := clearLoop bufferSize fuel silent 0 left
      (rest.1, writes ++ rest.2)

def minivoscFillCaptureBuf (d : Dev) (bytes : ℕ) : Dev × List Event :=
  let marks := bufferMarks d.pcmBufferSize d.bufPos bytes
  if d.silentSize ≥ d.pcmBufferSize then (d, marks)
  else
    let left := if wrap 32 (d.silentSize + bytes) > d.pcmBufferSize
      then subU 32 d.pcmBufferSize d.silentSize else bytes
    let done := clearLoop d.pcmBufferSize (left + 1) d.silentSize d.bufPos left
    ({ d with silentSize := done.1 }, marks ++ done.2)

def minivoscXferBuf (d : Dev) (count : ℕ) : Dev × List Event :=
  let filled := if d.running = CABLE_CAPTURE then minivoscFillCaptureBuf d count else (d, [])
  let d := filled.1
  (if d.running ≠ 0 then { d with bufPos := wrap 32 (d.bufPos + count) % d.pcmBufferSize } else d,
    .xferBuf count :: filled.2)

/-! ### The position -/

section

variable (HZ : ℕ)

def bytePos (x : ℕ) : ℕ := x / HZ
def fracPos (x : ℕ) : ℕ := wrap 32 (x * HZ)

def minivoscPosUpdate (jiffies : ℕ) (d : Dev) : Dev × List Event :=
  if d.running = 0 then (d, [])
  else
    let delta := subU 64 jiffies d.lastJiffies
    if delta = 0 then (d, [])
    else
      let lastPos := bytePos HZ d.irqPos
      let d := { d with
        lastJiffies := wrap 64 (d.lastJiffies + delta)
        irqPos := wrap 32 (d.irqPos + wrap 64 (delta * d.pcmBps)) }
      let count := subU 32 (bytePos HZ d.irqPos) lastPos
      if count = 0 then (d, [])
      else
        let done := minivoscXferBuf d count
        let d := done.1
        (if d.irqPos ≥ d.periodSizeFrac then
          { d with irqPos := d.irqPos % d.periodSizeFrac, periodUpdatePending := true }
        else d, done.2)

/-! ### The timer -/

def minivoscTimerStart (jiffies : ℕ) (d : Dev) : Dev :=
  let tick := subU 32 d.periodSizeFrac d.irqPos
  let tick := subU 64 (wrap 64 (tick + d.pcmBps)) 1 / d.pcmBps
  { d with timer := some (wrap 64 (jiffies + tick)) }

def minivoscTimerStop (d : Dev) : Dev := { d with timer := none }

def minivoscTimerFunction (jiffies : ℕ) (d : Dev) : Dev × List Event :=
  if d.running = 0 then (d, [])
  else
    let done := minivoscPosUpdate HZ jiffies d
    let d := minivoscTimerStart jiffies done.1
    if d.periodUpdatePending then
      ({ d with periodUpdatePending := false },
        done.2 ++ if d.running ≠ 0 then [.periodElapsed] else [])
    else (d, done.2)

/-! ### The callbacks -/

/-- The bytes per second `minivosc_pcm_prepare` computes. -/
def Runtime.bps (rt : Runtime) : ℕ := wrap 32 (wrap 32 (rt.rate * rt.channels) * rt.formatWidth) / 8

/-- `prepare`: the buffer is cleared. -/
def Dev.setBuffer (d : Dev) (size : ℕ) : Dev :=
  { d with bufPos := 0, pcmBufferSize := size, silentSize := size }

/-- `prepare`: the position is reset unless the card is running. -/
def Dev.resetPos (d : Dev) : Dev :=
  if d.running = 0 then { d with irqPos := 0, periodUpdatePending := false } else d

/-- `prepare`: the rate and the period are set unless another stream has set them. -/
def Dev.setRate (d : Dev) (rt : Runtime) : Dev :=
  if d.valid &&& ~~~CABLE_CAPTURE = 0 then
    { d with
      pcmBps := rt.bps
      pcmPeriodSize := wrap 32 (framesToBytes rt rt.periodSize)
      periodSizeFrac := fracPos HZ (wrap 32 (framesToBytes rt rt.periodSize)) }
  else d

def minivoscPcmPrepare (rt : Runtime) (d : Dev) : ℤ × Dev × List Event :=
  if rt.bps = 0 then (-EINVAL, d, [])
  else
    let size := wrap 32 (framesToBytes rt rt.bufferSize)
    let d := (d.setBuffer size).resetPos.setRate HZ rt
    (0, { d with valid := d.valid ||| CABLE_CAPTURE }, [.memset 0 45 size])

inductive Cmd
  | start
  | stop
  | other
deriving DecidableEq

def minivoscPcmTrigger (cmd : Cmd) (jiffies : ℕ) (d : Dev) : ℤ × Dev :=
  match cmd with
  | .start =>
    let d := if d.running = 0 then
        minivoscTimerStart jiffies { d with lastJiffies := jiffies }
      else d
    (0, { d with running := d.running ||| CABLE_CAPTURE })
  | .stop =>
    let d := { d with running := d.running &&& ~~~CABLE_CAPTURE }
    (0, if d.running = 0 then minivoscTimerStop d else d)
  | .other => (-EINVAL, d)

def minivoscPcmPointer (rt : Runtime) (jiffies : ℕ) (d : Dev) : Dev × List Event :=
  let done := minivoscPosUpdate HZ jiffies d
  (done.1, done.2 ++ [.position (bytesToFrames rt done.1.bufPos)])

end

/-! ### The card over time -/

/-- What is called: a callback of the substream, or the timer. -/
inductive Op
  | prepare (rt : Runtime)
  | trigger (cmd : Cmd)
  | pointer
  | timer
deriving DecidableEq

structure Call where
  time : ℕ
  op : Op

/-- The device, the parameters it was prepared with, the time of the last call, and all that
has happened. -/
structure St where
  dev : Dev
  rt : Runtime
  now : ℕ
  log : List Event
deriving DecidableEq

def St.init : St := ⟨Dev.zero, ⟨0, 0, 0, 0, 0, 0⟩, 0, []⟩

/-- What a call does to the device, with the events. -/
def Op.run (HZ jiffies : ℕ) (s : St) : Op → Dev × List Event
  | .prepare rt => (minivoscPcmPrepare HZ rt s.dev).2
  | .trigger cmd => ((minivoscPcmTrigger cmd jiffies s.dev).2, [])
  | .pointer => minivoscPcmPointer HZ s.rt jiffies s.dev
  -- the kernel takes the timer off its list before it runs
  | .timer => minivoscTimerFunction HZ jiffies { s.dev with timer := none }

/-- One call; the clock does not go backwards. -/
def step (HZ : ℕ) (s : St) (c : Call) : Option St :=
  if s.now ≤ c.time then
    let done := c.op.run HZ (wrap 64 c.time) s
    let rt := match c.op with
      | .prepare rt => rt
      | _ => s.rt
    some ⟨done.1, rt, c.time, s.log ++ done.2⟩
  else none

end LinuxSamples.Minivosc
