import LinuxSamples.Run
import LinuxSamples.CString

/-!
The virtual video driver: its format, its buffers and the frames drawn into them.

A frame is a copied line for every row of the buffer and four lines of text over them. The
driver is kept at the level of its calls: a call is a step, and so is a turn of the thread
that fills the buffers. Of a frame the model keeps the places that are read and written, not
the colours.
-/

namespace LinuxSamples.Vivi

open LinuxSamples.CString

def MAX_WIDTH : ℕ := 1920
def MAX_HEIGHT : ℕ := 1200

def ENOMEM : ℤ := 12
def EBUSY : ℤ := 16
def EINVAL : ℤ := 22
def ERANGE : ℤ := 34

/-- `enum videobuf_state`, as far as the driver goes through it. -/
inductive BufState
  | needsInit
  | prepared
  | queued
  | done
  | idle
  deriving DecidableEq

/-- `struct videobuf_buffer`. The application has mapped `bsize` bytes at `baddr`. -/
structure Buf where
  state : BufState
  width : ℕ
  height : ℕ
  size : ℕ
  baddr : ℕ
  bsize : ℕ

/-- One `memcpy`, by offsets into the buffer and into the line. -/
structure Copy where
  dst : ℕ
  src : ℤ
  len : ℕ

/-- What `vivi_fillbuff` does to a buffer of `size` bytes: the rows it copies, and the offsets
and lengths of what it draws over them. -/
structure Fill where
  size : ℕ
  rows : List Copy
  text : List (ℕ × ℕ)

inductive Ctrl
  | volume
  | brightness
  | contrast
  | saturation
  | hue
  deriving DecidableEq

/-- `struct vivi_dev`, the queue of its buffers, and which files have their `private_data` set.
`fills` are the frames drawn so far. -/
structure St where
  width : ℕ
  height : ℕ
  input : ℕ
  controls : Ctrl → ℤ
  ms : BitVec 32
  mvCount : BitVec 32
  generating : Bool
  streaming : Bool
  /-- `q->reading`: a `read` or `poll` has set up the queue for itself. -/
  reading : Bool
  privateData : ℕ → Bool
  bufs : ℕ → Buf
  stream : List ℕ
  active : List ℕ
  fills : List Fill

def init : St where
  width := 640
  height := 480
  input := 0
  controls
    | .volume => 200
    | .brightness => 127
    | .contrast => 16
    | .saturation => 127
    | .hue => 0
  ms := 0
  mvCount := 0
  generating := false
  streaming := false
  reading := false
  privateData _ := false
  bufs _ := ⟨.needsInit, 0, 0, 0, 0, 0⟩
  stream := []
  active := []
  fills := []

/-! ### Drawing -/

/-- `gen_text`. A point of the font is drawn by `gen_twopix`, which writes four bytes. -/
def genText (width height y x : ℕ) (text : List Char) : List (ℕ × ℕ) :=
  if y + 16 ≥ height ∨ x + text.length * 8 ≥ width then []
  else
    (List.range' y 16).flatMap fun line =>
      (List.range text.length).flatMap fun c =>
        (List.range 7).map fun i => (line * width * 2 + x * 2 + (7 * c + i) * 2, 4)

/-- A number with at least `n` characters. -/
def padded (c : Char) (n : ℕ) (x : ℤ) : List Char := (sprintfD x).leftpad n c

/-- `snprintf` into an array of 100 characters. -/
def snprintf (t : List Char) : List Char := t.take 99

/-- The lines of text and the rows they are drawn at. -/
def overlay (s : St) (ms : BitVec 32) : List (ℕ × List Char) :=
  let ms := ms.toNat
  [(16, snprintf (" ".toList ++ padded '0' 2 (ms / (60 * 60 * 1000) % 24 : ℕ) ++ ":".toList ++
      padded '0' 2 (ms / (60 * 1000) % 60 : ℕ) ++ ":".toList ++
      padded '0' 2 (ms / 1000 % 60 : ℕ) ++ ":".toList ++ padded '0' 3 (ms % 1000 : ℕ) ++
      " ".toList)),
    (32, snprintf (" ".toList ++ sprintfD s.width ++ "x".toList ++ sprintfD s.height ++
      ", input ".toList ++ sprintfD s.input ++ " ".toList)),
    (48, snprintf (" brightness ".toList ++ padded ' ' 3 (s.controls .brightness) ++
      ", contrast ".toList ++ padded ' ' 3 (s.controls .contrast) ++
      ", saturation ".toList ++ padded ' ' 3 (s.controls .saturation) ++
      ", hue ".toList ++ sprintfD (s.controls .hue) ++ " ".toList)),
    (64, snprintf (" volume ".toList ++ padded ' ' 3 (s.controls .volume) ++ " ".toList))]

/-- The frame that `vivi_fillbuff` draws into the buffer `b`. -/
def frame (s : St) (b : Buf) (ms : BitVec 32) : Fill where
  size := b.size
  rows := (List.range b.height).map fun h =>
    ⟨h * b.width * 2, s.mvCount.toInt.tmod b.width * 2, b.width * 2⟩
  text := (overlay s ms).flatMap fun t => genText s.width s.height t.1 16 t.2

/-- `vivi_fillbuff`, `elapsed` milliseconds after the last time. -/
def viviFillbuff (s : St) (i : ℕ) (elapsed : BitVec 32) : St :=
  let ms := s.ms + elapsed
  { s with
    ms := ms
    mvCount := s.mvCount + 2
    bufs := Function.update s.bufs i { s.bufs i with state := .done }
    fills := s.fills ++ [frame s (s.bufs i) ms] }

/-- `vivi_thread_tick`; `waiting` says whether somebody waits for the buffer, `vbuf` whether
there is memory behind it. -/
def viviThreadTick (s : St) (waiting vbuf : Bool) (elapsed : BitVec 32) : St :=
  match s.active with
  | [] => s
  | i :: rest =>
    if waiting then
      if vbuf then viviFillbuff { s with active := rest } i elapsed else { s with active := rest }
    else s

/-! ### Buffers -/

/-- `buffer_prepare`; `iolock` says whether `videobuf_iolock` succeeds. -/
def bufferPrepare (s : St) (b : Buf) (iolock : Bool) : Buf × ℤ :=
  if s.width < 48 ∨ s.width > MAX_WIDTH ∨ s.height < 32 ∨ s.height > MAX_HEIGHT then (b, -EINVAL)
  else
    let b := { b with size := s.width * s.height * 2 }
    if b.baddr ≠ 0 ∧ b.bsize < b.size then (b, -EINVAL)
    else
      let b := { b with width := s.width, height := s.height }
      if b.state = .needsInit ∧ ¬ iolock then ({ b with state := .needsInit }, -ENOMEM)
      else ({ b with state := .prepared }, 0)

def bufferQueue (s : St) (i : ℕ) : St :=
  { s with
    bufs := Function.update s.bufs i { s.bufs i with state := .queued }
    active := s.active ++ [i] }

/-- `vidioc_qbuf`, which is `videobuf_qbuf`. -/
def qbuf (s : St) (i : ℕ) (iolock : Bool) : St × ℤ :=
  if s.reading then (s, -EBUSY)
  else if (s.bufs i).state = .needsInit ∨ (s.bufs i).state = .idle then
    let r := bufferPrepare s (s.bufs i) iolock
    let s := { s with bufs := Function.update s.bufs i r.1 }
    if r.2 ≠ 0 then (s, r.2)
    else
      let s := { s with stream := s.stream ++ [i] }
      (if s.streaming then bufferQueue s i else s, 0)
  else (s, -EINVAL)

/-- `vidioc_dqbuf` of a buffer that is done. -/
def dqbuf (s : St) (i : ℕ) : St × ℤ :=
  if (s.bufs i).state = .done then
    ({ s with
      bufs := Function.update s.bufs i { s.bufs i with state := .idle }
      stream := s.stream.erase i }, 0)
  else (s, -EINVAL)

/-- `videobuf_queue_cancel`: what is queued is taken off the list of the driver, and all buffers
are released. -/
def queueCancel (s : St) : St :=
  { s with
    streaming := false
    reading := false
    active := s.active.filter fun i => (s.bufs i).state ≠ .queued
    bufs := fun i => { s.bufs i with state := .needsInit }
    stream := [] }

/-! ### Streaming -/

/-- `vivi_start_generating` by a file; `kthread` says whether the thread could be started. -/
def startGenerating (s : St) (file : ℕ) (kthread : Bool) : St :=
  if s.generating then s
  else
    { s with
      privateData := Function.update s.privateData file true
      ms := 0
      mvCount := 0
      generating := kthread }

/-- `vivi_stop_generating`; `videobuf_stop` cancels what is streaming or being read. -/
def stopGenerating (s : St) (file : ℕ) : St :=
  if s.privateData file ∧ s.generating then
    let s := { s with generating := false }
    if s.streaming ∨ s.reading then queueCancel s else s
  else s

/-- `vidioc_streamon`; `videobuf_streamon` refuses while the queue is being read. -/
def streamon (s : St) (file : ℕ) (kthread : Bool) : St × ℤ :=
  if s.reading then (s, -EBUSY)
  else
    let s :=
      if s.streaming then s
      else
        (s.stream.filter fun i => (s.bufs i).state = .prepared).foldl bufferQueue
          { s with streaming := true }
    (startGenerating s file kthread, 0)

/-- `vidioc_streamoff`. -/
def streamoff (s : St) (file : ℕ) : St × ℤ :=
  if s.streaming then (stopGenerating (queueCancel s) file, 0) else (s, -EINVAL)

/-! ### Format, input and controls -/

/-- `v4l_bound_align_image` with the bounds of the driver; the width is a multiple of four. -/
def boundAlignImage (width height : ℕ) : ℕ × ℕ :=
  (max 48 (min MAX_WIDTH ((width + 2) / 4 * 4)), max 32 (min MAX_HEIGHT height))

/-- `vidioc_s_fmt_vid_cap`; `known` says whether the pixel format and the field are supported. -/
def sFmt (s : St) (known : Bool) (width height : ℕ) : St × ℤ :=
  if ¬ known then (s, -EINVAL)
  else if s.generating then (s, -EBUSY)
  else
    let r := boundAlignImage width height
    ({ s with width := r.1, height := r.2 }, 0)

/-- `vidioc_s_input`; there are four inputs. -/
def sInput (s : St) (i : ℕ) : St × ℤ :=
  if i ≥ 4 then (s, -EINVAL) else ({ s with input := i }, 0)

/-- The bounds given by `vidioc_queryctrl`. -/
def Ctrl.range : Ctrl → ℤ × ℤ
  | .hue => (-128, 127)
  | _ => (0, 255)

/-- `vidioc_s_ctrl`. -/
def sCtrl (s : St) (c : Ctrl) (value : ℤ) : St × ℤ :=
  if value < c.range.1 ∨ value > c.range.2 then (s, -ERANGE)
  else ({ s with controls := Function.update s.controls c value }, 0)

/-! ### The system -/

inductive Act
  | sFmt (known : Bool) (width height : ℕ)
  | sInput (i : ℕ)
  | sCtrl (c : Ctrl) (value : ℤ)
  /-- The application maps a buffer that is not in use. -/
  | mmap (i baddr bsize : ℕ)
  | qbuf (i : ℕ) (iolock : Bool)
  | dqbuf (i : ℕ)
  | streamon (file : ℕ) (kthread : Bool)
  | streamoff (file : ℕ)
  | tick (waiting vbuf : Bool) (elapsed : BitVec 32)
  deriving DecidableEq

def step (s : St) : Act → Option St
  | .sFmt known width height => some (sFmt s known width height).1
  | .sInput i => some (sInput s i).1
  | .sCtrl c value => some (sCtrl s c value).1
  | .mmap i baddr bsize =>
    if (s.bufs i).state = .needsInit then
      some { s with
        bufs := Function.update s.bufs i { s.bufs i with baddr := baddr, bsize := bsize } }
    else none
  | .qbuf i iolock => some (qbuf s i iolock).1
  | .dqbuf i => some (dqbuf s i).1
  | .streamon file kthread => some (streamon s file kthread).1
  | .streamoff file => some (streamoff s file).1
  | .tick waiting vbuf elapsed =>
    if s.generating then some (viviThreadTick s waiting vbuf elapsed) else none

end LinuxSamples.Vivi
