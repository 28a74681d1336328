import LinuxSamples.ViviFill

/-!
Where the virtual video driver reads when it fills a buffer.

`precalculate_line` fills a line of twice the width, and each frame copies as much as one width
of it, from a place that moves by two with every frame. The place is the remainder of a signed
counter. It is right until the counter overflows; from then on it is negative for half of the
frames, but for those whose counter is a multiple of the width.
-/

namespace LinuxSamples.Vivi

open LinuxSamples.Run

/-- `precalculate_line`: the offsets and lengths of what `gen_twopix` draws. -/
def precalculateLine (width : ℕ) : List (ℕ × ℕ) :=
  -- the loop counts in steps of two
  (List.range width).map fun k => (2 * k * 2, 4)

/-- The byte at the offset has been drawn. -/
def Filled (line : List (ℕ × ℕ)) (off : ℤ) : Prop := ∃ p ∈ line, (p.1 : ℤ) ≤ off ∧ off < p.1 + p.2

def Copy.Sourced (line : List (ℕ × ℕ)) (r : Copy) : Prop := ∀ k < r.len, Filled line (r.src + k)

/-- The counter of the frame with number `n` is not negative, or a multiple of the width. -/
def LineOk (n width : ℕ) : Prop := n % 2 ^ 31 < 2 ^ 30 ∨ width ∣ 2 ^ 32 - 2 * (n % 2 ^ 31)

/-! ### The line -/

/-- **The line** is drawn without gaps, up to four bytes for each point of the width. -/
lemma filled_precalculateLine_iff (width : ℕ) (off : ℤ) :
    Filled (precalculateLine width) off ↔ 0 ≤ off ∧ off < 4 * width := by
  constructor
  · rintro ⟨p, hp, hlow, hhigh⟩
    obtain ⟨k, hk, rfl⟩ := List.mem_map.mp hp
    have hk := List.mem_range.mp hk
    simp only at hlow hhigh
    omega
  · rintro ⟨hlow, hhigh⟩
    refine ⟨_, List.mem_map.mpr ⟨(off / 4).toNat, List.mem_range.mpr ?_, rfl⟩, ?_, ?_⟩
    · omega
    · simp only
      omega
    · simp only
      omega

lemma sourced_iff {width : ℕ} (hw : 0 < width) {src : ℤ} (hsrc : src ≤ 2 * width) (dst : ℕ) :
    Copy.Sourced (precalculateLine width) ⟨dst, src, width * 2⟩ ↔ 0 ≤ src := by
  constructor
  · intro h
    have hfirst := h 0 (by simp only; omega)
    rw [filled_precalculateLine_iff] at hfirst
    simpa using hfirst.1
  · intro h k hk
    rw [filled_precalculateLine_iff]
    simp only at hk ⊢
    omega

/-! ### The counter -/

lemma toInt_ofNat_two_mul (n : ℕ) : (BitVec.ofNat 32 (2 * n)).toInt =
    if n % 2 ^ 31 < 2 ^ 30 then 2 * ((n % 2 ^ 31 : ℕ) : ℤ)
    else 2 * ((n % 2 ^ 31 : ℕ) : ℤ) - 2 ^ 32 := by
  rw [BitVec.toInt_eq_toNat_cond, BitVec.toNat_ofNat]
  have hmod : 2 * n % 2 ^ 32 = 2 * (n % 2 ^ 31) := by omega
  rw [hmod]
  by_cases h : n % 2 ^ 31 < 2 ^ 30
  · rw [if_pos h, if_pos (by omega)]
    omega
  · rw [if_neg h, if_neg (by omega)]
    omega

lemma tmod_nonneg_iff (n width : ℕ) :
    0 ≤ (BitVec.ofNat 32 (2 * n)).toInt.tmod width ↔ LineOk n width := by
  rw [toInt_ofNat_two_mul, LineOk]
  by_cases h : n % 2 ^ 31 < 2 ^ 30
  · rw [if_pos h]
    exact iff_of_true (Int.tmod_nonneg _ (by positivity)) (Or.inl h)
  · have hlt : n % 2 ^ 31 < 2 ^ 31 := Nat.mod_lt _ (by decide)
    have hneg : 2 * ((n % 2 ^ 31 : ℕ) : ℤ) - 2 ^ 32 = -((2 ^ 32 - 2 * (n % 2 ^ 31) : ℕ) : ℤ) := by
      omega
    rw [if_neg h, hneg, Int.neg_tmod, ← Int.ofNat_tmod, or_iff_right h,
      Nat.dvd_iff_mod_eq_zero]
    omega

/-! ### Control -/

/-- What the calls of the queue leave alone: whether frames are generated, which files have
their `private_data` set, the counter and the frames drawn. -/
structure Control where
  generating : Bool
  privateData : ℕ → Bool
  mvCount : BitVec 32
  fills : List Fill

def St.control (s : St) : Control := ⟨s.generating, s.privateData, s.mvCount, s.fills⟩

def Control.start (c : Control) (file : ℕ) (kthread : Bool) : Control :=
  if c.generating then c
  else ⟨kthread, Function.update c.privateData file true, 0, c.fills⟩

def Control.stop (c : Control) (file : ℕ) : Control :=
  if c.privateData file ∧ c.generating then { c with generating := false } else c

lemma control_startGenerating (s : St) (file : ℕ) (kthread : Bool) :
    (startGenerating s file kthread).control = s.control.start file kthread := by
  unfold startGenerating Control.start St.control
  dsimp only
  split <;> rfl

lemma control_stopGenerating (s : St) (file : ℕ) :
    (stopGenerating s file).control = s.control.stop file := by
  unfold stopGenerating Control.stop St.control
  dsimp only
  split
  · split <;> rfl
  · rfl

lemma control_foldl_queue (l : List ℕ) (s : St) : (l.foldl bufferQueue s).control = s.control := by
  induction l generalizing s with
  | nil => rfl
  | cons i l ih => exact ih (bufferQueue s i)

lemma control_streamon (s : St) (file : ℕ) (kthread : Bool) :
    (streamon s file kthread).1.control =
      if s.reading then s.control else s.control.start file kthread := by
  unfold streamon
  split
  · rfl
  · rw [control_startGenerating]
    split
    · rfl
    · rw [control_foldl_queue]
      rfl

lemma control_streamoff (s : St) (file : ℕ) :
    (streamoff s file).1.control = if s.streaming then s.control.stop file else s.control := by
  unfold streamoff
  split
  · exact control_stopGenerating (queueCancel s) file
  · rfl

lemma control_qbuf (s : St) (i : ℕ) (iolock : Bool) : (qbuf s i iolock).1.control = s.control := by
  unfold qbuf
  split
  · rfl
  split
  · dsimp only
    split
    · rfl
    · dsimp only
      split <;> rfl
  · rfl

lemma control_tick (s : St) (waiting vbuf : Bool) (elapsed : BitVec 32) :
    (viviThreadTick s waiting vbuf elapsed).control = s.control ∨
      ∃ f, (viviThreadTick s waiting vbuf elapsed).control =
        { s.control with mvCount := s.mvCount + 2, fills := s.fills ++ [f] } := by
  unfold viviThreadTick
  split
  · exact Or.inl rfl
  · split
    · split
      · exact Or.inr ⟨_, rfl⟩
      · exact Or.inl rfl
    · exact Or.inl rfl

/-- What a call does to the control: it starts or stops, or draws a frame. -/
def Control.Moves (c c' : Control) (streaming reading : Bool) : Act → Prop
  | .streamon file kthread => c' = if reading then c else c.start file kthread
  | .streamoff file => c' = if streaming then c.stop file else c
  | .tick _ _ _ => c' = c ∨ ∃ f, c' = { c with mvCount := c.mvCount + 2, fills := c.fills ++ [f] }
  | _ => c' = c

lemma control_step {s s' : St} {a : Act} (h : step s a = some s') :
    s.control.Moves s'.control s.streaming s.reading a := by
  cases a with
  | sFmt known width height =>
    cases h
    change (sFmt s known width height).1.control = s.control
    unfold sFmt
    split
    · rfl
    · split <;> rfl
  | sInput i =>
    cases h
    change (sInput s i).1.control = s.control
    unfold sInput
    split <;> rfl
  | sCtrl c value =>
    cases h
    change (sCtrl s c value).1.control = s.control
    unfold sCtrl
    split <;> rfl
  | mmap i baddr bsize =>
    obtain ⟨-, h⟩ := Option.ite_none_right_eq_some.mp h
    cases h
    rfl
  | qbuf i iolock =>
    cases h
    exact control_qbuf s i iolock
  | dqbuf i =>
    cases h
    change (dqbuf s i).1.control = s.control
    unfold dqbuf
    split <;> rfl
  | streamon file kthread =>
    cases h
    exact control_streamon s file kthread
  | streamoff file =>
    cases h
    exact control_streamoff s file
  | tick waiting vbuf elapsed =>
    obtain ⟨-, h⟩ := Option.ite_none_right_eq_some.mp h
    cases h
    exact control_tick s waiting vbuf elapsed

/-! ### Frames since the start -/

lemma Control.start_of_generating {c : Control} (h : c.generating = true) (file : ℕ)
    (kthread : Bool) : c.start file kthread = c := if_pos h

lemma Control.stop_of_generating {c : Control} {file : ℕ} (h : (c.stop file).generating = true) :
    c.stop file = c := by
  unfold Control.stop at h ⊢
  split at h
  · cases h
  · rename_i hn
    exact if_neg hn

/-- **The counter counts the frames**, in steps of two, while frames are generated. -/
lemma mvCount_step {s s' : St} {a : Act} (h : step s a = some s') (hgen : s.generating = true)
    (hgen' : s'.generating = true) :
    ∃ k, s'.fills.length = s.fills.length + k ∧
      s'.mvCount = s.mvCount + BitVec.ofNat 32 (2 * k) := by
  have hsame : s'.control = s.control → ∃ k, s'.fills.length = s.fills.length + k ∧
      s'.mvCount = s.mvCount + BitVec.ofNat 32 (2 * k) := by
    intro hc
    have hfills : s'.fills = s.fills := congrArg Control.fills hc
    have hcount : s'.mvCount = s.mvCount := congrArg Control.mvCount hc
    exact ⟨0, by rw [hfills]; rfl, by rw [hcount]; simp⟩
  have hc := control_step h
  cases a with
  | streamon file kthread =>
    refine hsame (Eq.trans hc ?_)
    rw [Control.start_of_generating hgen, ite_self]
  | streamoff file =>
    change s'.control = if s.streaming then s.control.stop file else s.control at hc
    by_cases hstreaming : s.streaming = true
    · rw [if_pos hstreaming] at hc
      have hon : (s.control.stop file).generating = true :=
        (congrArg Control.generating hc).symm.trans hgen'
      exact hsame (hc.trans (Control.stop_of_generating hon))
    · exact hsame (hc.trans (if_neg hstreaming))
  | tick waiting vbuf elapsed =>
    rcases hc with hc | ⟨f, hc⟩
    · exact hsame hc
    · have hfills : s'.fills = s.fills ++ [f] := congrArg Control.fills hc
      have hcount : s'.mvCount = s.mvCount + 2 := congrArg Control.mvCount hc
      exact ⟨1, by rw [hfills, List.length_append]; rfl, hcount⟩
  | _ => exact hsame hc

lemma mvCount_of_exec {s s' : St} {as : List Act} (h : exec step s as = some s')
    (hgen : Always step (fun s => s.generating = true) s as) :
    ∃ n, s'.fills.length = s.fills.length + n ∧
      s'.mvCount = s.mvCount + BitVec.ofNat 32 (2 * n) := by
  induction as generalizing s with
  | nil =>
    rw [exec_nil, Option.some.injEq] at h
    exact ⟨0, by rw [h]; rfl, by rw [h]; simp⟩
  | cons a as ih =>
    rw [exec_cons] at h
    obtain ⟨u, hu, hrest⟩ := Option.bind_eq_some_iff.mp h
    obtain ⟨k, hk, hcount⟩ := mvCount_step hu hgen.1 (hgen.2 u hu).head
    obtain ⟨n, hn, hcount'⟩ := ih hrest (hgen.2 u hu)
    refine ⟨k + n, by omega, ?_⟩
    rw [hcount', hcount, BitVec.add_assoc, Nat.mul_add, BitVec.ofNat_add]

lemma mvCount_start {s s₁ : St} {file : ℕ} {kthread : Bool} (hidle : s.generating = false)
    (h : step s (.streamon file kthread) = some s₁) (hgen : s₁.generating = true) :
    s₁.mvCount = 0 := by
  have hc : s₁.control = if s.reading then s.control else s.control.start file kthread :=
    control_step h
  split at hc
  · -- a refused call starts nothing
    have hsame : s₁.generating = s.generating := congrArg Control.generating hc
    rw [hsame, hidle] at hgen
    cases hgen
  · have hoff : ¬ s.control.generating = true := Bool.eq_false_iff.mp hidle
    rw [Control.start, if_neg hoff] at hc
    exact congrArg Control.mvCount hc

/-! ### Rows -/

/-- The dimensions that the driver accepts. -/
def Accepted (width height : ℕ) : Prop :=
  ∃ width' height', boundAlignImage width' height' = (width, height)

lemma Accepted.pos {width height : ℕ} (h : Accepted width height) : 0 < width ∧ 0 < height := by
  obtain ⟨width', height', h⟩ := h
  obtain ⟨hw, hh⟩ := Prod.mk.inj h
  exact ⟨by omega, by omega⟩

lemma frame_sourced_iff {s : St} {b : Buf} (hb : Accepted b.width b.height) (ms : BitVec 32) :
    (∀ r ∈ (frame s b ms).rows, r.Sourced (precalculateLine b.width)) ↔
      0 ≤ s.mvCount.toInt.tmod b.width := by
  obtain ⟨hw, hh⟩ := hb.pos
  have hlt : s.mvCount.toInt.tmod b.width < b.width := Int.tmod_lt_of_pos _ (by omega)
  have hrow (dst : ℕ) : Copy.Sourced (precalculateLine b.width)
      ⟨dst, s.mvCount.toInt.tmod b.width * 2, b.width * 2⟩ ↔
        0 ≤ s.mvCount.toInt.tmod b.width := by
    rw [sourced_iff hw (by omega)]
    omega
  constructor
  · intro h
    exact (hrow _).mp (h _ (List.mem_map.mpr ⟨0, List.mem_range.mpr hh, rfl⟩))
  · intro h r hr
    obtain ⟨row, -, rfl⟩ := List.mem_map.mp hr
    exact (hrow _).mpr h

/-- **Where a frame reads.** Frames have been generated since a start, and the next one is drawn,
of any size that is accepted. It reads what has been drawn of the line if and only if the
counter is not negative by now, or a multiple of the width. -/
theorem vivi_line_source_iff {s s₁ s₂ : St} {file : ℕ} {as : List Act}
    (hidle : s.generating = false) (hstart : step s (.streamon file true) = some s₁)
    (hrun : exec step s₁ as = some s₂)
    (hgen : Always step (fun s => s.generating = true) s₁ as) {b : Buf}
    (hb : Accepted b.width b.height) (ms : BitVec 32) :
    (∀ r ∈ (frame s₂ b ms).rows, r.Sourced (precalculateLine b.width)) ↔
      LineOk (s₂.fills.length - s₁.fills.length) b.width := by
  obtain ⟨n, hn, hcount⟩ := mvCount_of_exec hrun hgen
  have hcount : s₂.mvCount = BitVec.ofNat 32 (2 * n) := by
    rw [hcount, mvCount_start hidle hstart hgen.head]
    exact BitVec.zero_add _
  rw [frame_sourced_iff hb, hcount, tmod_nonneg_iff, hn, Nat.add_sub_cancel_left]

/-! ### Many frames -/

lemma always_generating {s : St} (hgen : s.generating = true) {as : List Act}
    (has : ∀ a ∈ as, ∀ file, a ≠ .streamoff file) :
    Always step (fun s => s.generating = true) s as := by
  induction as generalizing s with
  | nil => exact hgen
  | cons a as ih =>
    refine ⟨hgen, fun t ht => ih ?_ fun b hb => has b (List.mem_cons_of_mem a hb)⟩
    have hc := control_step (Option.mem_def.mp ht)
    have hsame : t.control = s.control → t.generating = true :=
      fun hc => (congrArg Control.generating hc).trans hgen
    cases a with
    | streamon file kthread =>
      refine hsame (Eq.trans hc ?_)
      rw [Control.start_of_generating hgen, ite_self]
    | streamoff file => exact absurd rfl (has _ List.mem_cons_self file)
    | tick waiting vbuf elapsed =>
      rcases hc with hc | ⟨f, hc⟩
      · exact hsame hc
      · exact (congrArg Control.generating hc).trans hgen
    | _ => exact hsame hc

/-- The stream is on and waits for its first buffer. -/
structure Waits (s : St) : Prop where
  on : s.generating = true ∧ s.streaming = true ∧ s.reading = false
  size : s.width = 640 ∧ s.height = 480
  free : ((s.bufs 0).state = .needsInit ∨ (s.bufs 0).state = .idle) ∧ (s.bufs 0).baddr = 0
  empty : s.stream = [] ∧ s.active = []

/-- A buffer is queued, filled and taken. -/
def cycle : List Act := [.qbuf 0 true, .tick true true 0, .dqbuf 0]

def queuedBuf (b : Buf) : Buf :=
  { b with state := .queued, width := 640, height := 480, size := 640 * 480 * 2 }

lemma qbuf_of_waits {s : St} (h : Waits s) :
    (qbuf s 0 true).1 =
      { s with
        bufs := Function.update s.bufs 0 (queuedBuf (s.bufs 0))
        stream := [0]
        active := [0] } := by
  obtain ⟨⟨hgen, hstr, hreading⟩, ⟨hw, hh⟩, ⟨hstate, hbaddr⟩, hstream, hactive⟩ := h
  have hprep : bufferPrepare s (s.bufs 0) true =
      ({ queuedBuf (s.bufs 0) with state := .prepared }, 0) := by
    simp [bufferPrepare, hw, hh, hbaddr, MAX_WIDTH, MAX_HEIGHT, queuedBuf]
  rw [qbuf, if_neg (by simp [hreading]), if_pos hstate, hprep]
  simp [hstr, bufferQueue, hstream, hactive, queuedBuf]

lemma cycle_run {s : St} (h : Waits s) :
    ∃ s', exec step s cycle = some s' ∧ Waits s' ∧ s'.fills.length = s.fills.length + 1 := by
  have hqueued := qbuf_of_waits h
  obtain ⟨⟨hgen, hon⟩, hsize, ⟨-, hbaddr⟩, -, -⟩ := h
  refine ⟨(dqbuf (viviThreadTick (qbuf s 0 true).1 true true 0) 0).1, ?_, ?_⟩
  · have hgen' : (qbuf s 0 true).1.generating = true := by rw [hqueued]; exact hgen
    have htick : step (qbuf s 0 true).1 (.tick true true 0) =
        some (viviThreadTick (qbuf s 0 true).1 true true 0) := if_pos hgen'
    rw [cycle, exec_cons, step, Option.bind_some, exec_cons, htick]
    rfl
  · rw [hqueued]
    have hdone : ∀ t : St, (t.bufs 0).state = .done → (dqbuf t 0).1 =
        { t with bufs := Function.update t.bufs 0 { t.bufs 0 with state := .idle },
                 stream := t.stream.erase 0 } := by
      intro t ht
      rw [dqbuf, if_pos ht]
    rw [hdone _ (by simp [viviThreadTick, viviFillbuff])]
    refine ⟨⟨⟨hgen, hon⟩, hsize, ⟨Or.inr ?_, ?_⟩, ?_, ?_⟩, ?_⟩
    · simp
    · simpa [viviThreadTick, viviFillbuff, queuedBuf] using hbaddr
    · simp [viviThreadTick, viviFillbuff]
    · simp [viviThreadTick, viviFillbuff]
    · simp [viviThreadTick, viviFillbuff]

lemma cycles_run (n : ℕ) {s : St} (h : Waits s) :
    ∃ s', exec step s (List.replicate n cycle).flatten = some s' ∧
      s'.fills.length = s.fills.length + n := by
  induction n generalizing s with
  | zero => exact ⟨s, rfl, rfl⟩
  | succ n ih =>
    obtain ⟨u, hu, hwaits, hone⟩ := cycle_run h
    obtain ⟨s', hs', hmany⟩ := ih hwaits
    refine ⟨s', ?_, by omega⟩
    rw [List.replicate_succ, List.flatten_cons, exec_append, hu]
    exact hs'

def started : St := (streamon init 1 true).1

lemma waits_started : Waits started := ⟨⟨rfl, rfl, rfl⟩, ⟨rfl, rfl⟩, ⟨Or.inl rfl, rfl⟩, rfl, rfl⟩

lemma always_cycles (n : ℕ) :
    Always step (fun s => s.generating = true) started (List.replicate n cycle).flatten := by
  refine always_generating rfl fun a ha file => ?_
  obtain ⟨c, hc, ha⟩ := List.mem_flatten.mp ha
  rw [List.eq_of_mem_replicate hc] at ha
  rintro rfl
  simp [cycle] at ha

theorem vivi_line_source_third :
    ∃ s, exec step started (List.replicate 2 cycle).flatten = some s ∧ s.fills.length = 2 ∧
      ∀ r ∈ (frame s ⟨.queued, 640, 480, 614400, 0, 0⟩ 0).rows,
        r.Sourced (precalculateLine 640) := by
  have hstart : step init (.streamon 1 true) = some started := rfl
  obtain ⟨s, hrun, hn⟩ := cycles_run 2 waits_started
  refine ⟨s, hrun, hn, ?_⟩
  have hiff := vivi_line_source_iff (b := ⟨.queued, 640, 480, 614400, 0, 0⟩) rfl hstart hrun
    (always_cycles 2) ⟨640, 480, rfl⟩ 0
  rw [hn, Nat.add_sub_cancel_left] at hiff
  exact hiff.mpr (Or.inl (by decide))

/-- After `2 ^ 30` frames the counter is negative, and all rows are read from in front of the
line. -/
theorem vivi_line_negative :
    ∃ s, exec step started (List.replicate (2 ^ 30) cycle).flatten = some s ∧
      s.fills.length = 2 ^ 30 ∧
      ∀ r ∈ (frame s ⟨.queued, 640, 480, 614400, 0, 0⟩ 0).rows,
        r.src = -256 ∧ ¬ r.Sourced (precalculateLine 640) := by
  obtain ⟨s, hrun, hn⟩ := cycles_run (2 ^ 30) waits_started
  obtain ⟨n, hn', hcount⟩ := mvCount_of_exec hrun (always_cycles (2 ^ 30))
  have hlen : s.fills.length = 2 ^ 30 := hn.trans (Nat.zero_add _)
  have hn : n = 2 ^ 30 := by omega
  have hsrc : s.mvCount.toInt.tmod (640 : ℕ) * 2 = -256 := by
    rw [hcount, hn]
    decide
  refine ⟨s, hrun, hlen, fun r hr => ?_⟩
  obtain ⟨row, -, rfl⟩ := List.mem_map.mp hr
  refine ⟨hsrc, fun h => ?_⟩
  have hpos := (sourced_iff (by decide) (hsrc.le.trans (by decide)) _).mp h
  rw [hsrc] at hpos
  exact absurd hpos (by decide)

end LinuxSamples.Vivi
