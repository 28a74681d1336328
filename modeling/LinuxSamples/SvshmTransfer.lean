import LinuxSamples.SvshmXfr

/-!
The transfer through shared memory is exact and comes to its end.

The turn passes from the writer to the reader and back, and with it the block that is in
transit. Every program point of the two processes is annotated with what the semaphores
are there and which block is in transit; each step leads from an annotation to an
annotation, and what has been written, the block in transit and what is left of the input
always make up the stream.
-/

namespace LinuxSamples.SvshmXfr

open LinuxSamples.Run LinuxSamples.Bytes

/-- The reader waits for its turn, or has not started. -/
def RPc.idle : RPc → Bool
  | .start | .reserve => true
  | _ => false

def St.block (s : St) : List UInt8 := load s.shm.buf 0 s.shm.cnt

def St.NoTurn (s : St) : Prop := s.semWrite = 0 ∧ s.semRead = 0

/-- The annotation of the reader while the writer does not hold its turn: `b` is in
transit. -/
def ReaderAt (s : St) (b : List UInt8) : Prop :=
  match s.rpc with
  | .start | .reserve =>
    (s.semWrite = 0 ∧ s.semRead = 1 ∧ b = s.block ∧ (s.shm.cnt = 0 → s.inp = [])) ∨
      (s.semWrite = 1 ∧ s.semRead = 0 ∧ b = [] ∧ s.shm.cnt ≠ 0)
  | .test => s.NoTurn ∧ b = s.block ∧ (s.shm.cnt = 0 → s.inp = [])
  | .count | .write => s.NoTurn ∧ b = s.block ∧ s.shm.cnt ≠ 0
  | .release => s.NoTurn ∧ b = [] ∧ s.shm.cnt ≠ 0
  | .shmdt | .give => s.NoTurn ∧ b = [] ∧ s.shm.cnt = 0 ∧ s.inp = []
  | .done => s.semWrite = 1 ∧ s.semRead = 0 ∧ b = [] ∧ s.shm.cnt = 0 ∧ s.inp = []
  | .failed => False

def WriterAt (s : St) (b : List UInt8) : Prop :=
  match s.wpc with
  | .reserve =>
    (s.shm.cnt ≠ 0 ∧ ReaderAt s b) ∨
      (s.rpc.idle = true ∧ s.semWrite = 1 ∧ s.semRead = 0 ∧ b = [])
  | .read => s.rpc.idle = true ∧ s.NoTurn ∧ b = []
  | .setCnt n => s.rpc.idle = true ∧ s.NoTurn ∧ b = load s.shm.buf 0 n ∧ (n = 0 → s.inp = [])
  | .release => s.rpc.idle = true ∧ s.NoTurn ∧ b = s.block ∧ (s.shm.cnt = 0 → s.inp = [])
  | .test => ReaderAt s b
  | .count => s.shm.cnt ≠ 0 ∧ ReaderAt s b
  | .last => s.shm.cnt = 0 ∧ ReaderAt s b
  | .rmSem | .shmdt | .rmShm | .done => s.rpc = .done ∧ s.NoTurn ∧ b = [] ∧ s.inp = []
  | .failed => False

/-- The bytes the writer has read and not yet counted. -/
def St.uncounted (s : St) : ℕ :=
  match s.wpc with
  | .setCnt n => n
  | .release | .test | .count => s.shm.cnt
  | _ => 0

/-- The bytes the reader has counted and not yet written. -/
def St.counted (s : St) : ℕ :=
  match s.rpc with
  | .write => s.shm.cnt
  | _ => 0

/-- The invariant of the transfer of `src`. -/
structure Inv (src : List UInt8) (s : St) : Prop where
  outline : ∃ b, WriterAt s b ∧ src = s.out ++ b ++ s.inp
  wbytes : s.wbytes + BitVec.ofNat 32 s.uncounted = BitVec.ofNat 32 (src.length - s.inp.length)
  rbytes : s.rbytes = BitVec.ofNat 32 (s.out.length + s.counted)
  semLive : s.semLive = false → s.wpc = .shmdt ∨ s.wpc = .rmShm ∨ s.wpc = .done
  shmLive : s.shmLive = false → s.wpc = .done

lemma inv_init (src : List UInt8) (shm : Shmseg) : Inv src (init src shm) where
  outline := ⟨[], Or.inr ⟨rfl, rfl, rfl, rfl⟩, rfl⟩
  wbytes := by simp [init, St.uncounted]
  rbytes := by simp [init, St.counted]
  semLive h := by cases h
  shmLive h := by cases h

/-! ### Steps of the writer -/

lemma RPc.idle_iff {pc : RPc} : pc.idle = true ↔ pc = .start ∨ pc = .reserve := by
  cases pc <;> simp [RPc.idle]

/-- The writer finds its semaphore raised: the reader waits or has ended, and nothing is in
transit. -/
lemma ReaderAt.turn {s : St} {b : List UInt8} (h : ReaderAt s b) (hsem : 0 < s.semWrite) :
    s.semWrite = 1 ∧ s.semRead = 0 ∧ b = [] ∧
      (s.rpc.idle = true ∧ s.shm.cnt ≠ 0 ∨ s.rpc = .done ∧ s.shm.cnt = 0 ∧ s.inp = []) := by
  unfold ReaderAt St.NoTurn at h
  split at h
  · rename_i hr
    rcases h with h | h
    · omega
    · exact ⟨h.1, h.2.1, h.2.2.1, Or.inl ⟨RPc.idle_iff.mpr (Or.inl hr), h.2.2.2⟩⟩
  · rename_i hr
    rcases h with h | h
    · omega
    · exact ⟨h.1, h.2.1, h.2.2.1, Or.inl ⟨RPc.idle_iff.mpr (Or.inr hr), h.2.2.2⟩⟩
  · omega
  · omega
  · omega
  · omega
  · omega
  · omega
  · rename_i hr
    exact ⟨h.1, h.2.1, h.2.2.1, Or.inr ⟨hr, h.2.2.2⟩⟩
  · exact h.elim

lemma readerAt_offered {s : St} (hr : s.rpc.idle = true) (hsw : s.semWrite = 0)
    (hsr : s.semRead = 1) (hend : s.shm.cnt = 0 → s.inp = []) : ReaderAt s s.block := by
  rcases RPc.idle_iff.mp hr with hr | hr
  · simp only [ReaderAt, hr]
    exact Or.inl ⟨hsw, hsr, trivial, hend⟩
  · simp only [ReaderAt, hr]
    exact Or.inl ⟨hsw, hsr, trivial, hend⟩

/-- **A step of the writer** leads to the next annotation; the bytes it reads go from the input
into transit. -/
lemma writerAt_step {s s' : St} {b : List UInt8} (h : WriterAt s b)
    (hlive : s.semLive = false → s.wpc = .shmdt ∨ s.wpc = .rmShm ∨ s.wpc = .done)
    (hs : WriterStep s s') : ∃ b', WriterAt s' b' ∧ b' ++ s'.inp = b ++ s.inp := by
  cases hs with
  | reserve hpc _ hsem =>
    have hturn : s.rpc.idle = true ∧ s.semWrite = 1 ∧ s.semRead = 0 ∧ b = [] := by
      simp only [WriterAt, hpc] at h
      rcases h with ⟨hz, h⟩ | h
      · obtain ⟨hsw, hsr, hb, hr | hr⟩ := h.turn hsem
        · exact ⟨hr.1, hsw, hsr, hb⟩
        · exact absurd hr.2.1 hz
      · exact h
    obtain ⟨hr, hsw, hsr, rfl⟩ := hturn
    exact ⟨[], ⟨hr, ⟨by simp [hsw], hsr⟩, rfl⟩, rfl⟩
  | @read n hpc hle hend =>
    simp only [WriterAt, hpc] at h
    obtain ⟨hr, hno, rfl⟩ := h
    refine ⟨s.inp.take n, ⟨hr, hno, ?_, ?_⟩, by simp⟩
    · have hload := load_store s.shm.buf 0 (s.inp.take n)
      rw [List.length_take_of_le hle] at hload
      exact hload.symm
    · intro hn
      simp [hend.mp hn]
  | setCnt hpc =>
    simp only [WriterAt, hpc] at h
    exact ⟨b, h, rfl⟩
  | release hpc =>
    simp only [WriterAt, hpc] at h
    obtain ⟨hr, hno, rfl, hend⟩ := h
    exact ⟨s.block, readerAt_offered hr hno.1 (by simp [hno.2]) hend, rfl⟩
  | testEnd hpc hz =>
    simp only [WriterAt, hpc] at h
    exact ⟨b, ⟨hz, h⟩, rfl⟩
  | testMore hpc hz =>
    simp only [WriterAt, hpc] at h
    exact ⟨b, ⟨hz, h⟩, rfl⟩
  | count hpc =>
    simp only [WriterAt, hpc] at h
    exact ⟨b, Or.inl h, rfl⟩
  | last hpc _ hsem =>
    simp only [WriterAt, hpc] at h
    obtain ⟨hsw, hsr, rfl, hr | ⟨hr, -, hinp⟩⟩ := h.2.turn hsem
    · exact absurd h.1 hr.2
    · exact ⟨[], ⟨hr, ⟨by simp [hsw], hsr⟩, rfl, hinp⟩, rfl⟩
  | rmSem hpc =>
    simp only [WriterAt, hpc] at h
    exact ⟨b, h, rfl⟩
  | shmdt hpc =>
    simp only [WriterAt, hpc] at h
    exact ⟨b, h, rfl⟩
  | rmShm hpc =>
    simp only [WriterAt, hpc] at h
    exact ⟨b, h, rfl⟩
  | failed hdead hpc =>
    -- the semaphores are there until the writer removes them
    rcases hlive hdead with h' | h' | h' <;> simp [h'] at hpc

/-! ### Steps of the reader -/

/-- **A step of the reader** while the writer does not hold its turn; the block goes from transit
to the output. -/
lemma readerAt_step {s s' : St} {b : List UInt8} (h : ReaderAt s b) (hlive : s.semLive = true)
    (hlive' : s.shmLive = true) (hs : ReaderStep s s') :
    ∃ b', ReaderAt s' b' ∧ s'.out ++ b' = s.out ++ b := by
  cases hs with
  | start hpc =>
    simp only [ReaderAt, hpc] at h
    exact ⟨b, h, rfl⟩
  | reserve hpc _ hsem =>
    simp only [ReaderAt, hpc] at h
    rcases h with ⟨hsw, hsr, rfl, hend⟩ | h
    · exact ⟨s.block, ⟨⟨hsw, by simp [hsr]⟩, rfl, hend⟩, rfl⟩
    · omega
  | testEnd hpc hz =>
    simp only [ReaderAt, hpc] at h
    obtain ⟨hno, rfl, hend⟩ := h
    refine ⟨[], ⟨hno, rfl, hz, hend hz⟩, ?_⟩
    simp [St.block, hz, load]
  | testMore hpc hz =>
    simp only [ReaderAt, hpc] at h
    exact ⟨b, ⟨h.1, h.2.1, hz⟩, rfl⟩
  | count hpc =>
    simp only [ReaderAt, hpc] at h
    exact ⟨b, h, rfl⟩
  | write hpc =>
    simp only [ReaderAt, hpc] at h
    obtain ⟨hno, rfl, hz⟩ := h
    exact ⟨[], ⟨hno, rfl, hz⟩, by simp [St.block]⟩
  | release hpc =>
    simp only [ReaderAt, hpc] at h
    obtain ⟨hno, rfl, hz⟩ := h
    exact ⟨[], Or.inr ⟨by simp [hno.1], hno.2, rfl, hz⟩, rfl⟩
  | shmdt hpc =>
    simp only [ReaderAt, hpc] at h
    exact ⟨b, h, rfl⟩
  | give hpc =>
    simp only [ReaderAt, hpc] at h
    obtain ⟨hno, rfl, hz, hinp⟩ := h
    exact ⟨[], ⟨by simp [hno.1], hno.2, rfl, hz, hinp⟩, rfl⟩
  | failed hdead =>
    rcases hdead with hdead | hdead
    · rw [hlive] at hdead
      cases hdead
    · rw [hlive'] at hdead
      cases hdead

lemma readerStep_idle {s s' : St} (hr : s.rpc.idle = true) (hsr : s.semRead = 0)
    (hlive : s.semLive = true) (hlive' : s.shmLive = true) (hs : ReaderStep s s') :
    s' = { s with rpc := .reserve } := by
  rw [RPc.idle_iff] at hr
  cases hs with
  | start => rfl
  | reserve _ _ hsem => omega
  | failed hdead => simp [hlive, hlive'] at hdead
  | testEnd hpc | testMore hpc | count hpc | write hpc | release hpc | shmdt hpc | give hpc =>
    simp [hpc] at hr

lemma not_readerStep_done {s s' : St} (hr : s.rpc = .done) : ¬ ReaderStep s s' := by
  intro hs
  cases hs <;> simp_all

lemma alive {s : St}
    (hlive : s.semLive = false → s.wpc = .shmdt ∨ s.wpc = .rmShm ∨ s.wpc = .done)
    (hlive' : s.shmLive = false → s.wpc = .done)
    (hpc : s.wpc ≠ .shmdt ∧ s.wpc ≠ .rmShm ∧ s.wpc ≠ .done) :
    s.semLive = true ∧ s.shmLive = true := by
  constructor
  · by_contra hdead
    have := hlive (by simpa using hdead)
    tauto
  · by_contra hdead
    exact hpc.2.2 (hlive' (by simpa using hdead))

lemma writerAt_reader {s s' : St} {b : List UInt8} (h : WriterAt s b)
    (hlive : s.semLive = false → s.wpc = .shmdt ∨ s.wpc = .rmShm ∨ s.wpc = .done)
    (hlive' : s.shmLive = false → s.wpc = .done) (hs : ReaderStep s s') :
    ∃ b', WriterAt s' b' ∧ s'.out ++ b' = s.out ++ b := by
  have hwpc : s'.wpc = s.wpc := by cases hs <;> rfl
  have hcnt : s'.shm.cnt = s.shm.cnt := by cases hs <;> rfl
  have halive := alive hlive hlive'
  cases hpc : s.wpc with
  | reserve =>
    obtain ⟨hl, hl'⟩ := halive (by simp [hpc])
    simp only [WriterAt, hpc, hwpc, hcnt] at h ⊢
    rcases h with ⟨hz, h⟩ | ⟨hr, hsw, hsr, rfl⟩
    · obtain ⟨b', hb', hout⟩ := readerAt_step h hl hl' hs
      exact ⟨b', Or.inl ⟨hz, hb'⟩, hout⟩
    · obtain rfl := readerStep_idle hr hsr hl hl' hs
      exact ⟨[], Or.inr ⟨rfl, hsw, hsr, rfl⟩, rfl⟩
  | read | setCnt _ | release =>
    obtain ⟨hl, hl'⟩ := halive (by simp [hpc])
    simp only [WriterAt, hpc, hwpc] at h ⊢
    obtain rfl := readerStep_idle h.1 h.2.1.2 hl hl' hs
    exact ⟨b, ⟨rfl, h.2⟩, rfl⟩
  | test =>
    obtain ⟨hl, hl'⟩ := halive (by simp [hpc])
    simp only [WriterAt, hpc, hwpc] at h ⊢
    exact readerAt_step h hl hl' hs
  | count | last =>
    obtain ⟨hl, hl'⟩ := halive (by simp [hpc])
    simp only [WriterAt, hpc, hwpc, hcnt] at h ⊢
    obtain ⟨b', hb', hout⟩ := readerAt_step h.2 hl hl' hs
    exact ⟨b', ⟨h.1, hb'⟩, hout⟩
  | rmSem | shmdt | rmShm | done =>
    simp only [WriterAt, hpc] at h
    exact (not_readerStep_done h.1 hs).elim
  | failed =>
    simp only [WriterAt, hpc] at h

/-! ### The invariant -/

lemma inv_writer {src : List UInt8} {s s' : St} (hi : Inv src s) (hs : WriterStep s s') :
    Inv src s' := by
  obtain ⟨b, hb, hsrc⟩ := hi.outline
  obtain ⟨b', hb', hinp⟩ := writerAt_step hb hi.semLive hs
  have hout : s'.out = s.out := by cases hs <;> rfl
  refine ⟨⟨b', hb', ?_⟩, ?_, ?_, ?_, ?_⟩
  · rw [hsrc, hout, List.append_assoc, List.append_assoc, hinp]
  · have hw := hi.wbytes
    cases hs with
    | @read n hpc hle =>
      have hlen := congrArg List.length hsrc
      simp only [List.length_append] at hlen
      simp only [St.uncounted, hpc, BitVec.add_zero] at hw
      simp only [St.uncounted, hw, List.length_drop, ← BitVec.ofNat_add]
      congr 1
      omega
    | testEnd hpc hz => simpa [St.uncounted, hpc, hz] using hw
    | reserve hpc | setCnt hpc | release hpc | testMore hpc | count hpc | last hpc | rmSem hpc
    | shmdt hpc | rmShm hpc => simpa [St.uncounted, hpc] using hw
    | failed => exact hb'.elim
  · have hr := hi.rbytes
    cases hs with
    | setCnt hpc =>
      -- the reader waits while the counter is set
      simp only [WriterAt, hpc] at hb
      rcases RPc.idle_iff.mp hb.1 with hrpc | hrpc <;> simpa [St.counted, hrpc] using hr
    | _ => exact hr
  · have hl := hi.semLive
    cases hs with
    | failed => exact hb'.elim
    | _ => simp_all
  · have hl := hi.shmLive
    cases hs with
    | failed => exact hb'.elim
    | _ => simp_all

lemma inv_reader {src : List UInt8} {s s' : St} (hi : Inv src s) (hs : ReaderStep s s') :
    Inv src s' := by
  obtain ⟨b, hb, hsrc⟩ := hi.outline
  obtain ⟨b', hb', hout⟩ := writerAt_reader hb hi.semLive hi.shmLive hs
  have hinp : s'.inp = s.inp := by cases hs <;> rfl
  refine ⟨⟨b', hb', ?_⟩, ?_, ?_, ?_, ?_⟩
  · rw [hsrc, hinp, hout]
  · have hw := hi.wbytes
    cases hs <;> exact hw
  · have hr := hi.rbytes
    cases hs with
    | count hpc | write hpc => simpa [St.counted, hpc, BitVec.ofNat_add] using hr
    | start hpc | reserve hpc | testEnd hpc | testMore hpc | release hpc | shmdt hpc
    | give hpc => simpa [St.counted, hpc] using hr
    | failed _ hpc =>
      rcases hpc with hpc | ⟨-, hpc | hpc | hpc⟩ <;> simpa [St.counted, hpc] using hr
  · have hl := hi.semLive
    cases hs <;> exact hl
  · have hl := hi.shmLive
    cases hs <;> exact hl

lemma inv_step {src : List UInt8} {s s' : St} {a : Act} (hi : Inv src s)
    (h : step s a = some s') : Inv src s' := by
  cases a with
  | writer n => exact inv_writer hi (writerStep_cases h)
  | reader => exact inv_reader hi (readerStep_cases h)
  | writerEintr =>
    simp only [step] at h
    split at h
    · exact Option.some.inj h ▸ hi
    · exact Option.some.inj h ▸ hi
    · cases h
  | readerEintr =>
    simp only [step] at h
    split at h
    · exact Option.some.inj h ▸ hi
    · cases h

/-! ### Progress -/

/-- A step of a process, not an interruption. -/
def Act.Proper : Act → Prop
  | .writer _ | .reader => True
  | .writerEintr | .readerEintr => False

/-- What the writer has left to do; a block that is not empty is followed by another one. -/
def WPc.rank (cnt : ℕ) : WPc → ℕ
  | .reserve => 17
  | .read => 16
  | .setCnt n => if n = 0 then 15 else 28
  | .release => if cnt = 0 then 14 else 27
  | .test => if cnt = 0 then 6 else 19
  | .count => 18
  | .last => 5
  | .rmSem => 4
  | .shmdt => 3
  | .rmShm => 2
  | .done => 1
  | .failed => 0

def RPc.rank : RPc → ℕ
  | .start => 2
  | .reserve => 1
  | .test => 7
  | .count => 6
  | .write => 5
  | .release => 4
  | .shmdt => 3
  | .give => 2
  | .done => 0
  | .failed => 0

/-- A bound on the steps that are left. A byte of the input outweighs the way of a block, and a
turn offered to the reader the turn of the reader. -/
def St.rank (s : St) : ℕ :=
  20 * s.inp.length + s.wpc.rank s.shm.cnt + s.rpc.rank + 7 * s.semRead

lemma rank_writer {s s' : St} (hs : WriterStep s s') : s'.rank < s.rank := by
  cases hs with
  | @read n hpc hle hend =>
    simp only [St.rank, WPc.rank, hpc, List.length_drop]
    by_cases hn : n = 0
    · rw [if_pos hn]
      omega
    · rw [if_neg hn]
      omega
  | release hpc =>
    simp only [St.rank, WPc.rank, hpc]
    split <;> omega
  | failed _ hpc =>
    rcases hpc with hpc | hpc | hpc
    · simp [St.rank, WPc.rank, hpc]
    · simp only [St.rank, WPc.rank, hpc]
      split <;> omega
    · simp [St.rank, WPc.rank, hpc]
  | reserve hpc => simp [St.rank, WPc.rank, hpc]
  | setCnt hpc =>
    simp only [St.rank, WPc.rank, hpc]
    split <;> omega
  | testEnd hpc hz => simp [St.rank, WPc.rank, hpc, hz]
  | testMore hpc hz => simp [St.rank, WPc.rank, hpc, hz]
  | count hpc => simp [St.rank, WPc.rank, hpc]
  | last hpc => simp [St.rank, WPc.rank, hpc]
  | rmSem hpc => simp [St.rank, WPc.rank, hpc]
  | shmdt hpc => simp [St.rank, WPc.rank, hpc]
  | rmShm hpc => simp [St.rank, WPc.rank, hpc]

lemma rank_reader {s s' : St} (hs : ReaderStep s s') : s'.rank < s.rank := by
  cases hs with
  | reserve hpc _ hsem =>
    simp only [St.rank, RPc.rank, hpc]
    omega
  | failed _ hpc => rcases hpc with hpc | ⟨-, hpc | hpc | hpc⟩ <;> simp [St.rank, RPc.rank, hpc]
  | start hpc => simp [St.rank, RPc.rank, hpc]
  | testEnd hpc => simp [St.rank, RPc.rank, hpc]
  | testMore hpc => simp [St.rank, RPc.rank, hpc]
  | count hpc => simp [St.rank, RPc.rank, hpc]
  | write hpc => simp [St.rank, RPc.rank, hpc]
  | release hpc => simp [St.rank, RPc.rank, hpc]
  | shmdt hpc => simp [St.rank, RPc.rank, hpc]
  | give hpc => simp [St.rank, RPc.rank, hpc]

lemma rank_step {s s' : St} {a : Act} (ha : a.Proper) (h : step s a = some s') :
    s'.rank < s.rank := by
  cases a with
  | writer n => exact rank_writer (writerStep_cases h)
  | reader => exact rank_reader (readerStep_cases h)
  | writerEintr => exact ha.elim
  | readerEintr => exact ha.elim

lemma ReaderAt.moves {s : St} {b : List UInt8} (h : ReaderAt s b) (hsw : s.semWrite = 0)
    (hlive : s.semLive = true) (hlive' : s.shmLive = true) : ∃ s', readerStep s = some s' := by
  unfold ReaderAt at h
  split at h
  · rename_i hpc
    exact ⟨_, by rw [readerStep, hpc]; exact if_pos ⟨hlive, hlive'⟩⟩
  · rename_i hpc
    have hsr : 0 < s.semRead := by omega
    exact ⟨_, by rw [readerStep, hpc]; exact (if_pos hlive).trans (if_pos hsr)⟩
  · rename_i hpc
    exact ⟨_, by rw [readerStep, hpc]⟩
  · rename_i hpc
    exact ⟨_, by rw [readerStep, hpc]⟩
  · rename_i hpc
    exact ⟨_, by rw [readerStep, hpc]⟩
  · rename_i hpc
    exact ⟨_, by rw [readerStep, hpc]; exact if_pos hlive⟩
  · rename_i hpc
    exact ⟨_, by rw [readerStep, hpc]⟩
  · rename_i hpc
    exact ⟨_, by rw [readerStep, hpc]; exact if_pos hlive⟩
  · omega
  · exact h.elim

lemma writerStep_turn {s : St} (hpc : s.wpc = .reserve ∨ s.wpc = .last) (hlive : s.semLive = true)
    (hsem : 0 < s.semWrite) : ∃ s', writerStep s 0 = some s' := by
  rcases hpc with hpc | hpc <;> simp [writerStep, hpc, hlive, hsem]

lemma writerStep_moves {s : St} (hlive : s.wpc = .release → s.semLive = true)
    (hpc : s.wpc ≠ .reserve ∧ s.wpc ≠ .read ∧ s.wpc ≠ .last ∧ s.wpc ≠ .done ∧ s.wpc ≠ .failed) :
    ∃ s', writerStep s 0 = some s' := by
  cases hw : s.wpc with
  | release => simp [writerStep, hw, hlive hw]
  | setCnt n => simp [writerStep, hw]
  | test => simp [writerStep, hw]
  | count => simp [writerStep, hw]
  | rmSem => simp [writerStep, hw]
  | shmdt => simp [writerStep, hw]
  | rmShm => simp [writerStep, hw]
  | _ => simp [hw] at hpc

lemma writerStep_read {s : St} (hpc : s.wpc = .read) :
    ∃ s', writerStep s (min BUF_SIZE s.inp.length) = some s' := by
  have hend : min BUF_SIZE s.inp.length = 0 ↔ s.inp = [] := by
    rw [← List.length_eq_zero_iff]
    unfold BUF_SIZE
    omega
  simp [writerStep, hpc, hend]

/-- **Nobody waits for ever**: until both have ended, one of the processes can move. -/
lemma Inv.moves {src : List UInt8} {s : St} (hi : Inv src s) :
    Finished s ∨ ∃ a s', Act.Proper a ∧ step s a = some s' := by
  obtain ⟨b, hb, -⟩ := hi.outline
  have halive := alive hi.semLive hi.shmLive
  have hwriter {n : ℕ} (h : ∃ s', writerStep s n = some s') :
      ∃ a s', Act.Proper a ∧ step s a = some s' :=
    ⟨.writer n, h.choose, trivial, h.choose_spec⟩
  have hreader (h : ∃ s', readerStep s = some s') : ∃ a s', Act.Proper a ∧ step s a = some s' :=
    ⟨.reader, h.choose, trivial, h.choose_spec⟩
  cases hpc : s.wpc with
  | reserve =>
    obtain ⟨hl, hl'⟩ := halive (by simp [hpc])
    rcases Nat.eq_zero_or_pos s.semWrite with hsw | hsw
    · simp only [WriterAt, hpc] at hb
      rcases hb with ⟨-, hb⟩ | hb
      · exact Or.inr (hreader (hb.moves hsw hl hl'))
      · omega
    · exact Or.inr (hwriter (writerStep_turn (Or.inl hpc) hl hsw))
  | last =>
    obtain ⟨hl, hl'⟩ := halive (by simp [hpc])
    rcases Nat.eq_zero_or_pos s.semWrite with hsw | hsw
    · simp only [WriterAt, hpc] at hb
      exact Or.inr (hreader (hb.2.moves hsw hl hl'))
    · exact Or.inr (hwriter (writerStep_turn (Or.inr hpc) hl hsw))
  | read => exact Or.inr (hwriter (writerStep_read hpc))
  | done =>
    simp only [WriterAt, hpc] at hb
    exact Or.inl ⟨hpc, hb.1⟩
  | failed => simp only [WriterAt, hpc] at hb
  | _ =>
    refine Or.inr (hwriter (writerStep_moves (fun hw => ?_) (by simp [hpc])))
    exact (halive (by simp [hw])).1

/-! ### The transfer -/

/-- What a state of the transfer of `src` satisfies. The last two say that neither process
blocks for ever: one can move until both have ended, and every move brings the end nearer. -/
structure Exact (src : List UInt8) (s : St) : Prop where
  output : s.out <+: src
  finished : Finished s → s.out = src ∧ s.wbytes = BitVec.ofNat 32 src.length ∧
    s.rbytes = BitVec.ofNat 32 src.length
  exclusive : (s.wpc = .read ∨ ∃ n, s.wpc = .setCnt n) →
    s.semRead = 0 ∧ s.rpc.reading = false
  cleanup : s.semLive = false ∨ s.shmLive = false → s.rpc.detached = true
  moves : Finished s ∨ ∃ a s', Act.Proper a ∧ step s a = some s'
  shrinks : ∀ a s', Act.Proper a → step s a = some s' → s'.rank < s.rank

lemma not_reading_of_idle {pc : RPc} (h : pc.idle = true) : pc.reading = false := by
  cases pc <;> simp_all [RPc.idle, RPc.reading]

lemma Inv.exact {src : List UInt8} {s : St} (hi : Inv src s) : Exact src s := by
  obtain ⟨b, hb, hsrc⟩ := hi.outline
  refine ⟨⟨b ++ s.inp, ?_⟩, ?_, ?_, ?_, hi.moves, fun a s' => rank_step⟩
  · rw [hsrc, List.append_assoc]
  · rintro ⟨hw, hr⟩
    simp only [WriterAt, hw] at hb
    obtain ⟨-, -, rfl, hinp⟩ := hb
    have hout : s.out = src := by rw [hsrc, hinp, List.append_nil, List.append_nil]
    have hwb := hi.wbytes
    have hrb := hi.rbytes
    simp only [St.uncounted, hw, hinp, List.length_nil, Nat.sub_zero, BitVec.add_zero] at hwb
    simp only [St.counted, hr, hout, Nat.add_zero] at hrb
    exact ⟨hout, hwb, hrb⟩
  · rintro (hw | ⟨n, hw⟩)
    · simp only [WriterAt, hw] at hb
      exact ⟨hb.2.1.2, not_reading_of_idle hb.1⟩
    · simp only [WriterAt, hw] at hb
      exact ⟨hb.2.1.2, not_reading_of_idle hb.1⟩
  · intro hdead
    have hw : s.wpc = .shmdt ∨ s.wpc = .rmShm ∨ s.wpc = .done := by
      rcases hdead with hdead | hdead
      · exact hi.semLive hdead
      · exact Or.inr (Or.inr (hi.shmLive hdead))
    rcases hw with hw | hw | hw
    all_goals
      simp only [WriterAt, hw] at hb
      rw [hb.1]
      rfl

/-- **The stream is transferred exactly**, however it is split into blocks, the processes
interleave and their waits are interrupted. -/
theorem svshm_transfer_exact {src : List UInt8} {shm : Shmseg} {s : St} {as : List Act}
    (h : exec step (init src shm) as = some s) : Exact src s := by
  have hreach : Reach step (init src shm) s := ⟨as, h⟩
  have hinv : Inv src s := hreach.invariant (inv_init src shm) fun _ _ _ hi hs => inv_step hi hs
  exact hinv.exact

/-- A run in which a block of two bytes and the empty block are passed on, with both processes
interrupted while they wait. -/
def oneBlock : List Act :=
  [.reader, .readerEintr, .writer 0, .writer 2, .writer 0, .writer 0, .writer 0, .writer 0,
    .writerEintr, .reader, .reader, .reader, .reader, .reader, .writer 0, .writer 0, .writer 0,
    .writer 0, .writer 0, .reader, .reader, .reader, .writerEintr, .reader, .writer 0, .writer 0,
    .writer 0, .writer 0]

theorem svshm_transfer_exact_one_block :
    ∃ s, exec step (init [1, 2] ⟨0, fun _ => 0⟩) oneBlock = some s ∧
      s.out = [1, 2] ∧ s.wbytes = 2 ∧ s.rbytes = 2 := by
  obtain ⟨s, hs⟩ : ∃ s, exec step (init [1, 2] ⟨0, fun _ => 0⟩) oneBlock = some s := ⟨_, rfl⟩
  have hpcs : (exec step (init [1, 2] ⟨0, fun _ => 0⟩) oneBlock).map (fun s => (s.wpc, s.rpc)) =
      some (.done, .done) := by decide
  rw [hs] at hpcs
  have hdone : Finished s := Prod.mk.inj (Option.some.inj hpcs)
  exact ⟨s, hs, (svshm_transfer_exact hs).finished hdone⟩

end LinuxSamples.SvshmXfr
