import LinuxSamples.Run
import LinuxSamples.Bytes

/-!
A stream that a writer passes to a reader through shared memory, block by block.

Two semaphores give the shared memory to the writer and to the reader in turn. The writer
ends the stream with an empty block, after which the reader detaches the memory and gives
the writer one more turn, in which it removes the semaphores and the memory. A process is a
program point and its local variables, and every access to the shared memory and every
system call is a step.
-/

namespace LinuxSamples.SvshmXfr

open LinuxSamples.Run LinuxSamples.Bytes

def BUF_SIZE : ℕ := 1024

structure Shmseg where
  cnt : ℕ
  buf : ℕ → UInt8

inductive WPc
  | reserve
  | read
  /-- `read` has filled the buffer, and its result is about to be stored in `cnt`. -/
  | setCnt (n : ℕ)
  | release
  | test
  | count
  /-- The wait for the last turn. -/
  | last
  | rmSem
  | shmdt
  | rmShm
  | done
  | failed
  deriving DecidableEq

inductive RPc
  | start
  | reserve
  | test
  | count
  | write
  | release
  | shmdt
  /-- The release that lets the writer clean up. -/
  | give
  | done
  | failed
  deriving DecidableEq

/-- `inp` is what the writer has yet to read from its standard input, `out` what the reader has
written to its standard output. -/
structure St where
  inp : List UInt8
  out : List UInt8
  shm : Shmseg
  shmLive : Bool
  semWrite : ℕ
  semRead : ℕ
  semLive : Bool
  wpc : WPc
  wbytes : BitVec 32
  wxfrs : BitVec 32
  rpc : RPc
  rbytes : BitVec 32
  rxfrs : BitVec 32

/-- The writer has created the semaphores and the memory; the reader has not started. -/
def init (src : List UInt8) (shm : Shmseg) : St :=
  ⟨src, [], shm, true, 1, 0, true, .reserve, 0, 0, .start, 0, 0⟩

inductive Act
  /-- A step of the writer; `n` is what `read` returns. -/
  | writer (n : ℕ)
  /-- The call of `semop` that the writer waits in is interrupted. -/
  | writerEintr
  | reader
  | readerEintr
  deriving DecidableEq

def writerStep (s : St) (n : ℕ) : Option St :=
  match s.wpc with
  | .reserve =>
    if s.semLive then
      if 0 < s.semWrite then some { s with semWrite := s.semWrite - 1, wpc := .read } else none
    else some { s with wpc := .failed }
  | .read =>
    -- at least one byte unless the input is at its end
    if n ≤ BUF_SIZE ∧ n ≤ s.inp.length ∧ (n = 0 ↔ s.inp = []) then
      some { s with
        inp := s.inp.drop n
        shm := { s.shm with buf := store s.shm.buf 0 (s.inp.take n) }
        wpc := .setCnt n }
    else none
  | .setCnt n => some { s with shm := { s.shm with cnt := n }, wpc := .release }
  | .release =>
    if s.semLive then some { s with semRead := s.semRead + 1, wpc := .test }
    else some { s with wpc := .failed }
  | .test => some { s with wpc := if s.shm.cnt = 0 then .last else .count }
  | .count =>
    some { s with
      wxfrs := s.wxfrs + 1
      wbytes := s.wbytes + BitVec.ofNat 32 s.shm.cnt
      wpc := .reserve }
  | .last =>
    if s.semLive then
      if 0 < s.semWrite then some { s with semWrite := s.semWrite - 1, wpc := .rmSem } else none
    else some { s with wpc := .failed }
  | .rmSem => some { s with semLive := false, wpc := .shmdt }
  | .shmdt => some { s with wpc := .rmShm }
  | .rmShm => some { s with shmLive := false, wpc := .done }
  | .done => none
  | .failed => none

def readerStep (s : St) : Option St :=
  match s.rpc with
  | .start =>
    if s.semLive ∧ s.shmLive then some { s with rpc := .reserve }
    else some { s with rpc := .failed }
  | .reserve =>
    if s.semLive then
      if 0 < s.semRead then some { s with semRead := s.semRead - 1, rpc := .test } else none
    else some { s with rpc := .failed }
  | .test => some { s with rpc := if s.shm.cnt = 0 then .shmdt else .count }
  | .count => some { s with rbytes := s.rbytes + BitVec.ofNat 32 s.shm.cnt, rpc := .write }
  | .write => some { s with out := s.out ++ load s.shm.buf 0 s.shm.cnt, rpc := .release }
  | .release =>
    if s.semLive then
      some { s with semWrite := s.semWrite + 1, rxfrs := s.rxfrs + 1, rpc := .reserve }
    else some { s with rpc := .failed }
  | .shmdt => some { s with rpc := .give }
  | .give =>
    if s.semLive then some { s with semWrite := s.semWrite + 1, rpc := .done }
    else some { s with rpc := .failed }
  | .done => none
  | .failed => none

/-- A signal interrupts only a `semop` that waits, which is that of `reserveSem`, and
`reserveSem` then tries again. The `semop` of `releaseSem` adds one and never waits. -/
def step (s : St) : Act → Option St
  | .writer n => writerStep s n
  | .writerEintr =>
    match s.wpc with
    | .reserve | .last => some s
    | _ => none
  | .reader => readerStep s
  | .readerEintr =>
    match s.rpc with
    | .reserve => some s
    | _ => none

/-- Both processes have ended and reported their totals. -/
def Finished (s : St) : Prop := s.wpc = .done ∧ s.rpc = .done

/-- The reader has its turn and has not finished with the block. -/
def RPc.reading : RPc → Bool
  | .test | .count | .write => true
  | _ => false

def RPc.detached : RPc → Bool
  | .give | .done => true
  | _ => false

/-! ### What a step can do -/

inductive WriterStep (s : St) : St → Prop
  | reserve (hpc : s.wpc = .reserve) (hlive : s.semLive = true) (hsem : 0 < s.semWrite) :
    WriterStep s { s with semWrite := s.semWrite - 1, wpc := .read }
  | read {n : ℕ} (hpc : s.wpc = .read) (hle : n ≤ s.inp.length) (hend : n = 0 ↔ s.inp = []) :
    WriterStep s { s with
      inp := s.inp.drop n
      shm := { s.shm with buf := store s.shm.buf 0 (s.inp.take n) }
      wpc := .setCnt n }
  | setCnt {n : ℕ} (hpc : s.wpc = .setCnt n) :
    WriterStep s { s with shm := { s.shm with cnt := n }, wpc := .release }
  | release (hpc : s.wpc = .release) (hlive : s.semLive = true) :
    WriterStep s { s with semRead := s.semRead + 1, wpc := .test }
  | testEnd (hpc : s.wpc = .test) (hz : s.shm.cnt = 0) : WriterStep s { s with wpc := .last }
  | testMore (hpc : s.wpc = .test) (hz : s.shm.cnt ≠ 0) : WriterStep s { s with wpc := .count }
  | count (hpc : s.wpc = .count) :
    WriterStep s { s with
      wxfrs := s.wxfrs + 1
      wbytes := s.wbytes + BitVec.ofNat 32 s.shm.cnt
      wpc := .reserve }
  | last (hpc : s.wpc = .last) (hlive : s.semLive = true) (hsem : 0 < s.semWrite) :
    WriterStep s { s with semWrite := s.semWrite - 1, wpc := .rmSem }
  | rmSem (hpc : s.wpc = .rmSem) : WriterStep s { s with semLive := false, wpc := .shmdt }
  | shmdt (hpc : s.wpc = .shmdt) : WriterStep s { s with wpc := .rmShm }
  | rmShm (hpc : s.wpc = .rmShm) : WriterStep s { s with shmLive := false, wpc := .done }
  | failed (hlive : s.semLive = false) (hpc : s.wpc = .reserve ∨ s.wpc = .release ∨ s.wpc = .last) :
    WriterStep s { s with wpc := .failed }

inductive ReaderStep (s : St) : St → Prop
  | start (hpc : s.rpc = .start) (hlive : s.semLive = true) :
    ReaderStep s { s with rpc := .reserve }
  | reserve (hpc : s.rpc = .reserve) (hlive : s.semLive = true) (hsem : 0 < s.semRead) :
    ReaderStep s { s with semRead := s.semRead - 1, rpc := .test }
  | testEnd (hpc : s.rpc = .test) (hz : s.shm.cnt = 0) : ReaderStep s { s with rpc := .shmdt }
  | testMore (hpc : s.rpc = .test) (hz : s.shm.cnt ≠ 0) : ReaderStep s { s with rpc := .count }
  | count (hpc : s.rpc = .count) :
    ReaderStep s { s with rbytes := s.rbytes + BitVec.ofNat 32 s.shm.cnt, rpc := .write }
  | write (hpc : s.rpc = .write) :
    ReaderStep s { s with out := s.out ++ load s.shm.buf 0 s.shm.cnt, rpc := .release }
  | release (hpc : s.rpc = .release) (hlive : s.semLive = true) :
    ReaderStep s { s with semWrite := s.semWrite + 1, rxfrs := s.rxfrs + 1, rpc := .reserve }
  | shmdt (hpc : s.rpc = .shmdt) : ReaderStep s { s with rpc := .give }
  | give (hpc : s.rpc = .give) (hlive : s.semLive = true) :
    ReaderStep s { s with semWrite := s.semWrite + 1, rpc := .done }
  | failed (hlive : s.semLive = false ∨ s.shmLive = false)
    (hpc : s.rpc = .start ∨ s.semLive = false ∧
      (s.rpc = .reserve ∨ s.rpc = .release ∨ s.rpc = .give)) :
    ReaderStep s { s with rpc := .failed }

lemma writerStep_cases {s s' : St} {n : ℕ} (h : writerStep s n = some s') : WriterStep s s' := by
  unfold writerStep at h
  split at h
  · rename_i hpc
    split at h
    · rename_i hlive
      obtain ⟨hsem, h⟩ := Option.ite_none_right_eq_some.mp h
      exact Option.some.inj h ▸ .reserve hpc hlive hsem
    · rename_i hlive
      exact Option.some.inj h ▸ .failed (Bool.eq_false_iff.mpr hlive) (Or.inl hpc)
  · rename_i hpc
    obtain ⟨⟨-, hle, hend⟩, h⟩ := Option.ite_none_right_eq_some.mp h
    exact Option.some.inj h ▸ .read hpc hle hend
  · rename_i hpc
    exact Option.some.inj h ▸ .setCnt hpc
  · rename_i hpc
    split at h
    · rename_i hlive
      exact Option.some.inj h ▸ .release hpc hlive
    · rename_i hlive
      exact Option.some.inj h ▸ .failed (Bool.eq_false_iff.mpr hlive) (Or.inr (Or.inl hpc))
  · rename_i hpc
    obtain rfl := Option.some.inj h
    by_cases hz : s.shm.cnt = 0
    · rw [if_pos hz]
      exact .testEnd hpc hz
    · rw [if_neg hz]
      exact .testMore hpc hz
  · rename_i hpc
    exact Option.some.inj h ▸ .count hpc
  · rename_i hpc
    split at h
    · rename_i hlive
      obtain ⟨hsem, h⟩ := Option.ite_none_right_eq_some.mp h
      exact Option.some.inj h ▸ .last hpc hlive hsem
    · rename_i hlive
      exact Option.some.inj h ▸ .failed (Bool.eq_false_iff.mpr hlive) (Or.inr (Or.inr hpc))
  · rename_i hpc
    exact Option.some.inj h ▸ .rmSem hpc
  · rename_i hpc
    exact Option.some.inj h ▸ .shmdt hpc
  · rename_i hpc
    exact Option.some.inj h ▸ .rmShm hpc
  · cases h
  · cases h

lemma readerStep_cases {s s' : St} (h : readerStep s = some s') : ReaderStep s s' := by
  unfold readerStep at h
  split at h
  · rename_i hpc
    split at h
    · rename_i hlive
      exact Option.some.inj h ▸ .start hpc hlive.1
    · rename_i hlive
      refine Option.some.inj h ▸ .failed ?_ (Or.inl hpc)
      exact (not_and_or.mp hlive).imp Bool.eq_false_iff.mpr Bool.eq_false_iff.mpr
  · rename_i hpc
    split at h
    · rename_i hlive
      obtain ⟨hsem, h⟩ := Option.ite_none_right_eq_some.mp h
      exact Option.some.inj h ▸ .reserve hpc hlive hsem
    · rename_i hlive
      have hdead := Bool.eq_false_iff.mpr hlive
      exact Option.some.inj h ▸ .failed (Or.inl hdead) (Or.inr ⟨hdead, Or.inl hpc⟩)
  · rename_i hpc
    obtain rfl := Option.some.inj h
    by_cases hz : s.shm.cnt = 0
    · rw [if_pos hz]
      exact .testEnd hpc hz
    · rw [if_neg hz]
      exact .testMore hpc hz
  · rename_i hpc
    exact Option.some.inj h ▸ .count hpc
  · rename_i hpc
    exact Option.some.inj h ▸ .write hpc
  · rename_i hpc
    split at h
    · rename_i hlive
      exact Option.some.inj h ▸ .release hpc hlive
    · rename_i hlive
      have hdead := Bool.eq_false_iff.mpr hlive
      exact Option.some.inj h ▸ .failed (Or.inl hdead) (Or.inr ⟨hdead, Or.inr (Or.inl hpc)⟩)
  · rename_i hpc
    exact Option.some.inj h ▸ .shmdt hpc
  · rename_i hpc
    split at h
    · rename_i hlive
      exact Option.some.inj h ▸ .give hpc hlive
    · rename_i hlive
      have hdead := Bool.eq_false_iff.mpr hlive
      exact Option.some.inj h ▸ .failed (Or.inl hdead) (Or.inr ⟨hdead, Or.inr (Or.inr hpc)⟩)
  · cases h
  · cases h

end LinuxSamples.SvshmXfr
