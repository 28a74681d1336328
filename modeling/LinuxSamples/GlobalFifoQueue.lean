import LinuxSamples.GlobalFifo

/-!
The `globalfifo` device is a bounded queue.

What a step of the driver can do to the device is one of five things, and each of them is
either invisible in `mem[0..current_len)` or an event of the abstract queue of capacity
`GLOBALFIFO_SIZE`. So the device simulates that queue along its own log, and the bound and
the history of the abstract queue are those of the device.
-/

namespace LinuxSamples.GlobalFifo

open LinuxSamples.Run LinuxSamples.Bytes LinuxSamples.Word LinuxSamples.BoundedQueue

/-! ### The device under its operations -/

lemma Dev.readCount_le (d : Dev) (count : ℕ) : d.readCount count ≤ d.currentLen := by
  unfold Dev.readCount
  split <;> omega

lemma Dev.writeCount_le {d : Dev} (hd : d.currentLen ≤ GLOBALFIFO_SIZE) (count : ℕ) :
    d.currentLen + d.writeCount count ≤ GLOBALFIFO_SIZE := by
  have hsub : subU 32 GLOBALFIFO_SIZE d.currentLen = GLOBALFIFO_SIZE - d.currentLen :=
    subU_of_le hd (by decide)
  unfold Dev.writeCount
  rw [hsub]
  split <;> omega

lemma Dev.currentLen_afterRead {d : Dev} {n : ℕ} (hd : d.currentLen ≤ GLOBALFIFO_SIZE)
    (hn : n ≤ d.currentLen) : (d.afterRead n).currentLen = d.currentLen - n :=
  subU_of_le hn (hd.trans_lt (by decide))

lemma Dev.currentLen_afterWrite {d : Dev} {bs : List UInt8}
    (h : d.currentLen + bs.length ≤ GLOBALFIFO_SIZE) :
    (d.afterWrite bs).currentLen = d.currentLen + bs.length :=
  wrap_of_lt (h.trans_lt (by decide))

lemma Dev.contents_afterRead {d : Dev} {n : ℕ} (hd : d.currentLen ≤ GLOBALFIFO_SIZE)
    (hn : n ≤ d.currentLen) : d.contents = load d.mem 0 n ++ (d.afterRead n).contents := by
  have h64 : subU 64 d.currentLen n = d.currentLen - n :=
    subU_of_le hn (hd.trans_lt (by decide))
  have hrest : (d.afterRead n).contents = load d.mem n (d.currentLen - n) := by
    rw [Dev.contents, Dev.currentLen_afterRead hd hn, Dev.afterRead, h64, load_move]
  calc d.contents = load d.mem 0 (n + (d.currentLen - n)) := by
        rw [Nat.add_sub_cancel' hn, Dev.contents]
    _ = load d.mem 0 n ++ load d.mem (0 + n) (d.currentLen - n) := load_add ..
    _ = load d.mem 0 n ++ (d.afterRead n).contents := by rw [Nat.zero_add, hrest]

lemma Dev.contents_afterWrite {d : Dev} {bs : List UInt8}
    (h : d.currentLen + bs.length ≤ GLOBALFIFO_SIZE) :
    (d.afterWrite bs).contents = d.contents ++ bs := by
  rw [Dev.contents, Dev.currentLen_afterWrite h]
  have := load_store_append d.mem 0 d.currentLen bs
  rwa [Nat.zero_add] at this

lemma Dev.contents_copyIn (d : Dev) (junk : List UInt8) : (d.copyIn junk).contents = d.contents :=
  load_store_below d.mem junk (by simp [Dev.copyIn])

/-! ### The simulation -/

variable {ι : Type} {s s' : St ι}

/-- The abstract queue that has seen the events of the log holds what the device holds. -/
def Refines (s : St ι) (q : Q UInt8 GLOBALFIFO_SIZE) : Prop :=
  exec BoundedQueue.step Q.empty s.log = some q ∧ q.items = s.dev.contents

lemma Refines.len_le {q : Q UInt8 GLOBALFIFO_SIZE} (h : Refines s q) :
    s.dev.currentLen ≤ GLOBALFIFO_SIZE := by
  have := q.bound
  rwa [h.2, Dev.contents, length_load] at this

lemma refines_init : Refines (init : St ι) Q.empty := ⟨rfl, rfl⟩

lemma Refines.event {q q' : Q UInt8 GLOBALFIFO_SIZE} {e : Event UInt8} (h : Refines s q)
    (hlog : s'.log = s.log ++ [e]) (he : BoundedQueue.step q e = some q')
    (hq : q'.items = s'.dev.contents) : Refines s' q' := by
  refine ⟨?_, hq⟩
  rw [hlog, exec_append, h.1]
  simp [exec_cons, he]

/-! ### What a step does to the device -/

/-- The device `d` becomes `d'`, and the event `e`, if any, is what happened. -/
inductive Effect (d : Dev) : Option (Event UInt8) → Dev → Prop
  | none : Effect d none d
  | fault (junk : List UInt8) : Effect d none (d.copyIn junk)
  | read (count : ℕ) :
    Effect d (some (.read (load d.mem 0 (d.readCount count)))) (d.afterRead (d.readCount count))
  | write (bs : List UInt8) (count : ℕ) (h : bs.length = d.writeCount count) :
    Effect d (some (.write bs)) (d.afterWrite bs)
  | clear : Effect d (some .clear) d.clear

variable [DecidableEq ι]

lemma step_effect {a : Act ι} (h : step s a = some s') :
    ∃ e : Option (Event UInt8), Effect s.dev e s'.dev ∧ s'.log = s.log ++ e.toList := by
  -- the steps that leave the device and the log alone
  have same (hd : s'.dev = s.dev) (hl : s'.log = s.log) :
      ∃ e : Option (Event UInt8), Effect s.dev e s'.dev ∧ s'.log = s.log ++ e.toList :=
    ⟨none, hd ▸ .none, by simpa using hl⟩
  obtain ⟨t, m⟩ := a
  cases step_cases h with
  | @readOk c => exact ⟨_, .read c.count, rfl⟩
  | @writeOk c bs _ hbs => exact ⟨_, .write bs c.count hbs, rfl⟩
  | @faultWrite _ junk => exact ⟨none, .fault junk, (List.append_nil _).symm⟩
  | clear => exact ⟨_, .clear, rfl⟩
  | _ => exact same rfl rfl

/-- **One step of the driver is at most one event of the abstract queue.** -/
theorem refines_step {a : Act ι} {q : Q UInt8 GLOBALFIFO_SIZE} (h : Refines s q)
    (ha : step s a = some s') : ∃ q', Refines s' q' := by
  obtain ⟨e, he, hlog⟩ := step_effect ha
  have hlen := h.len_le
  obtain ⟨d, owner, task, log⟩ := s'
  simp only at he hlog
  cases he with
  | none =>
    rw [Option.toList_none, List.append_nil] at hlog
    exact ⟨q, hlog ▸ h.1, h.2⟩
  | fault junk =>
    rw [Option.toList_none, List.append_nil] at hlog
    exact ⟨q, hlog ▸ h.1, h.2.trans (s.dev.contents_copyIn junk).symm⟩
  | read count =>
    have hn := s.dev.readCount_le count
    refine ⟨⟨(s.dev.afterRead (s.dev.readCount count)).contents, ?_⟩,
      h.event hlog (step_read (h.2.trans (Dev.contents_afterRead hlen hn)) rfl) rfl⟩
    rw [Dev.contents, length_load, Dev.currentLen_afterRead hlen hn]
    omega
  | write bs count hbs =>
    have hfit : s.dev.currentLen + bs.length ≤ GLOBALFIFO_SIZE :=
      hbs ▸ Dev.writeCount_le hlen count
    have hback : (s.dev.afterWrite bs).contents = q.items ++ bs := by
      rw [Dev.contents_afterWrite hfit, h.2]
    refine ⟨⟨(s.dev.afterWrite bs).contents, ?_⟩, h.event hlog (step_write hback) rfl⟩
    rwa [Dev.contents, length_load, Dev.currentLen_afterWrite hfit]
  | clear => exact ⟨Q.empty, h.event hlog rfl rfl⟩

/-- **The driver refines the bounded queue**, in every interleaving. -/
theorem reach_refines (h : Reach step init s) : ∃ q, Refines s q := by
  refine h.invariant (I := fun s => ∃ q, Refines s q) ⟨_, refines_init⟩ ?_
  rintro u a v ⟨q, hq⟩ ha
  exact refines_step hq ha

/-- **`globalfifo` is a bounded lossless byte queue.** For any number of tasks, in every
reachable state the device holds at most `GLOBALFIFO_SIZE` bytes, and the bytes returned
since the last `FIFO_CLEAR`, followed by those in the device, are the bytes accepted. -/
theorem globalfifo_lossless (h : Reach step init s) :
    s.dev.currentLen ≤ GLOBALFIFO_SIZE ∧
      returned s.log ++ load s.dev.mem 0 s.dev.currentLen = accepted s.log := by
  obtain ⟨q, hq⟩ := reach_refines h
  refine ⟨hq.len_le, ?_⟩
  have := history hq.1
  rwa [hq.2] at this

/-- A writer puts in three bytes and a reader, which had to sleep first, takes two. -/
def sleepyReader : List (Act (Fin 2)) :=
  let r : Call := ⟨.rWait, 2, false⟩
  let w : Call := ⟨.wWait, 3, false⟩
  [⟨0, .call r⟩, ⟨0, .lock⟩, ⟨0, .test⟩, ⟨0, .arm⟩, ⟨0, .unlock⟩, ⟨0, .schedule⟩,
    ⟨1, .call w⟩, ⟨1, .lock⟩, ⟨1, .test⟩, ⟨1, .writeOk [7, 8, 9]⟩, ⟨1, .unlock⟩,
    ⟨0, .resume⟩, ⟨0, .check⟩, ⟨0, .lock⟩, ⟨0, .test⟩, ⟨0, .readOk⟩]

theorem globalfifo_lossless_sleepyReader : ∃ s, exec step init sleepyReader = some s ∧
    s.log = [.write [7, 8, 9], .read [7, 8]] ∧ s.dev.currentLen = 1 ∧
    returned s.log ++ load s.dev.mem 0 s.dev.currentLen = accepted s.log := by
  refine ⟨(exec step init sleepyReader).get (by decide), (Option.some_get _).symm,
    by decide, by decide, ?_⟩
  exact (globalfifo_lossless ⟨sleepyReader, (Option.some_get _).symm⟩).2

end LinuxSamples.GlobalFifo
