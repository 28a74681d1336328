import LinuxSamples.UsbSkel

/-!
The receiving side of the USB skeleton driver hands out the stream of the device.

What the successful transfers have delivered is what the reads have returned, followed by
what lies in the buffer between the two counters. While a transfer is in flight the buffer
is empty, so that it cannot overwrite anything; a thread between the test of `ongoing_read`
and the start of a transfer is the only one that could start it.
-/

namespace LinuxSamples.UsbSkel

open LinuxSamples.Run LinuxSamples.Word LinuxSamples.Bytes LinuxSamples.Mutex

/-- The bytes in the buffer that no read has returned. -/
def BulkIn.unread (b : BulkIn) : List UInt8 := load b.buffer b.copied (b.filled - b.copied)

structure Sound (b : BulkIn) : Prop where
  size_lt : b.size < 2 ^ 16
  copied_le : b.copied ≤ b.filled
  filled_le : b.filled ≤ b.size
  stream : b.delivered = b.returned ++ b.unread
  urb : ∀ n ∈ b.urb, b.ongoingRead = true ∧ b.filled = 0 ∧ n ≤ b.size

/-- What a thread knows about the receiving side. -/
def ReadAt (b : BulkIn) : Pc → Prop
  | .read _ _ .errors => b.ongoingRead = false
  | .read _ _ .filled => b.ongoingRead = false
  | .read _ _ (.copy available) => b.ongoingRead = false ∧ available = b.filled - b.copied
  | .read _ _ (.start _ _) => b.ongoingRead = false ∧ b.copied = b.filled
  | .read _ _ (.clear _ _) => b.ongoingRead = true ∧ b.urb = none ∧ b.copied = b.filled
  | .read _ _ (.submit _ _) => b.ongoingRead = true ∧ b.urb = none ∧ b.filled = 0
  | .read _ _ (.failed _ _) => b.urb = none
  | _ => True

lemma readAt_of_unlocked {p : Pc} (h : p.locked = false) (b : BulkIn) : ReadAt b p := by
  cases p with
  | read count nonblock pc =>
    cases pc with
    | lock => trivial
    | _ => cases h
  | _ => trivial

lemma ReadAt.of_urb {b : BulkIn} {p : Pc} {n : ℕ} (h : ReadAt b p) (hb : Sound b)
    (hn : b.urb = some n) (b' : BulkIn) : ReadAt b' p := by
  have hongoing := (hb.urb n hn).1
  cases p with
  | read count nonblock pc =>
    cases pc <;> simp_all [ReadAt]
  | _ => trivial

namespace Sound

variable {b : BulkIn}

lemma urb_eq_none (hb : Sound b) (h : b.ongoingRead = false) : b.urb = none := by
  cases hurb : b.urb with
  | none => rfl
  | some n => exact absurd ((hb.urb n hurb).1.symm.trans h) (by decide)

lemma available (hb : Sound b) : subU 64 b.filled b.copied = b.filled - b.copied := by
  have hsize := hb.size_lt
  have hfilled := hb.filled_le
  exact subU_of_le hb.copied_le (by omega)

lemma ongoing (hb : Sound b) (hurb : b.urb = none) (o : Bool) :
    Sound { b with ongoingRead := o } where
  size_lt := hb.size_lt
  copied_le := hb.copied_le
  filled_le := hb.filled_le
  stream := hb.stream
  urb n hn := absurd (hurb.symm.trans hn) (by simp)

lemma submit (hb : Sound b) (hongoing : b.ongoingRead = true) (hempty : b.filled = 0) {n : ℕ}
    (hn : n ≤ b.size) : Sound { b with urb := some n } where
  size_lt := hb.size_lt
  copied_le := hb.copied_le
  filled_le := hb.filled_le
  stream := hb.stream
  urb m hm := by
    obtain rfl := Option.some.inj hm
    exact ⟨hongoing, hempty, hn⟩

lemma unread_eq_nil (h : b.copied = b.filled) : b.unread = [] := by
  rw [BulkIn.unread, h, Nat.sub_self]
  rfl

lemma delivered_eq (hb : Sound b) (h : b.copied = b.filled) : b.delivered = b.returned := by
  rw [hb.stream, unread_eq_nil h, List.append_nil]

lemma copy (hb : Sound b) {chunk : ℕ} (hchunk : chunk ≤ b.filled - b.copied)
    (hongoing : b.ongoingRead = false) :
    Sound { b with
      copied := b.copied + chunk
      returned := b.returned ++ load b.buffer b.copied chunk } := by
  have hle := hb.copied_le
  refine ⟨hb.size_lt, ?_, hb.filled_le, ?_, ?_⟩
  · change b.copied + chunk ≤ b.filled
    omega
  · have hsplit : b.filled - b.copied = chunk + (b.filled - (b.copied + chunk)) := by omega
    have hunread : b.unread = load b.buffer b.copied chunk ++
        load b.buffer (b.copied + chunk) (b.filled - (b.copied + chunk)) := by
      rw [BulkIn.unread, hsplit, load_add]
    change b.delivered = b.returned ++ load b.buffer b.copied chunk ++
      load b.buffer (b.copied + chunk) (b.filled - (b.copied + chunk))
    rw [hb.stream, hunread, List.append_assoc]
  · intro n hn
    rw [hb.urb_eq_none hongoing] at hn
    cases hn

lemma clear (hb : Sound b) (h : b.copied = b.filled) (hurb : b.urb = none) :
    Sound { b with filled := 0, copied := 0 } := by
  refine ⟨hb.size_lt, le_rfl, Nat.zero_le _, ?_, fun n hn => ?_⟩
  · change b.delivered = b.returned ++ []
    rw [List.append_nil, hb.delivered_eq h]
  · rw [hurb] at hn
    cases hn

lemma deliver (hb : Sound b) {n : ℕ} (hurb : b.urb = some n) {data : List UInt8}
    (hlen : data.length ≤ n) :
    Sound { b with
      buffer := store b.buffer 0 data
      urb := none
      ongoingRead := false
      filled := data.length
      delivered := b.delivered ++ data } := by
  obtain ⟨-, hfilled, hn⟩ := hb.urb n hurb
  have hcopied : b.copied = 0 := Nat.le_zero.mp (hfilled ▸ hb.copied_le)
  refine ⟨hb.size_lt, ?_, hlen.trans hn, ?_, fun m hm => by cases hm⟩
  · change b.copied ≤ data.length
    omega
  · change b.delivered ++ data = b.returned ++ load (store b.buffer 0 data) b.copied
      (data.length - b.copied)
    rw [hb.delivered_eq (hcopied.trans hfilled.symm), hcopied, Nat.sub_zero, load_store]

lemma fail (hb : Sound b) {n : ℕ} (hurb : b.urb = some n) (data : List UInt8) :
    Sound { b with buffer := store b.buffer 0 data, urb := none, ongoingRead := false } := by
  obtain ⟨-, hfilled, -⟩ := hb.urb n hurb
  have hcopied : b.copied = 0 := Nat.le_zero.mp (hfilled ▸ hb.copied_le)
  refine ⟨hb.size_lt, hb.copied_le, hb.filled_le, ?_, fun m hm => by cases hm⟩
  change b.delivered = b.returned ++ load (store b.buffer 0 data) b.copied (b.filled - b.copied)
  rw [hb.delivered_eq (hcopied.trans hfilled.symm), hfilled, Nat.zero_sub]
  exact (List.append_nil _).symm

end Sound

/-! ### One step -/

/-- The next step calls `copy_to_user`. -/
def Pc.copies : Pc → Bool
  | .read _ _ (.copy _) => true
  | _ => false

def NoFault (s : St) : Act → Prop
  | .run t rv => (s.pc t).copies = true → rv = 0
  | _ => True

instance (s : St) : (a : Act) → Decidable (NoFault s a)
  | .run t rv => inferInstanceAs (Decidable ((s.pc t).copies = true → rv = 0))
  | .call _ _ | .signal _ | .readDone _ _ | .writeDone _ => isTrue trivial

section Step

variable {d d' : Dev} {t : ℕ} {rv : ℤ} {p p' : Pc}

lemma readStep_sound {count : ℕ} {nonblock : Bool} {pc : ReadPc}
    (h : readStep d t count nonblock rv pc = some (d', p')) (hb : Sound d.bulkIn)
    (hat : ReadAt d.bulkIn (.read count nonblock pc))
    (hrv : (Pc.read count nonblock pc).copies = true → rv = 0) :
    Sound d'.bulkIn ∧ ReadAt d'.bulkIn p' := by
  cases pc with
  | lock =>
    obtain ⟨-, h⟩ := Option.ite_none_right_eq_some.mp h
    cases h
    exact ⟨hb, trivial⟩
  | check =>
    cases h
    exact ⟨hb, by split <;> trivial⟩
  | retry =>
    cases h
    refine ⟨hb, ?_⟩
    split
    · split <;> trivial
    · rename_i hongoing
      exact Bool.eq_false_iff.mpr hongoing
  | wait =>
    obtain ⟨hongoing, h⟩ := Option.ite_none_left_eq_some.mp h
    cases h
    exact ⟨hb, Bool.eq_false_iff.mpr hongoing⟩
  | errors =>
    simp only [readStep] at h
    split at h
    · cases h
      exact ⟨hb, trivial⟩
    · cases h
      exact ⟨hb, hat⟩
  | filled =>
    have hsub := hb.available
    cases h
    refine ⟨hb, ?_⟩
    split
    · exact ⟨hat, hsub⟩
    · rename_i hnone
      have hle := hb.copied_le
      rw [hsub] at hnone
      exact ⟨hat, by omega⟩
  | copy available =>
    obtain ⟨hongoing, rfl⟩ := hat
    obtain rfl := hrv rfl
    cases h
    refine ⟨hb.copy (Nat.min_le_left _ _) hongoing, ?_⟩
    have hle := hb.copied_le
    by_cases hmore : d.bulkIn.filled - d.bulkIn.copied < count
    · rw [if_pos hmore]
      refine ⟨hongoing, ?_⟩
      change d.bulkIn.copied + min (d.bulkIn.filled - d.bulkIn.copied) count = d.bulkIn.filled
      omega
    · rw [if_neg hmore]
      trivial
  | start n next =>
    obtain ⟨hongoing, hall⟩ := hat
    have hurb := hb.urb_eq_none hongoing
    cases h
    exact ⟨hb.ongoing hurb true, rfl, hurb, hall⟩
  | clear n next =>
    obtain ⟨hongoing, hurb, hall⟩ := hat
    cases h
    exact ⟨hb.clear hall hurb, hongoing, hurb, rfl⟩
  | submit n next =>
    obtain ⟨hongoing, hurb, hempty⟩ := hat
    simp only [readStep] at h
    by_cases hrv : rv < 0
    · rw [if_pos hrv] at h
      cases h
      exact ⟨hb, hurb⟩
    · rw [if_neg hrv, if_pos hurb] at h
      cases h
      refine ⟨hb.submit hongoing hempty (Nat.min_le_left _ _), ?_⟩
      cases next <;> trivial
  | failed e next =>
    cases h
    exact ⟨hb.ongoing hat false, trivial⟩
  | unlock r =>
    cases h
    exact ⟨hb, trivial⟩

lemma writeStep_bulkIn {count : ℕ} {nonblock : Bool} {pc : WritePc}
    (h : writeStep d t count nonblock rv pc = some (d', p')) :
    d'.bulkIn = d.bulkIn ∧ ∀ b, ReadAt b p' := by
  cases pc <;> simp only [writeStep] at h <;> (repeat' split at h) <;> cases h <;>
    exact ⟨rfl, fun b => by trivial⟩

lemma flushStep_bulkIn {pc : FlushPc} (h : flushStep d t pc = some (d', p')) :
    d'.bulkIn = d.bulkIn ∧ ∀ b, ReadAt b p' := by
  cases pc <;> simp only [flushStep] at h <;> (repeat' split at h) <;> cases h <;>
    exact ⟨rfl, fun b => trivial⟩

lemma disconnectStep_bulkIn {pc : DisconnectPc} (h : disconnectStep d t pc = some (d', p')) :
    d'.bulkIn = d.bulkIn ∧ ∀ b, ReadAt b p' := by
  cases pc <;> simp only [disconnectStep] at h <;> (repeat' split at h) <;> cases h <;>
    exact ⟨rfl, fun b => trivial⟩

lemma threadStep_sound (h : threadStep d t rv p = some (d', p')) (hb : Sound d.bulkIn)
    (hat : ReadAt d.bulkIn p) (hrv : p.copies = true → rv = 0) :
    Sound d'.bulkIn ∧ ReadAt d'.bulkIn p' := by
  cases p with
  | ret r => cases h
  | read count nonblock pc => exact readStep_sound h hb hat hrv
  | write count nonblock pc =>
    obtain ⟨hsame, hat'⟩ := writeStep_bulkIn h
    exact ⟨hsame ▸ hb, hat' _⟩
  | flush pc =>
    obtain ⟨hsame, hat'⟩ := flushStep_bulkIn h
    exact ⟨hsame ▸ hb, hat' _⟩
  | disconnect pc =>
    obtain ⟨hsame, hat'⟩ := disconnectStep_bulkIn h
    exact ⟨hsame ▸ hb, hat' _⟩

lemma threadStep_bulkIn (h : threadStep d t rv p = some (d', p')) (hp : p.locked = false) :
    d'.bulkIn = d.bulkIn := by
  cases p with
  | ret r => cases h
  | read count nonblock pc =>
    cases pc with
    | lock =>
      obtain ⟨-, h⟩ := Option.ite_none_right_eq_some.mp h
      cases h
      rfl
    | _ => cases hp
  | write count nonblock pc => exact (writeStep_bulkIn h).1
  | flush pc => exact (flushStep_bulkIn h).1
  | disconnect pc => exact (disconnectStep_bulkIn h).1

lemma threadStep_submits (h : threadStep d t rv p = some (d', p')) (hnone : d.bulkIn.urb = none)
    (hsome : d'.bulkIn.urb ≠ none) :
    ∃ count nonblock n next, p = .read count nonblock (.submit n next) := by
  cases p with
  | ret r => cases h
  | read count nonblock pc =>
    cases pc with
    | submit n next => exact ⟨count, nonblock, n, next, rfl⟩
    | _ =>
      simp only [threadStep, readStep] at h
      (repeat' split at h) <;> cases h <;> exact absurd hnone hsome
  | write count nonblock pc => exact absurd ((writeStep_bulkIn h).1 ▸ hnone) hsome
  | flush pc => exact absurd ((flushStep_bulkIn h).1 ▸ hnone) hsome
  | disconnect pc => exact absurd ((disconnectStep_bulkIn h).1 ▸ hnone) hsome

end Step

lemma bulkIn_readCallback (d : Dev) (status : ℤ) (data : List UInt8) :
    (readCallback d status data).bulkIn =
      let b := { d.bulkIn with
        buffer := store d.bulkIn.buffer 0 data
        urb := none
        ongoingRead := false }
      if status ≠ 0 then b
      else { b with filled := data.length, delivered := d.bulkIn.delivered ++ data } := by
  unfold readCallback
  split <;> rfl

lemma bulkIn_writeCallback (d : Dev) (status : ℤ) : (writeCallback d status).bulkIn = d.bulkIn := by
  unfold writeCallback Dev.log Dev.deref
  split <;> [split; skip] <;> rfl

lemma readCallback_sound {d : Dev} (hb : Sound d.bulkIn) {n : ℕ} (hurb : d.bulkIn.urb = some n)
    {data : List UInt8} (hlen : data.length ≤ n) (status : ℤ) :
    Sound (readCallback d status data).bulkIn := by
  rw [bulkIn_readCallback]
  by_cases hstatus : status ≠ 0
  · simp only [if_pos hstatus]
    exact hb.fail hurb data
  · simp only [if_neg hstatus]
    exact hb.deliver hurb hlen

/-! ### Runs -/

structure ReadInv (s : St) : Prop where
  exclusive : s.Exclusive
  sound : Sound s.dev.bulkIn
  threads : ∀ t, ReadAt s.dev.bulkIn (s.pc t)

lemma readInv_init (maxp : BitVec 16) : ReadInv (init maxp) where
  exclusive := exclusive_init maxp
  sound := ⟨maxp.isLt, le_rfl, Nat.zero_le _, rfl, fun n hn => by cases hn⟩
  threads _ := trivial

lemma ReadInv.goto {s : St} {t : ℕ} {d' : Dev} {p' : Pc} (hi : ReadInv s)
    (hx : (s.goto t (d', p')).Exclusive) (hb : Sound d'.bulkIn) (hat : ReadAt d'.bulkIn p')
    (hsame : (s.pc t).locked = false → d'.bulkIn = s.dev.bulkIn) :
    ReadInv (s.goto t (d', p')) := by
  refine ⟨hx, hb, fun u => ?_⟩
  by_cases hut : u = t
  · subst hut
    change ReadAt d'.bulkIn (Function.update s.pc u p' u)
    rwa [Function.update_self]
  · change ReadAt d'.bulkIn (Function.update s.pc t p' u)
    rw [Function.update_of_ne hut]
    cases hlocked : (s.pc t).locked with
    | true => exact readAt_of_unlocked (hi.exclusive.outside hlocked hut) _
    | false => exact hsame hlocked ▸ hi.threads u

lemma readInv_step {s s' : St} {a : Act} (hi : ReadInv s) (hok : NoFault s a)
    (h : step s a = some s') : ReadInv s' := by
  have hstep := step_cases h
  have hx := exclusive_step hi.exclusive hstep
  cases hstep with
  | call hcall =>
    obtain ⟨-, hp', b, rfl⟩ := enter_cases hcall
    exact hi.goto hx hi.sound (readAt_of_unlocked hp' _) fun _ => rfl
  | @run t rv d' p' hrun =>
    obtain ⟨hb, hat⟩ := threadStep_sound hrun hi.sound (hi.threads t) hok
    exact hi.goto hx hb hat (threadStep_bulkIn hrun)
  | signal hsignal =>
    obtain ⟨rfl, -, hp'⟩ := interrupt_cases hsignal
    refine hi.goto hx hi.sound ?_ fun _ => rfl
    rcases hp' with ⟨r, rfl⟩ | ⟨count, nonblock, r, rfl⟩ <;> trivial
  | readDone hurb hlen =>
    exact ⟨hx, readCallback_sound hi.sound hurb hlen _,
      fun t => (hi.threads t).of_urb hi.sound hurb _⟩
  | writeDone hpos =>
    refine ⟨hx, ?_, fun t => ?_⟩
    · simpa only [bulkIn_writeCallback] using hi.sound
    · simpa only [bulkIn_writeCallback] using hi.threads t

/-- The stream of the device in a state. -/
structure Exact (s : St) : Prop where
  ordered : s.dev.bulkIn.returned <+: s.dev.bulkIn.delivered
  unread : s.dev.bulkIn.delivered = s.dev.bulkIn.returned ++
    load s.dev.bulkIn.buffer s.dev.bulkIn.copied (s.dev.bulkIn.filled - s.dev.bulkIn.copied)
  copied_le : s.dev.bulkIn.copied ≤ s.dev.bulkIn.filled
  filled_le : s.dev.bulkIn.filled ≤ s.dev.bulkIn.size
  submits : ∀ a s', step s a = some s' → s.dev.bulkIn.urb = none → s'.dev.bulkIn.urb ≠ none →
    s.dev.bulkIn.copied = s.dev.bulkIn.filled ∧ s.dev.bulkIn.returned = s.dev.bulkIn.delivered

lemma ReadInv.exact {s : St} (hi : ReadInv s) : Exact s := by
  have hb := hi.sound
  refine ⟨⟨_, hb.stream.symm⟩, hb.stream, hb.copied_le, hb.filled_le, ?_⟩
  intro a s' h hnone hsome
  cases step_cases h with
  | call hcall =>
    obtain ⟨-, -, b, rfl⟩ := enter_cases hcall
    exact absurd hnone hsome
  | @run t rv d' p' hrun =>
    obtain ⟨count, nonblock, n, next, hpc⟩ := threadStep_submits hrun hnone hsome
    have hat := hi.threads t
    rw [hpc] at hat
    have hfilled : s.dev.bulkIn.filled = 0 := hat.2.2
    have hall : s.dev.bulkIn.copied = s.dev.bulkIn.filled := by
      have hle := hb.copied_le
      omega
    exact ⟨hall, (hb.delivered_eq hall).symm⟩
  | signal hsignal =>
    obtain ⟨rfl, -⟩ := interrupt_cases hsignal
    exact absurd hnone hsome
  | readDone hurb => exact absurd (hnone.symm.trans hurb) (by simp)
  | writeDone =>
    simp only [bulkIn_writeCallback] at hsome
    exact absurd hnone hsome

/-- **The reads return the stream of the device**, whatever the threads do and however the
transfers end. -/
theorem usb_read_exact {maxp : BitVec 16} {as : List Act} {s : St}
    (h : exec step (init maxp) as = some s) (hok : Guarded step NoFault (init maxp) as) :
    Exact s := by
  have hinv : ReadInv s :=
    hok.invariant h (readInv_init maxp) fun _ _ _ hi hn hs => readInv_step hi hn hs
  exact hinv.exact

/-- A read of six bytes from an endpoint with packets of four gets one packet, and the transfer
started for the rest brings one more byte. -/
def readAhead : List Act :=
  .call 0 (.read 6 false) :: List.replicate 9 (.run 0 0) ++ .readDone 0 [1, 2, 3, 4] ::
    List.replicate 8 (.run 0 0) ++ [.readDone 0 [5]]

theorem usb_read_exact_read_ahead :
    ∃ s, exec step (init 4) readAhead = some s ∧ Exact s ∧
      s.dev.bulkIn.returned = [1, 2, 3, 4] ∧ s.dev.bulkIn.delivered = [1, 2, 3, 4, 5] ∧
      s.pc 0 = .ret 4 := by
  obtain ⟨s, hs, hend⟩ : ∃ s, exec step (init 4) readAhead = some s ∧
      s.dev.bulkIn.returned = [1, 2, 3, 4] ∧ s.dev.bulkIn.delivered = [1, 2, 3, 4, 5] ∧
      s.pc 0 = .ret 4 := by
    apply exists_exec_of_any
    decide +kernel
  exact ⟨s, hs, usb_read_exact hs (by decide +kernel), hend⟩

end LinuxSamples.UsbSkel
