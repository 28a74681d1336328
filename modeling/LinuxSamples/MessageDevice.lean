import LinuxSamples.Run
import LinuxSamples.Bytes

/-!
The message of the ioctl character device and the accesses to it.

A read goes on to the zero that ends the message. Writing fewer than `BUF_LEN` characters
leaves a zero in the array, writing `BUF_LEN` of them need not, and a read then runs past
the end, as does a request for a byte with a number that is too large. The accesses of a
call history stay inside the array exactly when each of its reads ends at a zero or before
the end and each byte asked for exists.
-/

namespace LinuxSamples.MessageDevice

open LinuxSamples.Run LinuxSamples.Bytes

def BUF_LEN : ℕ := 80

/-- The state of the driver. `message` is the memory from the beginning of `Message` on, so
that the cells from `BUF_LEN` on are whatever follows the array; `messagePtr` is an offset
into it, missing as long as the pointer is null; `accesses` are the cells touched so far. -/
structure St where
  deviceOpen : ℕ
  message : ℕ → UInt8
  messagePtr : Option ℕ
  accesses : List ℕ

/-- The module after it has been loaded: the array is zero, what follows it is anything. -/
def init (behind : ℕ → UInt8) : St :=
  ⟨0, fun i => if i < BUF_LEN then 0 else behind i, none, []⟩

/-- `device_open`; a second open is refused. -/
def openDevice (s : St) : St :=
  if s.deviceOpen ≠ 0 then s
  else { s with deviceOpen := s.deviceOpen + 1, messagePtr := some 0 }

def deviceRelease (s : St) : St := { s with deviceOpen := s.deviceOpen - 1 }

/-- The loop of `device_read` from the cell `q` on: the cells it touches, the pointer behind
it and the characters handed to the caller. -/
def readLoop (m : ℕ → UInt8) : ℕ → ℕ → List ℕ × ℕ × List UInt8
  | 0, q => ([], q, [])
  | length + 1, q =>
    if m q = 0 then ([q], q, [])
    else
      let r := readLoop m length (q + 1)
      -- the test of the loop, and the argument of `put_user`
      (q :: q :: r.1, r.2.1, m q :: r.2.2)

/-- `device_read` with the pointer at `q`. -/
def deviceRead (s : St) (q length : ℕ) : St × List UInt8 :=
  if s.message q = 0 then ({ s with accesses := s.accesses ++ [q] }, [])
  else
    let r := readLoop s.message length q
    ({ s with messagePtr := some r.2.1, accesses := s.accesses ++ q :: r.1 }, r.2.2)

/-- `device_write`. A character that cannot be read from the caller counts as zero, which is
what `get_user` stores then. -/
def deviceWrite (s : St) (buffer : ℕ → UInt8) (length : ℕ) : St :=
  { s with
    message := store s.message 0 (load buffer 0 (min length BUF_LEN))
    messagePtr := some 0
    accesses := s.accesses ++ List.range (min length BUF_LEN) }

/-- The loop of `IOCTL_SET_MSG` that looks for the end of the message: `k` turns are left and
`ch` is the character last read. -/
def endOfMessage (buffer : ℕ → UInt8) : (k i : ℕ) → (ch : UInt8) → ℕ
  | 0, i, _ => i
  | k + 1, i, ch => if ch = 0 then i else endOfMessage buffer k (i + 1) (buffer i)

inductive Request
  | setMsg (param : ℕ → UInt8)
  | getMsg
  | getNthByte (param : ℕ)
  | other

/-- `device_ioctl` with the pointer at `q`. -/
def deviceIoctl (s : St) (q : ℕ) : Request → St
  | .setMsg param => deviceWrite s param (endOfMessage param BUF_LEN 0 (param 0))
  | .getMsg => (deviceRead s q 99).1
  | .getNthByte param => { s with accesses := s.accesses ++ [param] }
  | .other => s

inductive Act
  | open
  | release
  | read (length : ℕ)
  | write (buffer : ℕ → UInt8) (length : ℕ)
  | ioctl (r : Request)

/-- The calls of the file operations. All but the open need an open device, and the open has
set the pointer. -/
def step (s : St) : Act → Option St
  | .open => some (openDevice s)
  | .release => if 0 < s.deviceOpen then some (deviceRelease s) else none
  | .read length =>
    if 0 < s.deviceOpen then s.messagePtr.map fun q => (deviceRead s q length).1 else none
  | .write buffer length => if 0 < s.deviceOpen then some (deviceWrite s buffer length) else none
  | .ioctl r => if 0 < s.deviceOpen then s.messagePtr.map fun q => deviceIoctl s q r else none

inductive Step (s : St) : Act → St → Prop
  | open : Step s .open (openDevice s)
  | release (hopen : 0 < s.deviceOpen) : Step s .release (deviceRelease s)
  | read (q length : ℕ) (hq : s.messagePtr = some q) :
    Step s (.read length) (deviceRead s q length).1
  | write (buffer : ℕ → UInt8) (length : ℕ) :
    Step s (.write buffer length) (deviceWrite s buffer length)
  | ioctl (q : ℕ) (r : Request) (hq : s.messagePtr = some q) :
    Step s (.ioctl r) (deviceIoctl s q r)

lemma step_cases {s s' : St} {a : Act} (hs : step s a = some s') : Step s a s' := by
  cases a with
  | «open» =>
    obtain rfl := Option.some.inj hs
    exact .open
  | release =>
    obtain ⟨hopen, hs⟩ := Option.ite_none_right_eq_some.mp hs
    obtain rfl := Option.some.inj hs
    exact .release hopen
  | read length =>
    obtain ⟨-, hs⟩ := Option.ite_none_right_eq_some.mp hs
    obtain ⟨q, hq, rfl⟩ := Option.map_eq_some_iff.mp hs
    exact .read q length hq
  | write buffer length =>
    obtain ⟨-, hs⟩ := Option.ite_none_right_eq_some.mp hs
    obtain rfl := Option.some.inj hs
    exact .write buffer length
  | ioctl r =>
    obtain ⟨-, hs⟩ := Option.ite_none_right_eq_some.mp hs
    obtain ⟨q, hq, rfl⟩ := Option.map_eq_some_iff.mp hs
    exact .ioctl q r hq

/-- Every cell touched lies in the array, and the pointer does. -/
structure Inside (s : St) : Prop where
  accesses : ∀ i ∈ s.accesses, i < BUF_LEN
  messagePtr : ∀ q ∈ s.messagePtr, q < BUF_LEN

/-- A read of `length` characters from the pointer ends before the end of the array, or there
is a zero at which it ends. -/
def Ends (s : St) (length : ℕ) : Prop :=
  ∀ q ∈ s.messagePtr, q + length < BUF_LEN ∨ ∃ i, q ≤ i ∧ i < BUF_LEN ∧ s.message i = 0

def Careful (s : St) : Act → Prop
  | .read length => Ends s length
  | .ioctl .getMsg => Ends s 99
  | .ioctl (.getNthByte param) => param < BUF_LEN
  | _ => True

/-! ### Reading -/

section ReadLoop

variable {m : ℕ → UInt8}

lemma readLoop_le_zero {i : ℕ} (hi : m i = 0) (length : ℕ) {q : ℕ} (hq : q ≤ i) :
    (∀ j ∈ (readLoop m length q).1, j ≤ i) ∧ (readLoop m length q).2.1 ≤ i := by
  induction length generalizing q with
  | zero => exact ⟨by simp [readLoop], hq⟩
  | succ length ih =>
    by_cases hz : m q = 0
    · rw [readLoop, if_pos hz]
      exact ⟨by simpa using hq, hq⟩
    · have hlt : q + 1 ≤ i := by
        rcases Nat.lt_or_ge q i with h | h
        · exact h
        · exact absurd (Nat.le_antisymm hq h ▸ hi) hz
      obtain ⟨hall, hptr⟩ := ih hlt
      rw [readLoop, if_neg hz]
      refine ⟨fun j hj => ?_, hptr⟩
      rcases List.mem_cons.mp hj with rfl | hj
      · exact hq
      rcases List.mem_cons.mp hj with rfl | hj
      · exact hq
      · exact hall j hj

lemma readLoop_le_length (length q : ℕ) :
    (∀ j ∈ (readLoop m length q).1, j < q + length) ∧
      (readLoop m length q).2.1 ≤ q + length := by
  induction length generalizing q with
  | zero => exact ⟨by simp [readLoop], le_rfl⟩
  | succ length ih =>
    by_cases hz : m q = 0
    · rw [readLoop, if_pos hz]
      exact ⟨by simp, by simp⟩
    · obtain ⟨hall, hptr⟩ := ih (q + 1)
      rw [readLoop, if_neg hz]
      refine ⟨fun j hj => ?_, by simp only; omega⟩
      rcases List.mem_cons.mp hj with rfl | hj
      · omega
      rcases List.mem_cons.mp hj with rfl | hj
      · omega
      · have := hall j hj
        omega

lemma le_readLoop_self (length q : ℕ) : q ≤ (readLoop m length q).2.1 := by
  induction length generalizing q with
  | zero => exact le_rfl
  | succ length ih =>
    rw [readLoop]
    split
    · exact le_rfl
    · exact (Nat.le_succ q).trans (ih (q + 1))

lemma le_readLoop {e length q : ℕ} (hnz : ∀ i, q ≤ i → i < e → m i ≠ 0) (he : e ≤ q + length)
    (hq : q ≤ e) : e ≤ (readLoop m length q).2.1 := by
  induction length generalizing q with
  | zero => exact he
  | succ length ih =>
    rcases Nat.eq_or_lt_of_le hq with rfl | hlt
    · by_cases hz : m q = 0
      · rw [readLoop, if_pos hz]
      · rw [readLoop, if_neg hz]
        exact (Nat.le_succ q).trans (le_readLoop_self length (q + 1))
    · rw [readLoop, if_neg (hnz q le_rfl hlt)]
      exact ih (fun i hi => hnz i (by omega)) (by omega) hlt

end ReadLoop

lemma inside_read {s : St} (h : Inside s) {q length : ℕ} (hq : s.messagePtr = some q)
    (hends : Ends s length) : Inside (deviceRead s q length).1 := by
  have hlt : q < BUF_LEN := h.messagePtr q hq
  unfold deviceRead
  split
  · refine ⟨fun i hi => ?_, h.messagePtr⟩
    rcases List.mem_append.mp hi with hi | hi
    · exact h.accesses i hi
    · exact List.mem_singleton.mp hi ▸ hlt
  · -- both ways to end bound the cells touched and the pointer
    have hloop : (∀ j ∈ (readLoop s.message length q).1, j < BUF_LEN) ∧
        (readLoop s.message length q).2.1 < BUF_LEN := by
      rcases hends q hq with hshort | ⟨i, hqi, hi, hz⟩
      · obtain ⟨hall, hptr⟩ := readLoop_le_length (m := s.message) length q
        exact ⟨fun j hj => (hall j hj).trans hshort, by omega⟩
      · obtain ⟨hall, hptr⟩ := readLoop_le_zero hz length hqi
        exact ⟨fun j hj => (hall j hj).trans_lt hi, by omega⟩
    refine ⟨fun i hi => ?_, fun p hp => ?_⟩
    · rcases List.mem_append.mp hi with hi | hi
      · exact h.accesses i hi
      rcases List.mem_cons.mp hi with rfl | hi
      · exact hlt
      · exact hloop.1 i hi
    · exact Option.some.inj hp ▸ hloop.2

lemma not_inside_read {s : St} {q length : ℕ} (hq : s.messagePtr = some q) (hlt : q < BUF_LEN)
    (hends : ¬ Ends s length) : ¬ Inside (deviceRead s q length).1 := by
  have hno : ¬ q + length < BUF_LEN ∧ ∀ i, q ≤ i → i < BUF_LEN → s.message i ≠ 0 := by
    constructor
    · intro hshort
      exact hends fun p hp => Or.inl (Option.some.inj (hq.symm.trans hp) ▸ hshort)
    · intro i hqi hi hz
      exact hends fun p hp => Or.inr
        ⟨i, Option.some.inj (hq.symm.trans hp) ▸ hqi, hi, hz⟩
  have hpast : BUF_LEN ≤ (readLoop s.message length q).2.1 :=
    le_readLoop hno.2 (by omega) hlt.le
  intro h
  unfold deviceRead at h
  rw [if_neg (hno.2 q le_rfl hlt)] at h
  exact absurd (h.messagePtr _ rfl) (by simpa using hpast)

lemma inside_write {s : St} (h : Inside s) (buffer : ℕ → UInt8) (length : ℕ) :
    Inside (deviceWrite s buffer length) := by
  refine ⟨fun i hi => ?_, fun q hq => ?_⟩
  · rcases List.mem_append.mp hi with hi | hi
    · exact h.accesses i hi
    · exact (List.mem_range.mp hi).trans_le (min_le_right _ _)
  · exact Option.some.inj hq ▸ (by decide)

lemma inside_nthByte {s : St} (h : Inside s) (q : ℕ) {param : ℕ} :
    Inside (deviceIoctl s q (.getNthByte param)) ↔ param < BUF_LEN := by
  constructor
  · intro h'
    exact h'.accesses param (List.mem_append.mpr (Or.inr List.mem_cons_self))
  · intro hlt
    refine ⟨fun i hi => ?_, h.messagePtr⟩
    rcases List.mem_append.mp hi with hi | hi
    · exact h.accesses i hi
    · exact List.mem_singleton.mp hi ▸ hlt

/-! ### Call histories -/

lemma inside_step_iff {s s' : St} {a : Act} (h : Inside s) (hs : step s a = some s') :
    Inside s' ↔ Careful s a := by
  have hread (q length : ℕ) (hq : s.messagePtr = some q) :
      Inside (deviceRead s q length).1 ↔ Ends s length := by
    refine ⟨fun h' => ?_, inside_read h hq⟩
    by_contra hends
    exact not_inside_read hq (h.messagePtr q hq) hends h'
  cases step_cases hs with
  | «open» =>
    refine iff_of_true ?_ trivial
    unfold openDevice
    split
    · exact h
    · exact ⟨h.accesses, fun q hq => Option.some.inj hq ▸ (by decide)⟩
  | release => exact iff_of_true ⟨h.accesses, h.messagePtr⟩ trivial
  | read q length hq => exact hread q length hq
  | write buffer length => exact iff_of_true (inside_write h buffer length) trivial
  | ioctl q r hq =>
    cases r with
    | setMsg param => exact iff_of_true (inside_write h _ _) trivial
    | getMsg => exact hread q 99 hq
    | getNthByte param => exact inside_nthByte h q
    | other => exact iff_of_true h trivial

lemma inside_init (behind : ℕ → UInt8) : Inside (init behind) :=
  ⟨fun _ hi => absurd hi List.not_mem_nil, fun _ hq => nomatch hq⟩

/-- **The accesses of a call history stay inside the array exactly when its calls are
careful.** -/
theorem message_accesses_inside_iff {behind : ℕ → UInt8} {s : St} {as : List Act}
    (h : exec step (init behind) as = some s) :
    Always step Inside (init behind) as ↔ Guarded step Careful (init behind) as :=
  always_iff_guarded (I := Inside) (fun _ hi => hi)
    (fun _ _ _ hi hok hs => (inside_step_iff hi hs).mpr hok)
    (fun _ _ _ hi hbad hs => mt (inside_step_iff hi hs).mp hbad) h (inside_init behind)

/-- A message of two characters, and a read that ends at the zero behind them. -/
theorem message_accesses_inside_iff_short :
    (∃ s, exec step (init fun _ => 0) [.open, .write (fun _ => 65) 2, .read 100] = some s) ∧
    Always step Inside (init fun _ => 0) [.open, .write (fun _ => 65) 2, .read 100] := by
  refine ⟨⟨_, rfl⟩, (message_accesses_inside_iff rfl).mpr ?_⟩
  refine ⟨trivial, fun s hs => ⟨trivial, fun t ht => ⟨?_, fun _ _ => trivial⟩⟩⟩
  obtain rfl := Option.some.inj hs
  obtain rfl := Option.some.inj ht
  intro q hq
  obtain rfl := Option.some.inj hq
  exact Or.inr ⟨2, by decide, by decide, rfl⟩

/-- A write of `BUF_LEN` characters without a zero and a read of as many leave the pointer
behind the array, a read of one more touches the cell behind it, and so does a request for
that byte. -/
theorem message_accesses_outside :
    (∃ s, exec step (init fun _ => 0) [.open, .write (fun _ => 65) 80, .read 80] = some s ∧
      s.messagePtr = some 80) ∧
    (∃ s, exec step (init fun _ => 0) [.open, .write (fun _ => 65) 80, .read 81] = some s ∧
      80 ∈ s.accesses) ∧
    ∃ s, exec step (init fun _ => 0) [.open, .ioctl (.getNthByte 80)] = some s ∧ 80 ∈ s.accesses :=
  ⟨⟨_, rfl, by decide +kernel⟩, ⟨_, rfl, by decide +kernel⟩, ⟨_, rfl, by decide⟩⟩

/-! ### Histories that keep the last cell zero -/

/-- A call that leaves the last cell of the array zero and asks for no byte outside. -/
def Terminated : Act → Prop
  | .write buffer length => BUF_LEN ≤ length → buffer (BUF_LEN - 1) = 0
  | .ioctl (.setMsg param) =>
    BUF_LEN ≤ endOfMessage param BUF_LEN 0 (param 0) → param (BUF_LEN - 1) = 0
  | .ioctl (.getNthByte param) => param < BUF_LEN
  | _ => True

lemma last_deviceWrite {s : St} (h : s.message (BUF_LEN - 1) = 0) {buffer : ℕ → UInt8}
    {length : ℕ} (hb : BUF_LEN ≤ length → buffer (BUF_LEN - 1) = 0) :
    (deviceWrite s buffer length).message (BUF_LEN - 1) = 0 := by
  simp only [deviceWrite]
  rcases Nat.lt_or_ge length BUF_LEN with hlt | hge
  · rw [store_of_ge (by rw [length_load]; omega), h]
  · rw [min_eq_right hge, store, if_pos (Nat.zero_le _), Nat.sub_zero,
      getElem?_load buffer 0 (by decide), Option.getD_some, Nat.zero_add]
    exact hb hge

lemma last_deviceRead (s : St) (q length : ℕ) :
    (deviceRead s q length).1.message = s.message := by
  unfold deviceRead
  split <;> rfl

lemma ends_of_last {s : St} (h : Inside s) (hlast : s.message (BUF_LEN - 1) = 0) (length : ℕ) :
    Ends s length := by
  intro q hq
  have hlt : q < BUF_LEN := h.messagePtr q hq
  exact Or.inr ⟨BUF_LEN - 1, by omega, by decide, hlast⟩

lemma last_step {s s' : St} {a : Act} (hlast : s.message (BUF_LEN - 1) = 0) (ha : Terminated a)
    (hs : step s a = some s') : s'.message (BUF_LEN - 1) = 0 := by
  cases step_cases hs with
  | «open» =>
    unfold openDevice
    split <;> exact hlast
  | release => exact hlast
  | read q length => rw [last_deviceRead, hlast]
  | write buffer length => exact last_deviceWrite hlast ha
  | ioctl q r =>
    cases r with
    | setMsg param => exact last_deviceWrite hlast ha
    | getMsg => exact (congrFun (last_deviceRead s q 99) _).trans hlast
    | getNthByte param => exact hlast
    | other => exact hlast

lemma careful_of_terminated {s : St} (h : Inside s) (hlast : s.message (BUF_LEN - 1) = 0)
    {a : Act} (ha : Terminated a) : Careful s a := by
  cases a with
  | read length => exact ends_of_last h hlast length
  | ioctl r =>
    cases r with
    | getMsg => exact ends_of_last h hlast 99
    | getNthByte param => exact ha
    | setMsg param => trivial
    | other => trivial
  | «open» => trivial
  | release => trivial
  | write buffer length => trivial

/-- **Terminated messages keep every access inside**, in any order of calls. -/
theorem message_inside_of_terminated {behind : ℕ → UInt8} {s : St} {as : List Act}
    (has : ∀ a ∈ as, Terminated a) (h : exec step (init behind) as = some s) : Inside s := by
  have hg : Guarded step (fun _ a => Terminated a) (init behind) as :=
    Guarded.of_forall (fun a ha _ => has a ha) _
  have hboth : Inside s ∧ s.message (BUF_LEN - 1) = 0 := by
    refine hg.invariant (I := fun u => Inside u ∧ u.message (BUF_LEN - 1) = 0) h
      ⟨inside_init behind, rfl⟩ fun u a v hu ha hv => ⟨?_, last_step hu.2 ha hv⟩
    exact (inside_step_iff hu.1 hv).mpr (careful_of_terminated hu.1 hu.2 ha)
  exact hboth.1

theorem message_inside_of_terminated_full :
    ∃ s, exec step (init fun _ => 1)
        [.open, .write (fun i => if i < 79 then 65 else 0) 80, .read 81] = some s ∧ Inside s := by
  obtain ⟨s, hs⟩ : ∃ s, exec step (init fun _ => 1)
    [.open, .write (fun i => if i < 79 then 65 else 0) 80, .read 81] = some s := ⟨_, rfl⟩
  refine ⟨s, hs, message_inside_of_terminated ?_ hs⟩
  simp [Terminated, BUF_LEN]

end LinuxSamples.MessageDevice
