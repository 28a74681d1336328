import LinuxSamples.Run
import LinuxSamples.Bytes
import LinuxSamples.Checksum

/-!
The network devices of the snull driver.

What one device sends, the other receives: `nic_start_xmit` copies the packet to the buffer of the
sender, `nic_hw_xmit` writes the addresses of the receiver into it, and `nic_rx` passes a copy on
to the receiver. The calls on one device are serialised by its transmit lock, those on the two
devices run side by side. The steps of the model are the three functions; between them the other
device may go on.
-/

namespace LinuxSamples.Snull

open LinuxSamples.Run LinuxSamples.Bytes LinuxSamples.OnesComplement LinuxSamples.Checksum

def MAX_ETH_FRAME_SIZE : ℕ := 1792

def ETH_ZLEN : ℕ := 60

/-- `sizeof(struct ethhdr)`. -/
def ETH_HLEN : ℕ := 14

/-- `sizeof(struct iphdr)`. -/
def IP_HLEN : ℕ := 20

/-- `nic_dev[0]` and `nic_dev[1]`. -/
inductive Nic
  | sn0
  | sn1
  deriving DecidableEq

/-- `nic_dev[(netdev == nic_dev[0] ? 1 : 0)]`. -/
def Nic.peer : Nic → Nic
  | .sn0 => .sn1
  | .sn1 => .sn0

/-- The private data of a device and the half of its statistics for sending. The counters are
`unsigned long`, of `w` bits. -/
structure Tx (w : ℕ) where
  txBuf : ℕ → UInt8
  txLen : ℕ
  txPackets : BitVec w
  txBytes : BitVec w
  txDropped : BitVec w
  /-- The end of what was ever written to `tx_buf`. -/
  written : ℕ
  /-- The frames that were copied to `tx_buf`. -/
  copied : List (List UInt8)

structure Rx (w : ℕ) where
  rxPackets : BitVec w
  rxBytes : BitVec w
  rxDropped : BitVec w
  /-- What `netif_rx` was called with. -/
  received : List (List UInt8)
  /-- The frames there was no memory for. -/
  lost : List (List UInt8)

/-- `ifa_address`, in network order. -/
structure Addr where
  a : UInt8
  b : UInt8
  c : UInt8
  d : UInt8

def Addr.bytes (x : Addr) : List UInt8 := [x.a, x.b, x.c, x.d]

/-- `((u8 *)saddr)[3]++`. -/
def Addr.next (x : Addr) : Addr := { x with d := x.d + 1 }

variable {w : ℕ}

namespace Tx

def write (tx : Tx w) (off : ℕ) (bs : List UInt8) : Tx w :=
  { tx with
    txBuf := store tx.txBuf off bs
    written := max tx.written (off + bs.length) }

/-- The `tx_len` bytes in the buffer. -/
def frame (tx : Tx w) : List UInt8 := load tx.txBuf 0 tx.txLen

/-- A packet that is too short for a frame is padded with zeros. -/
def pad (tx : Tx w) : Tx w :=
  if tx.txLen < ETH_ZLEN then { tx.write 0 (List.replicate ETH_ZLEN 0) with txLen := ETH_ZLEN }
  else tx

/-- `skb_copy_and_csum_dev`; `skb` are the bytes that it copies. -/
def copy (tx : Tx w) (skb : List UInt8) : Tx w :=
  let tx := tx.write 0 skb
  { tx with copied := tx.copied ++ [tx.frame] }

def drop (tx : Tx w) : Tx w := { tx with txDropped := tx.txDropped + 1 }

def count (tx : Tx w) : Tx w :=
  { tx with
    txPackets := tx.txPackets + 1
    txBytes := tx.txBytes + BitVec.ofNat w tx.txLen }

/-- Both addresses become that of the receiver, the source one more. -/
def readdress (tx : Tx w) (x : Addr) : Tx w :=
  (tx.write (ETH_HLEN + 16) x.bytes).write (ETH_HLEN + 12) x.next.bytes

def ihl (tx : Tx w) : ℕ := (tx.txBuf ETH_HLEN).toNat % 16

end Tx

def ipFastCsum (bs : List UInt8) : ℕ := complement 16 (sum 16 (words bs))

/-- `iph->check` is rebuilt. -/
def Tx.check (tx : Tx w) : Tx w :=
  let tx := tx.write (ETH_HLEN + 10) [0, 0]
  tx.write (ETH_HLEN + 10) (leBytes (ipFastCsum (load tx.txBuf ETH_HLEN (4 * tx.ihl))))

/-- What the call on a device has to do next. -/
inductive Pc
  | idle
  | hwXmit
  | rx
  deriving DecidableEq

def nicStartXmit (tx : Tx w) (skb : List UInt8) : Tx w × Pc :=
  let tx := { tx with txLen := skb.length }
  if tx.txLen < MAX_ETH_FRAME_SIZE then (tx.pad.copy skb, .hwXmit)
  else (tx.drop, .idle)

/-- `inDev` is `ip_ptr` of the receiver: null, or with the addresses of `ifa_list`. -/
def nicHwXmit (tx : Tx w) (inDev : Option (List Addr)) : Tx w × Pc :=
  if tx.txLen < ETH_HLEN + IP_HLEN then (tx, .idle)
  else
    match inDev with
    | some [] => (tx.drop, .idle)
    -- the loop is left in its first round
    | some (x :: _) => ((tx.readdress x).check.count, .rx)
    | none => (tx.check.count, .rx)

/-- `alloc` tells whether `dev_alloc_skb` finds memory. -/
def nicRx (rx : Rx w) (frame : List UInt8) (alloc : Bool) : Rx w :=
  if alloc then
    { rx with
      rxPackets := rx.rxPackets + 1
      rxBytes := rx.rxBytes + BitVec.ofNat w frame.length
      received := rx.received ++ [frame] }
  else
    { rx with
      rxDropped := rx.rxDropped + 1
      lost := rx.lost ++ [frame] }

structure St (w : ℕ) where
  tx : Nic → Tx w
  rx : Nic → Rx w
  pc : Nic → Pc

inductive Act
  | startXmit (d : Nic) (skb : List UInt8)
  | hwXmit (d : Nic) (inDev : Option (List Addr))
  | rx (d : Nic) (alloc : Bool)

def step (s : St w) : Act → Option (St w)
  | .startXmit d skb =>
    if s.pc d = .idle then
      let r := nicStartXmit (s.tx d) skb
      some { s with tx := Function.update s.tx d r.1, pc := Function.update s.pc d r.2 }
    else none
  | .hwXmit d inDev =>
    if s.pc d = .hwXmit then
      let r := nicHwXmit (s.tx d) inDev
      some { s with tx := Function.update s.tx d r.1, pc := Function.update s.pc d r.2 }
    else none
  | .rx d alloc =>
    if s.pc d = .rx then
      some { s with
        rx := Function.update s.rx d.peer (nicRx (s.rx d.peer) (s.tx d).frame alloc)
        pc := Function.update s.pc d .idle }
    else none

/-- The buffers come from `kmalloc`, with any contents. -/
def init (w : ℕ) (buf : Nic → ℕ → UInt8) : St w where
  tx d := ⟨buf d, 0, 0, 0, 0, 0, []⟩
  rx _ := ⟨0, 0, 0, [], []⟩
  pc _ := .idle

/-! ### One direction -/

/-- What only the calls on one device change: how far the call is, the half of the device for
sending and that of its peer for receiving. -/
structure Link (w : ℕ) where
  pc : Pc
  tx : Tx w
  rx : Rx w

def St.link (s : St w) (d : Nic) : Link w := ⟨s.pc d, s.tx d, s.rx d.peer⟩

def Act.nic : Act → Nic
  | .startXmit d _ => d
  | .hwXmit d _ => d
  | .rx d _ => d

/-- The beginning of a call on `d`. -/
def Act.starts (d : Nic) : Act → Prop
  | .startXmit e _ => e = d
  | _ => False

/-- What a step of a call does to its direction. -/
inductive Link.Step (l : Link w) : Act → Link w → Prop
  | startXmit (d skb) : l.pc = .idle → Step l (.startXmit d skb)
      ⟨(nicStartXmit l.tx skb).2, (nicStartXmit l.tx skb).1, l.rx⟩
  | hwXmit (d inDev) : l.pc = .hwXmit → Step l (.hwXmit d inDev)
      ⟨(nicHwXmit l.tx inDev).2, (nicHwXmit l.tx inDev).1, l.rx⟩
  | rx (d alloc) : l.pc = .rx → Step l (.rx d alloc) ⟨.idle, l.tx, nicRx l.rx l.tx.frame alloc⟩

lemma peer_injective {d e : Nic} (h : d.peer = e.peer) : d = e := by
  revert h
  cases d <;> cases e <;> decide

/-- **A call changes its own direction**, as the function that it runs does, and leaves the other
one alone. -/
lemma link_step {s t : St w} {a : Act} (h : step s a = some t) :
    (s.link a.nic).Step a (t.link a.nic) ∧ ∀ d, d ≠ a.nic → t.link d = s.link d := by
  cases a with
  | startXmit d skb =>
    obtain ⟨hpc, ht⟩ := Option.ite_none_right_eq_some.mp h
    cases ht
    refine ⟨?_, fun e (he : e ≠ d) => ?_⟩
    · simpa [St.link, Act.nic] using Link.Step.startXmit (l := s.link d) d skb hpc
    · simp [St.link, Function.update_of_ne he]
  | hwXmit d inDev =>
    obtain ⟨hpc, ht⟩ := Option.ite_none_right_eq_some.mp h
    cases ht
    refine ⟨?_, fun e (he : e ≠ d) => ?_⟩
    · simpa [St.link, Act.nic] using Link.Step.hwXmit (l := s.link d) d inDev hpc
    · simp [St.link, Function.update_of_ne he]
  | rx d alloc =>
    obtain ⟨hpc, ht⟩ := Option.ite_none_right_eq_some.mp h
    cases ht
    refine ⟨?_, fun e (he : e ≠ d) => ?_⟩
    · simpa [St.link, Act.nic] using Link.Step.rx (l := s.link d) d alloc hpc
    · have hpeer : e.peer ≠ d.peer := fun hp => he (peer_injective hp)
      simp [St.link, Function.update_of_ne he, Function.update_of_ne hpeer]

/-! ### The functions -/

/-- The length of a frame is in the range of an Ethernet frame in its buffer. -/
def Fits (n : ℕ) : Prop := ETH_ZLEN ≤ n ∧ n < MAX_ETH_FRAME_SIZE

@[simp] lemma length_frame (tx : Tx w) : tx.frame.length = tx.txLen := length_load _ _ _

lemma pad_cases (tx : Tx w) :
    (tx.txLen < ETH_ZLEN ∧ tx.pad =
        { tx.write 0 (List.replicate ETH_ZLEN 0) with txLen := ETH_ZLEN }) ∨
      (ETH_ZLEN ≤ tx.txLen ∧ tx.pad = tx) := by
  rcases Nat.lt_or_ge tx.txLen ETH_ZLEN with h | h
  · exact Or.inl ⟨h, if_pos h⟩
  · exact Or.inr ⟨h, if_neg (by omega)⟩

/-- A frame is copied. The counters stay as they are. -/
structure Copied (tx tx' : Tx w) : Prop where
  fits : Fits tx'.txLen
  written : tx'.written ≤ max tx.written MAX_ETH_FRAME_SIZE
  copied : tx'.copied = tx.copied ++ [tx'.frame]
  txPackets : tx'.txPackets = tx.txPackets
  txBytes : tx'.txBytes = tx.txBytes
  txDropped : tx'.txDropped = tx.txDropped

lemma copied_pad_copy (tx : Tx w) (skb : List UInt8) (hlen : tx.txLen = skb.length)
    (h : tx.txLen < MAX_ETH_FRAME_SIZE) : Copied tx (tx.pad.copy skb) := by
  have hsizes : ETH_ZLEN < MAX_ETH_FRAME_SIZE := by decide
  rcases pad_cases tx with ⟨-, hpad⟩ | ⟨hge, hpad⟩
  · rw [hpad]
    refine ⟨⟨le_rfl, hsizes⟩, ?_, rfl, rfl, rfl, rfl⟩
    simp only [Tx.copy, Tx.write, List.length_replicate]
    omega
  · rw [hpad]
    refine ⟨⟨hge, h⟩, ?_, rfl, rfl, rfl, rfl⟩
    simp only [Tx.copy, Tx.write]
    omega

lemma nicStartXmit_cases (tx : Tx w) (skb : List UInt8) :
    nicStartXmit tx skb = (Tx.drop { tx with txLen := skb.length }, .idle) ∨
      ∃ tx', nicStartXmit tx skb = (tx', .hwXmit) ∧ Copied tx tx' := by
  rcases Nat.lt_or_ge skb.length MAX_ETH_FRAME_SIZE with h | h
  · right
    refine ⟨_, if_pos h, ?_⟩
    obtain ⟨h1, h2, h3, h4, h5, h6⟩ :=
      copied_pad_copy { tx with txLen := skb.length } skb rfl h
    exact ⟨h1, h2, h3, h4, h5, h6⟩
  · exact Or.inl (if_neg (by simpa using h))

/-- A frame is sent: its header is rewritten, and it is counted. -/
structure Sent (tx tx' : Tx w) : Prop where
  txLen : tx'.txLen = tx.txLen
  written : tx'.written ≤ max tx.written (ETH_HLEN + IP_HLEN)
  copied : tx'.copied = tx.copied
  txPackets : tx'.txPackets = tx.txPackets + 1
  txBytes : tx'.txBytes = tx.txBytes + BitVec.ofNat w tx.txLen
  txDropped : tx'.txDropped = tx.txDropped

lemma sent_check_count (tx : Tx w) : Sent tx tx.check.count where
  txLen := rfl
  written := by
    have hsize : ETH_HLEN + 10 + 2 ≤ ETH_HLEN + IP_HLEN := by decide
    change max (max tx.written (ETH_HLEN + 10 + 2)) (ETH_HLEN + 10 + 2) ≤ _
    omega
  copied := rfl
  txPackets := rfl
  txBytes := rfl
  txDropped := rfl

lemma sent_readdress (tx : Tx w) (x : Addr) : Sent tx (tx.readdress x).check.count where
  txLen := rfl
  written := by
    have hsent := (sent_check_count (tx.readdress x)).written
    have hwritten : (tx.readdress x).written =
        max (max tx.written (ETH_HLEN + 16 + 4)) (ETH_HLEN + 12 + 4) := rfl
    have hsize : ETH_HLEN + 16 + 4 = ETH_HLEN + IP_HLEN := rfl
    omega
  copied := rfl
  txPackets := rfl
  txBytes := rfl
  txDropped := rfl

lemma nicHwXmit_cases {tx : Tx w} (h : ETH_HLEN + IP_HLEN ≤ tx.txLen) (inDev : Option (List Addr)) :
    nicHwXmit tx inDev = (tx.drop, .idle) ∨
      ∃ tx', nicHwXmit tx inDev = (tx', .rx) ∧ Sent tx tx' := by
  unfold nicHwXmit
  rw [if_neg (by omega)]
  rcases inDev with _ | _ | ⟨x, xs⟩
  · exact Or.inr ⟨_, rfl, sent_check_count tx⟩
  · exact Or.inl rfl
  · exact Or.inr ⟨_, rfl, sent_readdress tx x⟩

/-! ### Conservation -/

def size (frames : List (List UInt8)) : ℕ := (frames.map List.length).sum

/-- The frame that the sender has counted and the receiver not yet. -/
def Link.inFlight (l : Link w) : List (List UInt8) :=
  match l.pc with
  | .rx => [l.tx.frame]
  | _ => []

/-- What is sent in one direction is received, dropped by the receiver or in flight. -/
structure Link.Conserved (l : Link w) : Prop where
  packets : l.tx.txPackets =
    l.rx.rxPackets + l.rx.rxDropped + BitVec.ofNat w l.inFlight.length
  bytes : l.tx.txBytes =
    l.rx.rxBytes + BitVec.ofNat w (size l.rx.lost) + BitVec.ofNat w (size l.inFlight)
  lost : l.rx.rxDropped = BitVec.ofNat w l.rx.lost.length
  copied : ∀ frame ∈ l.tx.copied, Fits frame.length
  written : l.tx.written ≤ MAX_ETH_FRAME_SIZE
  current : l.pc ≠ .idle → Fits l.tx.txLen

lemma conserved_init (buf : Nic → ℕ → UInt8) (d : Nic) : ((init w buf).link d).Conserved where
  packets := by simp [init, St.link, Link.inFlight]
  bytes := by simp [init, St.link, Link.inFlight, size]
  lost := rfl
  copied := by simp [init, St.link]
  written := Nat.zero_le _
  current h := absurd rfl h

lemma size_append (fs : List (List UInt8)) (f : List UInt8) :
    size (fs ++ [f]) = size fs + f.length := by
  simp [size]

lemma size_singleton (f : List UInt8) : size [f] = f.length := by simp [size]

namespace Link.Conserved

lemma startXmit {l : Link w} (hl : l.Conserved) (hpc : l.pc = .idle) (skb : List UInt8) :
    Link.Conserved ⟨(nicStartXmit l.tx skb).2, (nicStartXmit l.tx skb).1, l.rx⟩ := by
  obtain ⟨hpackets, hbytes, hlost, hcopied, hwritten, -⟩ := hl
  have hflight : l.inFlight = [] := by rw [Link.inFlight, hpc]
  rw [hflight] at hpackets hbytes
  rcases nicStartXmit_cases l.tx skb with heq | ⟨tx', heq, hc⟩ <;> rw [heq]
  · exact ⟨hpackets, hbytes, hlost, hcopied, hwritten, fun h => absurd rfl h⟩
  · refine ⟨hc.txPackets.trans hpackets, hc.txBytes.trans hbytes, hlost, fun frame hf => ?_, ?_,
      fun _ => hc.fits⟩
    · rw [hc.copied] at hf
      rcases List.mem_append.mp hf with hf | hf
      · exact hcopied frame hf
      · rw [List.mem_singleton.mp hf, length_frame]
        exact hc.fits
    · exact hc.written.trans (max_le hwritten le_rfl)

lemma hwXmit {l : Link w} (hl : l.Conserved) (hpc : l.pc = .hwXmit) (inDev : Option (List Addr)) :
    Link.Conserved ⟨(nicHwXmit l.tx inDev).2, (nicHwXmit l.tx inDev).1, l.rx⟩ := by
  obtain ⟨hpackets, hbytes, hlost, hcopied, hwritten, hcurrent⟩ := hl
  have hflight : l.inFlight = [] := by rw [Link.inFlight, hpc]
  have hfits := hcurrent (by rw [hpc]; decide)
  have hheaders : ETH_HLEN + IP_HLEN ≤ ETH_ZLEN := by decide
  rw [hflight] at hpackets hbytes
  rcases nicHwXmit_cases (hheaders.trans hfits.1) inDev with heq | ⟨tx', heq, hs⟩ <;> rw [heq]
  · exact ⟨hpackets, hbytes, hlost, hcopied, hwritten, fun h => absurd rfl h⟩
  · refine ⟨?_, ?_, hlost, hs.copied ▸ hcopied, ?_, fun _ => hs.txLen ▸ hfits⟩
    · rw [hs.txPackets, hpackets]
      simp [Link.inFlight]
    · rw [hs.txBytes, hbytes]
      simp [Link.inFlight, size, hs.txLen]
    · have hsize : ETH_HLEN + IP_HLEN ≤ MAX_ETH_FRAME_SIZE := by decide
      exact hs.written.trans (max_le hwritten hsize)

lemma rx {l : Link w} (hl : l.Conserved) (hpc : l.pc = .rx) (alloc : Bool) :
    Link.Conserved ⟨.idle, l.tx, nicRx l.rx l.tx.frame alloc⟩ := by
  obtain ⟨hpackets, hbytes, hlost, hcopied, hwritten, hcurrent⟩ := hl
  have hflight : l.inFlight = [l.tx.frame] := by rw [Link.inFlight, hpc]
  rw [hflight] at hpackets hbytes
  rw [size_singleton, length_frame] at hbytes
  cases alloc with
  | true =>
    refine ⟨?_, ?_, hlost, hcopied, hwritten, fun h => absurd rfl h⟩
    · simp [hpackets, nicRx, Link.inFlight]
      ac_rfl
    · simp [hbytes, nicRx, Link.inFlight]
      ac_rfl
  | false =>
    refine ⟨?_, ?_, ?_, hcopied, hwritten, fun h => absurd rfl h⟩
    · simp [hpackets, nicRx, Link.inFlight]
      ac_rfl
    · simp [hbytes, nicRx, Link.inFlight, size_append, BitVec.ofNat_add]
      ac_rfl
    · simp [hlost, nicRx, BitVec.ofNat_add]

lemma of_idle {l : Link w} (hl : l.Conserved) (hpc : l.pc = .idle) :
    l.tx.txPackets = l.rx.rxPackets + l.rx.rxDropped ∧
      l.tx.txBytes = l.rx.rxBytes + BitVec.ofNat w (size l.rx.lost) := by
  obtain ⟨hpackets, hbytes, -⟩ := hl
  have hflight : l.inFlight = [] := by rw [Link.inFlight, hpc]
  rw [hflight] at hpackets hbytes
  exact ⟨by simpa using hpackets, by simpa [size] using hbytes⟩

end Link.Conserved

lemma conserved_step {l l' : Link w} {a : Act} (hl : l.Conserved) (h : l.Step a l') :
    l'.Conserved := by
  cases h with
  | startXmit d skb hpc => exact hl.startXmit hpc skb
  | hwXmit d inDev hpc => exact hl.hwXmit hpc inDev
  | rx d alloc hpc => exact hl.rx hpc alloc

lemma conserved_of_reach {buf : Nic → ℕ → UInt8} {s : St w} (h : Reach step (init w buf) s)
    (d : Nic) : (s.link d).Conserved := by
  refine h.invariant (I := fun s => (s.link d).Conserved) (conserved_init buf d) ?_
  intro u a v hu hstep
  obtain ⟨hown, hother⟩ := link_step hstep
  by_cases hd : d = a.nic
  · subst hd
    exact conserved_step hu hown
  · rw [hother d hd]
    exact hu

/-! ### Calls -/

/-- What a call has counted so far, if there were `p` packets and `n` drops before it. -/
def Link.Counted (p n : BitVec w) (l : Link w) : Prop :=
  match l.pc with
  | .idle => (l.tx.txPackets = p + 1 ∧ l.tx.txDropped = n) ∨
      (l.tx.txPackets = p ∧ l.tx.txDropped = n + 1)
  | .hwXmit => l.tx.txPackets = p ∧ l.tx.txDropped = n
  | .rx => l.tx.txPackets = p + 1 ∧ l.tx.txDropped = n

lemma counted_startXmit {l l' : Link w} {d : Nic} {skb : List UInt8}
    (h : l.Step (.startXmit d skb) l') : l'.Counted l.tx.txPackets l.tx.txDropped := by
  cases h
  rcases nicStartXmit_cases l.tx skb with heq | ⟨tx', heq, hc⟩ <;> rw [heq]
  · exact Or.inr ⟨rfl, rfl⟩
  · exact ⟨hc.txPackets, hc.txDropped⟩

lemma counted_step {p n : BitVec w} {l l' : Link w} {a : Act} (hl : l.Conserved)
    (hc : l.Counted p n) (h : l.Step a l') (ha : ¬ a.starts a.nic) : l'.Counted p n := by
  cases h with
  | startXmit d skb hpc => exact absurd rfl ha
  | hwXmit d inDev hpc =>
    have hfits := hl.current (by rw [hpc]; decide)
    have hheaders : ETH_HLEN + IP_HLEN ≤ ETH_ZLEN := by decide
    rw [Link.Counted, hpc] at hc
    rcases nicHwXmit_cases (hheaders.trans hfits.1) inDev with heq | ⟨tx', heq, hs⟩ <;> rw [heq]
    · exact Or.inr ⟨hc.1, by rw [← hc.2]; rfl⟩
    · exact ⟨by rw [← hc.1]; exact hs.txPackets, hs.txDropped.trans hc.2⟩
  | rx d alloc hpc =>
    rw [Link.Counted, hpc] at hc
    exact Or.inl hc

/-- A call of `nic_start_xmit` on `d`, from its beginning to its end, with any steps of calls on
the other device in between. -/
def Call (d : Nic) (skb : List UInt8) (s t : St w) : Prop :=
  ∃ as : List Act, (∀ a ∈ as, ¬ a.starts d) ∧
    exec step s (.startXmit d skb :: as) = some t ∧ t.pc d = .idle

lemma counted_exec {p n : BitVec w} {d : Nic} {s t : St w} {as : List Act}
    (has : ∀ a ∈ as, ¬ a.starts d) (hexec : exec step s as = some t)
    (hs : (s.link d).Conserved ∧ (s.link d).Counted p n) : (t.link d).Counted p n := by
  have hguarded : Guarded step (fun _ a => ¬ a.starts d) s as :=
    Guarded.of_forall (fun a ha _ => has a ha) s
  refine (hguarded.invariant
    (I := fun s => (s.link d).Conserved ∧ (s.link d).Counted p n) hexec hs ?_).2
  rintro u a v ⟨hu, hc⟩ ha hstep
  obtain ⟨hown, hother⟩ := link_step hstep
  by_cases hd : d = a.nic
  · subst hd
    exact ⟨conserved_step hu hown, counted_step hu hc hown ha⟩
  · rw [hother d hd]
    exact ⟨hu, hc⟩

/-- **The pair of devices conserves packets**, for packets of any size, any addresses of the
receivers and any failures of allocation. What one device has sent, its peer has received or
dropped, but for the frame of a call that is between the two counts. A whole call counts one
packet or one drop. -/
theorem snull_conserves {buf : Nic → ℕ → UInt8} {s : St w} (h : Reach step (init w buf) s) :
    (∀ d, (s.link d).Conserved) ∧
      (∀ d, s.pc d = .idle →
        (s.tx d).txPackets = (s.rx d.peer).rxPackets + (s.rx d.peer).rxDropped ∧
        (s.tx d).txBytes = (s.rx d.peer).rxBytes + BitVec.ofNat w (size (s.rx d.peer).lost)) ∧
      ∀ d skb t, Call d skb s t →
        ((t.tx d).txPackets = (s.tx d).txPackets + 1 ∧ (t.tx d).txDropped = (s.tx d).txDropped) ∨
          ((t.tx d).txPackets = (s.tx d).txPackets ∧
            (t.tx d).txDropped = (s.tx d).txDropped + 1) := by
  have hcons := conserved_of_reach h
  refine ⟨hcons, fun d hpc => (hcons d).of_idle hpc, ?_⟩
  rintro d skb t ⟨as, has, hexec, hidle⟩
  obtain ⟨u, hu, hrest⟩ := Option.bind_eq_some_iff.mp hexec
  have hlink : (s.link d).Step _ (u.link d) := (link_step hu).1
  have hcounted :=
    counted_exec has hrest ⟨conserved_step (hcons d) hlink, counted_startXmit hlink⟩
  rw [Link.Counted, show (t.link d).pc = .idle from hidle] at hcounted
  exact hcounted

/-- Three packets of `sn0`: one too long, one that is padded and received, and one that finds no
memory. In between a packet of `sn1` to a device without an address. -/
def threePackets : List Act :=
  [.startXmit .sn0 (List.replicate 1792 0), .startXmit .sn0 [1, 2, 3], .startXmit .sn1 [4],
    .hwXmit .sn0 (some [⟨192, 168, 1, 1⟩]), .hwXmit .sn1 (some []), .rx .sn0 true,
    .startXmit .sn0 (List.replicate 100 7), .hwXmit .sn0 none, .rx .sn0 false]

theorem snull_conserves_threePackets :
    ∃ s, exec step (init 64 fun _ _ => 0) threePackets = some s ∧
      ((s.tx .sn0).txPackets = 2 ∧ (s.tx .sn0).txDropped = 1 ∧ (s.tx .sn0).txBytes = 160 ∧
        (s.rx .sn1).rxPackets = 1 ∧ (s.rx .sn1).rxDropped = 1 ∧ (s.rx .sn1).rxBytes = 60 ∧
        (s.tx .sn1).txDropped = 1 ∧ s.pc .sn0 = .idle) ∧
      (s.link .sn0).Conserved ∧
      (s.tx .sn0).txBytes = (s.rx .sn1).rxBytes + BitVec.ofNat 64 (size (s.rx .sn1).lost) := by
  obtain ⟨s, hrun, hfacts⟩ :
      ∃ s, exec step (init 64 fun _ _ => 0) threePackets = some s ∧
        ((s.tx .sn0).txPackets = 2 ∧ (s.tx .sn0).txDropped = 1 ∧ (s.tx .sn0).txBytes = 160 ∧
        (s.rx .sn1).rxPackets = 1 ∧ (s.rx .sn1).rxDropped = 1 ∧ (s.rx .sn1).rxBytes = 60 ∧
        (s.tx .sn1).txDropped = 1 ∧ s.pc .sn0 = .idle) := by
    apply exists_exec_of_any
    decide +kernel
  obtain ⟨hcons, hidle, -⟩ := snull_conserves ⟨threePackets, hrun⟩
  exact ⟨s, hrun, hfacts, hcons .sn0, (hidle .sn0 hfacts.2.2.2.2.2.2.2).2⟩

end LinuxSamples.Snull
