import LinuxSamples.Bytes
import LinuxSamples.Checksum
import LinuxSamples.LittleEndian

/-!
The echo requests of `ping.c` and the recognition of the replies to them.

The identifier of a request is the process id, cut to the 16 bits of the field, and a reply is
compared with the whole process id. So the replies to a process with a large id are never
recognised, and a small id takes the replies to the ids that end in the same 16 bits for its
own. A reply that is recognised leaves the function without a `return`: what the caller sees
is whatever the register of the result holds, which is an argument here.
-/

namespace LinuxSamples.Ping

open LinuxSamples.Bytes LinuxSamples.Checksum LinuxSamples.LittleEndian

def ICMP_ECHO : UInt8 := 8
def ICMP_ECHOREPLY : UInt8 := 0

def datalen : ℕ := 56

@[ext] structure Timeval where
  sec : ℤ
  usec : ℤ
  deriving DecidableEq, Repr

/-- The value of a `long` expression; an overflow has none. -/
def long (x : ℤ) : Option ℤ := if -2 ^ 63 ≤ x ∧ x < 2 ^ 63 then some x else none

def ushort (x : ℤ) : ℕ := (x % 2 ^ 16).toNat

def timevalBytes (t : Timeval) : List UInt8 := encodeInt t.sec ++ encodeInt t.usec

def timevalAt (m : ℕ → UInt8) (off : ℕ) : Timeval :=
  ⟨decodeInt (load m off 8), decodeInt (load m (off + 8) 8)⟩

/-- The header and the time in the packet, with the checksum still zero. -/
def packFields (pid packNo : ℤ) (now : Timeval) (sendpacket : ℕ → UInt8) : ℕ → UInt8 :=
  let icmp := store sendpacket 0 [ICMP_ECHO]
  let icmp := store icmp 1 [0]
  let icmp := store icmp 2 (leBytes 0)
  let icmp := store icmp 6 (leBytes (ushort packNo))
  let icmp := store icmp 4 (leBytes (ushort pid))
  store icmp 8 (timevalBytes now)

/-- `pack` at the time `now`: the size of the packet, and `sendpacket` with the packet in it. -/
def pack (pid packNo : ℤ) (now : Timeval) (sendpacket : ℕ → UInt8) :
    Option (ℕ × (ℕ → UInt8)) :=
  let packsize := 8 + datalen
  let icmp := packFields pid packNo now sendpacket
  (calChksum (load icmp 0 packsize)).map fun c => (packsize, store icmp 2 (leBytes c))

/-- The second half of `tv_sub`, behind the borrow. -/
def subSec (out inn : Timeval) : Option Timeval :=
  (long (out.sec - inn.sec)).map fun sec => ⟨sec, out.usec⟩

def tvSub (out inn : Timeval) : Option Timeval := do
  let usec ← long (out.usec - inn.usec)
  if usec < 0 then
    let sec ← long (out.sec - 1)
    let usec ← long (usec + 1000000)
    subSec ⟨sec, usec⟩ inn
  else subSec ⟨out.sec, usec⟩ inn

/-- The round trip in milliseconds; the division of C drops the fraction. -/
def rttOf (t : Timeval) : Option ℤ := do
  long ((← long (t.sec * 1000)) + t.usec.tdiv 1000)

/-- What is printed about a reply. -/
structure Line where
  len : ℤ
  icmpSeq : ℕ
  ttl : ℕ
  rtt : ℤ
  deriving DecidableEq, Repr

/-- What `unpack` returns, what it leaves in `tvrecv`, and what it prints about a reply. -/
structure Result where
  ret : ℤ
  tvrecv : Timeval
  line : Option Line
  deriving DecidableEq, Repr

/-- `unpack`. The branch of a reply has no `return`: `eax` is what the register of the result
holds at its end. -/
def unpack (pid : ℤ) (buf : ℕ → UInt8) (len : ℤ) (tvrecv : Timeval) (eax : ℤ) :
    Option Result :=
  let iphdrlen := (buf 0).toNat % 16 * 4
  let len := len - iphdrlen
  if len < 8 then some ⟨-1, tvrecv, none⟩
  else if buf iphdrlen = ICMP_ECHOREPLY ∧
      (leWord (buf (iphdrlen + 4)) (buf (iphdrlen + 5)) : ℤ) = pid then do
    let tvrecv ← tvSub tvrecv (timevalAt buf (iphdrlen + 8))
    let rtt ← rttOf tvrecv
    some ⟨eax, tvrecv, some ⟨len, leWord (buf (iphdrlen + 6)) (buf (iphdrlen + 7)),
      (buf 8).toNat, rtt⟩⟩
  else some ⟨-1, tvrecv, none⟩

/-! ### The network -/

abbrev Pid := { n : ℕ // 1 ≤ n ∧ n ≤ 4194304 }

/-- A time as `gettimeofday` reports it. -/
structure Stamp extends Timeval where
  sec_nonneg : 0 ≤ sec
  sec_lt : sec < 2 ^ 63
  usec_nonneg : 0 ≤ usec
  usec_lt : usec < 1000000

structure IpHeader where
  bytes : List UInt8
  length_ge : 20 ≤ bytes.length
  length_le : bytes.length ≤ 60
  hl : ∀ b ∈ bytes.head?, b.toNat % 16 * 4 = bytes.length

/-- The datagram that answers the packet in `sendpacket`, as `recvfrom` leaves it in
`recvpacket`. -/
def received (hdr : IpHeader) (packsize : ℕ) (sendpacket recvpacket : ℕ → UInt8) : ℕ → UInt8 :=
  store recvpacket 0
    (hdr.bytes ++ load (store sendpacket 0 [ICMP_ECHOREPLY]) 0 packsize)

def Timeval.micros (t : Timeval) : ℤ := t.sec * 1000000 + t.usec

/-- The normal form of a number of microseconds. -/
def normal (n : ℤ) : Timeval := ⟨n / 1000000, n % 1000000⟩

/-! ### Times -/

lemma long_of_bounds {x : ℤ} (hlow : -2 ^ 63 ≤ x) (hhigh : x < 2 ^ 63) : long x = some x :=
  if_pos ⟨hlow, hhigh⟩

lemma timevalAt_eq {m : ℕ → UInt8} {off : ℕ} {t : Timeval} (h : load m off 16 = timevalBytes t)
    (hsec : -2 ^ 63 ≤ t.sec ∧ t.sec < 2 ^ 63) (husec : -2 ^ 63 ≤ t.usec ∧ t.usec < 2 ^ 63) :
    timevalAt m off = t := by
  rw [load_add m off 8 8, timevalBytes] at h
  obtain ⟨hfirst, hsecond⟩ := List.append_inj h (by simp)
  rw [timevalAt, hfirst, hsecond, decodeInt_encodeInt hsec.1 hsec.2,
    decodeInt_encodeInt husec.1 husec.2]

lemma tvSub_eq (s r : Stamp) (h : s.micros ≤ r.micros) :
    tvSub r.toTimeval s.toTimeval = some (normal (r.micros - s.micros)) := by
  obtain ⟨⟨ssec, susec⟩, hs1, hs2, hs3, hs4⟩ := s
  obtain ⟨⟨rsec, rusec⟩, hr1, hr2, hr3, hr4⟩ := r
  simp only [Timeval.micros] at h hs1 hs2 hs3 hs4 hr1 hr2 hr3 hr4 ⊢
  simp only [tvSub, Option.bind_eq_bind, subSec]
  rw [long_of_bounds (by omega) (by omega), Option.bind_some]
  split
  · -- a second is borrowed
    rw [long_of_bounds (by omega) (by omega), Option.bind_some,
      long_of_bounds (by omega) (by omega), Option.bind_some,
      long_of_bounds (by omega) (by omega), Option.map_some, Option.some.injEq]
    ext <;> simp only [normal] <;> omega
  · rw [long_of_bounds (by omega) (by omega), Option.map_some, Option.some.injEq]
    ext <;> simp only [normal] <;> omega

lemma rttOf_normal {d : ℤ} (h : 0 ≤ d) : rttOf (normal d) = long (d / 1000) := by
  have hdiv : (d % 1000000).tdiv 1000 = d % 1000000 / 1000 :=
    Int.tdiv_eq_ediv_of_nonneg (by omega)
  have hsum : d / 1000000 * 1000 + d % 1000000 / 1000 = d / 1000 := by omega
  simp only [rttOf, normal, Option.bind_eq_bind, hdiv]
  by_cases hfits : d / 1000000 * 1000 < 2 ^ 63
  · rw [long_of_bounds (by omega) hfits, Option.bind_some, hsum]
  · rw [long, if_neg (by omega), long, if_neg (by omega), Option.bind_none]

/-! ### Packets -/

section Received

variable (hdr : IpHeader) (sendpacket recvpacket : ℕ → UInt8) {packsize : ℕ}

lemma IpHeader.head_eq : ∃ b, hdr.bytes[0]? = some b ∧ b.toNat % 16 * 4 = hdr.bytes.length := by
  have hpos := hdr.length_ge
  obtain ⟨b, bs, hb⟩ := List.exists_cons_of_length_pos (l := hdr.bytes) (by omega)
  exact ⟨b, by rw [hb]; rfl, hdr.hl b (by rw [hb]; rfl)⟩

lemma iphdrlen_received (packsize : ℕ) :
    (received hdr packsize sendpacket recvpacket 0).toNat % 16 * 4 = hdr.bytes.length := by
  obtain ⟨b, hb, hlen⟩ := hdr.head_eq
  have hpos := hdr.length_ge
  rw [received, store, if_pos le_rfl, Nat.sub_zero, List.getElem?_append_left (by omega), hb]
  exact hlen

lemma received_add {k : ℕ} (hk : k < packsize) :
    received hdr packsize sendpacket recvpacket (hdr.bytes.length + k) =
      store sendpacket 0 [ICMP_ECHOREPLY] k := by
  rw [received, store, if_pos (Nat.zero_le _), Nat.sub_zero,
    List.getElem?_append_right (by omega), Nat.add_sub_cancel_left, getElem?_load _ _ hk,
    Option.getD_some, Nat.zero_add]

lemma load_received {off n : ℕ} (h : off + n ≤ packsize) :
    load (received hdr packsize sendpacket recvpacket) (hdr.bytes.length + off) n =
      load (store sendpacket 0 [ICMP_ECHOREPLY]) off n := by
  refine List.map_congr_left fun i hi => ?_
  have := List.mem_range.mp hi
  rw [Nat.add_assoc, received_add hdr _ _ (by omega)]

end Received

lemma ushort_lt (x : ℤ) : ushort x < 2 ^ 16 := by
  unfold ushort
  omega

lemma leWord_leBytes {x : ℕ} (h : x < 2 ^ 16) :
    leWord (UInt8.ofNat (x % 256)) (UInt8.ofNat (x / 256)) = x := by
  have hword := words_leBytes h []
  exact (List.cons.inj hword).1

section Sent

variable (pid packNo : ℤ) (now : Timeval) (sendpacket : ℕ → UInt8)

lemma pack_eq : ∃ c, pack pid packNo now sendpacket =
    some (64, store (packFields pid packNo now sendpacket) 2 (leBytes c)) := by
  have hlen : (load (packFields pid packNo now sendpacket) 0 (8 + datalen)).length ≤
      PACKET_SIZE := by
    rw [length_load]
    decide
  have hsum := sum_words_lt hlen
  exact ⟨_, by rw [pack, calChksum_eq (by omega)]; rfl⟩

def reply (c : ℕ) : ℕ → UInt8 :=
  store (store (packFields pid packNo now sendpacket) 2 (leBytes c)) 0 [ICMP_ECHOREPLY]

variable (c : ℕ)

lemma reply_type : reply pid packNo now sendpacket c 0 = ICMP_ECHOREPLY := rfl

lemma reply_id : leWord (reply pid packNo now sendpacket c 4)
    (reply pid packNo now sendpacket c 5) = ushort pid := by
  rw [← leWord_leBytes (ushort_lt pid)]
  simp [reply, packFields, store, leBytes]

lemma reply_seq : leWord (reply pid packNo now sendpacket c 6)
    (reply pid packNo now sendpacket c 7) = ushort packNo := by
  rw [← leWord_leBytes (ushort_lt packNo)]
  simp [reply, packFields, store, leBytes]

lemma load_reply : load (reply pid packNo now sendpacket c) 8 16 = timevalBytes now := by
  have hlen : (timevalBytes now).length = 16 := by simp [timevalBytes]
  have hbehind : load (reply pid packNo now sendpacket c) 8 16 =
      load (packFields pid packNo now sendpacket) 8 16 := by
    refine load_congr fun i hi _ => ?_
    have hcksum : 2 + (leBytes c).length ≤ i := by
      simp only [leBytes, List.length_cons, List.length_nil]
      omega
    rw [reply, store_of_ge (show 0 + 1 ≤ i by omega), store_of_ge hcksum]
  rw [hbehind, packFields, ← hlen, load_store]

end Sent

/-- The milliseconds of the round trip are a `long`. -/
def Short (s r : Stamp) : Prop := (r.micros - s.micros) / 1000 < 2 ^ 63

/-- **What becomes of an echo reply**: the id that the packet carries is compared with the id of
the process. -/
lemma unpack_received (pid q : Pid) (packNo : ℤ) {s r : Stamp} (hsr : s.micros ≤ r.micros)
    (hdr : IpHeader) (sendpacket recvpacket : ℕ → UInt8) (eax : ℤ) :
    ∃ packsize sent, pack q packNo s.toTimeval sendpacket = some (packsize, sent) ∧
      unpack pid (received hdr packsize sent recvpacket) (hdr.bytes.length + packsize)
          r.toTimeval eax =
        if (q : ℕ) % 2 ^ 16 = pid then
          (long ((r.micros - s.micros) / 1000)).map fun rtt =>
            ⟨eax, normal (r.micros - s.micros), some ⟨packsize, ushort packNo,
              (received hdr packsize sent recvpacket 8).toNat, rtt⟩⟩
        else some ⟨-1, r.toTimeval, none⟩ := by
  obtain ⟨c, hpack⟩ := pack_eq (q : ℕ) packNo s.toTimeval sendpacket
  refine ⟨_, _, hpack, ?_⟩
  set sent := store (packFields (q : ℕ) packNo s.toTimeval sendpacket) 2 (leBytes c)
  have hcell (k : ℕ) (hk : k < 64) : received hdr 64 sent recvpacket (hdr.bytes.length + k) =
      reply (q : ℕ) packNo s.toTimeval sendpacket c k := received_add hdr _ _ hk
  have htime : timevalAt (received hdr 64 sent recvpacket) (hdr.bytes.length + 8) =
      s.toTimeval := by
    refine timevalAt_eq ?_ ⟨?_, s.sec_lt⟩ ⟨?_, ?_⟩
    · rw [load_received hdr _ _ (by omega)]
      exact load_reply _ _ _ _ c
    · have := s.sec_nonneg
      omega
    · have := s.usec_nonneg
      omega
    · have := s.usec_lt
      omega
  have hid : (ushort (q : ℕ) : ℤ) = pid ↔ (q : ℕ) % 2 ^ 16 = pid := by
    unfold ushort
    omega
  have hd : 0 ≤ r.micros - s.micros := by omega
  simp only [unpack, iphdrlen_received]
  rw [if_neg (by push_cast; omega), hcell 4 (by omega), hcell 5 (by omega), hcell 6 (by omega),
    hcell 7 (by omega), reply_id, reply_seq, htime, tvSub_eq s r hsr, Option.bind_eq_bind,
    Option.bind_some, rttOf_normal hd]
  have htype : received hdr 64 sent recvpacket hdr.bytes.length = ICMP_ECHOREPLY :=
    (hcell 0 (by omega)).trans (reply_type _ _ _ _ c)
  have hlen : ((hdr.bytes.length : ℤ) + (64 : ℕ)) - (hdr.bytes.length : ℕ) = (64 : ℕ) := by
    omega
  simp only [htype, true_and, hid, hlen]
  split
  · cases long ((r.micros - s.micros) / 1000) <;> rfl
  · rfl

/-! ### Own and foreign replies -/

/-- A value other than -1 is returned, and `tvrecv` is `d` microseconds in normal form. -/
def Recognised (o : Option Result) (d : ℤ) : Prop :=
  ∃ x, o = some x ∧ x.ret ≠ -1 ∧ x.tvrecv = normal d

def Refused (o : Option Result) : Prop := ∃ x, o = some x ∧ x.ret = -1

lemma long_eq_some_iff {x : ℤ} (h : 0 ≤ x) : (∃ y, long x = some y) ↔ x < 2 ^ 63 := by
  rw [long]
  split <;> simp <;> omega

section Answered

variable {o : Option ℤ} {line : ℤ → Option Line} {eax d : ℤ}

lemma recognised_map_iff : Recognised (o.map fun rtt => ⟨eax, normal d, line rtt⟩) d ↔
    (∃ y, o = some y) ∧ eax ≠ -1 := by
  cases o <;> simp [Recognised]

lemma refused_map_iff : Refused (o.map fun rtt => ⟨eax, normal d, line rtt⟩) ↔
    (∃ y, o = some y) ∧ eax = -1 := by
  cases o <;> simp [Refused]

end Answered

/-- **Which replies `ping` recognises.** A process recognises the replies to its own requests
exactly if its id fits into the identifier, the round trip can be printed, and the result that
is never set does not happen to be -1. It refuses a reply to another process exactly if the
identifier is not its own id, or the result happens to be -1. -/
theorem ping_replies_iff (pid q : Pid) (packNo : ℤ) {s r : Stamp} (hsr : s.micros ≤ r.micros)
    (hdr : IpHeader) (sendpacket recvpacket : ℕ → UInt8) (eax : ℤ) :
    ∃ packsize sent, pack q packNo s.toTimeval sendpacket = some (packsize, sent) ∧
      (q = pid →
        (Recognised (unpack pid (received hdr packsize sent recvpacket)
            (hdr.bytes.length + packsize) r.toTimeval eax) (r.micros - s.micros) ↔
          (pid : ℕ) < 2 ^ 16 ∧ Short s r ∧ eax ≠ -1)) ∧
      (q ≠ pid →
        (Refused (unpack pid (received hdr packsize sent recvpacket)
            (hdr.bytes.length + packsize) r.toTimeval eax) ↔
          (q : ℕ) % 2 ^ 16 ≠ pid ∨ Short s r ∧ eax = -1)) := by
  obtain ⟨packsize, sent, hpack, hunpack⟩ :=
    unpack_received pid q packNo hsr hdr sendpacket recvpacket eax
  have hshort : (∃ y, long ((r.micros - s.micros) / 1000) = some y) ↔ Short s r :=
    long_eq_some_iff (by omega)
  refine ⟨packsize, sent, hpack, fun hq => ?_, fun _ => ?_⟩ <;> rw [hunpack]
  · have hmod : (q : ℕ) % 2 ^ 16 = pid ↔ (pid : ℕ) < 2 ^ 16 := by
      rw [hq]
      omega
    by_cases hid : (q : ℕ) % 2 ^ 16 = pid
    · rw [if_pos hid, recognised_map_iff, hshort, and_iff_right (hmod.mp hid)]
    · rw [if_neg hid]
      refine iff_of_false ?_ fun h => hid (hmod.mpr h.1)
      rintro ⟨x, hx, hret, -⟩
      exact hret (Option.some.inj hx ▸ rfl)
  · by_cases hid : (q : ℕ) % 2 ^ 16 = pid
    · rw [if_pos hid, refused_map_iff, hshort, or_iff_right (not_not.mpr hid)]
    · rw [if_neg hid]
      exact iff_of_true ⟨_, rfl, rfl⟩ (Or.inl hid)

def plainHeader : IpHeader where
  bytes := 0x45 :: List.replicate 19 0
  length_ge := by decide
  length_le := by decide
  hl b hb := by
    obtain rfl := Option.some.inj hb
    rfl

def stampAt (usec : ℕ) (h : usec < 1000000) : Stamp where
  sec := 1700000000
  usec := usec
  sec_nonneg := by decide
  sec_lt := by decide
  usec_nonneg := Int.natCast_nonneg usec
  usec_lt := Int.ofNat_lt.mpr h

/-- The replies to process 65536 are refused by it, and those to process 65537 are taken by
process 1 for its own. -/
theorem ping_replies_mixed_up :
    (∃ packsize sent, pack 65536 1 (stampAt 0 (by decide)).toTimeval (fun _ => 0) =
        some (packsize, sent) ∧
      Refused (unpack 65536 (received plainHeader packsize sent fun _ => 0) (20 + packsize)
        (stampAt 900 (by decide)).toTimeval 57)) ∧
    ∃ packsize sent, pack 65537 1 (stampAt 0 (by decide)).toTimeval (fun _ => 0) =
        some (packsize, sent) ∧
      Recognised (unpack 1 (received plainHeader packsize sent fun _ => 0) (20 + packsize)
        (stampAt 900 (by decide)).toTimeval 57) 900 := by
  constructor
  · obtain ⟨packsize, sent, hpack, hunpack⟩ := unpack_received ⟨65536, by decide⟩
      ⟨65536, by decide⟩ 1 (s := stampAt 0 (by decide)) (r := stampAt 900 (by decide)) (by decide)
      plainHeader (fun _ => 0) (fun _ => 0) 57
    exact ⟨packsize, sent, hpack, _, hunpack, rfl⟩
  · obtain ⟨packsize, sent, hpack, hunpack⟩ := unpack_received ⟨1, by decide⟩
      ⟨65537, by decide⟩ 1 (s := stampAt 0 (by decide)) (r := stampAt 900 (by decide)) (by decide)
      plainHeader (fun _ => 0) (fun _ => 0) 57
    exact ⟨packsize, sent, hpack, _, hunpack, show (57 : ℤ) ≠ -1 by decide, rfl⟩

/-- A reply to process 1234, nine hundred microseconds later. -/
theorem ping_replies_iff_own :
    ∃ packsize sent, pack 1234 1 (stampAt 0 (by decide)).toTimeval (fun _ => 0) =
        some (packsize, sent) ∧
      Recognised (unpack 1234 (received plainHeader packsize sent fun _ => 0) (20 + packsize)
        (stampAt 900 (by decide)).toTimeval 57) 900 := by
  obtain ⟨packsize, sent, hpack, hown, -⟩ := ping_replies_iff ⟨1234, by decide⟩
    ⟨1234, by decide⟩ 1 (s := stampAt 0 (by decide)) (r := stampAt 900 (by decide)) (by decide)
    plainHeader (fun _ => 0) (fun _ => 0) 57
  exact ⟨packsize, sent, hpack, (hown rfl).mpr ⟨by decide, by unfold Short; decide, by decide⟩⟩

end LinuxSamples.Ping
