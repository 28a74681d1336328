import Mathlib.Tactic

/-!
The packet sniffer of `sniff.c`.

A packet is the list of the bytes captured of it, and reading behind them has no result. The
lengths of the headers and of the payload are taken from the packet, and none is compared with the
number of bytes captured. So the sniffer reads only what was captured exactly if the packet is as
long as it says. The dump of a payload, which is split into lines of sixteen bytes, is exact.
-/

namespace LinuxSamples.Sniffer

def SIZE_ETHERNET : ℕ := 14

def IPPROTO_IP : UInt8 := 0
def IPPROTO_ICMP : UInt8 := 1
def IPPROTO_TCP : UInt8 := 6
def IPPROTO_UDP : UInt8 := 17

abbrev Text := List Char

/-! ### The dump of a payload -/

/-- The format `%d`. -/
def decimal (n : ℕ) : Text := Nat.toDigits 10 n

/-- The format `%05d`. -/
def decimal5 (n : ℕ) : Text := List.replicate (5 - (decimal n).length) '0' ++ decimal n

/-- The format `%02x`. -/
def hex2 (b : UInt8) : Text := [Nat.digitChar (b.toNat / 16), Nat.digitChar (b.toNat % 16)]

def isprint (b : UInt8) : Bool := 0x20 ≤ b ∧ b ≤ 0x7e

/-- What is printed for byte `i` of a line in hexadecimal; there is a space behind the eighth. -/
def hexByte (i : ℕ) (b : UInt8) : Text := hex2 b ++ [' '] ++ if i = 7 then [' '] else []

def asciiByte (_ : ℕ) (b : UInt8) : Text := if isprint b then [Char.ofNat b.toNat] else ['.']

/-- A loop over the `len` bytes from `ch` on, with the index from `i` on. -/
def column (f : ℕ → UInt8 → Text) (packet : List UInt8) (ch : ℕ) : (len i : ℕ) → Option Text
  | 0, _ => some []
  | len + 1, i => do
    let b ← packet[ch]?
    let rest ← column f packet (ch + 1) len (i + 1)
    return f i b ++ rest

/-- The spaces behind a line that is not full. -/
def gap (len : ℕ) : Text :=
  (if len < 8 then [' '] else []) ++
    if len < 16 then (List.replicate (16 - len) "   ".toList).flatten else []

def printHexAsciiLine (packet : List UInt8) (payload len offset : ℕ) : Option Text := do
  let hex ← column hexByte packet payload len 0
  let ascii ← column asciiByte packet payload len 0
  return decimal5 offset ++ "   ".toList ++ hex ++ gap len ++ "   ".toList ++ ascii ++ ['\n']

/-- The loop of `print_payload`. It is entered with more than a line to print, and so is every
turn of it. -/
def printLoop (packet : List UInt8) (ch lenRem offset : ℕ) (_h : 16 < lenRem) : Option Text := do
  let lineLen := 16 % lenRem
  let line ← printHexAsciiLine packet ch lineLen offset
  if hlast : lenRem - lineLen ≤ 16 then
    let last ← printHexAsciiLine packet (ch + lineLen) (lenRem - lineLen) (offset + 16)
    return line ++ last
  else
    let rest ← printLoop packet (ch + lineLen) (lenRem - lineLen) (offset + 16) (by omega)
    return line ++ rest
termination_by lenRem
decreasing_by
  have hline : 16 % lenRem = 16 := Nat.mod_eq_of_lt _h
  omega

def printPayload (packet : List UInt8) (payload : ℕ) (len : ℤ) : Option Text :=
  if len ≤ 0 then some []
  else if hone : len ≤ 16 then printHexAsciiLine packet payload len.toNat 0
  else printLoop packet payload len.toNat 0 (by omega)

/-! ### A packet -/

/-- `inet_ntoa` of the address at `off`. -/
def inetNtoa (packet : List UInt8) (off : ℕ) : Option Text := do
  let a ← packet[off]?
  let b ← packet[off + 1]?
  let c ← packet[off + 2]?
  let d ← packet[off + 3]?
  return decimal a.toNat ++ ['.'] ++ decimal b.toNat ++ ['.'] ++ decimal c.toNat ++ ['.'] ++
    decimal d.toNat

/-- `ntohs` of the number at `off`. -/
def ntohsAt (packet : List UInt8) (off : ℕ) : Option ℕ := do
  let hi ← packet[off]?
  let lo ← packet[off + 1]?
  return 256 * hi.toNat + lo.toNat

/-- `IP_HL(ip)*4` -/
def sizeIp (vhl : UInt8) : ℕ := vhl.toNat % 16 * 4

/-- `TH_OFF(tcp)*4` -/
def sizeTcp (offx2 : UInt8) : ℕ := offx2.toNat / 16 * 4

def gotPayload (packet : List UInt8) (payload : ℕ) (sizePayload : ℤ) : Option Text :=
  if sizePayload > 0 then
    (printPayload packet payload sizePayload).map fun dump =>
      "   Payload (".toList ++ decimal sizePayload.toNat ++ " bytes):\n".toList ++ dump
  else some []

/-- `got_packet` behind the protocol, for a packet whose IP header has the size `size`. -/
def gotTcp (packet : List UInt8) (size : ℕ) : Option Text := do
  let tcp := SIZE_ETHERNET + size
  let sizeTcp := sizeTcp (← packet[tcp + 12]?)
  if sizeTcp < 20 then
    return "   * Invalid TCP header length: ".toList ++ decimal sizeTcp ++ " bytes\n".toList
  else
    let sport ← ntohsAt packet tcp
    let dport ← ntohsAt packet (tcp + 2)
    let len ← ntohsAt packet (SIZE_ETHERNET + 2)
    let rest ← gotPayload packet (tcp + sizeTcp) ((len : ℤ) - (size + sizeTcp : ℕ))
    return "   Src port: ".toList ++ decimal sport ++ "\n   Dst port: ".toList ++ decimal dport ++
      ['\n'] ++ rest

def gotProtocol (packet : List UInt8) (size : ℕ) (proto : UInt8) : Option Text :=
  if proto = IPPROTO_TCP then (gotTcp packet size).map ("   Protocol: TCP\n".toList ++ ·)
  else if proto = IPPROTO_UDP then some "   Protocol: UDP\n".toList
  else if proto = IPPROTO_ICMP then some "   Protocol: ICMP\n".toList
  else if proto = IPPROTO_IP then some "   Protocol: IP\n".toList
  else some "   Protocol: unknown\n".toList

/-- `got_packet`, for the packet with the number `count`. -/
def gotPacket (count : ℕ) (packet : List UInt8) : Option Text := do
  let title := "\nPacket number ".toList ++ decimal count ++ ":\n".toList
  let size := sizeIp (← packet[SIZE_ETHERNET]?)
  if size < 20 then
    return title ++ "   * Invalid IP header length: ".toList ++ decimal size ++
      " bytes\n".toList
  else
    let src ← inetNtoa packet (SIZE_ETHERNET + 12)
    let dst ← inetNtoa packet (SIZE_ETHERNET + 16)
    let rest ← gotProtocol packet size (← packet[SIZE_ETHERNET + 9]?)
    return title ++ "       From: ".toList ++ src ++ "\n         To: ".toList ++ dst ++ ['\n'] ++
      rest

/-! ### The lines of a dump -/

/-- What a column says about the bytes of a line. -/
def columnText (f : ℕ → UInt8 → Text) (bs : List UInt8) : Text := (bs.mapIdx f).flatten

/-- The line for the bytes `bs` at an offset. -/
def lineText (offset : ℕ) (bs : List UInt8) : Text :=
  decimal5 offset ++ "   ".toList ++ columnText hexByte bs ++ gap bs.length ++ "   ".toList ++
    columnText asciiByte bs ++ ['\n']

/-- The lines into which a payload is split, with their offsets. -/
def pieces (bs : List UInt8) : List (ℕ × List UInt8) :=
  (List.range ((bs.length + 15) / 16)).map fun k => (16 * k, (bs.drop (16 * k)).take 16)

/-- The dump of a payload whose first byte has the offset `base`. -/
def dumpText (base : ℕ) (bs : List UInt8) : Text :=
  (pieces bs).flatMap fun p => lineText (base + p.1) p.2

lemma take_drop_cons {packet : List UInt8} {ch : ℕ} (h : ch < packet.length) (len : ℕ) :
    (packet.drop ch).take (len + 1) = packet[ch] :: (packet.drop (ch + 1)).take len := by
  rw [List.drop_eq_getElem_cons h, List.take_succ_cons]

section Column

variable {packet : List UInt8} {ch len : ℕ}

lemma column_of_le (f : ℕ → UInt8 → Text) (h : ch + len ≤ packet.length) (i : ℕ) :
    column f packet ch len i =
      some (columnText (fun j => f (i + j)) ((packet.drop ch).take len)) := by
  induction len generalizing ch i with
  | zero => simp [column, columnText]
  | succ len ih =>
    have hch : ch < packet.length := by omega
    rw [column, ih (by omega), List.getElem?_eq_getElem hch, take_drop_cons hch]
    simp only [columnText, List.mapIdx_cons, List.flatten_cons, Nat.add_zero, Nat.add_assoc,
      Nat.add_comm 1]
    rfl

lemma column_eq_none (f : ℕ → UInt8 → Text) (hlen : 0 < len) (h : packet.length < ch + len)
    (i : ℕ) : column f packet ch len i = none := by
  induction len generalizing ch i with
  | zero => omega
  | succ len ih =>
    rw [column]
    by_cases hch : ch < packet.length
    · rw [ih (by omega) (by omega)]
      cases packet[ch]? <;> rfl
    · rw [List.getElem?_eq_none (by omega)]
      rfl

lemma printHexAsciiLine_of_le (h : ch + len ≤ packet.length) (offset : ℕ) :
    printHexAsciiLine packet ch len offset =
      some (lineText offset ((packet.drop ch).take len)) := by
  have hlen : ((packet.drop ch).take len).length = len := by
    rw [List.length_take, List.length_drop]
    omega
  rw [printHexAsciiLine, column_of_le _ h, column_of_le _ h, lineText, hlen]
  simp only [Nat.zero_add]
  rfl

lemma printHexAsciiLine_eq_none (hlen : 0 < len) (h : packet.length < ch + len) (offset : ℕ) :
    printHexAsciiLine packet ch len offset = none := by
  rw [printHexAsciiLine, column_eq_none _ hlen h]
  rfl

end Column

lemma printLoop_step (packet : List UInt8) (ch lenRem offset : ℕ) (h : 16 < lenRem) :
    printLoop packet ch lenRem offset h =
      (printHexAsciiLine packet ch 16 offset).bind fun line =>
        ((if hlast : lenRem - 16 ≤ 16 then
            printHexAsciiLine packet (ch + 16) (lenRem - 16) (offset + 16)
          else printLoop packet (ch + 16) (lenRem - 16) (offset + 16) (by omega)).map
            (line ++ ·)) := by
  have hline : 16 % lenRem = 16 := Nat.mod_eq_of_lt h
  rw [printLoop]
  simp only [hline]
  cases printHexAsciiLine packet ch 16 offset with
  | none => rfl
  | some line =>
    simp only [Option.bind_eq_bind, Option.bind_some]
    split
    · cases printHexAsciiLine packet (ch + 16) (lenRem - 16) (offset + 16) <;> rfl
    · cases printLoop packet (ch + 16) (lenRem - 16) (offset + 16) (by omega) <;> rfl

lemma pieces_cons {bs : List UInt8} (h : bs ≠ []) :
    pieces bs = (0, bs.take 16) :: (pieces (bs.drop 16)).map fun p => (16 + p.1, p.2) := by
  have hpos := List.length_pos_iff.mpr h
  have hcount : (bs.length + 15) / 16 = ((bs.drop 16).length + 15) / 16 + 1 := by
    rw [List.length_drop]
    omega
  rw [pieces, pieces, hcount, List.range_succ_eq_map, List.map_cons, List.map_map, List.map_map]
  congr 1
  refine List.map_congr_left fun k _ => ?_
  have hk : 16 * k.succ = 16 + 16 * k := by omega
  simp only [Function.comp_apply, List.drop_drop, hk]

lemma dumpText_cons (base : ℕ) {bs : List UInt8} (h : bs ≠ []) :
    dumpText base bs = lineText base (bs.take 16) ++ dumpText (base + 16) (bs.drop 16) := by
  rw [dumpText, pieces_cons h, List.flatMap_cons, List.flatMap_map, dumpText]
  simp only [Nat.add_zero, Nat.add_assoc]

lemma dumpText_short (base : ℕ) {bs : List UInt8} (h : bs ≠ []) (hlen : bs.length ≤ 16) :
    dumpText base bs = lineText base bs := by
  rw [dumpText_cons base h, List.take_of_length_le hlen, List.drop_eq_nil_of_le hlen]
  simp [dumpText, pieces]

lemma printLoop_of_le {packet : List UInt8} {ch lenRem : ℕ} (offset : ℕ) (h : 16 < lenRem)
    (hle : ch + lenRem ≤ packet.length) :
    printLoop packet ch lenRem offset h =
      some (dumpText offset ((packet.drop ch).take lenRem)) := by
  induction lenRem using Nat.strong_induction_on generalizing ch offset with
  | _ lenRem ih =>
    have hlen : ((packet.drop ch).take lenRem).length = lenRem := by
      rw [List.length_take, List.length_drop]
      omega
    have hne : (packet.drop ch).take lenRem ≠ [] := List.ne_nil_of_length_pos (by omega)
    have htake : ((packet.drop ch).take lenRem).take 16 = (packet.drop ch).take 16 := by
      rw [List.take_take, min_eq_left h.le]
    have hdrop : ((packet.drop ch).take lenRem).drop 16 =
        (packet.drop (ch + 16)).take (lenRem - 16) := by
      rw [List.drop_take, List.drop_drop]
    rw [printLoop_step, printHexAsciiLine_of_le (by omega), Option.bind_some,
      dumpText_cons offset hne, htake, hdrop]
    split
    · next hlast =>
      have hlen' : ((packet.drop (ch + 16)).take (lenRem - 16)).length = lenRem - 16 := by
        rw [List.length_take, List.length_drop]
        omega
      rw [printHexAsciiLine_of_le (by omega),
        dumpText_short _ (List.ne_nil_of_length_pos (by omega)) (by omega)]
      rfl
    · rw [ih (lenRem - 16) (by omega) _ (by omega) (by omega)]
      rfl

lemma printLoop_eq_none {packet : List UInt8} {ch lenRem : ℕ} (offset : ℕ) (h : 16 < lenRem)
    (hlt : packet.length < ch + lenRem) : printLoop packet ch lenRem offset h = none := by
  induction lenRem using Nat.strong_induction_on generalizing ch offset with
  | _ lenRem ih =>
    have hrest : (if hlast : lenRem - 16 ≤ 16 then
        printHexAsciiLine packet (ch + 16) (lenRem - 16) (offset + 16)
      else printLoop packet (ch + 16) (lenRem - 16) (offset + 16) (by omega)) = none := by
      split
      · exact printHexAsciiLine_eq_none (by omega) (by omega) _
      · exact ih (lenRem - 16) (by omega) _ (by omega) (by omega)
    rw [printLoop_step, hrest]
    cases printHexAsciiLine packet ch 16 offset <;> rfl

lemma printPayload_eq (packet : List UInt8) (payload : ℕ) {len : ℤ} (h : 0 < len) :
    printPayload packet payload len =
      if payload + len ≤ packet.length then
        some (dumpText 0 ((packet.drop payload).take len.toNat))
      else none := by
  rw [printPayload, if_neg (by omega)]
  split
  · next hone =>
    split
    · next hle =>
      have hlen : ((packet.drop payload).take len.toNat).length = len.toNat := by
        rw [List.length_take, List.length_drop]
        omega
      rw [printHexAsciiLine_of_le (by omega),
        dumpText_short _ (List.ne_nil_of_length_pos (by omega)) (by omega)]
    · exact printHexAsciiLine_eq_none (by omega) (by omega) _
  · split
    · exact printLoop_of_le _ _ (by omega)
    · exact printLoop_eq_none _ _ (by omega)

/-- The lines hold the bytes in order, each once, at most sixteen in a line, and the offset of a
line is the number of bytes before it. -/
lemma pieces_spec (bs : List UInt8) :
    (pieces bs).flatMap Prod.snd = bs ∧
      (∀ p ∈ pieces bs, p.2.length ≤ 16) ∧ ∀ k p, (pieces bs)[k]? = some p → p.1 = 16 * k := by
  refine ⟨?_, fun p hp => ?_, fun k p hp => ?_⟩
  · induction hn : bs.length using Nat.strong_induction_on generalizing bs with
    | _ n ih =>
      by_cases hbs : bs = []
      · simp [hbs, pieces]
      · have hpos := List.length_pos_iff.mpr hbs
        have hlen : (bs.drop 16).length < n := by
          rw [List.length_drop]
          omega
        rw [pieces_cons hbs, List.flatMap_cons, List.flatMap_map, ih _ hlen _ rfl,
          List.take_append_drop]
  · obtain ⟨k, -, rfl⟩ := List.mem_map.mp hp
    exact List.length_take_le _ _
  · rw [pieces, List.getElem?_map] at hp
    obtain ⟨j, hj, rfl⟩ := Option.map_eq_some_iff.mp hp
    obtain ⟨hlt, rfl⟩ := List.getElem?_eq_some_iff.mp hj
    rw [List.getElem_range]

/-! ### What is read of a packet -/

def byteAt (packet : List UInt8) (i : ℕ) : UInt8 := packet[i]?.getD 0

/-- The size of the IP header, as the packet says. -/
def ipSize (packet : List UInt8) : ℕ := sizeIp (byteAt packet 14)

def tcpSize (packet : List UInt8) : ℕ := sizeTcp (byteAt packet (14 + ipSize packet + 12))

def ipLen (packet : List UInt8) : ℕ :=
  256 * (byteAt packet 16).toNat + (byteAt packet 17).toNat

/-- The packet has an IP header of a valid size and holds a TCP segment. -/
def IsTcp (packet : List UInt8) : Prop :=
  20 ≤ ipSize packet ∧ byteAt packet 23 = IPPROTO_TCP

/-- **All that the sniffer looks at has been captured**: the size of the IP header, the addresses,
the header of a TCP segment up to its size, and its payload. -/
structure Captured (packet : List UInt8) : Prop where
  size : 15 ≤ packet.length
  addresses : 20 ≤ ipSize packet → 34 ≤ packet.length
  tcp : IsTcp packet → 14 + ipSize packet + 13 ≤ packet.length
  payload : IsTcp packet → 20 ≤ tcpSize packet → ipSize packet + tcpSize packet < ipLen packet →
    14 + ipLen packet ≤ packet.length

section Captured

variable {packet : List UInt8}

lemma getElem?_eq_byteAt {i : ℕ} (h : i < packet.length) :
    packet[i]? = some (byteAt packet i) := by
  rw [byteAt, List.getElem?_eq_getElem h, Option.getD_some]

lemma inetNtoa_isSome_iff (off : ℕ) :
    (inetNtoa packet off).isSome ↔ off + 4 ≤ packet.length := by
  rw [inetNtoa]
  by_cases h : off + 4 ≤ packet.length
  · simp [h, getElem?_eq_byteAt (show off < packet.length by omega),
      getElem?_eq_byteAt (show off + 1 < packet.length by omega),
      getElem?_eq_byteAt (show off + 2 < packet.length by omega),
      getElem?_eq_byteAt (show off + 3 < packet.length by omega)]
  · have hnone : packet[off + 3]? = none := List.getElem?_eq_none (by omega)
    rw [hnone]
    cases packet[off]? <;> cases packet[off + 1]? <;> cases packet[off + 2]? <;> simp [h]

lemma ntohsAt_of_le {off : ℕ} (h : off + 2 ≤ packet.length) :
    ntohsAt packet off =
      some (256 * (byteAt packet off).toNat + (byteAt packet (off + 1)).toNat) := by
  rw [ntohsAt, getElem?_eq_byteAt (by omega), getElem?_eq_byteAt (by omega)]
  rfl

lemma gotPayload_isSome_iff (payload : ℕ) (size : ℤ) :
    (gotPayload packet payload size).isSome ↔ (0 < size → payload + size ≤ packet.length) := by
  rw [gotPayload]
  split
  · next hpos =>
    rw [Option.isSome_map, printPayload_eq packet payload hpos]
    split <;> simp_all
  · next hpos =>
    simp [hpos]

lemma gotTcp_isSome_iff (h : 34 ≤ packet.length) :
    (gotTcp packet (ipSize packet)).isSome ↔ 14 + ipSize packet + 13 ≤ packet.length ∧
      (20 ≤ tcpSize packet → ipSize packet + tcpSize packet < ipLen packet →
        14 + ipLen packet ≤ packet.length) := by
  simp only [gotTcp, SIZE_ETHERNET, Option.bind_eq_bind]
  by_cases htcp : 14 + ipSize packet + 13 ≤ packet.length
  · rw [getElem?_eq_byteAt (show 14 + ipSize packet + 12 < packet.length by omega),
      Option.bind_some, and_iff_right htcp, ← tcpSize]
    by_cases hsize : tcpSize packet < 20
    · rw [if_pos hsize]
      simp only [hsize.not_ge, false_imp_iff, iff_true]
      rfl
    · have hlen : ntohsAt packet 16 = some (ipLen packet) := ntohsAt_of_le (by omega)
      rw [if_neg hsize, ntohsAt_of_le (by omega), Option.bind_some, ntohsAt_of_le (by omega),
        Option.bind_some, hlen, Option.bind_some]
      have hend : (gotPayload packet (14 + ipSize packet + tcpSize packet)
          ((ipLen packet : ℤ) - (ipSize packet + tcpSize packet : ℕ))).isSome ↔
          (ipSize packet + tcpSize packet < ipLen packet → 14 + ipLen packet ≤ packet.length) := by
        rw [gotPayload_isSome_iff]
        omega
      rw [Nat.not_lt] at hsize
      rw [imp_iff_right hsize, ← hend]
      cases gotPayload packet (14 + ipSize packet + tcpSize packet)
        ((ipLen packet : ℤ) - (ipSize packet + tcpSize packet : ℕ)) <;> simp
  · rw [List.getElem?_eq_none (by omega)]
    exact iff_of_false Bool.false_ne_true fun h => htcp h.1

lemma gotProtocol_isSome_iff (h : 34 ≤ packet.length) (proto : UInt8) :
    (gotProtocol packet (ipSize packet) proto).isSome ↔
      (proto = IPPROTO_TCP → 14 + ipSize packet + 13 ≤ packet.length ∧
        (20 ≤ tcpSize packet → ipSize packet + tcpSize packet < ipLen packet →
          14 + ipLen packet ≤ packet.length)) := by
  rw [← gotTcp_isSome_iff h, gotProtocol]
  by_cases htcp : proto = IPPROTO_TCP
  · simp [htcp]
  · rw [if_neg htcp]
    split_ifs <;> simp [htcp]

lemma gotPacket_isSome_iff (count : ℕ) :
    (gotPacket count packet).isSome ↔ Captured packet := by
  simp only [gotPacket, SIZE_ETHERNET, Option.bind_eq_bind]
  by_cases hsize : 15 ≤ packet.length
  · rw [getElem?_eq_byteAt (show 14 < packet.length by omega), Option.bind_some, ← ipSize]
    by_cases hip : ipSize packet < 20
    · rw [if_pos hip]
      refine iff_of_true rfl ⟨hsize, ?_, ?_, ?_⟩ <;> intro h
      · omega
      · exact absurd h.1 (by omega)
      · exact absurd h.1 (by omega)
    · rw [if_neg hip]
      have hsrc : (inetNtoa packet (14 + 12)).isSome ↔ _ := inetNtoa_isSome_iff (14 + 12)
      have hdst : (inetNtoa packet (14 + 16)).isSome ↔ _ := inetNtoa_isSome_iff (14 + 16)
      by_cases haddr : 34 ≤ packet.length
      · obtain ⟨src, hsrc⟩ := Option.isSome_iff_exists.mp (hsrc.mpr (by omega))
        obtain ⟨dst, hdst⟩ := Option.isSome_iff_exists.mp (hdst.mpr (by omega))
        have hrest := gotProtocol_isSome_iff haddr (byteAt packet 23)
        rw [hsrc, hdst, getElem?_eq_byteAt (show 14 + 9 < packet.length by omega)]
        have hiff : Captured packet ↔
            (gotProtocol packet (ipSize packet) (byteAt packet 23)).isSome := by
          rw [hrest]
          constructor
          · intro h hproto
            have htcp : IsTcp packet := ⟨by omega, hproto⟩
            exact ⟨h.tcp htcp, h.payload htcp⟩
          · intro h
            exact ⟨hsize, fun _ => haddr, fun htcp => (h htcp.2).1, fun htcp => (h htcp.2).2⟩
        rw [hiff]
        simp only [Option.bind_some]
        cases gotProtocol packet (ipSize packet) (byteAt packet 23) <;> simp
      · have hnone : inetNtoa packet (14 + 16) = none :=
          Option.not_isSome_iff_eq_none.mp (mt hdst.mp (by omega))
        rw [hnone]
        refine iff_of_false ?_ fun h => haddr (h.addresses (by omega))
        cases inetNtoa packet (14 + 12) <;> simp
  · rw [List.getElem?_eq_none (by omega)]
    exact iff_of_false Bool.false_ne_true fun h => hsize h.size

end Captured

/-- **What the sniffer reads and prints.** It reads only captured bytes exactly if the packet is as
long as it says. The dump of `len` bytes that are there ends for every `len` and prints the bytes in
order, each once, in lines of at most sixteen with the right offsets. -/
theorem sniffer_iff (count : ℕ) (packet : List UInt8) :
    ((gotPacket count packet).isSome ↔ Captured packet) ∧
    ∀ (payload : ℕ) (len : ℤ),
      (len ≤ 0 → printPayload packet payload len = some []) ∧
      (0 < len → payload + len ≤ packet.length →
        printPayload packet payload len =
            some ((pieces ((packet.drop payload).take len.toNat)).flatMap fun p =>
              lineText p.1 p.2) ∧
          (pieces ((packet.drop payload).take len.toNat)).flatMap Prod.snd =
            (packet.drop payload).take len.toNat ∧
          (∀ p ∈ pieces ((packet.drop payload).take len.toNat), p.2.length ≤ 16) ∧
          ∀ k p, (pieces ((packet.drop payload).take len.toNat))[k]? = some p →
            p.1 = 16 * k) := by
  refine ⟨gotPacket_isSome_iff count, fun payload len => ⟨fun hlen => ?_, fun hlen hle => ?_⟩⟩
  · rw [printPayload, if_pos hlen]
  · refine ⟨?_, pieces_spec _⟩
    rw [printPayload_eq packet payload hlen, if_pos hle, dumpText]
    simp only [Nat.zero_add]

/-- The headers of a TCP segment, with the total length `len` in them. -/
def segment (len : UInt8) : List UInt8 :=
  List.replicate 14 0 ++ [0x45, 0, 0, len, 0, 0, 0, 0, 64, 6, 0, 0, 10, 0, 0, 1, 10, 0, 0, 2] ++
    [0x1f, 0x90, 0x00, 0x50, 0, 0, 0, 0, 0, 0, 0, 0, 0x50, 0x18, 0, 0, 0, 0, 0, 0]

/-- Of a packet of fourteen bytes the byte behind it is read, and of one that announces a payload
of one byte and does not have it, too. -/
theorem sniffer_reads_behind :
    gotPacket 1 (List.replicate 14 0) = none ∧ gotPacket 1 (segment 41) = none := by
  decide +kernel

theorem sniffer_iff_segment : (gotPacket 1 (segment 41 ++ [0x41])).isSome :=
  (sniffer_iff 1 _).1.mpr ⟨by decide, by decide, fun _ => by decide, fun _ _ => by decide⟩

end LinuxSamples.Sniffer
