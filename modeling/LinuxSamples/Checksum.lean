import LinuxSamples.OnesComplement

/-!
The Internet checksum of `ping.c` and of `p21.2.c`, on a little-endian host.

Both functions add the 16-bit words of the buffer in an `int` and fold the carries in at the
end. Signed overflow has no defined result, so the accumulator is checked: the model has no
result where the addition leaves the range of `int`, and that it has one for the buffers of
a packet is part of what is proved.
-/

namespace LinuxSamples.Checksum

open LinuxSamples.OnesComplement

/-- `PACKET_SIZE` of `ping.c`. -/
def PACKET_SIZE : ℕ := 4096

/-- Addition of two `int`s. -/
def addInt (a b : ℤ) : Option ℤ :=
  if -2 ^ 31 ≤ a + b ∧ a + b < 2 ^ 31 then some (a + b) else none

/-- The `unsigned short` at an address, the low byte first. -/
def leWord (lo hi : UInt8) : ℕ := lo.toNat + 256 * hi.toNat

/-- The bytes of an `unsigned short`, the low byte first. -/
def leBytes (x : ℕ) : List UInt8 := [UInt8.ofNat (x % 256), UInt8.ofNat (x / 256)]

def htons (x : ℕ) : ℕ := x % 256 * 256 + x / 256

/-- The loop `while (nleft > 1)` and the addition of a last byte; `last` is what the byte
counts for. -/
def accumulate (last : UInt8 → ℕ) (sum : ℤ) : List UInt8 → Option ℤ
  | lo :: hi :: rest => (addInt sum (leWord lo hi)).bind fun sum => accumulate last sum rest
  | [b] => addInt sum (last b)
  | [] => some sum

/-- The two folding steps and the truncation of `~sum` to an `unsigned short`. -/
def finish (sum : ℤ) : Option ℕ :=
  (addInt (sum / 2 ^ 16) (sum % 2 ^ 16)).bind fun sum =>
    (addInt sum (sum / 2 ^ 16)).bind fun sum => some ((-sum - 1) % 2 ^ 16).toNat

/-- A byte is stored at the address of an `unsigned short`. -/
def storeLow (answer : ℕ) (b : UInt8) : ℕ := answer / 256 * 256 + b.toNat

/-- `cal_chksum` of `ping.c`; `answer` is zero when the last byte is stored in it. -/
def calChksum (addr : List UInt8) : Option ℕ := (accumulate (storeLow 0) 0 addr).bind finish

/-- `cal_cksum` of `p21.2.c`. -/
def calCksum (addr : List UInt8) (csum : ℕ) : Option ℕ :=
  (accumulate (fun b => htons (b.toNat * 2 ^ 8)) csum addr).bind finish

/-- The 16-bit words of a buffer, an odd last byte padded with a zero byte. -/
def words : List UInt8 → List ℕ
  | lo :: hi :: rest => leWord lo hi :: words rest
  | [b] => [leWord b 0]
  | [] => []

lemma leWord_lt (lo hi : UInt8) : leWord lo hi < 2 ^ 16 := by
  have h1 := lo.toNat_lt
  have h2 := hi.toNat_lt
  unfold leWord
  omega

lemma words_lt (l : List UInt8) : ∀ x ∈ words l, x < 2 ^ 16 := by
  fun_induction words l with
  | case1 lo hi rest ih =>
    intro x hx
    rcases List.mem_cons.mp hx with rfl | hx
    · exact leWord_lt lo hi
    · exact ih x hx
  | case2 b =>
    intro x hx
    obtain rfl := List.mem_singleton.mp hx
    exact leWord_lt b 0
  | case3 => simp

lemma sum_words_le (l : List UInt8) : (words l).sum ≤ 2 ^ 16 * l.length := by
  fun_induction words l with
  | case1 lo hi rest ih =>
    have := leWord_lt lo hi
    simp only [List.sum_cons, List.length_cons]
    omega
  | case2 b =>
    have := leWord_lt b 0
    simp only [List.sum_singleton, List.length_singleton]
    omega
  | case3 => simp

lemma words_append (a b : List UInt8) (h : a.length % 2 = 0) :
    words (a ++ b) = words a ++ words b := by
  fun_induction words a with
  | case1 lo hi rest ih =>
    simp only [List.length_cons] at h
    simp only [List.cons_append, words]
    rw [ih (by omega)]
  | case2 x => simp at h
  | case3 => rfl

lemma addInt_of_lt {a b : ℕ} (h : a + b < 2 ^ 31) : addInt a b = some ((a + b : ℕ) : ℤ) := by
  unfold addInt
  rw [if_pos (by omega)]
  rfl

lemma accumulate_eq {last : UInt8 → ℕ} (hlast : ∀ b, last b = leWord b 0) (l : List UInt8) {n : ℕ}
    (h : n + (words l).sum < 2 ^ 31) :
    accumulate last n l = some ((n + (words l).sum : ℕ) : ℤ) := by
  fun_induction words l generalizing n with
  | case1 lo hi rest ih =>
    rw [List.sum_cons] at h ⊢
    rw [accumulate, addInt_of_lt (by omega), Option.bind_some, ih (by omega), Nat.add_assoc]
  | case2 b =>
    rw [List.sum_singleton] at h ⊢
    rw [accumulate, hlast, addInt_of_lt h]
  | case3 => rfl

lemma finish_eq {n : ℕ} (h : n < 2 ^ 31) : finish n = some (complement 16 (reduce 16 n)) := by
  have hfold : addInt ((n : ℤ) / 2 ^ 16) ((n : ℤ) % 2 ^ 16) = some ((fold 16 n : ℕ) : ℤ) := by
    have hcast : ((n : ℤ) / 2 ^ 16) = ((n / 2 ^ 16 : ℕ) : ℤ) ∧
        ((n : ℤ) % 2 ^ 16) = ((n % 2 ^ 16 : ℕ) : ℤ) := by constructor <;> norm_num
    rw [hcast.1, hcast.2, addInt_of_lt (by omega)]
    rfl
  have hsmall : fold 16 n < 2 ^ 17 := by unfold fold; omega
  have hcarry : addInt (fold 16 n : ℕ) ((fold 16 n : ℕ) / 2 ^ 16) =
      some ((fold 16 n + fold 16 n / 2 ^ 16 : ℕ) : ℤ) := by
    have hcast : ((fold 16 n : ℕ) : ℤ) / 2 ^ 16 = ((fold 16 n / 2 ^ 16 : ℕ) : ℤ) := by norm_num
    rw [hcast, addInt_of_lt (by omega)]
  have htwice := fold_twice (w := 16) (n := n) (by omega)
  unfold finish
  rw [hfold, Option.bind_some, hcarry, Option.bind_some, ← htwice, complement, Option.some.injEq]
  omega

lemma calCksum_eq {buf : List UInt8} {csum : ℕ} (h : csum + (words buf).sum < 2 ^ 31) :
    calCksum buf csum = some (complement 16 (reduce 16 (csum + (words buf).sum))) := by
  have hlast : ∀ b : UInt8, htons (b.toNat * 2 ^ 8) = leWord b 0 := fun b => by
    simp only [htons, leWord, UInt8.toNat_zero]
    omega
  rw [calCksum, accumulate_eq hlast buf h, Option.bind_some, finish_eq h]

lemma calChksum_eq {buf : List UInt8} (h : (words buf).sum < 2 ^ 31) :
    calChksum buf = some (complement 16 (reduce 16 (words buf).sum)) := by
  have hlast : ∀ b, storeLow 0 b = leWord b 0 := fun b => by simp [storeLow, leWord]
  have hacc := accumulate_eq hlast buf (n := 0) (by omega)
  rw [Nat.cast_zero, Nat.zero_add] at hacc
  rw [calChksum, hacc, Option.bind_some, finish_eq h]

lemma sum_words_lt {buf : List UInt8} (h : buf.length ≤ PACKET_SIZE) :
    (words buf).sum ≤ 2 ^ 28 := by
  have := sum_words_le buf
  unfold PACKET_SIZE at h
  omega

lemma words_leBytes {x : ℕ} (h : x < 2 ^ 16) (post : List UInt8) :
    words (leBytes x ++ post) = x :: words post := by
  have hlo : (UInt8.ofNat (x % 256)).toNat = x % 256 := by simp
  have hhi : (UInt8.ofNat (x / 256)).toNat = x / 256 := by
    rw [UInt8.toNat_ofNat', Nat.mod_eq_of_lt (by omega)]
  simp only [leBytes, List.cons_append, List.nil_append, words, leWord, hlo, hhi]
  congr 1
  omega

lemma sum_words_field {pre : List UInt8} (post : List UInt8) (hpre : pre.length % 2 = 0) {x : ℕ}
    (hx : x < 2 ^ 16) :
    (words (pre ++ (leBytes x ++ post))).sum = (words (pre ++ (leBytes 0 ++ post))).sum + x := by
  rw [words_append _ _ hpre, words_append _ _ hpre, words_leBytes hx, words_leBytes (by omega)]
  simp only [List.sum_append, List.sum_cons]
  omega

lemma sum_words_eq_reduce (buf : List UInt8) : sum 16 (words buf) = reduce 16 (words buf).sum :=
  sum_eq_reduce (by omega) (words_lt buf)

lemma complement_lt (a : ℕ) : complement 16 a < 2 ^ 16 := by
  unfold complement
  omega

lemma calChksum_stored {pre post : List UInt8} (hpre : pre.length % 2 = 0)
    (hlen : (pre ++ (leBytes 0 ++ post)).length ≤ PACKET_SIZE) :
    calChksum (pre ++ (leBytes (complement 16 (reduce 16
      (words (pre ++ (leBytes 0 ++ post))).sum)) ++ post)) = some 0 := by
  have hsum := sum_words_field post hpre
    (complement_lt (reduce 16 (words (pre ++ (leBytes 0 ++ post))).sum))
  have hlt := sum_words_lt hlen
  have hc := complement_lt (reduce 16 (words (pre ++ (leBytes 0 ++ post))).sum)
  rw [calChksum_eq (by omega), hsum, reduce_add_complement (by omega)]
  rfl

/-- **The Internet checksum.** For buffers of at most 4096 bytes: `cal_chksum` runs without
overflow and returns the complement of the ones'-complement sum of the words; a packet in
whose zero field at an even offset the result is stored has checksum zero, and a packet with
another word sum has not; `cal_cksum` with `csum` zero agrees with `cal_chksum`; and the
checksum of a buffer can be continued from the complemented checksum of a part of even
length. -/
theorem internet_checksum :
    (∀ buf, buf.length ≤ PACKET_SIZE →
      calChksum buf = some (complement 16 (sum 16 (words buf)))) ∧
    (∀ pre post, pre.length % 2 = 0 → (pre ++ (leBytes 0 ++ post)).length ≤ PACKET_SIZE →
      ∃ c, calChksum (pre ++ (leBytes 0 ++ post)) = some c ∧
        calChksum (pre ++ (leBytes c ++ post)) = some 0 ∧
        ∀ buf, buf.length ≤ PACKET_SIZE →
          sum 16 (words buf) ≠ sum 16 (words (pre ++ (leBytes c ++ post))) →
          ∃ d, calChksum buf = some d ∧ d ≠ 0) ∧
    (∀ buf, buf.length ≤ PACKET_SIZE → calCksum buf 0 = calChksum buf) ∧
    (∀ a b, a.length % 2 = 0 → a.length ≤ PACKET_SIZE → b.length ≤ PACKET_SIZE →
      ∃ c r, calCksum a 0 = some c ∧ calCksum (a ++ b) 0 = some r ∧
        calCksum b (complement 16 c) = some r) := by
  refine ⟨fun buf hlen => ?_, fun pre post hpre hlen => ?_, fun buf hlen => ?_,
    fun a b heven ha hb => ?_⟩
  · have := sum_words_lt hlen
    rw [calChksum_eq (by omega), sum_words_eq_reduce]
  · have hlt := sum_words_lt hlen
    have hsum := sum_words_field post hpre
      (complement_lt (reduce 16 (words (pre ++ (leBytes 0 ++ post))).sum))
    refine ⟨_, calChksum_eq (by omega), calChksum_stored hpre hlen, fun buf hbuf hne => ?_⟩
    have hlt' := sum_words_lt hbuf
    refine ⟨_, calChksum_eq (by omega), fun h0 => hne ?_⟩
    rw [sum_words_eq_reduce, sum_words_eq_reduce, hsum, reduce_add_complement (by omega)]
    exact (complement_eq_zero_iff (reduce_lt (by omega) _)).mp h0
  · have := sum_words_lt hlen
    rw [calCksum_eq (by omega), calChksum_eq (by omega), Nat.zero_add]
  · have hla := sum_words_lt ha
    have hlb := sum_words_lt hb
    have hr := reduce_lt (w := 16) (by omega) (words a).sum
    have hab : (words (a ++ b)).sum = (words a).sum + (words b).sum := by
      rw [words_append a b heven, List.sum_append]
    refine ⟨_, _, calCksum_eq (by omega), calCksum_eq (by omega), ?_⟩
    rw [Nat.zero_add, complement_complement hr, calCksum_eq (by omega), reduce_reduce_add,
      Nat.zero_add, hab]

/-- An echo request of seven bytes: the last byte has no partner. -/
theorem internet_checksum_echo_request :
    ∃ c, calChksum ([8, 0] ++ (leBytes 0 ++ [0x34, 0x12, 1])) = some c ∧
      calChksum ([8, 0] ++ (leBytes c ++ [0x34, 0x12, 1])) = some 0 := by
  obtain ⟨c, hc, hzero, -⟩ := internet_checksum.2.1 [8, 0] [0x34, 0x12, 1] rfl (by decide)
  exact ⟨c, hc, hzero⟩

end LinuxSamples.Checksum
