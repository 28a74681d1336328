import Mathlib.Data.Nat.Digits.Lemmas
import Mathlib.Tactic

/-!
Numbers in memory, the low byte first.

`encode w n` are the `w` bytes in which the number `n` is stored; what does not fit into them
is lost. Signed numbers are stored in two's complement.
-/

namespace LinuxSamples.LittleEndian

/-- The low `w` bytes of a number. -/
def encode (w n : ℕ) : List UInt8 := (List.range w).map fun i => UInt8.ofNat (n / 256 ^ i)

def decode (bs : List UInt8) : ℕ := Nat.ofDigits 256 (bs.map UInt8.toNat)

@[simp] lemma length_encode (w n : ℕ) : (encode w n).length = w := by
  simp [encode]

lemma decode_encode (w n : ℕ) : decode (encode w n) = n % 256 ^ w := by
  induction w with
  | zero => simp [encode, decode, Nat.mod_one]
  | succ w ih =>
    have hlast : encode (w + 1) n = encode w n ++ [UInt8.ofNat (n / 256 ^ w)] := by
      simp [encode, List.range_succ]
    rw [decode] at ih
    rw [hlast, decode, List.map_append, Nat.ofDigits_append, ih, List.length_map, length_encode,
      Nat.mod_pow_succ]
    simp

/-- A 64-bit number in two's complement. -/
def encodeInt (x : ℤ) : List UInt8 := encode 8 (BitVec.ofInt 64 x).toNat

def decodeInt (bs : List UInt8) : ℤ := (BitVec.ofNat 64 (decode bs)).toInt

@[simp] lemma length_encodeInt (x : ℤ) : (encodeInt x).length = 8 := length_encode _ _

lemma decodeInt_encodeInt {x : ℤ} (hlow : -2 ^ 63 ≤ x) (hhigh : x < 2 ^ 63) :
    decodeInt (encodeInt x) = x := by
  have hfits : (BitVec.ofInt 64 x).toNat % 256 ^ 8 = (BitVec.ofInt 64 x).toNat :=
    Nat.mod_eq_of_lt (BitVec.isLt _)
  rw [decodeInt, encodeInt, decode_encode, hfits, BitVec.ofNat_toNat, BitVec.setWidth_eq,
    BitVec.toInt_ofInt]
  exact Int.bmod_eq_of_le (by omega) (by omega)

end LinuxSamples.LittleEndian
