import DapProxy.Memory.Bits
import DapProxy.Target.Swd

namespace DapProxy.Target
open Bits

theorem bit_eq_testBit (v : UInt32) {i : ℕ} (h : i < 32) :
    (v >>> UInt32.ofNat i &&& 1 != 0) = v.toNat.testBit i := by
  have hi : (UInt32.ofNat i).toNat = i := by
    rw [UInt32.toNat_ofNat']
    omega
  have h1 : (1 : UInt32).toNat = 1 := rfl
  have h0 : (0 : UInt32).toNat = 0 := rfl
  have hbit : (v >>> UInt32.ofNat i &&& 1).toNat = v.toNat / 2 ^ i % 2 := by
    rw [UInt32.toNat_and, UInt32.toNat_shiftRight, hi, h1, Nat.and_one_is_mod,
      Nat.shiftRight_eq_div_pow, Nat.mod_eq_of_lt h]
  rw [Nat.testBit_eq_decide_div_mod_eq, ← hbit, bne, Bool.eq_iff_iff]
  simp only [Bool.not_eq_true', beq_eq_false_iff_ne, decide_eq_true_iff, ne_eq, ← UInt32.toNat_inj,
    h0]
  omega

theorem bitsOf_eq (v : UInt32) {n : ℕ} (h : n ≤ 32) : Io.bitsOf v n = bits n v.toNat := by
  apply List.map_congr_left
  intro i hi
  exact bit_eq_testBit v (Nat.lt_of_lt_of_le (List.mem_range.mp hi) h)

theorem length_bitsOf (v : UInt32) (n : ℕ) : (Io.bitsOf v n).length = n := by
  rw [Io.bitsOf, List.length_map, List.length_range]

theorem value_bitsOf (w : UInt32) : value (Io.bitsOf w 32) = w.toNat := by
  rw [bitsOf_eq w (Nat.le_refl _), value_bits, Nat.mod_eq_of_lt w.toNat_lt]

theorem bitsOf_xor (v w : UInt32) :
    Io.bitsOf (v ^^^ w) 32 = List.zipWith (· ^^ ·) (Io.bitsOf v 32) (Io.bitsOf w 32) := by
  have hle : 32 ≤ 32 := Nat.le_refl _
  rw [bitsOf_eq _ hle, bitsOf_eq _ hle, bitsOf_eq _ hle, UInt32.toNat_xor, bits_xor]

theorem countOnes_xor (v w : UInt32) :
    countOnes (v ^^^ w) % 2 = (countOnes v + countOnes w) % 2 := by
  rw [countOnes, bitsOf_xor]
  apply count_xor
  rw [length_bitsOf, length_bitsOf]

def gather : ℕ → List Bool → UInt32 → UInt32
  | _, [], value => value
  | i, bit :: rest, value =>
      gather (i + 1) rest (if bit then value ||| 1 <<< UInt32.ofNat i else value)

theorem toNat_gathered {i : ℕ} (h : i < 32) {v : UInt32} (hv : v.toNat < 2 ^ i) (bit : Bool) :
    (if bit then v ||| 1 <<< UInt32.ofNat i else v).toNat = v.toNat + 2 ^ i * bit.toNat := by
  cases bit with
  | false => rfl
  | true =>
    have hi : (UInt32.ofNat i).toNat = i := by
      rw [UInt32.toNat_ofNat']
      omega
    have h1 : (1 : UInt32).toNat = 1 := rfl
    have hpow : 2 ^ i < 2 ^ 32 := Nat.pow_lt_pow_right (by decide) h
    have hshift : ((1 : UInt32) <<< UInt32.ofNat i).toNat = 2 ^ i := by
      rw [UInt32.toNat_shiftLeft, hi, h1, Nat.mod_eq_of_lt h, Nat.one_shiftLeft,
        Nat.mod_eq_of_lt hpow]
    rw [if_pos rfl, UInt32.toNat_or, hshift, Nat.or_comm, Bool.toNat_true, Nat.add_comm]
    exact (Nat.two_pow_add_eq_or_of_lt hv 1).symm ▸ by rw [Nat.mul_one]

theorem toNat_gather (rest : List Bool) {i : ℕ} (h : i + rest.length ≤ 32) {v : UInt32}
    (hv : v.toNat < 2 ^ i) : (gather i rest v).toNat = v.toNat + 2 ^ i * value rest := by
  induction rest generalizing i v with
  | nil => rfl
  | cons bit rest ih =>
    have hi : i < 32 := by
      rw [List.length_cons] at h
      omega
    have hstep := toNat_gathered hi hv bit
    have hlt : (if bit then v ||| 1 <<< UInt32.ofNat i else v).toNat < 2 ^ (i + 1) := by
      have hb := Bool.toNat_lt bit
      rw [hstep, Nat.pow_succ]
      cases bit <;> simp only [Bool.toNat_false, Bool.toNat_true] <;> omega
    rw [gather, ih (by rw [List.length_cons] at h; omega) hlt, hstep, value, Nat.pow_succ,
      Nat.mul_add, Nat.add_assoc, Nat.mul_assoc]

theorem bitsOf_gather {bs : List Bool} (h : bs.length = 32) :
    Io.bitsOf (gather 0 bs 0) 32 = bs := by
  rw [bitsOf_eq _ (Nat.le_refl _), toNat_gather bs (by rw [h]) (by decide), UInt32.toNat_zero,
    Nat.zero_add, Nat.pow_zero, Nat.one_mul, ← h, bits_value]

theorem gather_bitsOf (w : UInt32) : gather 0 (Io.bitsOf w 32) 0 = w := by
  have hlen : 0 + (Io.bitsOf w 32).length ≤ 32 := by rw [length_bitsOf]
  apply UInt32.toNat_inj.mp
  rw [toNat_gather _ hlen (by decide), value_bitsOf, UInt32.toNat_zero, Nat.zero_add, Nat.pow_zero,
    Nat.one_mul]

end DapProxy.Target
