import Mathlib.Data.Nat.Bitwise
import Mathlib.Tactic.Common

namespace Bits

def value : List Bool → ℕ
  | [] => 0
  | b :: bs => b.toNat + 2 * value bs

def bits (n w : ℕ) : List Bool := (List.range n).map w.testBit

theorem bits_succ (n w : ℕ) : bits (n + 1) w = w.testBit 0 :: bits n (w / 2) := by
  simp only [bits, List.range_succ_eq_map, List.map_cons, List.map_map]
  congr 1
  apply List.map_congr_left
  intro i _
  exact Nat.testBit_succ w i

theorem value_bits (n w : ℕ) : value (bits n w) = w % 2 ^ n := by
  induction n generalizing w with
  | zero => exact (Nat.mod_one w).symm
  | succ n ih =>
    have hbit : (w.testBit 0).toNat = w % 2 := by
      rw [Nat.testBit_zero]
      rcases Nat.mod_two_eq_zero_or_one w with h | h <;> simp [h]
    rw [bits_succ, value, ih, hbit, Nat.pow_succ', Nat.mod_mul]

theorem bits_value (bs : List Bool) : bits bs.length (value bs) = bs := by
  induction bs with
  | nil => rfl
  | cons b bs ih =>
    have hb := Bool.toNat_lt b
    have hhead : (value (b :: bs)).testBit 0 = b := by
      rw [Nat.testBit_zero, value, Nat.add_mul_mod_self_left]
      cases b <;> rfl
    have htail : value (b :: bs) / 2 = value bs := by
      rw [value]
      omega
    rw [List.length_cons, bits_succ, hhead, htail, ih]

theorem bits_xor (n v w : ℕ) :
    bits n (v ^^^ w) = List.zipWith (· ^^ ·) (bits n v) (bits n w) := by
  simp only [bits, List.zipWith_map, List.zipWith_self]
  apply List.map_congr_left
  intro i _
  exact Nat.testBit_xor v w i

theorem count_xor (xs ys : List Bool) (h : xs.length = ys.length) :
    (List.zipWith (· ^^ ·) xs ys).count true % 2 = (xs.count true + ys.count true) % 2 := by
  induction xs generalizing ys with
  | nil =>
    cases ys with
    | nil => rfl
    | cons y ys => cases h
  | cons x xs ih =>
    cases ys with
    | nil => cases h
    | cons y ys =>
      have htail := ih ys (Nat.succ.inj h)
      rw [List.zipWith_cons_cons]
      cases x <;> cases y <;> simp only [List.count_cons] <;> simp <;> omega

end Bits
