import Mathlib.Data.UInt
import Mathlib.Tactic.Common

namespace Words

def beWord (b0 b1 b2 b3 : UInt8) : UInt32 :=
  b0.toUInt32 <<< 24 ||| b1.toUInt32 <<< 16 ||| b2.toUInt32 <<< 8 ||| b3.toUInt32

def beBytes (v : UInt32) : List UInt8 :=
  [(v >>> 24).toUInt8, (v >>> 16).toUInt8, (v >>> 8).toUInt8, v.toUInt8]

def beHalf (b0 b1 : UInt8) : UInt16 := b0.toUInt16 <<< 8 ||| b1.toUInt16

def beHalfBytes (v : UInt16) : List UInt8 := [(v >>> 8).toUInt8, v.toUInt8]

theorem length_beBytes (v : UInt32) : (beBytes v).length = 4 := rfl

theorem beWord_bytes (v : UInt32) :
    beWord (v >>> 24).toUInt8 (v >>> 16).toUInt8 (v >>> 8).toUInt8 v.toUInt8 = v := by
  apply UInt32.eq_of_toBitVec_eq
  simp only [beWord, UInt32.toBitVec_or, UInt32.toBitVec_shiftLeft, UInt8.toBitVec_toUInt32,
    UInt32.toBitVec_toUInt8, UInt32.toBitVec_shiftRight]
  apply BitVec.eq_of_getLsbD_eq
  intro i hi
  simp
  grind

theorem beHalf_bytes (v : UInt16) : beHalf (v >>> 8).toUInt8 v.toUInt8 = v := by
  apply UInt16.eq_of_toBitVec_eq
  simp only [beHalf, UInt16.toBitVec_or, UInt16.toBitVec_shiftLeft, UInt8.toBitVec_toUInt16,
    UInt16.toBitVec_toUInt8, UInt16.toBitVec_shiftRight]
  apply BitVec.eq_of_getLsbD_eq
  intro i hi
  simp
  grind

theorem beHalfBytes_half (b0 b1 : UInt8) : beHalfBytes (beHalf b0 b1) = [b0, b1] := by
  simp only [beHalfBytes, List.cons.injEq, and_true]
  refine ⟨?_, ?_⟩ <;> apply UInt8.eq_of_toBitVec_eq <;>
    simp only [beHalf, UInt16.toBitVec_or, UInt16.toBitVec_shiftLeft, UInt8.toBitVec_toUInt16,
      UInt16.toBitVec_toUInt8, UInt16.toBitVec_shiftRight] <;>
    apply BitVec.eq_of_getLsbD_eq <;> intro i hi
  · simp
    grind
  · simp

def wordAt (bytes : List UInt8) (i : ℕ) : Option UInt32 := do
  let b0 ← bytes[i]?
  let b1 ← bytes[i + 1]?
  let b2 ← bytes[i + 2]?
  let b3 ← bytes[i + 3]?
  some (beWord b0 b1 b2 b3)

theorem wordAt_words (ws : List UInt32) (i : ℕ) {w : UInt32} (h : ws[i]? = some w)
    (rest : List UInt8) : wordAt (ws.flatMap beBytes ++ rest) (4 * i) = some w := by
  induction i generalizing ws with
  | zero =>
    cases ws with
    | nil =>
      simp at h
    | cons v ws =>
      obtain rfl : v = w := by simpa using h
      exact congrArg some (beWord_bytes v)
  | succ i ih =>
    cases ws with
    | nil =>
      simp at h
    | cons v ws =>
      exact ih ws (by simpa using h)

theorem length_words (ws : List UInt32) : (ws.flatMap beBytes).length = 4 * ws.length := by
  induction ws with
  | nil => rfl
  | cons w ws ih =>
    rw [List.flatMap_cons, List.length_append, ih, length_beBytes, List.length_cons]
    omega

end Words
