import DapProxy.Framing.Stream
import Mathlib.Tactic.Common

namespace DapProxy.Target
open Framing

def frameMagic : UInt8 := 0xDA

def maxRejects : ℕ := 128

inductive RxState where
  | magic
  | lenLo
  | lenHi (lo : UInt8)
  | payload (left : ℕ)
  deriving DecidableEq, Repr

structure Deframer (N : ℕ) where
  buf : Vector UInt8 N
  fill : ℕ
  state : RxState
  rejects : ℕ

namespace Deframer
variable {N : ℕ}

def new : Deframer N := ⟨Vector.replicate N 0, 0, .magic, 0⟩

def isGarbage (d : Deframer N) : Bool := maxRejects < d.rejects

def store (d : Deframer N) (byte : UInt8) : Vector UInt8 N :=
  if h : d.fill < N then d.buf.set d.fill byte h else d.buf

def feed (d : Deframer N) (byte : UInt8) : Deframer N × Option (List UInt8) :=
  match d.state with
  | .magic =>
      if byte = frameMagic then ({ d with state := .lenLo }, none)
      else ({ d with rejects := d.rejects + 1 }, none)
  | .lenLo => ({ d with state := .lenHi byte }, none)
  | .lenHi lo =>
      let len := lo.toNat ||| byte.toNat <<< 8
      ({ d with fill := 0, state := if len = 0 then .magic else .payload len }, none)
  | .payload left =>
      let buf := d.store byte
      let fill := d.fill + 1
      if left = 1 then
        (⟨buf, fill, .magic, 0⟩, some (buf.toList.take (min fill N)))
      else ({ d with buf, fill, state := .payload (left - 1) }, none)

def feeder (N : ℕ) : Transducer (Deframer N) UInt8 (List UInt8) := ⟨feed⟩

end Deframer

def dapFormat : Format UInt8 where
  isMagic := (· == frameMagic)
  size := fun lo hi => lo.toNat ||| hi.toNat <<< 8

theorem size_eq (lo hi : UInt8) : dapFormat.size lo hi = lo.toNat + 256 * hi.toNat := by
  have h := Nat.two_pow_add_eq_or_of_lt (i := 8) lo.toNat_lt hi.toNat
  simp only [dapFormat, Nat.shiftLeft_eq]
  rw [Nat.or_comm, Nat.mul_comm hi.toNat, ← h]
  omega

def lenLo (n : ℕ) : UInt8 := UInt8.ofNat (n &&& 0xFF)

def lenHi (n : ℕ) : UInt8 := UInt8.ofNat (n >>> 8)

theorem size_len {n : ℕ} (h : n < 65536) : dapFormat.size (lenLo n) (lenHi n) = n := by
  have hl : (lenLo n).toNat = n % 256 := by
    have hand : n &&& 0xFF = n % 256 := Nat.and_two_pow_sub_one_eq_mod n 8
    simp only [lenLo, hand, UInt8.toNat_ofNat']
    omega
  have hh : (lenHi n).toNat = n / 256 := by
    simp only [lenHi, Nat.shiftRight_eq_div_pow, UInt8.toNat_ofNat']
    omega
  rw [size_eq, hl, hh]
  omega

theorem size_inj {lo hi lo' hi' : UInt8} (h : dapFormat.size lo hi = dapFormat.size lo' hi') :
    lo = lo' ∧ hi = hi' := by
  have h1 := lo.toNat_lt
  have h2 := lo'.toNat_lt
  rw [size_eq, size_eq] at h
  exact ⟨UInt8.toNat_inj.mp (by omega), UInt8.toNat_inj.mp (by omega)⟩

def frameOf (p : List UInt8) (h : p.length < 65536) : dapFormat.Frame where
  magic := frameMagic
  lo := lenLo p.length
  hi := lenHi p.length
  payload := p
  isMagic := rfl
  size := (size_len h).symm

def slice (N : ℕ) (raw : List UInt8) : List UInt8 := (raw.drop 3).take N

namespace Deframer
variable {N : ℕ}

def Holds (d : Deframer N) : List UInt8 → Prop
  | [] => d.state = .magic
  | [_] => d.state = .lenLo
  | [_, lo] => d.state = .lenHi lo
  | _ :: lo :: hi :: p =>
      d.state = .payload (dapFormat.size lo hi - p.length) ∧ d.fill = p.length ∧
        d.buf.toList.take p.length = p.take N

structure Refines (d : Deframer N) (s : Decoder UInt8) : Prop where
  isOpen : dapFormat.Open s.raw
  holds : d.Holds s.raw
  rejects : d.rejects = s.noise

theorem refines_new : Refines (new : Deframer N) ⟨[], 0⟩ := ⟨trivial, rfl, rfl⟩

theorem store_take (d : Deframer N) (x : UInt8) {p : List UInt8} (hf : d.fill = p.length)
    (hb : d.buf.toList.take p.length = p.take N) :
    (d.store x).toList.take (p.length + 1) = (p ++ [x]).take N := by
  by_cases h : d.fill < N
  · have hp : p.length < N := hf ▸ h
    have hl : p.length < d.buf.toList.length := by simpa using hp
    have hx : (d.buf.toList.set d.fill x)[p.length]? = some x := by
      rw [hf, List.getElem?_set_self hl]
    rw [store, dif_pos h, Vector.toList_set, List.take_add_one, hx, List.take_set_of_le (by omega),
      hb, List.take_of_length_le (by omega), Option.toList_some,
      List.take_of_length_le (by simp only [List.length_append, List.length_singleton]; omega)]
  · have hp : N ≤ p.length := by omega
    have hl : d.buf.toList.length ≤ p.length := by simpa using hp
    rw [store, dif_neg h, List.take_of_length_le (by omega), List.take_append_of_le_length hp,
      ← hb, List.take_of_length_le hl]

theorem feed_magic {d : Deframer N} {k : ℕ} (h : Refines d ⟨[], k⟩) (x : UInt8) :
    Refines (d.feed x).1 (dapFormat.step ⟨[], k⟩ x).1 ∧
      (d.feed x).2 = (dapFormat.step ⟨[], k⟩ x).2.map (slice N) := by
  obtain ⟨-, hs, hk⟩ := h
  change d.state = .magic at hs
  by_cases hx : x = frameMagic
  · have hm : dapFormat.isMagic x = true := by simp [dapFormat, hx]
    have hf : d.feed x = ({ d with state := .lenLo }, none) := by simp [feed, hs, hx]
    have hd : dapFormat.step ⟨[], k⟩ x = (⟨[x], k⟩, none) := by simp [Format.step, hm]
    rw [hf, hd]
    exact ⟨⟨⟨hm, trivial⟩, rfl, hk⟩, rfl⟩
  · have hm : dapFormat.isMagic x = false := by simp [dapFormat, hx]
    have hf : d.feed x = ({ d with rejects := d.rejects + 1 }, none) := by simp [feed, hs, hx]
    have hd : dapFormat.step ⟨[], k⟩ x = (⟨[], k + 1⟩, none) := by simp [Format.step, hm]
    rw [hf, hd]
    exact ⟨⟨trivial, hs, congrArg (· + 1) hk⟩, rfl⟩

theorem feed_lenLo {d : Deframer N} {m : UInt8} {k : ℕ} (h : Refines d ⟨[m], k⟩) (x : UInt8) :
    Refines (d.feed x).1 (dapFormat.step ⟨[m], k⟩ x).1 ∧
      (d.feed x).2 = (dapFormat.step ⟨[m], k⟩ x).2.map (slice N) := by
  obtain ⟨ho, hs, hk⟩ := h
  change d.state = .lenLo at hs
  have hf : d.feed x = ({ d with state := .lenHi x }, none) := by simp [feed, hs]
  have hd : dapFormat.step ⟨[m], k⟩ x = (⟨[m, x], k⟩, none) := by
    simp [Format.step, Format.complete]
  rw [hf, hd]
  exact ⟨⟨⟨ho.1, trivial⟩, rfl, hk⟩, rfl⟩

theorem feed_lenHi {d : Deframer N} {m lo : UInt8} {k : ℕ} (h : Refines d ⟨[m, lo], k⟩)
    (x : UInt8) :
    Refines (d.feed x).1 (dapFormat.step ⟨[m, lo], k⟩ x).1 ∧
      (d.feed x).2 = (dapFormat.step ⟨[m, lo], k⟩ x).2.map (slice N) := by
  obtain ⟨ho, hs, hk⟩ := h
  change d.state = .lenHi lo at hs
  have hsz : dapFormat.size lo x = lo.toNat ||| x.toNat <<< 8 := rfl
  by_cases hz : dapFormat.size lo x = 0
  · have hf : d.feed x = ({ d with fill := 0, state := .magic }, none) := by
      simp only [feed, hs, ← hsz, hz, if_true]
    have hd : dapFormat.step ⟨[m, lo], k⟩ x = (⟨[], k⟩, none) := by
      simp [Format.step, Format.complete, hz]
    rw [hf, hd]
    exact ⟨⟨trivial, rfl, hk⟩, rfl⟩
  · have hf : d.feed x =
        ({ d with fill := 0, state := .payload (dapFormat.size lo x) }, none) := by
      simp only [feed, hs, ← hsz, hz, if_false]
    have hd : dapFormat.step ⟨[m, lo], k⟩ x = (⟨[m, lo, x], k⟩, none) := by
      simp [Format.step, Format.complete, Ne.symm hz]
    rw [hf, hd]
    exact ⟨⟨⟨ho.1, Nat.pos_of_ne_zero hz⟩, ⟨rfl, rfl, by simp⟩, hk⟩, rfl⟩

theorem feed_payload {d : Deframer N} {m lo hi : UInt8} {p : List UInt8} {k : ℕ}
    (h : Refines d ⟨m :: lo :: hi :: p, k⟩) (x : UInt8) :
    Refines (d.feed x).1 (dapFormat.step ⟨m :: lo :: hi :: p, k⟩ x).1 ∧
      (d.feed x).2 = (dapFormat.step ⟨m :: lo :: hi :: p, k⟩ x).2.map (slice N) := by
  obtain ⟨ho, ⟨hs, hfill, hb⟩, hk⟩ := h
  have hlt : p.length < dapFormat.size lo hi := ho.2
  have hst := store_take d x hfill hb
  by_cases hl : dapFormat.size lo hi = p.length + 1
  · have hf : d.feed x = (⟨d.store x, d.fill + 1, .magic, 0⟩,
        some ((d.store x).toList.take (min (d.fill + 1) N))) := by
      simp [feed, hs, hl]
    have hd : dapFormat.step ⟨m :: lo :: hi :: p, k⟩ x =
        (⟨[], 0⟩, some (m :: lo :: hi :: (p ++ [x]))) := by
      simp [Format.step, Format.complete, hl]
    have ht : (d.store x).toList.take (min (d.fill + 1) N) = (p ++ [x]).take N := by
      rw [← hst, hfill, ← List.take_take,
        List.take_of_length_le (l := (d.store x).toList) (by simp)]
    rw [hf, hd, ht]
    exact ⟨⟨trivial, rfl, rfl⟩, rfl⟩
  · have hf : d.feed x = ({ d with
        buf := d.store x, fill := d.fill + 1,
        state := .payload (dapFormat.size lo hi - p.length - 1) }, none) := by
      simp only [feed, hs]
      rw [if_neg (by omega)]
    have hd : dapFormat.step ⟨m :: lo :: hi :: p, k⟩ x =
        (⟨m :: lo :: hi :: (p ++ [x]), k⟩, none) := by
      simp [Format.step, Format.complete, Ne.symm hl]
    rw [hf, hd]
    refine ⟨⟨⟨ho.1, ?_⟩, ⟨?_, ?_, ?_⟩, hk⟩, rfl⟩
    · simp only [List.length_append, List.length_singleton]
      omega
    · simp [Nat.sub_sub]
    · simp [hfill]
    · simpa using hst

theorem feed_simulates :
    Transducer.Simulates (feeder N) dapFormat.decoder Refines (slice N) where
  step := by
    rintro d ⟨raw, k⟩ h x
    rcases raw with _ | ⟨m, _ | ⟨lo, _ | ⟨hi, p⟩⟩⟩
    · exact feed_magic h x
    · exact feed_lenLo h x
    · exact feed_lenHi h x
    · exact feed_payload h x

end Deframer

end DapProxy.Target
