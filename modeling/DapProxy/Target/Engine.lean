import DapProxy.Target.Reference

namespace DapProxy.Target

def requested (apndp rnw : Bool) (addr : UInt8) : Request :=
  ⟨apndp, rnw, (addr &&& 0x04) != 0, (addr &&& 0x08) != 0⟩

theorem addr_bits (addr : UInt8) : (addr >>> 2) &&& 0x03 =
    Bool.toUInt8 ((addr &&& 0x04) != 0) |||
      Bool.toUInt8 ((addr &&& 0x08) != 0) <<< (1 : UInt8) := by
  have hall : ∀ i : Fin 256, (UInt8.ofFin i >>> 2) &&& 0x03 =
      Bool.toUInt8 ((UInt8.ofFin i &&& 0x04) != 0) |||
        Bool.toUInt8 ((UInt8.ofFin i &&& 0x08) != 0) <<< (1 : UInt8) := by
    decide +kernel
  exact hall addr.toFin

theorem bitsOf_makeRequest (apndp rnw : Bool) (addr : UInt8) :
    Io.bitsOf (Swd.makeRequest apndp rnw addr).toUInt32 8 =
      (requested apndp rnw addr).header := by
  simp only [Swd.makeRequest, addr_bits, requested]
  generalize ((addr &&& 0x04) != 0) = a2
  generalize ((addr &&& 0x08) != 0) = a3
  revert apndp rnw a2 a3
  decide

namespace Chip

def Hears : List Bool → Chip → Chip → Prop
  | [], c, c' => c = c'
  | bit :: bits, c, c' => (c.rise bit).driven = none ∧ Hears bits (c.rise bit) c'

def Tells : List Bool → Chip → Chip → Prop
  | [], c, c' => c = c'
  | bit :: bits, c, c' => c.driven = some bit ∧ Tells bits (c.rise bit) c'

def tune (c : Chip) (phase : Phase) : Chip := { c with phase }

theorem hears_header {c : Chip} (h : c.phase = .listen []) (r : Request) :
    Hears r.header c (c.accept r) := by
  obtain ⟨phase, choices, served, heard⟩ := c
  subst h
  simp only [Request.header, Hears, rise, driven]
  simp [Request.decode, accept]

theorem hears_idle {c : Chip} (h : c.phase = .listen []) (n : ℕ) :
    Hears (List.replicate n false) c c := by
  have hrise : c.rise false = c := by simp only [rise, h, and_self, if_true]
  induction n with
  | zero => rfl
  | succ n ih =>
    rw [List.replicate_succ, Hears, hrise]
    exact ⟨by simp only [driven, h], ih⟩

theorem hears_data (c : Chip) (got bits : List Bool) (hl : got.length + bits.length ≤ 32) :
    Hears bits (c.tune (.take got)) (c.tune (.take (got ++ bits))) := by
  induction bits generalizing got with
  | nil => rw [List.append_nil, Hears]
  | cons bit bits ih =>
    have hroom : got.length < 32 := by
      rw [List.length_cons] at hl
      omega
    have hrise : (c.tune (.take got)).rise bit = c.tune (.take (got ++ [bit])) := by
      simp only [rise, tune, if_pos hroom]
    have htail := ih (got ++ [bit]) (by
      rw [List.length_append, List.length_singleton]
      rw [List.length_cons] at hl
      omega)
    rw [Hears, hrise]
    rw [List.append_assoc, List.singleton_append] at htail
    exact ⟨rfl, htail⟩

theorem hears_parity {c : Chip} {got : List Bool} (hl : got.length = 32) (parity : Bool) :
    Hears [parity] (c.tune (.take got)) ((c.tune (.take got)).takeWord got parity) := by
  have hrise : (c.tune (.take got)).rise parity = (c.tune (.take got)).takeWord got parity := by
    simp only [rise, tune, hl, Nat.lt_irrefl, if_false]
  rw [Hears, hrise]
  exact ⟨rfl, rfl⟩

def sending (c : Chip) (bits : List Bool) (receive : Bool) : Chip :=
  match bits with
  | [] => c.tune (.release receive)
  | bit :: rest => c.tune (.drive bit rest receive)

theorem rise_turn (c : Chip) (bits : List Bool) (receive sample : Bool) :
    (c.tune (.turn bits receive)).rise sample = c.sending bits receive := by
  cases bits <;> rfl

theorem rise_sending (c : Chip) (bit : Bool) (rest : List Bool) (receive sample : Bool) :
    (c.sending (bit :: rest) receive).rise sample = c.sending rest receive := by
  cases rest <;> rfl

theorem driven_sending (c : Chip) (bit : Bool) (rest : List Bool) (receive : Bool) :
    (c.sending (bit :: rest) receive).driven = some bit := rfl

theorem rise_released (c : Chip) (sample : Bool) :
    (c.sending [] false).rise sample = c.tune (.listen []) := rfl

theorem rise_receiving (c : Chip) (sample : Bool) :
    (c.sending [] true).rise sample = c.tune (.take []) := rfl

theorem tells_sending (c : Chip) (xs ys : List Bool) (receive : Bool) :
    Tells xs (c.sending (xs ++ ys) receive) (c.sending ys receive) := by
  induction xs with
  | nil => rfl
  | cons x xs ih =>
    refine ⟨rfl, ?_⟩
    rw [List.cons_append, rise_sending]
    exact ih

end Chip

namespace Bus
open Chip

structure At (driving clash : Bool) (c : Chip) (b : Bus) : Prop where
  output : b.output = driving
  clash : b.clash = clash
  chip : b.chip = c

variable {clash : Bool} {c c' : Chip} {b : Bus}

theorem at_clock {driving sample : Bool} (h : b.At driving clash c) (hl : b.line = sample)
    (hd : driving = true → (c.rise sample).driven = none) :
    (Io.clockCycle b).At driving clash (c.rise sample) := by
  obtain ⟨rfl, rfl, rfl⟩ := h
  subst hl
  refine ⟨rfl, ?_, rfl⟩
  change (b.clash || (b.output && (b.chip.rise b.line).driven.isSome)) = b.clash
  cases ho : b.output with
  | false => rw [Bool.false_and, Bool.or_false]
  | true => rw [hd ho, Option.isSome_none, Bool.and_false, Bool.or_false]

theorem at_writeBit {bit : Bool} (h : b.At true clash c) (hd : (c.rise bit).driven = none) :
    (Io.writeBit bit b).At true clash (c.rise bit) := by
  obtain ⟨ho, hc, hp⟩ := h
  cases bit with
  | false =>
    have hlow : (Io.setDataLow b).At true clash c := ⟨ho, hc, hp⟩
    exact at_clock hlow (if_pos ho) (fun _ => hd)
  | true =>
    have hhigh : (Io.setDataHigh b).At true clash c := ⟨ho, hc, hp⟩
    exact at_clock hhigh (if_pos ho) (fun _ => hd)

theorem at_writeBits {bits : List Bool} (h : b.At true clash c) (hh : Hears bits c c') :
    (Io.writeBits bits b).At true clash c' := by
  induction bits generalizing b c with
  | nil => exact hh ▸ h
  | cons bit bits ih => exact ih (at_writeBit h hh.1) hh.2

theorem at_readBit {bit : Bool} (h : b.At false clash c) (hd : c.driven = some bit) :
    (Io.readBit b).1 = bit ∧ (Io.readBit b).2.At false clash (c.rise bit) := by
  have hline : b.line = bit := by
    rw [line, h.output, h.chip, hd]
    rfl
  exact ⟨hline, at_clock h hline (fun hf => Bool.noConfusion hf)⟩

theorem at_readFrom {bits : List Bool} (h : b.At false clash c) (ht : Tells bits c c') (i : ℕ)
    (v : UInt32) : (Io.readFrom i bits.length v b).1 = gather i bits v ∧
      (Io.readFrom i bits.length v b).2.At false clash c' := by
  induction bits generalizing b c i v with
  | nil => exact ⟨rfl, ht ▸ h⟩
  | cons bit bits ih =>
    obtain ⟨hbit, hat⟩ := at_readBit h ht.1
    rw [List.length_cons, Io.readFrom, gather, hbit]
    exact ih hat ht.2 _ _

theorem at_give (h : b.At true clash c) (hr : ∀ sample, c.rise sample = c') :
    (Io.clockCycle (Io.setDataInput b)).At false clash c' := by
  have hinput : (Io.setDataInput b).At false clash c := ⟨rfl, h.clash, h.chip⟩
  have hclock := at_clock hinput rfl (fun hf => Bool.noConfusion hf)
  rw [hr] at hclock
  exact hclock

theorem at_resume (h : b.At false clash c) (hr : ∀ sample, c.rise sample = c')
    (hd : c'.driven = none) :
    (Io.setDataOutput (Io.clockCycle b)).At true clash c' := by
  have hclock := at_clock h rfl (fun hf => Bool.noConfusion hf)
  rw [hr] at hclock
  refine ⟨rfl, ?_, hclock.chip⟩
  change ((Io.clockCycle b).clash || (true && (Io.clockCycle b).chip.driven.isSome)) = clash
  rw [hclock.clash, hclock.chip, hd, Option.isSome_none, Bool.and_false, Bool.or_false]

end Bus

namespace Swd
open Chip

structure At (output clash : Bool) (c : Chip) (s : Swd Bus) : Prop where
  driving : s.driving = output
  bus : s.io.At output clash c

variable {clash : Bool} {c c' : Chip} {s : Swd Bus}

theorem at_write {value : UInt32} {n : ℕ} (h : s.At true clash c)
    (hh : Hears (Io.bitsOf value n) c c') : (s.write value n).At true clash c' :=
  ⟨h.driving, Bus.at_writeBits h.bus hh⟩

theorem at_read {bits : List Bool} {n : ℕ} (hn : bits.length = n) (h : s.At false clash c)
    (ht : Tells bits c c') :
    (s.read n).1 = gather 0 bits 0 ∧ (s.read n).2.At false clash c' := by
  obtain ⟨hvalue, hbus⟩ := Bus.at_readFrom h.bus ht 0 0
  rw [hn] at hvalue hbus
  exact ⟨hvalue, h.driving, hbus⟩

theorem at_give (h : s.At true clash c) (hr : ∀ sample, c.rise sample = c') :
    s.turnaround.At false clash c' := by
  rw [turnaround, if_pos h.driving]
  exact ⟨rfl, Bus.at_give h.bus hr⟩

theorem at_resume (h : s.At false clash c) (hr : ∀ sample, c.rise sample = c')
    (hd : c'.driven = none) : s.turnaround.At true clash c' := by
  rw [turnaround, if_neg (by rw [h.driving]; exact Bool.false_ne_true)]
  exact ⟨rfl, Bus.at_resume h.bus hr hd⟩

theorem at_idle (h : s.At true clash c) (hl : c.phase = .listen []) : s.idle.At true clash c :=
  at_write h (hears_idle hl 8)

end Swd

end DapProxy.Target
