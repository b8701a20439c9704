import DapProxy.Target.Discipline
import DapProxy.Target.OnWire
import DapProxy.Target.Sequence

namespace DapProxy.Target
open Wires

namespace Wires

def Driven (driving : Bool) (_pins : UInt8) (w : Wires) : Prop := w.bus.output = driving

theorem output_clkHigh (w : Wires) : w.clkHigh.bus.output = w.bus.output := by
  rw [clkHigh]
  split
  · rfl
  · split
    · rfl
    · rw [Bus.clkHigh]
      split <;> rfl

theorem driven_discipline : Discipline Wires Driven where
  dataHigh h := h
  dataLow h := h
  clock h := (output_clkHigh _).trans h
  sample h := (output_clkHigh _).trans h
  release _ := rfl
  take _ := rfl
  reset _ h := h

variable {w : Wires}

theorem writes_held (h : Held w) (n : ℕ) :
    Io.writeBits (List.replicate n true) w = Io.clockCycles n w := by
  induction n generalizing w with
  | zero => rfl
  | succ n ih =>
    have hlevel : Io.setDataHigh w = w := by
      obtain ⟨⟨clk, output, level, clash, chip⟩, ones⟩ := w
      obtain rfl : level = true := h.level
      rfl
    rw [List.replicate_succ, Io.writeBits, Io.writeBit, if_pos rfl, hlevel, ih (held_clock h).1]
    rfl

theorem listens_reset (ho : w.bus.output = true) {k : ℕ} (hk : 50 ≤ k) :
    Held (Io.writeBits (List.replicate k true) w) ∧
      (Io.writeBits (List.replicate k true) w).bus.chip.phase = .listen [] := by
  obtain ⟨k, rfl⟩ : ∃ n, k = n + 1 := ⟨k - 1, by omega⟩
  have hheld : Held (Io.setDataHigh w) := ⟨ho, rfl⟩
  obtain ⟨hdone, hphase⟩ := held_cycles hheld (k + 1)
  have hwrites : Io.writeBits (List.replicate (k + 1) true) w =
      Io.writeBits (List.replicate (k + 1) true) (Io.setDataHigh w) := rfl
  rw [hwrites, writes_held hheld]
  exact ⟨hdone, hphase (Nat.succ_pos k) (by omega)⟩

theorem ready_idle (hh : Held w) (hl : w.bus.chip.phase = .listen []) (m : ℕ) :
    (Io.writeBits (List.replicate (m + 1) false) w).bus.At true w.bus.clash w.bus.chip ∧
      (Io.writeBits (List.replicate (m + 1) false) w).ones = 0 := by
  have hzeros := follows_zeros (k := w.ones) ⟨rfl, Nat.le_refl _⟩ hh.output m
  have hat := Bus.at_writeBits (b := w.bus) ⟨hh.output, rfl, rfl⟩ (Chip.hears_idle hl (m + 1))
  rw [← hzeros.bus] at hat
  exact ⟨hat, Nat.le_zero.mp hzeros.ones⟩

end Wires

structure Shift where
  count : UInt8
  data : List UInt8
  counted : count ≠ 0
  whole : (count.toNat + 7) / 8 ≤ data.length

namespace Shift

def request (x : Shift) : List UInt8 := sequenceRequest x.count x.data

def bits (x : Shift) : List Bool := (List.range x.count.toNat).map (bitAsked x.data)

end Shift

theorem Io.writeBits_append {I : Type} [Io I] (xs ys : List Bool) (io : I) :
    Io.writeBits (xs ++ ys) io = Io.writeBits ys (Io.writeBits xs io) := by
  induction xs generalizing io with
  | nil => rfl
  | cons x xs ih => exact ih _

namespace Dap

theorem after_append {T : Type} [Transport T] (d : Dap T) (xs ys : List (List UInt8)) :
    d.after (xs ++ ys) = (d.after xs).after ys := by
  induction xs generalizing d with
  | nil => rfl
  | cons x xs ih => exact ih _

def shifted {I : Type} [Io I] (bits : List Bool) (d : Dap (Swd I)) : Dap (Swd I) :=
  { d with transport := { d.transport with io := Io.writeBits bits d.transport.io } }

section
variable {I : Type} [Io I]

theorem answer_shift (d : Dap (Swd I)) (x : Shift) :
    d.answer x.request = ([idSwjSequence, 0x00], d.shifted x.bits) := by
  rw [Shift.request, sequence_answered, if_neg (Nat.not_lt.mpr x.whole),
    Swd.swjSequence_writes _ _ _ x.whole]
  rfl

theorem after_shifts (d : Dap (Swd I)) (xs : List Shift) :
    d.after (xs.map Shift.request) = d.shifted (xs.flatMap Shift.bits) := by
  induction xs generalizing d with
  | nil => rfl
  | cons x xs ih =>
    rw [List.map_cons, after, answer_shift, ih, List.flatMap_cons, shifted, shifted, shifted,
      Io.writeBits_append]

end

theorem reset_ready {d : Dap (Swd Wires)} (hd : d.transport.Obeys Driven true)
    (pre : List Bool) {k : ℕ} (hk : 50 ≤ k) (m : ℕ) :
    let s := (d.shifted (pre ++ (List.replicate k true ++ List.replicate (m + 1) false))).transport
    Swd.Ready s.plain ∧ s.io.ones = 0 := by
  have hpre : (Io.writeBits pre d.transport.io).bus.output = true :=
    driven_discipline.writeBits pre hd.2
  obtain ⟨hheld, hphase⟩ := listens_reset hpre hk
  obtain ⟨hat, hones⟩ := ready_idle hheld hphase m
  rw [shifted, Io.writeBits_append, Io.writeBits_append]
  exact ⟨⟨hd.1, hat.output, (congrArg Chip.phase hat.chip).trans hphase⟩, hones⟩

theorem host_resynchronises (d : Dap (Swd Wires)) (hd : d.transport.Obeys Driven true)
    (reqs : List (List UInt8)) (shifts : List Shift) {pre : List Bool} {k m : ℕ}
    (hbits : shifts.flatMap Shift.bits =
      pre ++ (List.replicate k true ++ List.replicate (m + 1) false)) (hk : 50 ≤ k)
    (resp : RespBuffer) (later : List (List UInt8))
    (hlater : ∀ req ∈ later, req.head? ≠ some idSwjSequence) :
    let c := d.after (reqs ++ shifts.map Shift.request)
    let w := c.replies resp later
    let p := (c.onPort c.transport.port).replies resp later
    c.transport.io.bus.chip.phase = .listen [] ∧ w.1 = p.1 ∧
      w.2.transport.io.bus.chip = p.2.transport.chip ∧
      w.2.transport.io.bus.clash = c.transport.io.bus.clash := by
  have hkept := after_keeps (Swd.keeps driven_discipline) hd reqs
  obtain ⟨hready, hones⟩ := reset_ready hkept pre hk m
  rw [← hbits, ← after_shifts, ← after_append] at hready hones
  intro c w p
  have hport := Swd.onWire_port hready (hones ▸ Nat.zero_le 39)
  have hrelated : c.Related (Swd.OnWire c.transport.io.bus.clash) Eq (c.onPort c.transport.port) :=
    ⟨hport, rfl, rfl⟩
  obtain ⟨hout, hdone⟩ := replies_mirrored Swd.onWire_mirrors hrelated resp resp later hlater
  exact ⟨hready.listening, hout, hdone.transport.bus.bus.chip, hdone.transport.bus.bus.clash⟩

def lineReset : Shift := ⟨56, List.replicate 7 0xFF, by decide, by decide⟩

def switchToSwd : List Shift :=
  [lineReset, ⟨16, [0x9E, 0xE7], by decide, by decide⟩, lineReset,
    ⟨8, [0x00], by decide, by decide⟩]

theorem host_resynchronises_mid_write :
    let c := midWrite.after ([[idInfo, 0xF0]] ++ switchToSwd.map Shift.request)
    let w := c.replies .new [[idTransfer, 0, 1, 0x02]]
    let p := (c.onPort c.transport.port).replies .new [[idTransfer, 0, 1, 0x02]]
    c.transport.io.bus.chip.phase = .listen [] ∧ w.1 = p.1 ∧
      w.2.transport.io.bus.chip = p.2.transport.chip ∧
      w.2.transport.io.bus.clash = c.transport.io.bus.clash := by
  have hbits : switchToSwd.flatMap Shift.bits =
      (switchToSwd.flatMap Shift.bits).take 72 ++
        (List.replicate 56 true ++ List.replicate (7 + 1) false) := by decide
  exact host_resynchronises midWrite ⟨rfl, rfl⟩ _ switchToSwd hbits (by decide) .new _ (by decide)

end Dap

end DapProxy.Target
