import DapProxy.Target.Exchange

namespace DapProxy.Target

structure Wires where
  bus : Bus
  ones : ℕ

namespace Wires

def counted (w : Wires) : ℕ := if w.bus.line then w.ones + 1 else 0

def clkHigh (w : Wires) : Wires :=
  if w.bus.clk then w
  -- fifty high samples in a row reset the target's interface
  else if 50 ≤ w.counted then
    ⟨Bus.settle { w.bus with clk := true, chip := w.bus.chip.tune (.listen []) }, w.counted⟩
  else ⟨w.bus.clkHigh, w.counted⟩

def clkLow (w : Wires) : Wires := { w with bus := w.bus.clkLow }

instance : Io Wires where
  setClkHigh := clkHigh
  setClkLow := clkLow
  setDataHigh w := { w with bus := Io.setDataHigh w.bus }
  setDataLow w := { w with bus := Io.setDataLow w.bus }
  isDataHigh w := w.bus.line
  setDataOutput w := { w with bus := Io.setDataOutput w.bus }
  setDataInput w := { w with bus := Io.setDataInput w.bus }
  clockCycle w := clkHigh (clkLow w)
  setReset _ w := w

structure Follows (k : ℕ) (w : Wires) (b : Bus) : Prop where
  bus : w.bus = b
  ones : w.ones ≤ k

section
variable {k : ℕ} {w : Wires} {b : Bus}

theorem Follows.mono (h : Follows k w b) {m : ℕ} (hm : k ≤ m) : Follows m w b :=
  ⟨h.bus, Nat.le_trans h.ones hm⟩

theorem clock_counted (h : w.counted < 50) :
    Io.clockCycle w = ⟨Io.clockCycle w.bus, w.counted⟩ := by
  have hlow : (clkLow w).counted = w.counted := rfl
  change clkHigh (clkLow w) = _
  rw [clkHigh, if_neg (by simp [clkLow, Bus.clkLow]), if_neg (by rw [hlow]; omega), hlow]
  rfl

theorem follows_clock (h : Follows k w b) (hk : k + 1 < 50) :
    Follows (k + 1) (Io.clockCycle w) (Io.clockCycle b) := by
  have hones := h.ones
  have hcount : w.counted ≤ k + 1 := by
    rw [counted]
    split <;> omega
  rw [clock_counted (by omega), h.bus]
  exact ⟨rfl, hcount⟩

theorem follows_low (h : Follows k w b) (hl : b.line = false) :
    Follows 0 (Io.clockCycle w) (Io.clockCycle b) := by
  have hcount : w.counted = 0 := by rw [counted, h.bus, hl, if_neg Bool.false_ne_true]
  rw [clock_counted (by omega), h.bus, hcount]
  exact ⟨rfl, Nat.le_refl 0⟩

theorem follows_writeBit (h : Follows k w b) (bit : Bool) (hk : k + 1 < 50) :
    Follows (k + 1) (Io.writeBit bit w) (Io.writeBit bit b) := by
  cases bit with
  | false => exact follows_clock ⟨congrArg Io.setDataLow h.bus, h.ones⟩ hk
  | true => exact follows_clock ⟨congrArg Io.setDataHigh h.bus, h.ones⟩ hk

theorem follows_writeBits (h : Follows k w b) (bits : List Bool) (hk : k + bits.length < 50) :
    Follows (k + bits.length) (Io.writeBits bits w) (Io.writeBits bits b) := by
  induction bits generalizing k w b with
  | nil => exact h
  | cons bit bits ih =>
    rw [List.length_cons] at hk ⊢
    exact (ih (follows_writeBit h bit (by omega)) (by omega)).mono (by omega)

theorem follows_writeLow (h : Follows k w b) (ho : b.output = true) :
    Follows 0 (Io.writeBit false w) (Io.writeBit false b) :=
  follows_low ⟨congrArg Io.setDataLow h.bus, h.ones⟩ (if_pos ho)

theorem output_writeBit (bit : Bool) (b : Bus) : (Io.writeBit bit b).output = b.output := by
  cases bit <;> rfl

theorem output_writeBits (bits : List Bool) (b : Bus) :
    (Io.writeBits bits b).output = b.output := by
  induction bits generalizing b with
  | nil => rfl
  | cons bit bits ih => exact (ih _).trans (output_writeBit bit b)

theorem follows_zeros (h : Follows k w b) (ho : b.output = true) (n : ℕ) :
    Follows 0 (Io.writeBits (List.replicate (n + 1) false) w)
      (Io.writeBits (List.replicate (n + 1) false) b) := by
  induction n generalizing k w b with
  | zero => exact follows_writeLow h ho
  | succ n ih => exact ih (follows_writeLow h ho) ((output_writeBit false b).trans ho)

theorem follows_header (h : Follows k w b) (ho : b.output = true) (hk : k + 6 < 50)
    (r : Request) : Follows 1 (Io.writeBits r.header w) (Io.writeBits r.header b) := by
  have hfields := follows_writeBits h [true, r.apndp, r.rnw, r.a2, r.a3, r.parity] hk
  have hstop := follows_writeLow hfields ((output_writeBits _ b).trans ho)
  exact follows_writeBit hstop true (by decide)

theorem follows_readBit (h : Follows k w b) (hk : k + 1 < 50) :
    (Io.readBit w).1 = (Io.readBit b).1 ∧ Follows (k + 1) (Io.readBit w).2 (Io.readBit b).2 := by
  refine ⟨?_, follows_clock h hk⟩
  change w.bus.line = b.line
  rw [h.bus]

theorem follows_readFrom (h : Follows k w b) (i n : ℕ) (v : UInt32) (hk : k + n < 50) :
    (Io.readFrom i n v w).1 = (Io.readFrom i n v b).1 ∧
      Follows (k + n) (Io.readFrom i n v w).2 (Io.readFrom i n v b).2 := by
  induction n generalizing i v k w b with
  | zero => exact ⟨rfl, h⟩
  | succ n ih =>
    obtain ⟨hbit, hnext⟩ := follows_readBit h (by omega)
    obtain ⟨hvalue, hrest⟩ := ih hnext (i + 1)
      (if (Io.readBit b).1 then v ||| 1 <<< UInt32.ofNat i else v) (by omega)
    rw [Io.readFrom, Io.readFrom, hbit]
    exact ⟨hvalue, hrest.mono (by omega)⟩

end

structure Held (w : Wires) : Prop where
  output : w.bus.output = true
  level : w.bus.level = true

theorem held_clock {w : Wires} (h : Held w) :
    Held (Io.clockCycle w) ∧ (Io.clockCycle w).ones = w.ones + 1 ∧
      (50 ≤ w.ones + 1 → (Io.clockCycle w).bus.chip.phase = .listen []) := by
  have hcount : w.clkLow.counted = w.ones + 1 := by
    rw [counted]
    exact if_pos ((if_pos h.output).trans h.level)
  change Held w.clkLow.clkHigh ∧ w.clkLow.clkHigh.ones = _ ∧
    (_ → w.clkLow.clkHigh.bus.chip.phase = _)
  rw [clkHigh, if_neg (by simp [clkLow, Bus.clkLow]), hcount]
  by_cases hreset : 50 ≤ w.ones + 1
  · rw [if_pos hreset]
    exact ⟨⟨h.output, h.level⟩, rfl, fun _ => rfl⟩
  · rw [if_neg hreset]
    exact ⟨⟨h.output, h.level⟩, rfl, fun hh => absurd hh hreset⟩

theorem held_cycles {w : Wires} (h : Held w) (n : ℕ) :
    Held (Io.clockCycles n w) ∧
      (0 < n → 50 ≤ w.ones + n → (Io.clockCycles n w).bus.chip.phase = .listen []) := by
  induction n generalizing w with
  | zero => exact ⟨h, fun hpos => absurd hpos (Nat.lt_irrefl 0)⟩
  | succ n ih =>
    obtain ⟨hheld, hones, hphase⟩ := held_clock h
    obtain ⟨hrest, hlater⟩ := ih hheld
    rw [hones] at hlater
    refine ⟨hrest, fun _ hn => ?_⟩
    cases n with
    | zero => exact hphase hn
    | succ n => exact hlater (Nat.succ_pos n) (by omega)

theorem lineReset_listens (w : Wires) :
    Held (Io.lineReset w) ∧ (Io.lineReset w).bus.chip.phase = .listen [] := by
  obtain ⟨hheld, hphase⟩ :=
    held_cycles (w := Io.setDataOutput (Io.setDataHigh w)) ⟨rfl, rfl⟩ 60
  rw [Io.lineReset]
  exact ⟨hheld, hphase (by omega) (by omega)⟩

end Wires

namespace Swd
open Wires

theorem idle_driving {I : Type} [Io I] (s : Swd I) : s.idle.driving = s.driving := rfl

theorem idle_io {I : Type} [Io I] (s : Swd I) : s.idle.io = Io.writeU32 0x00 8 s.io := rfl

structure Follows (k : ℕ) (s : Swd Wires) (t : Swd Bus) : Prop where
  io : s.io.Follows k t.io
  driving : s.driving = t.driving

section
variable {k : ℕ} {s : Swd Wires} {t : Swd Bus}

theorem follows_mono (h : Follows k s t) {m : ℕ} (hm : k ≤ m) : Follows m s t :=
  ⟨h.io.mono hm, h.driving⟩

theorem follows_write (h : Follows k s t) (value : UInt32) (n : ℕ) (hk : k + n < 50) :
    Follows (k + n) (s.write value n) (t.write value n) := by
  have hlen := length_bitsOf value n
  have hbits := follows_writeBits h.io (Io.bitsOf value n) (by rw [hlen]; exact hk)
  rw [hlen] at hbits
  exact ⟨hbits, h.driving⟩

theorem follows_read (h : Follows k s t) (n : ℕ) (hk : k + n < 50) :
    (s.read n).1 = (t.read n).1 ∧ Follows (k + n) (s.read n).2 (t.read n).2 := by
  obtain ⟨hvalue, hio⟩ := follows_readFrom h.io 0 n 0 hk
  exact ⟨hvalue, hio, h.driving⟩

theorem follows_turnaround (h : Follows k s t) (hk : k + 1 < 50) :
    Follows (k + 1) s.turnaround t.turnaround := by
  rw [turnaround, turnaround, h.driving]
  split
  · exact ⟨follows_clock ⟨congrArg Io.setDataInput h.io.bus, h.io.ones⟩ hk, rfl⟩
  · have hclock := follows_clock h.io hk
    exact ⟨⟨congrArg Io.setDataOutput hclock.bus, hclock.ones⟩, rfl⟩

theorem follows_idle (h : Follows k s t) (ho : t.io.output = true) : Follows 0 s.idle t.idle := by
  have hzeros : Io.bitsOf 0x00 8 = List.replicate (7 + 1) false := by decide
  have hio := follows_zeros h.io ho 7
  rw [← hzeros] at hio
  refine ⟨hio, ?_⟩
  rw [idle_driving, idle_driving, h.driving]

theorem follows_refused (h : Follows 5 s t) (hd : t.driving = false) :
    Follows 0 s.turnaround.idle t.turnaround.idle := by
  have hback := follows_turnaround h (by decide)
  refine follows_idle hback ?_
  rw [turnaround, if_neg (by rw [hd]; exact Bool.false_ne_true)]
  rfl

theorem follows_parity (h : Follows k s t) (hk : k + 1 < 50) :
    (Io.readBit s.io).1 = (Io.readBit t.io).1 ∧
      Follows (k + 1) { s with io := (Io.readBit s.io).2 }
        { t with io := (Io.readBit t.io).2 } := by
  obtain ⟨hbit, hio⟩ := follows_readBit h.io hk
  exact ⟨hbit, hio, h.driving⟩

end

section
variable {I : Type} [Io I]

theorem resumed_driving {t : Swd I} (h : t.driving = false) : t.turnaround.driving = true := by
  rw [turnaround, if_neg (by rw [h]; exact Bool.false_ne_true)]

theorem given_driving {t : Swd I} (h : t.driving = true) : t.turnaround.driving = false := by
  rw [turnaround, if_pos h]

end

section
variable {s : Swd Wires} {t : Swd Bus}

theorem resumed_output {t : Swd Bus} (h : t.driving = false) : t.turnaround.io.output = true := by
  rw [turnaround, if_neg (by rw [h]; exact Bool.false_ne_true)]
  rfl

theorem follows_ask (call : Call) (h : Follows 39 s t) (hd : t.driving = true)
    (ho : t.io.output = true) :
    (s.ask call).1 = (t.ask call).1 ∧ Follows 5 (s.ask call).2 (t.ask call).2 ∧
      (t.ask call).2.driving = false := by
  have hheader := follows_header h.io ho (by decide) call.request
  rw [Call.request, ← bitsOf_makeRequest] at hheader
  have hturned := follows_turnaround (k := 1)
    (s := s.write (makeRequest call.apndp call.rnw call.addr).toUInt32 8)
    (t := t.write (makeRequest call.apndp call.rnw call.addr).toUInt32 8)
    ⟨hheader, h.driving⟩ (by decide)
  obtain ⟨hack, hread⟩ := follows_read hturned 3 (by decide)
  exact ⟨hack, hread, given_driving hd⟩

theorem follows_receive (h : Follows 5 s t) (hd : t.driving = false) :
    s.receive.1 = t.receive.1 ∧ Follows 39 s.receive.2 t.receive.2 ∧
      t.receive.2.driving = true := by
  obtain ⟨hword, hread⟩ := follows_read h 32 (by decide)
  obtain ⟨hbit, hparity⟩ := follows_parity hread (by decide)
  have hback := follows_turnaround hparity (by decide)
  have hout := resumed_output (t := { (t.read 32).2 with io := (Io.readBit (t.read 32).2.io).2 }) hd
  have hdriving :=
    resumed_driving (t := { (t.read 32).2 with io := (Io.readBit (t.read 32).2.io).2 }) hd
  rw [receive, receive, hword, hbit]
  dsimp only
  split
  · exact ⟨rfl, hback, hdriving⟩
  · exact ⟨rfl, follows_mono (follows_idle hback hout) (by decide), hdriving⟩

theorem follows_send (data : UInt32) (h : Follows 5 s t) (hd : t.driving = false) :
    (s.send data).1 = (t.send data).1 ∧ Follows 39 (s.send data).2 (t.send data).2 := by
  have hback := follows_turnaround h (by decide)
  have hdata := follows_write hback data 32 (by decide)
  have hparity := follows_writeBit hdata.io (oddOnes data) (by decide)
  have hout := (output_writeBit (oddOnes data) _).trans
    ((output_writeBits (Io.bitsOf data 32) _).trans (resumed_output hd))
  have hidle := follows_idle
    (s := { s.turnaround.write data 32 with
      io := Io.writeBit (oddOnes data) (s.turnaround.write data 32).io })
    (t := { t.turnaround.write data 32 with
      io := Io.writeBit (oddOnes data) (t.turnaround.write data 32).io })
    ⟨hparity, hdata.driving⟩ hout
  exact ⟨rfl, follows_mono hidle (by decide)⟩

theorem follows_execute (call : Call) (h : Follows 39 s t) (hd : t.driving = true)
    (ho : t.io.output = true) :
    (s.execute call).1 = (t.execute call).1 ∧
      Follows 39 (s.execute call).2 (t.execute call).2 := by
  obtain ⟨hack, hasked, hgiven⟩ := follows_ask call h hd ho
  rw [execute_eq, execute_eq, hack]
  split
  · split
    · obtain ⟨hresult, hdone, -⟩ := follows_receive hasked hgiven
      exact ⟨hresult, hdone⟩
    · exact follows_send call.data hasked hgiven
  · have hrefused := follows_refused hasked hgiven
    exact ⟨rfl, follows_mono hrefused (by decide)⟩

theorem follows_transfers (calls : List Call) (h : Follows 39 s t) (hr : Ready t) :
    (s.transfers calls).1 = (t.transfers calls).1 ∧
      Follows 39 (s.transfers calls).2 (t.transfers calls).2 ∧ Ready (t.transfers calls).2 := by
  induction calls generalizing s t with
  | nil => exact ⟨rfl, h, hr⟩
  | cons call calls ih =>
    obtain ⟨hresult, hnext⟩ := follows_execute call h hr.driving hr.output
    have hready : Ready (t.execute call).2 := (at_execute call hr.at hr.listening).2.ready rfl
    obtain ⟨hrest, hdone⟩ := ih hnext hready
    rw [transfers, transfers, hresult, hrest]
    exact ⟨rfl, hdone⟩

end

def plain (s : Swd Wires) : Swd Bus := ⟨s.io.bus, s.driving, s.lastPins⟩

theorem follows_plain (s : Swd Wires) : Follows s.io.ones s s.plain :=
  ⟨⟨rfl, Nat.le_refl _⟩, rfl⟩

theorem init_at {s : Swd Wires} {w : Wires} {clash : Bool} {c : Chip}
    (hw : Io.lineReset (Io.writeU32 0xE79E 16 (Io.lineReset s.io)) = w)
    (h : w.bus.At true clash c) (hl : c.phase = .listen []) :
    s.init.plain.At true clash c ∧ s.init.io.ones = 0 := by
  have hidle := follows_idle (k := w.ones) (s := ⟨w, s.driving, s.lastPins⟩)
    (t := ⟨w.bus, s.driving, s.lastPins⟩) ⟨⟨rfl, Nat.le_refl _⟩, rfl⟩ h.output
  have hat := at_idle (s := ⟨w.bus, true, s.lastPins⟩) ⟨rfl, h⟩ hl
  have hinit : s.init = { (idle ⟨w, s.driving, s.lastPins⟩ : Swd Wires) with driving := true } := by
    rw [init, hw]
  have hbus : s.init.plain.io = (idle (⟨w.bus, true, s.lastPins⟩ : Swd Bus)).io := by
    have hlow := hidle.io.bus
    rw [idle_io, idle_io] at hlow
    rw [hinit, plain]
    dsimp only
    rw [idle_io, idle_io, hlow]
  refine ⟨⟨by rw [hinit]; rfl, ?_⟩, ?_⟩
  · rw [hbus]
    exact hat.bus
  · rw [hinit]
    exact Nat.le_zero.mp hidle.io.ones

theorem init_ready (s : Swd Wires) :
    Ready (Transport.init s).2.plain ∧ (Transport.init s).2.io.ones = 0 := by
  have hinit : (Transport.init s).2 = s.init := rfl
  rw [hinit]
  obtain ⟨hheld, hphase⟩ :=
    lineReset_listens (Io.writeU32 0xE79E 16 (Io.lineReset s.io))
  obtain ⟨hat, hones⟩ := init_at (s := s) rfl ⟨hheld.output, rfl, rfl⟩ hphase
  exact ⟨hat.ready hphase, hones⟩

theorem listening_transfers {c : Swd Wires} (h : Ready c.plain) (hones : c.io.ones = 0)
    (calls : List Call) :
    c.driving = true ∧ c.io.bus.output = true ∧ c.io.bus.chip.phase = .listen [] ∧
      (c.transfers calls).2.io.bus.clash = c.io.bus.clash ∧
      ∃ heard, (c.transfers calls).2.io.bus.chip.heard = c.io.bus.chip.heard ++ heard ∧
        Agreed c.io.bus.chip.choices c.io.bus.chip.served calls (c.transfers calls).1 heard := by
  have hfollows : Follows 39 c c.plain := follows_mono (follows_plain c) (by omega)
  obtain ⟨hresults, hdone, -⟩ := follows_transfers calls hfollows h
  obtain ⟨heard, hagreed, hat⟩ := at_transfers calls h.at h.listening
  rw [← hresults] at hagreed
  have hclash := hat.bus.clash
  have hchip := hat.bus.chip
  rw [← hdone.io.bus] at hclash hchip
  exact ⟨h.driving, h.output, h.listening, hclash, heard, congrArg Chip.heard hchip, hagreed⟩

theorem connect_resynchronises (s : Swd Wires) (calls : List Call) :
    let c := (Transport.init s).2
    let r := c.transfers calls
    c.driving = true ∧ c.io.bus.output = true ∧ c.io.bus.chip.phase = .listen [] ∧
      r.2.io.bus.clash = c.io.bus.clash ∧
      ∃ heard, r.2.io.bus.chip.heard = c.io.bus.chip.heard ++ heard ∧
        Agreed c.io.bus.chip.choices c.io.bus.chip.served calls r.1 heard := by
  obtain ⟨hready, hones⟩ := init_ready s
  exact listening_transfers hready hones calls

end Swd

end DapProxy.Target
