import DapProxy.Target.Resync
import DapProxy.Target.Serve
import DapProxy.Target.Simulation

namespace DapProxy.Target

structure DebugPort where
  chip : Chip
  lastPins : UInt8

namespace DebugPort

def transfer (apndp rnw : Bool) (addr : UInt8) (value : Option UInt32) (p : DebugPort) :
    Except TErr UInt32 × DebugPort :=
  (p.chip.choice.answer ⟨apndp, rnw, addr, value⟩,
    { p with chip := p.chip.after ⟨apndp, rnw, addr, value⟩ })

instance : Wire DebugPort := ⟨transfer⟩

def swjPins (out sel : UInt8) (p : DebugPort) : Except TErr UInt8 × DebugPort :=
  if sel &&& 0x80 ≠ 0 then
    let pins := (p.lastPins &&& 0x7F) ||| (out &&& 0x80)
    (.ok pins, { p with lastPins := pins })
  else (.ok p.lastPins, p)

instance : Transport DebugPort where
  -- the line resets of init are invisible to a target that listens
  init p := (.ok (), p)
  -- raw bits are no transfer: the sessions compared here send none
  swjSequence _ _ p := (.ok (), p)
  swjPins out sel _ p := swjPins out sel p
  readDp := Wire.readDp
  writeDp := Wire.writeDp
  readAp := Wire.readAp
  writeAp := Wire.writeAp

end DebugPort

namespace Wire
variable {S P : Type} [Wire S] [Wire P] {R : S → P → Prop}

structure Mirrored (R : S → P → Prop) : Prop where
  transfer : ∀ {s p} apndp rnw addr value, R s p →
    Matches R (Wire.transfer apndp rnw addr value s) (Wire.transfer apndp rnw addr value p)

section
variable {s : S} {p : P}

theorem readDp_matches (ht : Mirrored R) (addr : UInt8) (h : R s p) :
    Matches R (readDp addr s) (readDp addr p) := ht.transfer false true addr none h

theorem writeDp_matches (ht : Mirrored R) (addr : UInt8) (val : UInt32) (h : R s p) :
    Matches R (writeDp addr val s) (writeDp addr val p) := by
  obtain ⟨hresult, hstate⟩ := ht.transfer false false addr (some val) h
  rw [writeDp, writeDp]
  revert hresult hstate
  rcases Wire.transfer false false addr (some val) s with ⟨err | v, s⟩ <;>
    rcases Wire.transfer false false addr (some val) p with ⟨_, p⟩ <;> rintro rfl hstate <;>
    exact ⟨rfl, hstate⟩

theorem readAp_matches (ht : Mirrored R) (select addr : UInt8) (h : R s p) :
    Matches R (readAp select addr s) (readAp select addr p) := by
  obtain ⟨hresult, hstate⟩ := ht.transfer true true addr none h
  rw [readAp, readAp]
  revert hresult hstate
  rcases Wire.transfer true true addr none s with ⟨err | v, s⟩ <;>
    rcases Wire.transfer true true addr none p with ⟨_, p⟩ <;> rintro rfl hstate
  · exact ⟨rfl, hstate⟩
  · exact readDp_matches ht dpRdbuff hstate

theorem writeAp_matches (ht : Mirrored R) (select addr : UInt8) (data : UInt32) (h : R s p) :
    Matches R (writeAp select addr data s) (writeAp select addr data p) := by
  obtain ⟨hresult, hstate⟩ := ht.transfer true false addr (some data) h
  rw [writeAp, writeAp]
  revert hresult hstate
  rcases Wire.transfer true false addr (some data) s with ⟨err | v, s⟩ <;>
    rcases Wire.transfer true false addr (some data) p with ⟨_, p⟩ <;> rintro rfl hstate <;>
    exact ⟨rfl, hstate⟩

end

end Wire

namespace Chip

inductive Attends : Phase → Prop
  | counting (k : ℕ) : k < 8 → Attends (.listen (List.replicate k true))
  | lost : Attends .lost

variable {c : Chip} {phase : Phase}

theorem driven_attends (h : Attends phase) : (c.tune phase).driven = none := by
  cases h <;> rfl

theorem rise_attends (h : Attends phase) :
    ∃ next, (c.tune phase).rise true = c.tune next ∧ Attends next := by
  cases h with
  | lost => exact ⟨.lost, rfl, .lost⟩
  | counting k hk =>
    by_cases hfull : k = 7
    · subst hfull
      exact ⟨.lost, rfl, .lost⟩
    · refine ⟨.listen (List.replicate (k + 1) true), ?_, .counting _ (by omega)⟩
      have hroom : (List.replicate k true).length < 7 := by
        rw [List.length_replicate]
        omega
      simp only [rise, tune, Bool.true_eq_false, and_false, if_false, if_pos hroom,
        List.replicate_succ']

theorem tune_listening (h : c.phase = .listen []) : c.tune (.listen []) = c := by
  rw [tune, ← h]

theorem hears_switch (c : Chip) :
    Hears (Io.bitsOf 0xE79E 16) (c.tune (.listen [])) (c.tune .lost) := by
  have hbits : Io.bitsOf 0xE79E 16 = [false, true, true, true, true, false, false, true, true,
      true, true, false, false, true, true, true] := by decide
  rw [hbits]
  exact ⟨rfl, rfl, rfl, rfl, rfl, rfl, rfl, rfl, rfl, rfl, rfl, rfl, rfl, rfl, rfl, rfl, rfl⟩

end Chip

namespace Wires
open Chip

structure Deaf (clash : Bool) (c : Chip) (w : Wires) : Prop where
  output : w.bus.output = true
  clash : w.bus.clash = clash
  chip : ∃ phase, w.bus.chip = c.tune phase ∧ Attends phase

variable {clash : Bool} {c : Chip} {w : Wires}

theorem settle_clash {b : Bus} (h : b.chip.driven = none) : b.settle.clash = b.clash := by
  rw [Bus.settle, h]
  simp only [Option.isSome_none, Bool.and_false, Bool.or_false]

theorem deaf_settled {b : Bus} {phase : Phase} (n : ℕ) (ho : b.output = true)
    (hc : b.clash = clash) (hp : b.chip = c.tune phase) (ha : Attends phase) :
    Deaf clash c ⟨b.settle, n⟩ :=
  ⟨ho, (settle_clash (by rw [hp]; exact driven_attends ha)).trans hc, phase, hp, ha⟩

theorem deaf_clock (hh : Held w) (h : Deaf clash c w) : Deaf clash c (Io.clockCycle w) := by
  obtain ⟨phase, hchip, hattends⟩ := h.chip
  change Deaf clash c w.clkLow.clkHigh
  rw [clkHigh, if_neg (by simp [clkLow, Bus.clkLow])]
  split
  · refine deaf_settled _ h.output h.clash ?_ (.counting 0 (by decide))
    change w.bus.chip.tune _ = _
    rw [hchip]
    rfl
  · obtain ⟨next, hrise, hnext⟩ := rise_attends (c := c) hattends
    have hline : w.clkLow.bus.line = true := (if_pos hh.output).trans hh.level
    rw [Bus.clkHigh, if_neg (by simp [clkLow, Bus.clkLow])]
    refine deaf_settled _ h.output h.clash ?_ hnext
    change w.bus.chip.rise w.clkLow.bus.line = _
    rw [hline, hchip, hrise]

theorem deaf_cycles (hh : Held w) (h : Deaf clash c w) (n : ℕ) :
    Deaf clash c (Io.clockCycles n w) := by
  induction n generalizing w with
  | zero => exact h
  | succ n ih => exact ih (held_clock hh).1 (deaf_clock hh h)

theorem deaf_lineReset (h : Deaf clash c w) : Deaf clash c (Io.lineReset w) := by
  obtain ⟨phase, hchip, hattends⟩ := h.chip
  have hstart : Deaf clash c (Io.setDataOutput (Io.setDataHigh w)) :=
    deaf_settled w.ones rfl h.clash hchip hattends
  exact deaf_cycles ⟨rfl, rfl⟩ hstart 60

theorem reset_listening (h : Deaf clash c w) :
    (Io.lineReset w).bus.At true clash (c.tune (.listen [])) := by
  have hdeaf := deaf_lineReset h
  obtain ⟨phase, hchip, -⟩ := hdeaf.chip
  obtain ⟨-, hlistens⟩ := lineReset_listens w
  refine ⟨hdeaf.output, hdeaf.clash, ?_⟩
  rw [hchip] at hlistens ⊢
  obtain rfl : phase = .listen [] := hlistens
  rfl

theorem deaf_switch (h : w.bus.At true clash (c.tune (.listen []))) :
    Deaf clash c (Io.writeU32 0xE79E 16 w) := by
  have hsplit : Io.bitsOf 0xE79E 16 = false :: (Io.bitsOf 0xE79E 16).tail := by decide
  have hfirst := follows_writeLow (w := w) (k := w.ones) ⟨rfl, Nat.le_refl _⟩ h.output
  have hrest := follows_writeBits hfirst (Io.bitsOf 0xE79E 16).tail (by decide)
  have hat := Bus.at_writeBits h (hears_switch c)
  rw [Io.writeU32]
  rw [hsplit] at hat ⊢
  change Deaf clash c (Io.writeBits (Io.bitsOf 0xE79E 16).tail (Io.writeBit false w))
  change (Io.writeBits (Io.bitsOf 0xE79E 16).tail (Io.writeBit false w.bus)).At _ _ _ at hat
  rw [← hrest.bus] at hat
  exact ⟨hat.output, hat.clash, .lost, hat.chip, .lost⟩

end Wires

namespace Swd
open Wires

structure OnWire (clash : Bool) (s : Swd Wires) (p : DebugPort) : Prop where
  bus : s.plain.At true clash p.chip
  listening : p.chip.phase = .listen []
  ones : s.io.ones ≤ 39
  lastPins : s.lastPins = p.lastPins

section
variable {I : Type} [Io I]

theorem turnaround_lastPins (s : Swd I) : s.turnaround.lastPins = s.lastPins := by
  rw [turnaround]
  split <;> rfl

theorem ask_lastPins (call : Call) (s : Swd I) : (s.ask call).2.lastPins = s.lastPins :=
  turnaround_lastPins (s.write (makeRequest call.apndp call.rnw call.addr).toUInt32 8)

theorem receive_lastPins (s : Swd I) : s.receive.2.lastPins = s.lastPins := by
  have hturn := turnaround_lastPins
    { (s.read 32).2 with io := (Io.readBit (s.read 32).2.io).2 }
  rw [receive]
  dsimp only
  split
  · exact hturn
  · exact hturn

theorem send_lastPins (data : UInt32) (s : Swd I) : (s.send data).2.lastPins = s.lastPins :=
  turnaround_lastPins s

theorem execute_lastPins (call : Call) (s : Swd I) :
    (s.execute call).2.lastPins = s.lastPins := by
  rw [execute_eq, ← ask_lastPins call s]
  split
  · split
    · exact receive_lastPins _
    · exact send_lastPins _ _
  · exact turnaround_lastPins _

theorem init_lastPins (s : Swd I) : s.init.lastPins = s.lastPins := rfl

end

variable {clash : Bool} {s : Swd Wires} {p : DebugPort}

theorem at_plain {k : ℕ} {t : Swd Bus} {c : Chip} (h : Follows k s t) (ht : t.At true clash c) :
    s.plain.At true clash c := by
  refine ⟨h.driving.trans ht.driving, ?_⟩
  rw [plain, h.io.bus]
  exact ht.bus

theorem onWire_execute (call : Call) (h : OnWire clash s p) :
    (s.execute call).1 = p.chip.choice.answer call ∧
      OnWire clash (s.execute call).2 { p with chip := p.chip.after call } := by
  have hfollows := follows_mono (follows_plain s) h.ones
  obtain ⟨hresult, hdone⟩ := follows_execute call hfollows h.bus.driving h.bus.bus.output
  obtain ⟨hanswer, hat⟩ := at_execute call h.bus h.listening
  exact ⟨hresult.trans hanswer, at_plain hdone hat, rfl, hdone.io.ones,
    (execute_lastPins call s).trans h.lastPins⟩

theorem onWire_transfer : Wire.Mirrored (OnWire clash) where
  transfer apndp rnw addr value h := onWire_execute ⟨apndp, rnw, addr, value⟩ h

theorem onWire_init (h : OnWire clash s p) : OnWire clash s.init p := by
  have hdeaf : Deaf clash p.chip s.io :=
    ⟨h.bus.bus.output, h.bus.bus.clash, .listen [],
      h.bus.bus.chip.trans (Chip.tune_listening h.listening).symm, .counting 0 (by decide)⟩
  have hreset := reset_listening (deaf_switch (reset_listening hdeaf))
  rw [Chip.tune_listening h.listening] at hreset
  obtain ⟨hat, hones⟩ := init_at rfl hreset h.listening
  exact ⟨hat, h.listening, by omega, (init_lastPins s).trans h.lastPins⟩

def port (s : Swd Wires) : DebugPort := ⟨s.io.bus.chip, s.lastPins⟩

theorem onWire_port (h : Ready s.plain) (hones : s.io.ones ≤ 39) :
    OnWire s.io.bus.clash s s.port := ⟨h.at, h.listening, hones, rfl⟩

theorem onWire_mirrors : Mirrors (OnWire clash) where
  init h := ⟨rfl, onWire_init h⟩
  swjPins {s p} out sel _ h := by
    change Matches _ (Swd.swjPins out sel _ s) (DebugPort.swjPins out sel p)
    rw [Swd.swjPins, DebugPort.swjPins, h.lastPins]
    split
    · exact ⟨rfl, ⟨h.bus.driving, h.bus.bus⟩, h.listening, h.ones, rfl⟩
    · exact ⟨rfl, h⟩
  readDp a h := Wire.readDp_matches onWire_transfer a h
  writeDp a v h := Wire.writeDp_matches onWire_transfer a v h
  readAp sel a h := Wire.readAp_matches onWire_transfer sel a h
  writeAp sel a v h := Wire.writeAp_matches onWire_transfer sel a v h

end Swd

namespace Dap
variable {T U : Type} [Transport T] [Transport U] {R : T → U → Prop}

def replies (d : Dap T) (resp : RespBuffer) : List (List UInt8) → List (List UInt8) × Dap T
  | [] => ([], d)
  | req :: reqs =>
      let r := d.handleFrame req resp
      let rest := replies r.2.2 r.2.1 reqs
      (r.1 :: rest.1, rest.2)

theorem handleFrame_mirrored {d : Dap T} {e : Dap U} {req : List UInt8}
    (h : SameReply R Eq (d.answer req) (e.answer req)) (resp resp' : RespBuffer) :
    (d.handleFrame req resp).1 = (e.handleFrame req resp').1 ∧
      (d.handleFrame req resp).2.2.Related R Eq (e.handleFrame req resp').2.2 := by
  obtain ⟨hout, hdap⟩ := d.handleFrame_eq req resp
  obtain ⟨hout', hdap'⟩ := e.handleFrame_eq req resp'
  rw [hout, hout', hdap, hdap']
  exact h

theorem replies_mirrored (hs : Mirrors R) {d : Dap T} {e : Dap U} (h : d.Related R Eq e)
    (resp resp' : RespBuffer) (reqs : List (List UInt8))
    (hreqs : ∀ req ∈ reqs, req.head? ≠ some idSwjSequence) :
    Matches (Related R Eq) (d.replies resp reqs) (e.replies resp' reqs) := by
  induction reqs generalizing d e resp resp' with
  | nil => exact ⟨rfl, h⟩
  | cons req reqs ih =>
    obtain ⟨hreq, hreqs⟩ := List.forall_mem_cons.mp hreqs
    have hanswer := answer_mirrored hs (fun _ _ hn => congrArg logged hn) h req
      (fun hid => absurd hid hreq)
    obtain ⟨hout, hdap⟩ := handleFrame_mirrored hanswer resp resp'
    obtain ⟨hrest, hdone⟩ := ih hdap _ _ hreqs
    exact ⟨congrArg₂ List.cons hout hrest, hdone⟩

def onPort (d : Dap (Swd Wires)) (p : DebugPort) : Dap DebugPort :=
  ⟨p, d.waitRetry, d.errLogs⟩

def midWrite : Dap (Swd Wires) :=
  let chip : Chip := ⟨.take [], fun _ => ⟨.ok, 0x2BA01477, 0, false⟩, 0, []⟩
  .new (.new ⟨⟨false, true, true, false, chip⟩, 0⟩)

end Dap

end DapProxy.Target
