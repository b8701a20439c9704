import DapProxy.Target.Engine

namespace DapProxy.Target

def Call.request (call : Call) : Request := requested call.apndp call.rnw call.addr

def Ack.code : Ack → UInt8
  | .ok => 0b001
  | .wait => 0b010
  | .fault => 0b100

theorem Ack.gather_bits (ack : Ack) : (gather 0 ack.bits 0).toUInt8 = ack.code := by
  cases ack <;> decide

namespace Choice

def onBus (choice : Choice) : UInt32 := choice.word ^^^ choice.flips

def onParity (choice : Choice) : Bool := oddOnes choice.word ^^ choice.flipsParity

theorem onLine_eq (choice : Choice) :
    choice.onLine = Io.bitsOf choice.onBus 32 ++ [choice.onParity] := by
  rw [onBus, bitsOf_xor]
  rfl

theorem parity_detects (choice : Choice) :
    choice.onParity ≠ oddOnes choice.onBus ↔ choice.flipped % 2 = 1 := by
  have hxor := countOnes_xor choice.word choice.flips
  have hw := Nat.mod_two_eq_zero_or_one (countOnes choice.word)
  have hf := Nat.mod_two_eq_zero_or_one (countOnes choice.flips)
  simp only [onParity, onBus, oddOnes, flipped]
  rw [hxor, Nat.add_mod]
  rcases hw with hw | hw <;> rcases hf with hf | hf <;> cases choice.flipsParity <;>
    simp only [hw, hf] <;> simp <;> omega

def tail (choice : Choice) (r : Request) : List Bool :=
  if choice.ack = .ok ∧ r.rnw then choice.onLine else []

def receives (choice : Choice) (r : Request) : Bool := choice.ack = .ok ∧ r.rnw = false

def answer (choice : Choice) (call : Call) : Except TErr UInt32 :=
  match choice.ack with
  | .ok =>
      if call.rnw then
        if choice.flipped % 2 = 1 then .error .parity else .ok choice.onBus
      else .ok call.data
  | .wait => .error .wait
  | .fault => .error .fault

def record (choice : Choice) (call : Call) : List Heard :=
  .request call.request ::
    if choice.ack = .ok ∧ call.rnw = false then [.written call.data true] else []

end Choice

namespace Chip

def choice (c : Chip) : Choice := c.choices c.served

def noted (c : Chip) (r : Request) : Chip :=
  { c with served := c.served + 1, heard := c.heard ++ [.request r] }

def after (c : Chip) (call : Call) : Chip :=
  { c with
    phase := .listen []
    served := c.served + 1
    heard := c.heard ++ c.choice.record call }

theorem accept_eq (c : Chip) (r : Request) : c.accept r =
    (c.noted r).tune (.turn (c.choice.ack.bits ++ c.choice.tail r) (c.choice.receives r)) := rfl

end Chip

namespace Swd
open Chip

variable {clash : Bool} {c : Chip} {s : Swd Bus}

theorem at_ask (call : Call) (h : s.At true clash c) (hl : c.phase = .listen []) :
    (s.ask call).1.toUInt8 = c.choice.ack.code ∧
      (s.ask call).2.At false clash ((c.noted call.request).sending
        (c.choice.tail call.request) (c.choice.receives call.request)) := by
  have hheader : Hears (Io.bitsOf (makeRequest call.apndp call.rnw call.addr).toUInt32 8) c
      (c.accept call.request) := by
    rw [bitsOf_makeRequest]
    exact hears_header hl call.request
  have hturned := at_give (at_write h hheader) (fun sample => by rw [accept_eq, rise_turn])
  have hlen : c.choice.ack.bits.length = 3 := by cases c.choice.ack <;> rfl
  obtain ⟨hvalue, hat⟩ := at_read hlen hturned (tells_sending _ _ _ _)
  refine ⟨?_, hat⟩
  rw [ask, hvalue, Ack.gather_bits]

theorem at_receive {choice : Choice} (h : s.At false clash (c.sending choice.onLine false)) :
    (receive s).1 = (if choice.flipped % 2 = 1 then .error .parity else .ok choice.onBus) ∧
      (receive s).2.At true clash (c.tune (.listen [])) := by
  have hlen := length_bitsOf choice.onBus 32
  rw [Choice.onLine_eq] at h
  obtain ⟨hword, hread⟩ := at_read hlen h (tells_sending _ _ _ _)
  rw [gather_bitsOf] at hword
  obtain ⟨hparity, hbit⟩ := Bus.at_readBit hread.bus (driven_sending c choice.onParity [] false)
  rw [rise_sending] at hbit
  have hturned := at_resume (s := { (s.read 32).2 with io := (Io.readBit (s.read 32).2.io).2 })
    ⟨hread.driving, hbit⟩ (rise_released _) rfl
  by_cases hodd : choice.flipped % 2 = 1
  · have hbad := (Choice.parity_detects choice).mpr hodd
    rw [← hparity, ← hword] at hbad
    rw [receive, if_pos hbad, if_pos hodd]
    exact ⟨rfl, hturned⟩
  · have hgood : ¬choice.onParity ≠ oddOnes choice.onBus :=
      fun hbad => hodd ((Choice.parity_detects choice).mp hbad)
    rw [← hparity, ← hword] at hgood
    rw [receive, if_neg hgood, if_neg hodd]
    exact ⟨congrArg Except.ok hword, at_idle hturned rfl⟩

theorem at_send (data : UInt32) (h : s.At false clash (c.sending [] true)) :
    (send data s).1 = .ok data ∧ (send data s).2.At true clash
      { c with phase := .listen [], heard := c.heard ++ [.written data true] } := by
  have hlen := length_bitsOf data 32
  have hword : UInt32.ofNat (Bits.value (Io.bitsOf data 32)) = data := by
    rw [value_bitsOf]
    exact UInt32.ofNat_toNat
  have hturned := at_resume h (rise_receiving _) rfl
  have hdata := at_write hturned (hears_data c [] (Io.bitsOf data 32) hlen.le)
  have hdone := Bus.at_writeBits hdata.bus (hears_parity hlen (oddOnes data))
  rw [takeWord, hword, beq_self_eq_true] at hdone
  exact ⟨rfl, at_idle ⟨hdata.driving, hdone⟩ rfl⟩

theorem after_refused (call : Call) (h : c.choice.ack ≠ .ok) :
    (c.noted call.request).tune (.listen []) = c.after call := by
  have hnot : ¬(c.choice.ack = .ok ∧ call.rnw = false) := fun hok => h hok.1
  rw [after, Choice.record, if_neg hnot]
  rfl

theorem after_read (call : Call) (h : call.rnw = true) :
    (c.noted call.request).tune (.listen []) = c.after call := by
  have hnot : ¬(c.choice.ack = .ok ∧ call.rnw = false) := fun hw => by
    rw [h] at hw
    exact Bool.noConfusion hw.2
  rw [after, Choice.record, if_neg hnot]
  rfl

theorem after_write (call : Call) (ha : c.choice.ack = .ok) (h : call.rnw = false) :
    { c.noted call.request with
      phase := .listen [],
      heard := (c.noted call.request).heard ++ [.written call.data true] } = c.after call := by
  rw [after, Choice.record, if_pos ⟨ha, h⟩]
  simp only [noted, List.append_assoc, List.singleton_append]

theorem at_execute (call : Call) (h : s.At true clash c) (hl : c.phase = .listen []) :
    (s.execute call).1 = c.choice.answer call ∧
      (s.execute call).2.At true clash (c.after call) := by
  obtain ⟨hcode, hat⟩ := at_ask call h hl
  rw [execute_eq, hcode]
  by_cases hack : c.choice.ack = .ok
  · rw [if_pos (by rw [hack]; rfl)]
    cases hrnw : call.rnw with
    | true =>
      have htail : c.choice.tail call.request = c.choice.onLine := if_pos ⟨hack, hrnw⟩
      have hreceives : c.choice.receives call.request = false :=
        decide_eq_false (fun hw => Bool.noConfusion (hrnw.symm.trans hw.2))
      rw [htail, hreceives] at hat
      obtain ⟨hresult, hdone⟩ := at_receive hat
      rw [after_read call hrnw] at hdone
      rw [Choice.answer, hack, hrnw]
      exact ⟨hresult, hdone⟩
    | false =>
      have htail : c.choice.tail call.request = [] :=
        if_neg (fun hr => Bool.noConfusion (hrnw.symm.trans hr.2))
      have hreceives : c.choice.receives call.request = true := decide_eq_true ⟨hack, hrnw⟩
      rw [htail, hreceives] at hat
      obtain ⟨hresult, hdone⟩ := at_send call.data hat
      rw [after_write call hack hrnw] at hdone
      rw [Choice.answer, hack, hrnw]
      exact ⟨hresult, hdone⟩
  · have htail : c.choice.tail call.request = [] := if_neg (fun hok => hack hok.1)
    have hreceives : c.choice.receives call.request = false :=
      decide_eq_false (fun hok => hack hok.1)
    rw [htail, hreceives] at hat
    have hdone := at_idle (at_resume hat (rise_released _) rfl) rfl
    rw [after_refused call hack] at hdone
    cases ha : c.choice.ack with
    | ok => exact absurd ha hack
    | wait =>
      rw [Choice.answer, ha]
      exact ⟨rfl, hdone⟩
    | fault =>
      rw [Choice.answer, ha]
      exact ⟨rfl, hdone⟩

structure Ready (s : Swd Bus) : Prop where
  driving : s.driving = true
  output : s.io.output = true
  listening : s.io.chip.phase = .listen []

theorem Ready.at (h : Ready s) : s.At true s.io.clash s.io.chip := ⟨h.driving, h.output, rfl, rfl⟩

theorem At.ready (h : s.At true clash c) (hl : c.phase = .listen []) : Ready s :=
  ⟨h.driving, h.bus.output, by rw [h.bus.chip, hl]⟩

structure Agrees (call : Call) (choice : Choice) (result : Except TErr UInt32)
    (heard : List Heard) : Prop where
  decoded : heard.head? = some (.request call.request)
  waited : choice.ack = .wait → result = .error .wait ∧ heard = [.request call.request]
  faulted : choice.ack = .fault → result = .error .fault ∧ heard = [.request call.request]
  readOk : choice.ack = .ok → call.rnw = true → heard = [.request call.request] ∧
    (choice.flips = 0 → choice.flipsParity = false → result = .ok choice.word)
  corrupted : choice.ack = .ok → call.rnw = true → choice.flipped % 2 = 1 →
    result = .error .parity
  written : choice.ack = .ok → call.rnw = false →
    result = .ok call.data ∧ heard = [.request call.request, .written call.data true]

inductive Agreed (choices : ℕ → Choice) :
    ℕ → List Call → List (Except TErr UInt32) → List Heard → Prop
  | nil (n : ℕ) : Agreed choices n [] [] []
  | cons {n call calls result results heard rest} : Agrees call (choices n) result heard →
      Agreed choices (n + 1) calls results rest →
      Agreed choices n (call :: calls) (result :: results) (heard ++ rest)

theorem agrees_answer (call : Call) (choice : Choice) :
    Agrees call choice (choice.answer call) (choice.record call) := by
  refine ⟨rfl, fun ha => ?_, fun ha => ?_, fun ha hr => ⟨?_, fun hf hp => ?_⟩, fun ha hr ho => ?_,
    fun ha hr => ?_⟩
  · rw [Choice.answer, Choice.record, ha]
    exact ⟨rfl, rfl⟩
  · rw [Choice.answer, Choice.record, ha]
    exact ⟨rfl, rfl⟩
  · rw [Choice.record, if_neg (fun hw => Bool.noConfusion (hr.symm.trans hw.2))]
  · have heven : ¬choice.flipped % 2 = 1 := by
      rw [Choice.flipped, hf, hp]
      decide
    rw [Choice.answer, ha]
    simp only [hr, if_pos, if_neg heven, Choice.onBus, hf, UInt32.xor_zero]
  · rw [Choice.answer, ha]
    simp only [hr, if_pos, if_pos ho]
  · rw [Choice.record, if_pos (And.intro ha hr), Choice.answer, ha]
    exact ⟨if_neg (hr ▸ Bool.false_ne_true), rfl⟩

theorem at_transfers (calls : List Call) (h : s.At true clash c) (hl : c.phase = .listen []) :
    ∃ heard, Agreed c.choices c.served calls (s.transfers calls).1 heard ∧
      (s.transfers calls).2.At true clash
        { c with served := c.served + calls.length, heard := c.heard ++ heard } := by
  induction calls generalizing s c with
  | nil => exact ⟨[], .nil _, by rw [List.append_nil]; exact h⟩
  | cons call calls ih =>
    obtain ⟨hresult, hat⟩ := at_execute call h hl
    obtain ⟨rest, hrest, hdone⟩ := ih hat rfl
    refine ⟨c.choice.record call ++ rest, ?_, ?_⟩
    · rw [transfers, hresult]
      exact .cons (agrees_answer call c.choice) hrest
    · have hchip : { c.after call with
          served := (c.after call).served + calls.length,
          heard := (c.after call).heard ++ rest } = { c with
          served := c.served + (call :: calls).length,
          heard := c.heard ++ (c.choice.record call ++ rest) } := by
        simp only [after, hl, List.length_cons, List.append_assoc, Nat.add_assoc, Nat.add_comm 1]
      rw [hchip] at hdone
      exact hdone

theorem transfers_agree (calls : List Call) (s : Swd Bus) (h : Ready s) :
    ∃ heard, (transfers calls s).2.io.chip.heard = s.io.chip.heard ++ heard ∧
      Agreed s.io.chip.choices s.io.chip.served calls (transfers calls s).1 heard ∧
      Ready (transfers calls s).2 ∧ (transfers calls s).2.io.clash = s.io.clash := by
  obtain ⟨heard, hagreed, hat⟩ := at_transfers calls h.at h.listening
  exact ⟨heard, congrArg Chip.heard hat.bus.chip, hagreed, hat.ready h.listening, hat.bus.clash⟩

def attached : Swd Bus := new (Bus.new (fun _ => ⟨.ok, 0x2BA01477, 0, false⟩))

def readThenWrite : List Call := [⟨false, true, 0x00, none⟩, ⟨true, false, 0x04, some 1⟩]

theorem transfers_agree_attached :
    ∃ heard, (transfers readThenWrite attached).2.io.chip.heard = [] ++ heard ∧
      Agreed attached.io.chip.choices 0 readThenWrite (transfers readThenWrite attached).1 heard ∧
      Ready (transfers readThenWrite attached).2 ∧
      (transfers readThenWrite attached).2.io.clash = false :=
  transfers_agree readThenWrite attached ⟨rfl, rfl, rfl⟩

end Swd

end DapProxy.Target
