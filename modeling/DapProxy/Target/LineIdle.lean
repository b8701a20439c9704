import DapProxy.Target.Scope

namespace DapProxy.Target

structure Idle (s : Swd Scope) : Prop where
  driving : s.driving = true
  output : s.io.output = true
  low : ∃ before, s.io.cycles = before ++ List.replicate 8 ⟨true, false⟩

def oddBits (bits : List Bool) : Bool := bits.count true % 2 != 0

structure Garbled (rnw : Bool) (s : Scope) : Prop where
  read : rnw = true
  ack : s.sampled 9 3 = [true, false, false]
  odd : oddBits (s.sampled 12 33) = true

theorem gather_ack (bits : List Bool) (h : bits.length = 3) :
    (gather 0 bits 0).toUInt8 = 0b001 ↔ bits = [true, false, false] := by
  match bits, h with
  | [a, b, c], _ =>
    revert a b c
    decide

theorem parity_odd (bits : List Bool) (parity : Bool) (h : bits.length = 32) :
    parity ≠ oddOnes (gather 0 bits 0) ↔ oddBits (bits ++ [parity]) = true := by
  rw [oddOnes, countOnes, bitsOf_gather h, oddBits, List.count_append]
  rcases Nat.mod_two_eq_zero_or_one (bits.count true) with hb | hb <;> cases parity <;>
    simp [hb, Nat.add_mod]

namespace Swd
open Scope

structure After (s : Swd Scope) (output : Bool) (cycles : List Cycle) (s' : Swd Scope) :
    Prop where
  driving : s'.driving = output
  io : s.io.After output cycles s'.io

variable {s s₁ : Swd Scope} {o : Bool} {cs : List Cycle}

theorem scope_write (value : UInt32) (n : ℕ) (s : Swd Scope) :
    s.io.After s.io.output ((Io.bitsOf value n).map (Cycle.mk s.io.output))
      (s.write value n).io := after_writeBits s.io _

theorem scope_give (h : s.driving = true) :
    s.After false [⟨false, s.io.level⟩] s.turnaround := by
  rw [turnaround, if_pos h]
  exact ⟨rfl, rfl, rfl, rfl⟩

theorem scope_resume (h : s.driving = false) :
    s.After true [⟨s.io.output, s.io.level⟩] s.turnaround := by
  rw [turnaround, if_neg (by rw [h]; exact Bool.false_ne_true)]
  have hclock := after_clock s.io
  exact ⟨rfl, rfl, hclock.line, hclock.cycles⟩

theorem scope_read (h : s.After false cs s₁) (n : ℕ) :
    (s₁.read n).1 = gather 0 (s.io.sampled cs.length n) 0 ∧
      ∃ ds, s.After false ds (s₁.read n).2 ∧ ds.length = cs.length + n := by
  obtain ⟨hvalue, es, hes, hlen⟩ := after_readFrom s₁.io h.io.output 0 n 0
  rw [h.io.sampled, Nat.add_zero] at hvalue
  exact ⟨hvalue, cs ++ es, ⟨h.driving, h.io.trans hes⟩, by rw [List.length_append, hlen]⟩

theorem idle_idle (hd : s.driving = true) (ho : s.io.output = true) : Idle s.idle := by
  have hidle := scope_write 0x00 8 s
  rw [ho] at hidle
  exact ⟨hd, hidle.output, s.io.cycles, hidle.cycles⟩

theorem resume_idle (h : s.After false cs s₁) : Idle s₁.turnaround.idle := by
  have hresume := scope_resume h.driving
  exact idle_idle hresume.driving hresume.io.output

theorem resume_not_idle (h : s.After false cs s₁) : ¬Idle s₁.turnaround := by
  rintro ⟨-, -, before, hlow⟩
  rw [(scope_resume h.driving).io.cycles, List.replicate_succ', ← List.append_assoc] at hlow
  have hlast := (List.append_inj' hlow rfl).2
  rw [h.io.output] at hlast
  cases hlast

theorem scope_ask (call : Call) (h : s.driving = true) :
    (s.ask call).1 = gather 0 (s.io.sampled 9 3) 0 ∧
      ∃ cs, s.After false cs (s.ask call).2 ∧ cs.length = 12 := by
  have hheader := scope_write (makeRequest call.apndp call.rnw call.addr).toUInt32 8 s
  have hgive := scope_give
    (s := s.write (makeRequest call.apndp call.rnw call.addr).toUInt32 8) h
  exact scope_read ⟨hgive.driving, hheader.trans hgive.io⟩ 3

theorem acknowledged_iff (call : Call) (h : s.driving = true) :
    (s.ask call).1.toUInt8 = 0b001 ↔ s.io.sampled 9 3 = [true, false, false] := by
  rw [(scope_ask call h).1, gather_ack _ (length_sampled ..)]

theorem send_idle (data : UInt32) (h : s.After false cs s₁) : Idle (s₁.send data).2 := by
  have hresume := scope_resume h.driving
  have hdata := scope_write data 32 s₁.turnaround
  have hparity := after_writeBit (s₁.turnaround.write data 32).io (oddOnes data)
  exact idle_idle hresume.driving (hparity.output.trans (hdata.output.trans hresume.io.output))

theorem receive_idle_iff (h : s.After false cs s₁) :
    Idle s₁.receive.2 ↔ oddBits (s.io.sampled cs.length 33) = false := by
  obtain ⟨hword, ds, hds, hlen⟩ := scope_read h 32
  obtain ⟨hparity, hbit⟩ := after_readBit (s₁.read 32).2.io hds.io.output
  rw [hds.io.line, hds.io.cycles, List.length_append, hlen, ← Nat.add_assoc] at hparity
  have hdone : s.After false (ds ++ [⟨false, (s₁.read 32).2.io.level⟩])
      { (s₁.read 32).2 with io := (Io.readBit (s₁.read 32).2.io).2 } :=
    ⟨hds.driving, hds.io.trans hbit⟩
  have hodd := parity_odd (s.io.sampled cs.length 32) (Io.readBit (s₁.read 32).2.io).1
    (length_sampled ..)
  rw [hparity, ← sampled_snoc, ← hparity, ← hword] at hodd
  by_cases hbad : oddBits (s.io.sampled cs.length 33) = true
  · rw [receive, if_pos (hodd.mpr hbad), hbad]
    exact iff_of_false (resume_not_idle hdone) Bool.noConfusion
  · rw [receive, if_neg (fun hne => hbad (hodd.mp hne)), Bool.eq_false_of_not_eq_true hbad]
    exact iff_of_true (resume_idle hdone) rfl

theorem execute_idle_iff (call : Call) (h : s.driving = true) :
    Idle (s.execute call).2 ↔ ¬Garbled call.rnw s.io := by
  obtain ⟨-, cs, hcs, hlen⟩ := scope_ask call h
  have hok := acknowledged_iff call h
  rw [execute_eq]
  by_cases hack : s.io.sampled 9 3 = [true, false, false]
  · rw [if_pos (hok.mpr hack)]
    cases hrnw : call.rnw with
    | false => exact iff_of_true (send_idle _ hcs) fun hg => Bool.noConfusion hg.read
    | true =>
      have hreceive := receive_idle_iff hcs
      rw [hlen] at hreceive
      refine hreceive.trans ⟨fun heven hg => ?_, fun hg => ?_⟩
      · rw [hg.odd] at heven
        cases heven
      · exact Bool.eq_false_of_not_eq_true fun hodd => hg ⟨rfl, hack, hodd⟩
  · rw [if_neg fun heq => hack (hok.mp heq)]
    exact iff_of_true (resume_idle hcs) fun hg => hack hg.ack

theorem transfer_idle_iff (apndp rnw : Bool) (addr : UInt8) (value : Option UInt32)
    (s : Swd Scope) (h : s.driving = true) :
    Idle (transfer apndp rnw addr value s).2 ↔ ¬Garbled rnw s.io :=
  execute_idle_iff ⟨apndp, rnw, addr, value⟩ h

def answering : Scope := ⟨false, true, true, true, fun n => n == 9 || n == 12 || n == 44, []⟩

theorem transfer_idle_answered :
    (transfer false true 0x00 none (new answering)).1 = .ok 1 ∧
      Idle (transfer false true 0x00 none (new answering)).2 := by
  refine ⟨by rfl, (transfer_idle_iff false true 0x00 none (new answering) rfl).mpr fun hg => ?_⟩
  exact absurd hg.odd (by decide)

def garbling : Scope := ⟨false, true, true, true, fun n => n == 9 || n == 12, []⟩

theorem parity_error_not_idle :
    (transfer false true 0x00 none (new garbling)).1 = .error .parity ∧
      ¬Idle (transfer false true 0x00 none (new garbling)).2 := by
  refine ⟨by rfl, ?_⟩
  exact fun hidle => (execute_idle_iff ⟨false, true, 0x00, none⟩ rfl).mp hidle
    ⟨rfl, by decide, by decide⟩

end Swd

end DapProxy.Target
