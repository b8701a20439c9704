import DapProxy.Target.Scope
import DapProxy.Target.Serve

namespace DapProxy.Target

def bitsAsked (count : UInt8) : ℕ := if count = 0 then 256 else count.toNat

def bytesAsked (count : UInt8) : ℕ := (bitsAsked count + 7) / 8

def bitAsked (data : List UInt8) (i : ℕ) : Bool := (data[i / 8]?.getD 0).toNat.testBit (i % 8)

def clocked (output : Bool) (count : UInt8) (data : List UInt8) : List Cycle :=
  (List.range (bitsAsked count)).map (fun i => ⟨output, bitAsked data i⟩)

def sequenceRequest (count : UInt8) (data : List UInt8) : List UInt8 :=
  idSwjSequence :: count :: data

structure Sequenced (count : UInt8) (data : List UInt8) (d : Dap (Swd Scope)) (out : List UInt8)
    (d' : Dap (Swd Scope)) : Prop where
  enough : bytesAsked count ≤ data.length → out = [idSwjSequence, 0x00] ∧
    d'.transport.io.cycles =
      d.transport.io.cycles ++ clocked d.transport.io.output count data
  short : data.length < bytesAsked count → out = [idSwjSequence, 0xFF] ∧
    d'.transport.io.cycles = d.transport.io.cycles

theorem byte_eq_testBit (b : UInt8) {i : ℕ} (h : i < 8) :
    ((b >>> UInt8.ofNat i) &&& 1 != 0) = b.toNat.testBit i := by
  have hi : (UInt8.ofNat i).toNat = i := by
    rw [UInt8.toNat_ofNat']
    omega
  have hbit : (b >>> UInt8.ofNat i &&& 1).toNat = b.toNat / 2 ^ i % 2 := by
    rw [UInt8.toNat_and, UInt8.toNat_shiftRight, hi, UInt8.toNat_one, Nat.and_one_is_mod,
      Nat.shiftRight_eq_div_pow, Nat.mod_eq_of_lt h]
  rw [Nat.testBit_eq_decide_div_mod_eq, ← hbit, bne, Bool.eq_iff_iff]
  simp only [Bool.not_eq_true', beq_eq_false_iff_ne, decide_eq_true_iff, ne_eq, ← UInt8.toNat_inj,
    UInt8.toNat_zero]
  omega

theorem sequence_bits {count : UInt8} (data : List UInt8) {i : ℕ} (hi : i < count.toNat) :
    (((data.take ((count.toNat + 7) / 8))[i / 8]?.getD 0 >>> UInt8.ofNat (i % 8)) &&& 1 != 0) =
      bitAsked data i := by
  have hroom : i / 8 < (count.toNat + 7) / 8 := by omega
  rw [byte_eq_testBit _ (Nat.mod_lt _ (by decide)), List.getElem?_take_of_lt hroom, bitAsked]

namespace Swd

theorem swjSequence_writes {I : Type} [Io I] (s : Swd I) (count : UInt8) (data : List UInt8)
    (h : (count.toNat + 7) / 8 ≤ data.length) :
    s.swjSequence count (data.take ((count.toNat + 7) / 8)) =
      { s with io := Io.writeBits ((List.range count.toNat).map (bitAsked data)) s.io } := by
  have hclamp : min count.toNat ((data.take ((count.toNat + 7) / 8)).length * 8) =
      count.toNat := by
    rw [List.length_take]
    omega
  rw [swjSequence, hclamp]
  congr 2
  apply List.map_congr_left
  intro i hi
  exact sequence_bits data (List.mem_range.mp hi)

theorem swjSequence_cycles (s : Swd Scope) (count : UInt8) (data : List UInt8)
    (h : (count.toNat + 7) / 8 ≤ data.length) :
    (s.swjSequence count (data.take ((count.toNat + 7) / 8))).io.cycles = s.io.cycles ++
      (List.range count.toNat).map (fun i => ⟨s.io.output, bitAsked data i⟩) := by
  rw [swjSequence_writes s count data h]
  rw [(Scope.after_writeBits s.io _).cycles, List.map_map]
  rfl

end Swd

namespace Dap

theorem sequence_answered {I : Type} [Io I] (d : Dap (Swd I)) (count : UInt8) (data : List UInt8) :
    d.answer (sequenceRequest count data) =
      if data.length < (count.toNat + 7) / 8 then ([idSwjSequence, 0xFF], d)
      else ([idSwjSequence, 0x00], { d with
        transport := d.transport.swjSequence count (data.take ((count.toNat + 7) / 8)) }) := by
  change (idSwjSequence :: (d.sequenceAnswer (sequenceRequest count data)).1,
    (d.sequenceAnswer (sequenceRequest count data)).2) = _
  rw [sequenceRequest, sequenceAnswer]
  split <;> rfl

theorem sequence_zero_answered (d : Dap (Swd Scope)) (data : List UInt8) :
    d.answer (sequenceRequest 0 data) = ([idSwjSequence, 0x00], { d with
      transport := d.transport.swjSequence 0 (data.take (((0 : UInt8).toNat + 7) / 8)) }) := by
  rw [sequence_answered]
  exact if_neg (Nat.not_lt_zero _)

theorem sequenced_zero (d : Dap (Swd Scope)) (data : List UInt8) (resp : RespBuffer) :
    ¬Sequenced 0 data d (d.handleFrame (sequenceRequest 0 data) resp).1
      (d.handleFrame (sequenceRequest 0 data) resp).2.2 := by
  intro h
  obtain ⟨hout, hdap⟩ := d.handleFrame_eq (sequenceRequest 0 data) resp
  rw [sequence_zero_answered] at hout hdap
  by_cases hlen : bytesAsked 0 ≤ data.length
  · have hcycles := (h.enough hlen).2
    rw [hdap, Swd.swjSequence_cycles d.transport 0 data (Nat.zero_le _),
      List.append_cancel_left_eq] at hcycles
    have hcount := congrArg List.length hcycles
    rw [clocked, List.length_map, List.length_map, List.length_range, List.length_range] at hcount
    exact absurd hcount (by decide)
  · have hrefused := (h.short (Nat.lt_of_not_le hlen)).1
    rw [hout] at hrefused
    have hstatus : (0x00 : UInt8) = 0xFF := (List.cons.inj (List.cons.inj hrefused).2).1
    exact absurd hstatus (by decide)

theorem sequenced_counted {count : UInt8} (hc : count ≠ 0) (d : Dap (Swd Scope))
    (data : List UInt8) (resp : RespBuffer) :
    Sequenced count data d (d.handleFrame (sequenceRequest count data) resp).1
      (d.handleFrame (sequenceRequest count data) resp).2.2 := by
  have hbits : bitsAsked count = count.toNat := if_neg hc
  obtain ⟨hout, hdap⟩ := d.handleFrame_eq (sequenceRequest count data) resp
  rw [hout, hdap, sequence_answered]
  constructor
  · intro henough
    rw [bytesAsked, hbits] at henough
    rw [if_neg (Nat.not_lt.mpr henough), clocked, hbits]
    exact ⟨rfl, Swd.swjSequence_cycles d.transport count data henough⟩
  · intro hshort
    rw [bytesAsked, hbits] at hshort
    rw [if_pos hshort]
    exact ⟨rfl, rfl⟩

theorem sequence_exact_iff (d : Dap (Swd Scope)) (count : UInt8) (data : List UInt8)
    (resp : RespBuffer) :
    Sequenced count data d (d.handleFrame (sequenceRequest count data) resp).1
      (d.handleFrame (sequenceRequest count data) resp).2.2 ↔ count ≠ 0 := by
  constructor
  · rintro h rfl
    exact d.sequenced_zero data resp h
  · exact fun hc => d.sequenced_counted hc data resp

theorem sequence_of_256_skipped :
    let d := Dap.new (Swd.new (⟨false, true, true, true, fun _ => true, []⟩ : Scope))
    let r := d.handleFrame (sequenceRequest 0 (List.replicate 32 0xFF)) .new
    bytesAsked 0 = 32 ∧ r.1 = [idSwjSequence, 0x00] ∧ r.2.2.transport.io.cycles = [] ∧
      (clocked true 0 (List.replicate 32 0xFF)).length = 256 ∧
      ¬Sequenced 0 (List.replicate 32 0xFF) d r.1 r.2.2 := by
  intro d r
  obtain ⟨hout, hdap⟩ := d.handleFrame_eq (sequenceRequest 0 (List.replicate 32 0xFF)) .new
  rw [sequence_zero_answered] at hout hdap
  have hclocked := Swd.swjSequence_cycles d.transport 0 (List.replicate 32 0xFF) (Nat.zero_le _)
  refine ⟨rfl, hout, ?_, ?_, d.sequenced_zero _ _⟩
  · have hafter : r.2.2 = _ := hdap
    rw [hafter, hclocked]
    rfl
  · rw [clocked, List.length_map, List.length_range]
    rfl

end Dap

end DapProxy.Target
