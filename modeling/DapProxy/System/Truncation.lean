import DapProxy.Host.Reader
import DapProxy.Target.Delivery

namespace DapProxy.System
open Framing Target Host
variable {T : Type} [Transport T]

def ProperPrefix (q p : List UInt8) : Prop := q <+: p ∧ q ≠ p

structure DeliveredWhole (s : Session T) (p : List UInt8) (cs : List Chunk) : Prop where
  received : ∃ rest, (s.ch.recvFrame 1024 (cs.map .chunk)).2 = some (.ok p, rest) ∨
    (s.ch.recvFrame 1024 (cs.map .chunk)).2 = some (.error .frameTooLarge, rest)
  uncut : ∀ q rest, (s.ch.recvFrame 1024 (cs.map .chunk)).2 = some (.ok q, rest) →
    ¬ProperPrefix q p
  handled : ∀ e ∈ (Firmware.runner T).outs (.serving s) (Firmware.deliver cs),
    ¬ProperPrefix e.req p

def oneByteChunks (bytes : List UInt8) : List Chunk := bytes.map .single

theorem chunkBytes_oneByteChunks (bytes : List UInt8) :
    chunkBytes (oneByteChunks bytes) = bytes := by
  induction bytes with
  | nil => rfl
  | cons b bs ih => exact congrArg (b :: ·) ih

theorem properPrefix_take {p : List UInt8} {n : ℕ} : ProperPrefix (p.take n) p ↔ n < p.length := by
  constructor
  · rintro ⟨-, hne⟩
    by_contra hle
    exact hne (List.take_of_length_le (by omega))
  · intro h
    refine ⟨List.take_prefix n p, fun heq => ?_⟩
    have := congrArg List.length heq
    rw [List.length_take] at this
    omega

section
variable {s : Session T} {p : List UInt8} {cs : List Chunk}

theorem chunks_ne_nil (h : chunkBytes cs = wire p) : cs ≠ [] := by
  rintro rfl
  cases h

theorem recvFrame_wire {ch : TcpChannel} (hm : ch.deframer.state = .magic)
    (hg : ch.deframer.isGarbage = false) (hp : p.length ≤ maxFrame)
    (hcs : chunkBytes cs = wire p) :
    (ch.recvFrame 1024 (cs.map .chunk)).2 =
      if p = [] then none else some (.ok (p.take 1024), []) := by
  have hlt : p.length < 65536 := Nat.lt_of_le_of_lt hp (by decide)
  have hk : ch.deframer.rejects ≤ maxRejects := by
    simpa [Deframer.isGarbage] using hg
  rw [(TcpChannel.recvFrame_spec (TcpChannel.refines_idle hm) _).2,
    specReceiver_wire (f := frameOf p hlt) (t := []) hk (chunks_ne_nil hcs)
      (by rw [List.nil_append, hcs]; rfl)]
  change (if p = [] then _ else _ : _ × Option (Received × List Read)).2 = _
  split <;> rfl

theorem handled_wire (hm : s.ch.deframer.state = .magic) (hg : s.ch.deframer.isGarbage = false)
    (hp : p.length ≤ maxFrame) (hcs : chunkBytes cs = wire p) :
    (Firmware.runner T).outs (.serving s) (Firmware.deliver cs) =
      if p = [] then [] else [⟨p.take 1024, (s.dap.answer (p.take 1024)).1⟩] := by
  have hlt : p.length < 65536 := Nat.lt_of_le_of_lt hp (by decide)
  have hk : s.ch.deframer.rejects ≤ maxRejects := by
    simpa [Deframer.isGarbage] using hg
  have hserved := Firmware.served_wire (f := frameOf p hlt) (TcpChannel.refines_idle hm) hk
    (chunks_ne_nil hcs) (by rw [List.nil_append, hcs]; rfl)
  split
  · next h => exact (hserved.silent h).1
  · next h => exact (hserved.answered h).1

theorem delivered_whole_iff (hm : s.ch.deframer.state = .magic)
    (hg : s.ch.deframer.isGarbage = false) (hp : p.length ≤ maxFrame)
    (hcs : chunkBytes cs = wire p) :
    (DeliveredWhole s p cs ↔ 1 ≤ p.length ∧ p.length ≤ 1024) ∧
      ((∀ e ∈ (Firmware.runner T).outs (.serving s) (Firmware.deliver cs),
        ¬ProperPrefix e.req p) ↔ p.length ≤ 1024) := by
  have hrecv := recvFrame_wire hm hg hp hcs
  have hhandled := handled_wire hm hg hp hcs
  by_cases hnil : p = []
  · rw [if_pos hnil] at hrecv hhandled
    refine ⟨⟨fun h => ?_, fun h => ?_⟩, by simp [hhandled, hnil]⟩
    · obtain ⟨rest, hr | hr⟩ := h.received <;> simp [hrecv] at hr
    · simp [hnil] at h
  · rw [if_neg hnil] at hrecv hhandled
    have hpos : 1 ≤ p.length := List.length_pos_iff.mpr hnil
    have hcut : ¬ProperPrefix (p.take 1024) p ↔ p.length ≤ 1024 := by
      rw [properPrefix_take, Nat.not_lt]
    refine ⟨⟨fun h => ⟨hpos, ?_⟩, fun h => ⟨?_, ?_, ?_⟩⟩, by simpa [hhandled] using hcut⟩
    · exact hcut.mp (h.uncut _ [] hrecv)
    · exact ⟨[], Or.inl (by rw [hrecv, List.take_of_length_le h.2])⟩
    · intro q rest hq
      rw [hrecv, Option.some.injEq, Prod.mk.injEq, Except.ok.injEq] at hq
      rw [← hq.1]
      exact hcut.mpr h.2
    · simpa [hhandled] using hcut.mpr h.2

end

def idleSession : Session Unplugged := ⟨.new, .new ⟨0x80⟩, .new⟩

theorem long_command_cut :
    let p := List.replicate 1025 (0x41 : UInt8)
    (idleSession.ch.recvFrame 1024 ((oneByteChunks (wire p)).map .chunk)).2 =
        some (.ok (p.take 1024), []) ∧
      ¬DeliveredWhole idleSession p (oneByteChunks (wire p)) := by
  intro p
  have hl : p.length = 1025 := List.length_replicate
  have hrecv : (idleSession.ch.recvFrame 1024 ((oneByteChunks (wire p)).map .chunk)).2 =
      if p = [] then none else some (.ok (p.take 1024), []) :=
    recvFrame_wire rfl rfl (by rw [hl]; decide) (chunkBytes_oneByteChunks _)
  rw [if_neg (List.length_pos_iff.mp (by omega))] at hrecv
  exact ⟨hrecv, fun h => h.uncut _ [] hrecv (properPrefix_take.mpr (by omega))⟩

theorem delivered_whole_full_buffer :
    let p := List.replicate 1024 (0x41 : UInt8)
    DeliveredWhole idleSession p (oneByteChunks (wire p)) := by
  intro p
  have hl : p.length = 1024 := List.length_replicate
  have hle : p.length ≤ maxFrame := by rw [hl]; decide
  exact (delivered_whole_iff (s := idleSession) rfl rfl hle (chunkBytes_oneByteChunks _)).1.mpr
    (by omega)

end DapProxy.System
