import DapProxy.Host.Closure
import DapProxy.System.Lockstep

namespace DapProxy.System
open Framing Target Host DapLink
variable {T : Type} [Transport T]

structure Sound (n : Line T) : Prop where
  refines : ∃ d, n.fw.channel.deframer.Refines d
  nonempty : ∀ e ∈ n.log, e.req ≠ []

theorem sound_pump {n : Line T} (h : Sound n) : Sound n.pump where
  refines := Firmware.run_refines _ h.refines _
  nonempty := by
    intro e he
    simp only [Line.pump, List.mem_append] at he
    rcases he with he | he
    · exact h.nonempty e he
    · exact Firmware.outs_nonempty h.refines _ e he

theorem sound_upheld : Upholds (Sound (T := T)) where
  connect := by
    intro n h
    cases hfw : n.fw with
    | accepting ch t =>
      simp only [Network.connect, hfw]
      exact ⟨Firmware.step_refines (hfw ▸ h.refines) .accepted, h.nonempty⟩
    | serving s =>
      simp only [Network.connect, hfw]
      exact h
  writeAll := by
    intro n c data h
    cases hl : n.lost with
    | none =>
      simp only [Network.writeAll, hl]
      exact ⟨h.refines, h.nonempty⟩
    | some loss =>
      rcases hw : loss.onWrite with _ | fault <;> simp only [Network.writeAll, hl, hw] <;> exact h
  readExact := by
    intro n c k h
    cases hl : n.lost with
    | none =>
      have hp := sound_pump h
      simp only [Network.readExact, hl]
      split
      · split
        · exact ⟨hp.refines, hp.nonempty⟩
        · exact hp
      · exact hp
    | some loss =>
      simp only [Network.readExact, hl]
      exact h
  close := by
    intro n c h
    cases hl : n.lost with
    | none =>
      have hp := sound_pump h
      simp only [Network.close, hl]
      exact ⟨Firmware.step_refines hp.refines _, hp.nonempty⟩
    | some loss =>
      simp only [Network.close, hl]
      exact h

omit [Transport T] in
theorem sound_new (tcp : Tcp) (t : T) : Sound (Line.new tcp t) :=
  ⟨⟨_, TcpChannel.refines_new⟩, by simp [Line.new]⟩

theorem answered_iff (tcp : Tcp) (t : T) (ps : List (List UInt8))
    (h : ∀ p ∈ ps, p.length ≤ 1024) :
    let r := (DapLink.new (Line.new tcp t)).requests ps
    (r.2.net.log.map (·.req) = ps ∧ r.1 = r.2.net.log.map (fun e => .ok e.out)) ↔
      ∀ p ∈ ps, p ≠ [] := by
  constructor
  · rintro ⟨hlog, -⟩ p hp
    have hsound := sound_upheld.requests (l := DapLink.new (Line.new tcp t)) ps
      (sound_new tcp t)
    rw [← hlog, List.mem_map] at hp
    obtain ⟨e, he, rfl⟩ := hp
    exact hsound.nonempty e he
  · intro hne
    obtain ⟨l', hr, -, hlog, -⟩ := requests_new tcp t ps
      (fun p hp => ⟨List.length_pos_iff.mpr (hne p hp), h p hp⟩)
    simp only [hr, hlog, Dap.exchanges_req, and_self]

theorem empty_command_unanswered :
    let r := (DapLink.new (Line.new byteAtATime (⟨0x80⟩ : Unplugged))).requests [[]]
    r.1 = [.error .timeout] ∧ r.2.net.log.map (·.req) = [] := by
  exact ⟨rfl, rfl⟩

theorem answered_iff_three_commands :
    let ps : List (List UInt8) := [[0x00, 0xF0], [0xDA], [0x03]]
    let r := (DapLink.new (Line.new byteAtATime (⟨0x80⟩ : Unplugged))).requests ps
    r.2.net.log.map (·.req) = ps ∧ r.1 = r.2.net.log.map (fun e => .ok e.out) :=
  (answered_iff byteAtATime (⟨0x80⟩ : Unplugged) [[0x00, 0xF0], [0xDA], [0x03]]
    (by decide)).mpr (by decide)

end DapProxy.System
