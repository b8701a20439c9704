import DapProxy.System.Line
import DapProxy.System.Truncation
import DapProxy.Target.Isolation

namespace DapProxy.System
open Framing Target Host DapLink
variable {T : Type} [Transport T]

namespace Line

theorem pump_idle {n : Line T} (h : n.inbound = []) :
    n.pump.fw = n.fw ∧ n.pump.log = n.log ∧ n.pump.outbound.flatten = n.outbound.flatten := by
  have hcs : n.tcp.toTarget n.rounds [] = [] := by
    by_contra hne
    exact chunkBytes_ne_nil hne (n.tcp.toTarget_bytes n.rounds [])
  have houts : (Firmware.runner T).outs n.fw
      (Firmware.deliver (n.tcp.toTarget n.rounds [])) = [] := by
    rw [hcs]
    rfl
  refine ⟨?_, ?_, ?_⟩
  · simp only [pump, h, hcs]
    rfl
  · simp only [pump, h, houts, List.append_nil]
  · simp only [pump, h, houts, List.flatten_append, n.tcp.toHost_bytes]
    simp [sentBytes]

end Line

structure Ready (d : Dap T) (c : ℕ) (l : DapLink (Line T)) : Prop where
  stream : l.stream = some c
  lost : l.net.lost = none
  session : ∃ s, l.net.fw = .serving s ∧ s.dap = d ∧ s.ch.deframer.Refines ⟨[], 0⟩
  inbound : l.net.inbound = []
  outbound : l.net.outbound.flatten = []

structure Carried (l l' : DapLink (Line T)) (es : List Exchange) : Prop where
  log : l'.net.log = l.net.log ++ es
  conns : l'.net.conns = l.net.conns

structure Arriving (l₀ : DapLink (Line T)) (d : Dap T) (c : ℕ) (es : List Exchange)
    (full bytes : List UInt8) (l : DapLink (Line T)) : Prop where
  stream : l.stream = some c
  lost : l.net.lost = none
  conns : l.net.conns = l₀.net.conns
  metrics : l.metrics = l₀.metrics
  session : ∃ s, l.net.pump.fw = .serving s ∧ s.dap = d ∧ s.ch.deframer.Refines ⟨[], 0⟩
  log : l.net.pump.log = l₀.net.log ++ es
  outbound : l.net.pump.outbound.flatten = bytes
  drained : bytes ≠ full → l.net.inbound = []

theorem line_source (l₀ : DapLink (Line T)) (d : Dap T) (c : ℕ) (es : List Exchange)
    (full : List UInt8) : Source (Arriving l₀ d c es full) (fun _ => False) where
  read := by
    intro n bytes l h hn
    obtain ⟨rest, hg, hr⟩ := gather_some l.net.pump.outbound (n := n)
      (by rw [h.outbound]; exact hn)
    rw [h.outbound] at hg hr
    have hlen : n ≤ (bytes.take n).length := by
      rw [List.length_take]
      omega
    have hdone : Network.readExact c n l.net =
        (.done (bufferOf n (bytes.take n) hlen), { l.net.pump with outbound := rest }) := by
      simp only [Network.readExact, h.lost, hg, dif_pos hlen]
    refine Or.inl ⟨_, _, readExact_done _ h.stream hdone, ?_, ?_⟩
    · rw [bufferOf_toList, List.take_take, Nat.min_self]
    · obtain ⟨hfw, hlog, hout⟩ :=
        Line.pump_idle (n := { l.net.pump with outbound := rest }) rfl
      refine ⟨h.stream, h.lost, h.conns, h.metrics, ?_, hlog.trans h.log, hout.trans hr,
        fun _ => rfl⟩
      rw [hfw]
      exact h.session

section
variable {l : DapLink (Line T)} {d : Dap T} {c : ℕ} {p : List UInt8}

theorem arriving_of_write (h : Ready d c l) (hne : p ≠ []) (hp : p.length ≤ 1024) :
    Arriving l (d.answer p).2 c [⟨p, (d.answer p).1⟩] (wire (d.answer p).1 ++ [])
      (wire (d.answer p).1 ++ []) { l with net := { l.net with inbound := wire p } } := by
  have hlt : p.length < 65536 := by omega
  obtain ⟨s, hfw, rfl, hs⟩ := h.session
  have hbytes := l.net.tcp.toTarget_bytes l.net.rounds (wire p)
  have hcs : l.net.tcp.toTarget l.net.rounds (wire p) ≠ [] := by
    intro hnil
    rw [hnil] at hbytes
    cases hbytes
  obtain ⟨houts, ch, resp, hch, hrun⟩ := (Firmware.served_wire (f := frameOf p hlt) (t := []) hs
    (Nat.zero_le _) hcs (by rw [hbytes]; rfl)).answered hne
  rw [show (frameOf p hlt).payload.take 1024 = p from List.take_of_length_le hp] at houts hrun
  refine ⟨h.stream, h.lost, rfl, rfl, ⟨⟨ch, (s.dap.answer p).2, resp⟩, ?_, rfl, hch⟩, ?_, ?_,
    fun hf => absurd rfl hf⟩
  · simp only [Line.pump, hfw]
    exact hrun
  · simp only [Line.pump, hfw, houts]
  · simp only [Line.pump, hfw, houts, List.flatten_append, h.outbound, l.net.tcp.toHost_bytes]
    simp [Line.sentBytes, TcpChannel.sendFrame, wire_eq]
    rfl

theorem ready_of_arrived {l' : DapLink (Line T)} {es : List Exchange} {full : List UInt8}
    (h : Arriving l d c es full [] l') (hf : full ≠ []) : Ready d c l' ∧ Carried l l' es := by
  have hin := h.drained hf.symm
  obtain ⟨hfw, hlog, hout⟩ := Line.pump_idle hin
  refine ⟨⟨h.stream, h.lost, ?_, hin, hout.symm.trans h.outbound⟩, hlog.symm.trans h.log, h.conns⟩
  rw [← hfw]
  exact h.session

theorem tryRequest_ready (h : Ready d c l) (hne : p ≠ []) (hp : p.length ≤ 1024) :
    ∃ l', l.tryRequest p = (.ok (d.answer p).1, l') ∧ Ready (d.answer p).2 c l' ∧
      Carried l l' [⟨p, (d.answer p).1⟩] ∧ l'.metrics = l.metrics := by
  have hwrite : l.writeAll (wire p) =
      (.ok (), { l with net := { l.net with inbound := wire p } }) := by
    apply writeAll_done _ h.stream
    simp only [Network.writeAll, h.lost, h.inbound, List.nil_append]
  have hfits := (d.answer_fits p).2
  rcases (line_source l _ c _ _).readFrame (Nat.le_trans hfits (by decide))
    (arriving_of_write h hne hp) with ⟨l', hr, hl'⟩ | ⟨e, l', -, hfalse⟩
  · obtain ⟨hready, hcarried⟩ := ready_of_arrived hl' (by simp [wire])
    refine ⟨l', ?_, hready, hcarried, hl'.metrics⟩
    rw [tryRequest_written (ensure_connected h.stream) hwrite, hr]
  · exact hfalse.elim

theorem request_ready (h : Ready d c l) (hne : p ≠ []) (hp : p.length ≤ 1024) :
    ∃ l', l.request p = (.ok (d.answer p).1, l') ∧ Ready (d.answer p).2 c l' ∧
      Carried l l' [⟨p, (d.answer p).1⟩] ∧ l'.metrics.linkRetries = l.metrics.linkRetries := by
  have hcounted : Ready d c l.counted := ⟨h.stream, h.lost, h.session, h.inbound, h.outbound⟩
  obtain ⟨l', htry, hr, hc, hm⟩ := tryRequest_ready hcounted hne hp
  refine ⟨_, request_first (Nat.le_trans hp (by decide)) htry,
    ⟨hr.stream, hr.lost, hr.session, hr.inbound, hr.outbound⟩, ⟨hc.log, hc.conns⟩, ?_⟩
  change l'.metrics.linkRetries = l.counted.metrics.linkRetries
  rw [hm]

theorem requests_ready {ps : List (List UInt8)} (h : Ready d c l)
    (hps : ∀ p ∈ ps, 1 ≤ p.length ∧ p.length ≤ 1024) :
    ∃ d' l', l.requests ps = ((d.exchanges ps).map (fun e => .ok e.out), l') ∧ Ready d' c l' ∧
      Carried l l' (d.exchanges ps) ∧ l'.metrics.linkRetries = l.metrics.linkRetries := by
  induction ps generalizing l d with
  | nil => exact ⟨d, l, rfl, h, ⟨(List.append_nil _).symm, rfl⟩, rfl⟩
  | cons p ps ih =>
    obtain ⟨hp1, hp2⟩ := hps p (by simp)
    obtain ⟨l₁, hreq, h₁, hc₁, hm₁⟩ := request_ready h (List.length_pos_iff.mp hp1) hp2
    obtain ⟨d', l', hreqs, h', hc', hm'⟩ := ih h₁ (fun q hq => hps q (by simp [hq]))
    refine ⟨d', l', ?_, h', ⟨?_, hc'.conns.trans hc₁.conns⟩, hm'.trans hm₁⟩
    · simp only [DapLink.requests, hreq, hreqs, Dap.exchanges, List.map_cons]
    · rw [hc'.log, hc₁.log, List.append_assoc]
      rfl

end

structure Down (t : T) (l : DapLink (Line T)) : Prop where
  stream : l.stream = none
  accepting : ∃ ch, l.net.fw = .accepting ch t ∧ ch.deframer.Refines ⟨[], 0⟩

omit [Transport T] in
theorem down_new (tcp : Tcp) (t : T) : Down t (DapLink.new (Line.new tcp t)) :=
  ⟨rfl, _, rfl, TcpChannel.refines_new⟩

theorem connect_down {l : DapLink (Line T)} {t : T} (h : Down t l) :
    ∃ l', l.connect = (.ok (), l') ∧ Ready (Dap.new t) l.net.conns l' ∧
      l'.net.log = l.net.log ∧ l'.net.conns = l.net.conns + 1 ∧ l'.metrics = l.metrics := by
  obtain ⟨ch, hfw, hch⟩ := h.accepting
  refine ⟨_, connect_done { l.net with
    fw := .serving ⟨ch, .new t, .new⟩, inbound := [], outbound := [], lost := none,
    conns := l.net.conns + 1 } (c := l.net.conns) ?_,
    ⟨rfl, rfl, ⟨_, rfl, rfl, hch⟩, rfl, rfl⟩, rfl, rfl, rfl⟩
  simp only [Network.connect, hfw, Firmware.step, Firmware.serve]

theorem request_down {l : DapLink (Line T)} {t : T} {p : List UInt8} (h : Down t l)
    (hne : p ≠ []) (hp : p.length ≤ 1024) :
    ∃ l', l.request p = (.ok ((Dap.new t).answer p).1, l') ∧
      Ready ((Dap.new t).answer p).2 l.net.conns l' ∧
      l'.net.log = l.net.log ++ [⟨p, ((Dap.new t).answer p).1⟩] ∧
      l'.net.conns = l.net.conns + 1 ∧ l'.metrics.linkRetries = l.metrics.linkRetries := by
  obtain ⟨l₁, hconnect, h₁, hlog, hconns, hm⟩ :=
    connect_down (l := l.counted) (t := t) ⟨h.stream, h.accepting⟩
  obtain ⟨l', htry, hr, hc, hm'⟩ := tryRequest_ready h₁ hne hp
  rw [← tryRequest_connected (l := l.counted) h.stream hconnect h₁.stream] at htry
  refine ⟨_, request_first (Nat.le_trans hp (by decide)) htry,
    ⟨hr.stream, hr.lost, hr.session, hr.inbound, hr.outbound⟩, ?_, ?_, ?_⟩
  · exact hc.log.trans (congrArg (· ++ _) hlog)
  · exact hc.conns.trans hconns
  · change l'.metrics.linkRetries = l.counted.metrics.linkRetries
    rw [hm', hm]

theorem requests_new (tcp : Tcp) (t : T) (ps : List (List UInt8))
    (h : ∀ p ∈ ps, 1 ≤ p.length ∧ p.length ≤ 1024) :
    ∃ l', (DapLink.new (Line.new tcp t)).requests ps =
        (((Dap.new t).exchanges ps).map (fun e => .ok e.out), l') ∧
      (l' = DapLink.new (Line.new tcp t) ∨ ∃ d, Ready d 0 l') ∧
      l'.net.log = (Dap.new t).exchanges ps ∧ l'.net.conns ≤ 1 ∧ l'.metrics.linkRetries = 0 := by
  cases ps with
  | nil => exact ⟨_, rfl, Or.inl rfl, rfl, Nat.zero_le 1, rfl⟩
  | cons p ps =>
    obtain ⟨hp1, hp2⟩ := h p (by simp)
    obtain ⟨l₁, hr₁, h₁, hlog₁, hconns₁, hm₁⟩ :=
      request_down (down_new tcp t) (List.length_pos_iff.mp hp1) hp2
    obtain ⟨d', l', hrs, h', hc', hm'⟩ := requests_ready h₁
      (fun q hq => h q (List.mem_cons_of_mem p hq))
    refine ⟨l', ?_, Or.inr ⟨d', h'⟩, ?_, ?_, hm'.trans hm₁⟩
    · simp only [DapLink.requests, hr₁, hrs, Dap.exchanges, List.map_cons]
    · rw [hc'.log, hlog₁]
      rfl
    · rw [hc'.conns, hconns₁]
      exact Nat.le_refl 1

theorem lockstep (tcp : Tcp) (t : T) (ps : List (List UInt8))
    (h : ∀ p ∈ ps, 1 ≤ p.length ∧ p.length ≤ 1024) :
    let r := (DapLink.new (Line.new tcp t)).requests ps
    r.2.net.log.map (·.req) = ps ∧ r.2.net.log = (Dap.new t).exchanges ps ∧
      r.1 = r.2.net.log.map (fun e => .ok e.out) ∧
      r.2.net.inbound = [] ∧ r.2.net.outbound.flatten = [] ∧
      r.2.net.fw.channel.deframer.state = .magic ∧ r.2.net.fw.channel.deframer.rejects = 0 ∧
      r.2.net.conns ≤ 1 ∧ r.2.metrics.linkRetries = 0 := by
  obtain ⟨l', hr, hstate, hlog, hconns, hm⟩ := requests_new tcp t ps h
  simp only [hr]
  refine ⟨by rw [hlog, Dap.exchanges_req], hlog, by rw [hlog], ?_⟩
  rcases hstate with rfl | ⟨d, hready⟩
  · exact ⟨rfl, rfl, rfl, rfl, hconns, hm⟩
  · obtain ⟨s, hfw, -, hs⟩ := hready.session
    rw [hfw]
    exact ⟨hready.inbound, hready.outbound, hs.holds, hs.rejects, hconns, hm⟩

def byteAtATime : Tcp where
  toTarget _ bytes := oneByteChunks bytes
  toTarget_bytes _ := chunkBytes_oneByteChunks
  toHost _ bytes := [bytes]
  toHost_bytes _ _ := List.append_nil _
  clock i := i

theorem lockstep_two_commands :
    let r := (DapLink.new (Line.new byteAtATime (⟨0x80⟩ : Unplugged))).requests
      [[0x00, 0xF0], [0xDA]]
    r.1 = [.ok [0x00, 1, 1], .ok [0xDA, 0xFF]] := by
  have h := lockstep byteAtATime (⟨0x80⟩ : Unplugged) [[0x00, 0xF0], [0xDA]] (by decide)
  exact h.2.2.1.trans (congrArg _ h.2.1)

end DapProxy.System
