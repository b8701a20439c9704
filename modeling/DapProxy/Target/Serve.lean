import DapProxy.Target.Answer
import DapProxy.Target.Tcp

namespace DapProxy.Target
open Framing Checked
variable {T : Type} [Transport T]

abbrev RespBuffer := { buf : List UInt8 // buf.length = 1024 }

def RespBuffer.new : RespBuffer := ⟨List.replicate 1024 0, List.length_replicate⟩

namespace Dap

theorem handle_total (d : Dap T) (req : List UInt8) (resp : RespBuffer) :
    ∃ r, d.handle req resp.1 = some r ∧ r.2.1.length = 1024 := by
  refine ⟨_, d.handle_writes req resp.1 resp.2, ?_⟩
  rw [length_overwrite ((d.answer_fits req).2.trans_eq resp.2.symm), resp.2]

theorem handle_isSome (d : Dap T) (req : List UInt8) (resp : RespBuffer) :
    (d.handle req resp.1).isSome := by
  obtain ⟨r, hr, -⟩ := d.handle_total req resp
  simp [hr]

theorem handle_sized (d : Dap T) (req : List UInt8) (resp : RespBuffer) :
    ((d.handle req resp.1).get (d.handle_isSome req resp)).2.1.length = 1024 := by
  obtain ⟨r, hr, hl⟩ := d.handle_total req resp
  simpa [hr] using hl

def handleFrame (d : Dap T) (req : List UInt8) (resp : RespBuffer) :
    List UInt8 × RespBuffer × Dap T :=
  let r := (d.handle req resp.1).get (d.handle_isSome req resp)
  (r.2.1.take r.1, ⟨r.2.1, d.handle_sized req resp⟩, r.2.2)

theorem handleFrame_eq (d : Dap T) (req : List UInt8) (resp : RespBuffer) :
    (d.handleFrame req resp).1 = (d.answer req).1 ∧
      (d.handleFrame req resp).2.2 = (d.answer req).2 := by
  have h := d.handle_writes req resp.1 resp.2
  simp [handleFrame, h, take_overwrite]

end Dap

def TcpChannel.finish (ch : TcpChannel) : TcpChannel := ch

structure Session (T : Type) where
  ch : TcpChannel
  dap : Dap T
  resp : RespBuffer

inductive Firmware (T : Type) where
  | accepting (ch : TcpChannel) (transport : T)
  | serving (s : Session T)

inductive Event where
  | accepted
  | acceptFailed
  | read (r : Read) (sent : Bool)

structure Exchange where
  req : List UInt8
  out : List UInt8

def Dap.exchanges (d : Dap T) : List (List UInt8) → List Exchange
  | [] => []
  | p :: ps => ⟨p, (d.answer p).1⟩ :: exchanges (d.answer p).2 ps

def Dap.after (d : Dap T) : List (List UInt8) → Dap T
  | [] => d
  | p :: ps => after (d.answer p).2 ps

theorem Dap.exchanges_req (d : Dap T) (ps : List (List UInt8)) :
    (d.exchanges ps).map (·.req) = ps := by
  induction ps generalizing d with
  | nil => rfl
  | cons p ps ih => exact congrArg (p :: ·) (ih _)

namespace Firmware

def new (transport : T) : Firmware T := .accepting .new transport

def channel : Firmware T → TcpChannel
  | .accepting ch _ => ch
  | .serving s => s.ch

def transport : Firmware T → T
  | .accepting _ t => t
  | .serving s => s.dap.transport

def serve (ch : TcpChannel) (transport : T) : Firmware T :=
  .serving ⟨ch, .new transport, .new⟩

def leave (ch : TcpChannel) (transport : T) : Firmware T := .accepting ch.finish transport

def serveRead (s : Session T) (r : Read) (sent : Bool) : Firmware T × Option Exchange :=
  match s.ch.recvRead 1024 r with
  | (ch, none) => (.serving { s with ch }, none)
  | (ch, some (.error _)) => (leave ch s.dap.transport, none)
  | (ch, some (.ok frame)) =>
      match s.dap.handleFrame frame s.resp with
      | (out, resp, dap) =>
          (if sent then .serving ⟨ch, dap, resp⟩ else leave ch dap.transport, some ⟨frame, out⟩)

def step : Firmware T → Event → Firmware T × Option Exchange
  | .accepting ch t, .accepted => (serve ch t, none)
  | .accepting ch t, .acceptFailed => (leave ch t, none)
  | .serving s, .read r sent => serveRead s r sent
  | fw, _ => (fw, none)

def runner (T : Type) [Transport T] : Transducer (Firmware T) Event Exchange := ⟨step⟩

theorem serveRead_cases {s : Session T} {d : Decoder UInt8} (h : s.ch.deframer.Refines d)
    (r : Read) (sent : Bool) :
    ∃ ch d', ch.deframer.Refines d' ∧
      ((specRead d r = (d', none) ∧ serveRead s r sent = (.serving { s with ch }, none)) ∨
        (∃ e, specRead d r = (d', some (.error e)) ∧
          serveRead s r sent = (leave ch s.dap.transport, none)) ∨
        ∃ frame resp, specRead d r = (d', some (.ok frame)) ∧
          serveRead s r sent =
            (if sent then .serving ⟨ch, (s.dap.answer frame).2, resp⟩
              else leave ch (s.dap.answer frame).2.transport,
            some ⟨frame, (s.dap.answer frame).1⟩)) := by
  obtain ⟨hr, ho⟩ := TcpChannel.receiver_simulates.step h r
  simp only [TcpChannel.receiver, specReceiver, Option.map_id, id_eq] at hr ho
  rcases hs : specRead d r with ⟨d', o⟩
  rcases hc : s.ch.recvRead 1024 r with ⟨ch, o'⟩
  rw [hs, hc] at hr ho
  simp only at hr ho
  subst ho
  refine ⟨ch, d', hr, ?_⟩
  rcases o' with _ | e | frame
  · exact Or.inl ⟨rfl, by simp [serveRead, hc]⟩
  · exact Or.inr (Or.inl ⟨e, rfl, by simp [serveRead, hc]⟩)
  · obtain ⟨hout, hdap⟩ := s.dap.handleFrame_eq frame s.resp
    refine Or.inr (Or.inr ⟨frame, (s.dap.handleFrame frame s.resp).2.1, rfl, ?_⟩)
    simp only [serveRead, hc, hout, hdap]

theorem step_refines {fw : Firmware T} (h : ∃ d, fw.channel.deframer.Refines d) (e : Event) :
    ∃ d, (step fw e).1.channel.deframer.Refines d := by
  cases fw with
  | accepting ch t => cases e <;> exact h
  | serving s =>
    cases e with
    | accepted => exact h
    | acceptFailed => exact h
    | read r sent =>
      obtain ⟨d, hd⟩ := h
      obtain ⟨ch, d', hr, ⟨-, hs⟩ | ⟨e, -, hs⟩ | ⟨frame, resp, -, hs⟩⟩ :=
        serveRead_cases hd r sent
      · exact ⟨d', by rw [step, hs]; exact hr⟩
      · exact ⟨d', by rw [step, hs]; exact hr⟩
      · refine ⟨d', ?_⟩
        rw [step, hs]
        cases sent <;> exact hr

theorem run_refines (fw : Firmware T) (h : ∃ d, fw.channel.deframer.Refines d)
    (events : List Event) : ∃ d, ((runner T).run fw events).channel.deframer.Refines d := by
  induction events generalizing fw with
  | nil => exact h
  | cons e es ih => exact ih _ (step_refines h e)

end Firmware

end DapProxy.Target
