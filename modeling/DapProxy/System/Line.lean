import DapProxy.Host.Reader
import DapProxy.Target.Delivery

namespace DapProxy.System
open Framing Target Host

structure Tcp where
  toTarget : ℕ → List UInt8 → List Chunk
  toTarget_bytes : ∀ i bytes, chunkBytes (toTarget i bytes) = bytes
  toHost : ℕ → List UInt8 → List (List UInt8)
  toHost_bytes : ∀ i bytes, (toHost i bytes).flatten = bytes
  clock : ℕ → ℕ

inductive Fault where
  | failed (e : IoError)
  | elapsed

def Fault.outcome {α : Type} : Fault → Attempt α
  | .failed e => .failed e
  | .elapsed => .elapsed

structure Loss where
  eof : Bool
  onWrite : Option Fault
  onRead : Fault

structure Line (T : Type) where
  tcp : Tcp
  fw : Firmware T
  inbound : List UInt8
  outbound : List (List UInt8)
  log : List Exchange
  rounds : ℕ
  conns : ℕ
  lost : Option Loss

def gather : ℕ → List (List UInt8) → Option (List UInt8 × List (List UInt8))
  | 0, segs => some ([], segs)
  | _ + 1, [] => none
  | n + 1, seg :: segs =>
      if seg.length ≤ n + 1 then
        (gather (n + 1 - seg.length) segs).map (fun r => (seg ++ r.1, r.2))
      else some (seg.take (n + 1), seg.drop (n + 1) :: segs)

theorem gather_some {n : ℕ} (segs : List (List UInt8)) (h : n ≤ segs.flatten.length) :
    ∃ rest, gather n segs = some (segs.flatten.take n, rest) ∧
      rest.flatten = segs.flatten.drop n := by
  induction segs generalizing n with
  | nil =>
    obtain rfl : n = 0 := by simpa using h
    exact ⟨[], rfl, rfl⟩
  | cons seg segs ih =>
    cases n with
    | zero => exact ⟨seg :: segs, rfl, rfl⟩
    | succ n =>
      simp only [List.flatten_cons, List.length_append] at h
      by_cases hs : seg.length ≤ n + 1
      · obtain ⟨rest, hg, hr⟩ := ih (n := n + 1 - seg.length) (by omega)
        refine ⟨rest, ?_, ?_⟩
        · rw [gather, if_pos hs, hg, List.flatten_cons, List.take_append,
            List.take_of_length_le hs]
          rfl
        · rw [hr, List.flatten_cons, List.drop_append, List.drop_of_length_le hs, List.nil_append]
      · refine ⟨seg.drop (n + 1) :: segs, ?_, ?_⟩
        · rw [gather, if_neg hs, List.flatten_cons, List.take_append_of_le_length (by omega)]
        · rw [List.flatten_cons, List.flatten_cons, List.drop_append_of_le_length (by omega)]

namespace Line
variable {T : Type} [Transport T]

def new (tcp : Tcp) (transport : T) : Line T := ⟨tcp, .new transport, [], [], [], 0, 0, none⟩

def sentBytes (es : List Exchange) : List UInt8 :=
  es.flatMap (fun e => TcpChannel.sendFrame e.out)

def pump (n : Line T) : Line T :=
  let events := Firmware.deliver (n.tcp.toTarget n.rounds n.inbound)
  let es := (Firmware.runner T).outs n.fw events
  { n with
    fw := (Firmware.runner T).run n.fw events
    inbound := []
    outbound := n.outbound ++ n.tcp.toHost n.rounds (sentBytes es)
    log := n.log ++ es
    rounds := n.rounds + 1 }

def starved (n : Line T) : Fault :=
  match n.fw with
  | .serving _ => .elapsed
  | .accepting _ _ => .failed ⟨false, "connection reset by peer"⟩

def hangUp (n : Line T) (r : Read) : Line T :=
  { n with fw := (n.fw.step (.read r true)).1, inbound := [], outbound := [] }

def lose (loss : Loss) (n : Line T) : Line T :=
  match n.fw with
  | .serving _ => { n.hangUp (if loss.eof then .eof else .failed) with lost := some loss }
  | .accepting _ _ => n

instance : Network (Line T) where
  connect n :=
    match n.fw with
    | .accepting _ _ =>
        (.done n.conns, { n with
          fw := (n.fw.step .accepted).1, inbound := [], outbound := [], lost := none,
          conns := n.conns + 1 })
    | .serving _ => (.elapsed, n)
  writeAll _ data n :=
    match n.lost with
    | none => (.done (), { n with inbound := n.inbound ++ data })
    | some loss =>
        match loss.onWrite with
        | none => (.done (), n)
        | some fault => (fault.outcome, n)
  readExact _ k n :=
    match n.lost with
    | some loss => (loss.onRead.outcome, n)
    | none =>
        let n := n.pump
        match gather k n.outbound with
        | some (bytes, rest) =>
            if h : k ≤ bytes.length then (.done (bufferOf k bytes h), { n with outbound := rest })
            else (n.starved.outcome, n)
        | none => (n.starved.outcome, n)
  close _ n :=
    match n.lost with
    | none => n.pump.hangUp .eof
    | some _ => n
  micros n := n.tcp.clock n.rounds

end Line

end DapProxy.System
