import DapProxy.Host.Handover
import DapProxy.Host.Replies
import DapProxy.System.Reconnect

namespace DapProxy.System
open Target Host DapLink

structure Probe (T : Type) where
  dap : Dap T
  unread : List UInt8
  log : List Exchange

namespace Probe
variable {T : Type} [Transport T]

def react (c : Command) (p : Probe T) : List UInt8 × Probe T :=
  match c with
  | .submit u data _ =>
      if u.ep = 0 then
        (retSubmitBytes u.seqnum (ep0Control u.setup).1 (ep0Control u.setup).2, p)
      else if u.direction = dirOut then
        let r := p.dap.answer data
        (retSubmitBytes u.seqnum 0 [], ⟨r.2, r.1, p.log ++ [⟨data, r.1⟩]⟩)
      else if u.direction = dirIn then
        (retSubmitBytes u.seqnum 0 (p.unread.take u.length.toNat),
          { p with unread := p.unread.drop u.length.toNat })
      else (retSubmitBytes u.seqnum epipe [], p)
  | .unlink u => (retUnlinkBytes u.seqnum, p)

def reset (p : Probe T) : Probe T := { p with dap := .new p.dap.transport }

end Probe

inductive Moment where
  | urb (c : Command)
  | loss (loss : Loss)

namespace Moment

def command : Moment → Option Command
  | .urb c => some c
  | .loss _ => none

def bytes : Moment → List UInt8
  | .urb c => c.bytes
  | .loss _ => []

end Moment

def order : Command → Option (List UInt8)
  | .submit u data _ => if u.ep ≠ 0 ∧ u.direction = dirOut then some data else none
  | .unlink _ => none

def Fits (c : Command) : Prop := ∀ p ∈ order c, 1 ≤ p.length ∧ p.length ≤ 1024

section
variable {T : Type} [Transport T]

def Probe.live : List Moment → Probe T → List (List UInt8) × Probe T
  | [], p => ([], p)
  | .urb c :: ms, p =>
      let r := p.react c
      let rs := live ms r.2
      (r.1 :: rs.1, rs.2)
  | .loss _ :: ms, p => live ms p.reset

inductive Linked (d : Dap T) (l : DapLink (Line T)) : Prop
  | ready (c : ℕ) (h : Ready d c l)
  | down (t : T) (hd : d = .new t) (h : Down t l)
  | severed (t : T) (c : ℕ) (loss : Loss) (hd : d = .new t) (h : Severed loss t c l)

structure Holds (p : Probe T) (s : UrbSession (Line T)) : Prop where
  link : Linked p.dap s.bridge.link
  unread : s.bridge.unread = p.unread
  log : s.bridge.link.net.log = p.log
  cut : ∀ n, s.client.cut n = none

end

def dropped : Loss := ⟨true, none, .failed ⟨true, "unexpected end of file"⟩⟩

end DapProxy.System
