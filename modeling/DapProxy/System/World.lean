import DapProxy.Framing.Bursts
import DapProxy.Host.Closure
import DapProxy.Host.Peer
import DapProxy.Target.Serve

namespace DapProxy.System
open Framing Target Host

structure Octet where
  byte : UInt8
  conn : ℕ
  copy : ℕ

structure Copy where
  conn : ℕ
  data : List UInt8

structure Execution where
  exchange : Exchange
  cause : Octet

inductive Move where
  | accept (c : ℕ)
  | acceptFailed
  | read (k : ℕ) (cut : Option ℕ)
  | hangUp (eof : Bool)

structure World (T : Type) where
  schedule : ℕ → List Move × Fate
  clock : ℕ → ℕ
  tick : ℕ
  fw : Firmware T
  current : Option ℕ
  opened : ℕ
  copies : List Copy
  toTarget : ℕ → List Octet
  toHost : ℕ → List UInt8
  fed : List Octet
  log : List Execution

def consumed (ch : TcpChannel) (bytes : List UInt8) : ℕ :=
  match (Deframer.feeder 1024).scan ch.deframer bytes with
  | (_, some (_, rest)) => bytes.length - rest.length
  | (_, none) => bytes.length

def chunkOf (os : List Octet) (h : 0 < os.length ∧ os.length ≤ 128) : Chunk :=
  ⟨os.map (·.byte), by simpa using h.1, by simpa using h.2⟩

def reply (cut : Option ℕ) (e : Exchange) : List UInt8 :=
  match cut with
  | none => TcpChannel.sendFrame e.out
  | some m => (TcpChannel.sendFrame e.out).take m

namespace World
variable {T : Type} [Transport T]

def new (schedule : ℕ → List Move × Fate) (clock : ℕ → ℕ) (transport : T) : World T where
  schedule := schedule
  clock := clock
  tick := 0
  fw := .new transport
  current := none
  opened := 0
  copies := []
  toTarget := fun _ => []
  toHost := fun _ => []
  fed := []
  log := []

def take (w : World T) (s : Session T) (c k : ℕ) (cut : Option ℕ) : World T :=
  let os := (w.toTarget c).take (min k 128)
  if h : 0 < os.length ∧ os.length ≤ 128 then
    let r := Firmware.serveRead s (.chunk (chunkOf os h)) cut.isNone
    let n := consumed s.ch (os.map (·.byte))
    { w with
      fw := r.1
      toTarget := Function.update w.toTarget c ((w.toTarget c).drop os.length)
      toHost := Function.update w.toHost c (w.toHost c ++ (r.2.map (reply cut)).getD [])
      fed := w.fed ++ os.take n
      log := w.log ++ (r.2.map (⟨·, (os.take n).getLastD os[0]⟩)).toList }
  else w

def move (w : World T) : Move → World T
  | .accept c =>
      match w.fw with
      | .accepting _ _ =>
          if (∀ b ∈ w.current, b < c) ∧ c < w.opened then
            { w with fw := (w.fw.step .accepted).1, current := some c }
          else w
      | .serving _ => w
  | .acceptFailed => { w with fw := (w.fw.step .acceptFailed).1 }
  | .read k cut =>
      match w.fw, w.current with
      | .serving s, some c => w.take s c k cut
      | _, _ => w
  | .hangUp eof => { w with fw := (w.fw.step (.read (if eof then .eof else .failed) true)).1 }

def settle (w : World T) (ms : List Move) : World T := ms.foldl move w

def stir (w : World T) : World T :=
  { w.settle (w.schedule w.tick).1 with tick := w.tick + 1 }

def fate (w : World T) : Fate := (w.schedule w.tick).2

def push (w : World T) (c : ℕ) (data : List UInt8) (moved : ℕ) : World T :=
  { w with
    copies := w.copies ++ [⟨c, data⟩]
    toTarget := Function.update w.toTarget c
      (w.toTarget c ++ (data.take moved).map (⟨·, c, w.copies.length⟩)) }

def pull (w : World T) (c n : ℕ) : World T :=
  { w with toHost := Function.update w.toHost c ((w.toHost c).drop n) }

instance : Network (World T) where
  connect w :=
    let w' := { w.stir with opened := w.stir.opened + 1 }
    match w.fate with
    | .succeed => (.done w.stir.opened, w')
    | .fail e _ => (.failed e, w')
    | .elapse _ => (.elapsed, w')
  writeAll c data w :=
    match w.fate with
    | .succeed => (.done (), w.stir.push c data data.length)
    | .fail e moved => (.failed e, w.stir.push c data moved)
    | .elapse moved => (.elapsed, w.stir.push c data moved)
  readExact c n w :=
    match w.fate with
    | .succeed =>
        if h : n ≤ (w.stir.toHost c).length then
          (.done (bufferOf n (w.stir.toHost c) h), w.stir.pull c n)
        else (.elapsed, w.stir.pull c n)
    | .fail e moved => (.failed e, w.stir.pull c moved)
    | .elapse moved => (.elapsed, w.stir.pull c moved)
  close _ w := w
  micros w := w.clock w.tick

end World

end DapProxy.System
