import DapProxy.Host.Link
import Mathlib.Logic.Function.Basic
import Mathlib.Tactic.Common

namespace DapProxy.Host

structure Answer where
  bytes : List UInt8
  bounded : bytes.length ≤ maxFrame

inductive Fate where
  | succeed
  | fail (e : IoError) (moved : ℕ)
  | elapse (moved : ℕ)

structure Write where
  conn : ℕ
  data : List UInt8
  whole : Bool

structure Peer where
  answers : ℕ → ℕ → Answer
  fate : ℕ → Fate
  clock : ℕ → ℕ
  tick : ℕ
  opened : ℕ
  writes : List Write
  taken : ℕ → ℕ

def received (ws : List Write) (c : ℕ) : List Write :=
  ws.filter (fun w => w.conn == c && w.whole)

namespace Peer

def new (answers : ℕ → ℕ → Answer) (fate : ℕ → Fate) (clock : ℕ → ℕ) : Peer :=
  ⟨answers, fate, clock, 0, 0, [], fun _ => 0⟩

def stream (answers : ℕ → ℕ → Answer) (c n : ℕ) : List UInt8 :=
  (List.range n).flatMap (fun i => wire (answers c i).bytes)

def unread (p : Peer) (c : ℕ) : List UInt8 :=
  (stream p.answers c (received p.writes c).length).drop (p.taken c)

def advance (p : Peer) : Peer := { p with tick := p.tick + 1 }

def take (p : Peer) (c n : ℕ) : Peer :=
  { p with taken := Function.update p.taken c (p.taken c + n) }

def write (p : Peer) (c : ℕ) (data : List UInt8) (whole : Bool) : Peer :=
  { p with writes := p.writes ++ [⟨c, data, whole⟩] }

instance : Network Peer where
  connect p :=
    match p.fate p.tick with
    | .succeed => (.done p.opened, { p.advance with opened := p.opened + 1 })
    | .fail e _ => (.failed e, p.advance)
    | .elapse _ => (.elapsed, p.advance)
  writeAll c data p :=
    match p.fate p.tick with
    | .succeed => (.done (), p.advance.write c data true)
    | .fail e moved => (.failed e, p.advance.write c data (data.length ≤ moved))
    | .elapse moved => (.elapsed, p.advance.write c data (data.length ≤ moved))
  readExact c n p :=
    match p.fate p.tick with
    | .succeed =>
        if h : n ≤ (p.unread c).length then
          (.done (bufferOf n (p.unread c) h), p.advance.take c n)
        else (.elapsed, p.advance.take c (p.unread c).length)
    | .fail e moved => (.failed e, p.advance.take c (min moved (min n (p.unread c).length)))
    | .elapse moved => (.elapsed, p.advance.take c (min moved (min n (p.unread c).length)))
  close _ p := p
  micros p := p.clock p.tick

end Peer

def Settled (l : DapLink Peer) : Prop :=
  ∀ c, l.stream = some c →
    (∀ w ∈ l.net.writes, w.conn = c → w.whole) ∧
      l.net.taken c = (Peer.stream l.net.answers c (received l.net.writes c).length).length

end DapProxy.Host
