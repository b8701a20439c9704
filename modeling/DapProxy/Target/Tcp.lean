import DapProxy.Target.Frame

namespace DapProxy.Target
open Framing

inductive Error where
  | accept
  | disconnected
  | garbage
  | frameTooLarge
  deriving DecidableEq, Repr

structure Chunk where
  bytes : List UInt8
  nonempty : 0 < bytes.length
  bounded : bytes.length ≤ 128

def Chunk.single (b : UInt8) : Chunk := ⟨[b], Nat.one_pos, Nat.le_add_left 1 127⟩

inductive Read where
  | chunk (c : Chunk)
  | eof
  | failed

abbrev Received := Except Error (List UInt8)

structure TcpChannel where
  deframer : Deframer 1024

namespace TcpChannel

def new : TcpChannel := ⟨Deframer.new⟩

def recvRead (len : ℕ) (ch : TcpChannel) : Read → TcpChannel × Option Received
  | .failed => (ch, some (.error .disconnected))
  | .eof => (ch, some (.error .disconnected))
  | .chunk c =>
      -- the bytes behind a completed frame stay in the dropped chunk
      match (Deframer.feeder 1024).scan ch.deframer c.bytes with
      | (d, some (frame, _)) =>
          if len < frame.length then (⟨d⟩, some (.error .frameTooLarge))
          else (⟨d⟩, some (.ok frame))
      | (d, none) => (⟨d⟩, if d.isGarbage then some (.error .garbage) else none)

def receiver (len : ℕ) : Transducer TcpChannel Read Received := ⟨recvRead len⟩

def recvFrame (len : ℕ) (ch : TcpChannel) (reads : List Read) :
    TcpChannel × Option (Received × List Read) :=
  (receiver len).scan ch reads

def recvAll (len : ℕ) : TcpChannel → List Read → List Received
  | _, [] => []
  | ch, r :: rs =>
      match recvRead len ch r with
      | (ch', none) => recvAll len ch' rs
      | (_, some (.error e)) => [.error e]
      | (ch', some (.ok frame)) => .ok frame :: recvAll len ch' rs

theorem recvAll_recvFrame (len : ℕ) (ch : TcpChannel) (reads : List Read) :
    recvAll len ch reads =
      match recvFrame len ch reads with
      | (_, none) => []
      | (_, some (.error e, _)) => [.error e]
      | (ch', some (.ok frame, rest)) => .ok frame :: recvAll len ch' rest := by
  induction reads generalizing ch with
  | nil => rfl
  | cons r rs ih =>
    simp only [recvAll, recvFrame, receiver, Transducer.scan]
    rcases hr : recvRead len ch r with ⟨ch', _ | _ | frame⟩
    · exact ih ch'
    · rfl
    · rfl

def sendFrame (buf : List UInt8) : List UInt8 :=
  frameMagic :: lenLo buf.length :: lenHi buf.length :: buf

end TcpChannel

def specRead (s : Decoder UInt8) : Read → Decoder UInt8 × Option Received
  | .failed => (s, some (.error .disconnected))
  | .eof => (s, some (.error .disconnected))
  | .chunk c =>
      match dapFormat.decoder.scan s c.bytes with
      | (t, some (raw, _)) => (t, some (.ok (slice 1024 raw)))
      | (t, none) => (t, if maxRejects < t.noise then some (.error .garbage) else none)

def specReceiver : Transducer (Decoder UInt8) Read Received := ⟨specRead⟩

def specAll : Decoder UInt8 → List Read → List Received
  | _, [] => []
  | s, r :: rs =>
      match specRead s r with
      | (t, none) => specAll t rs
      | (_, some (.error e)) => [.error e]
      | (t, some (.ok frame)) => .ok frame :: specAll t rs

namespace TcpChannel

theorem length_slice (N : ℕ) (raw : List UInt8) : (slice N raw).length ≤ N :=
  List.length_take_le _ _

theorem receiver_simulates :
    Transducer.Simulates (receiver 1024) specReceiver (fun ch s => ch.deframer.Refines s) id where
  step := by
    intro ch s h r
    cases r with
    | failed => exact ⟨h, rfl⟩
    | eof => exact ⟨h, rfl⟩
    | chunk c =>
      obtain ⟨hr, ho⟩ := Deframer.feed_simulates.scan h c.bytes
      simp only [receiver, recvRead, specReceiver, specRead]
      rcases hd : (Deframer.feeder 1024).scan ch.deframer c.bytes with ⟨d, o⟩
      rcases ht : dapFormat.decoder.scan s c.bytes with ⟨t, _ | ⟨raw, rest⟩⟩
      · rw [hd, ht] at hr ho
        simp only [Option.map_none] at ho
        subst ho
        have hrej : d.rejects = t.noise := hr.rejects
        exact ⟨hr, by simp [Deframer.isGarbage, hrej]⟩
      · rw [hd, ht] at hr ho
        simp only [Option.map_some] at ho
        subst ho
        have hl := length_slice 1024 raw
        simpa [Nat.not_lt.mpr hl] using hr

theorem recvAll_spec {ch : TcpChannel} {s : Decoder UInt8} (h : ch.deframer.Refines s)
    (reads : List Read) : recvAll 1024 ch reads = specAll s reads := by
  induction reads generalizing ch s with
  | nil => rfl
  | cons r rs ih =>
    obtain ⟨hr, ho⟩ := receiver_simulates.step h r
    simp only [receiver, specReceiver, Option.map_id, id_eq] at hr ho
    simp only [recvAll, specAll]
    rcases hc : recvRead 1024 ch r with ⟨ch', o⟩
    rcases hs : specRead s r with ⟨t, o'⟩
    rw [hc, hs] at hr ho
    simp only at hr ho
    subst ho
    rcases o with _ | _ | frame
    · exact ih hr
    · rfl
    · exact congrArg (Except.ok frame :: ·) (ih hr)

theorem recvFrame_spec {ch : TcpChannel} {s : Decoder UInt8} (h : ch.deframer.Refines s)
    (reads : List Read) :
    (recvFrame 1024 ch reads).1.deframer.Refines (specReceiver.scan s reads).1 ∧
      (recvFrame 1024 ch reads).2 = (specReceiver.scan s reads).2 := by
  simpa [recvFrame] using receiver_simulates.scan h reads

theorem refines_new : new.deframer.Refines ⟨[], 0⟩ := Deframer.refines_new

theorem refines_idle {ch : TcpChannel} (h : ch.deframer.state = .magic) :
    ch.deframer.Refines ⟨[], ch.deframer.rejects⟩ := ⟨trivial, h, rfl⟩

end TcpChannel

end DapProxy.Target
