import Mathlib.Data.UInt

namespace DapProxy.Host

def maxFrame : ℕ := 4096

def frameMagic : UInt8 := 0xDA

structure IoError where
  unexpectedEof : Bool
  text : String
  deriving DecidableEq, Repr

inductive LinkError where
  | io (e : IoError)
  | disconnected
  | timeout
  | frameTooLarge (n : ℕ)
  | garbage
  deriving DecidableEq, Repr

def LinkError.toString : LinkError → String
  | .io e => "链路 IO 错误: " ++ e.text
  | .disconnected => "链路已断开"
  | .timeout => "链路超时"
  | .frameTooLarge n => "帧长度非法: " ++ ToString.toString n
  | .garbage => "链路数据无法同步"

inductive Attempt (α : Type) where
  | done (a : α)
  | failed (e : IoError)
  | elapsed

class Network (ν : Type) where
  connect : ν → Attempt ℕ × ν
  writeAll : ℕ → List UInt8 → ν → Attempt Unit × ν
  readExact : ℕ → (n : ℕ) → ν → Attempt (Vector UInt8 n) × ν
  close : ℕ → ν → ν
  micros : ν → ℕ

-- the code's counters are u64: fewer than 2 ^ 64 calls
structure Metrics where
  linkRequests : ℕ
  linkRetries : ℕ
  linkErrors : ℕ
  linkRttLast : ℕ
  linkRttEwma : ℕ
  linkRttMax : ℕ
  lastLinkError : Option String

namespace Metrics

def new : Metrics := ⟨0, 0, 0, 0, 0, 0, none⟩

def noteLinkError (m : Metrics) (msg : String) : Metrics :=
  { m with linkErrors := m.linkErrors + 1, lastLinkError := some msg }

def noteRtt (m : Metrics) (micros : ℕ) : Metrics :=
  let v := min micros 4294967295
  let avg := if m.linkRttEwma = 0 then v else (m.linkRttEwma * 4 + v) / 5
  { m with
    linkRttLast := v
    linkRttEwma := min avg 4294967295
    linkRttMax := if m.linkRttMax < v then v else m.linkRttMax }

end Metrics

structure DapLink (ν : Type) where
  stream : Option ℕ
  net : ν
  metrics : Metrics

def bufferOf (n : ℕ) (bytes : List UInt8) (h : n ≤ bytes.length) : Vector UInt8 n :=
  ⟨(bytes.take n).toArray, by simpa using h⟩

theorem bufferOf_toList {n : ℕ} {bytes : List UInt8} (h : n ≤ bytes.length) :
    (bufferOf n bytes h).toList = bytes.take n := by
  simp [bufferOf, Vector.toList]

abbrev Res (ν α : Type) := Except LinkError α × DapLink ν

def wire (payload : List UInt8) : List UInt8 :=
  frameMagic :: UInt8.ofNat (payload.length &&& 0xFF) :: UInt8.ofNat (payload.length >>> 8) ::
    payload

namespace DapLink
variable {ν : Type}

def new (net : ν) : DapLink ν := ⟨none, net, .new⟩

variable [Network ν]

def disconnect (l : DapLink ν) : DapLink ν :=
  match l.stream with
  | none => l
  | some c => { l with stream := none, net := Network.close c l.net }

def connect (l : DapLink ν) : Res ν Unit :=
  match Network.connect l.net with
  | (.done c, net) => (.ok (), { l with stream := some c, net })
  | (.failed e, net) => (.error (.io e), { l with net })
  | (.elapsed, net) => (.error .timeout, { l with net })

def ensure (l : DapLink ν) : Res ν Unit :=
  match l.stream with
  | none => l.connect
  | some _ => (.ok (), l)

def readExact (n : ℕ) (l : DapLink ν) : Res ν (Vector UInt8 n) :=
  match l.stream with
  | none => (.error .disconnected, l)
  | some c =>
      match Network.readExact c n l.net with
      | (.done buf, net) => (.ok buf, { l with net })
      | (.failed e, net) =>
          (.error (if e.unexpectedEof then .disconnected else .io e), { l with net })
      | (.elapsed, net) => (.error .timeout, { l with net })

def writeAll (data : List UInt8) (l : DapLink ν) : Res ν Unit :=
  match l.stream with
  | none => (.error .disconnected, l)
  | some c =>
      match Network.writeAll c data l.net with
      | (.done _, net) => (.ok (), { l with net })
      | (.failed e, net) => (.error (.io e), { l with net })
      | (.elapsed, net) => (.error .timeout, { l with net })

def skipToMagic : ℕ → DapLink ν → Res ν Unit
  | room, l =>
      match l.readExact 1 with
      | (.error e, l) => (.error e, l)
      | (.ok byte, l) =>
          if byte[0] = frameMagic then (.ok (), l)
          else
            match room with
            | 0 => (.error .garbage, l)
            | room + 1 => skipToMagic room l

def readFrame (l : DapLink ν) : Res ν (List UInt8) :=
  match l.skipToMagic maxFrame with
  | (.error e, l) => (.error e, l)
  | (.ok _, l) =>
      match l.readExact 2 with
      | (.error e, l) => (.error e, l)
      | (.ok len, l) =>
          let n := len[0].toNat ||| len[1].toNat <<< 8
          if maxFrame < n then (.error (.frameTooLarge n), l)
          else
            match l.readExact n with
            | (.error e, l) => (.error e, l)
            | (.ok payload, l) => (.ok payload.toList, l)

def tryRequest (payload : List UInt8) (l : DapLink ν) : Res ν (List UInt8) :=
  match l.ensure with
  | (.error e, l) => (.error e, l)
  | (.ok _, l) =>
      match l.writeAll (wire payload) with
      | (.error e, l) => (.error e, l.disconnect)
      | (.ok _, l) =>
          match l.readFrame with
          | (.error e, l) => (.error e, l.disconnect)
          | (.ok resp, l) => (.ok resp, l)

def request (payload : List UInt8) (l : DapLink ν) : Res ν (List UInt8) :=
  if maxFrame < payload.length then (.error (.frameTooLarge payload.length), l)
  else
    let t0 := Network.micros l.net
    let m := { l.metrics with linkRequests := l.metrics.linkRequests + 1 }
    match tryRequest payload { l with metrics := m } with
    | (.ok resp, l) =>
        (.ok resp, { l with metrics := l.metrics.noteRtt (Network.micros l.net - t0) })
    | (.error _, l) =>
        let m := { l.metrics with linkRetries := l.metrics.linkRetries + 1 }
        match (disconnect { l with metrics := m }).connect with
        | (.error e, l) => (.error e, l)
        | (.ok _, l) =>
            match tryRequest payload l with
            | (.error e, l) =>
                (.error e, { l with metrics := l.metrics.noteLinkError e.toString })
            | (.ok resp, l) => (.ok resp, l)

def requests : List (List UInt8) → DapLink ν → List (Except LinkError (List UInt8)) × DapLink ν
  | [], l => ([], l)
  | p :: ps, l =>
      let r := l.request p
      let rs := requests ps r.2
      (r.1 :: rs.1, rs.2)

section
variable {l : DapLink ν} (net : ν) {c : ℕ}

theorem connect_done (hn : Network.connect l.net = (.done c, net)) :
    l.connect = (.ok (), { l with stream := some c, net }) := by
  simp only [connect, hn]

theorem connect_failed {e : IoError} (hn : Network.connect l.net = (.failed e, net)) :
    l.connect = (.error (.io e), { l with net }) := by
  simp only [connect, hn]

theorem connect_elapsed (hn : Network.connect l.net = (.elapsed, net)) :
    l.connect = (.error .timeout, { l with net }) := by
  simp only [connect, hn]

theorem readExact_done {n : ℕ} {v : Vector UInt8 n} (h : l.stream = some c)
    (hn : Network.readExact c n l.net = (.done v, net)) :
    l.readExact n = (.ok v, { l with net }) := by
  simp only [readExact, h, hn]

theorem readExact_failed {n : ℕ} {e : IoError} (h : l.stream = some c)
    (hn : Network.readExact c n l.net = (.failed e, net)) :
    l.readExact n =
      (.error (if e.unexpectedEof then .disconnected else .io e), { l with net }) := by
  simp only [readExact, h, hn]

theorem readExact_elapsed {n : ℕ} (h : l.stream = some c)
    (hn : Network.readExact c n l.net = (.elapsed, net)) :
    l.readExact n = (.error .timeout, { l with net }) := by
  simp only [readExact, h, hn]

theorem writeAll_done {data : List UInt8} (h : l.stream = some c)
    (hn : Network.writeAll c data l.net = (.done (), net)) :
    l.writeAll data = (.ok (), { l with net }) := by
  simp only [writeAll, h, hn]

theorem writeAll_failed {data : List UInt8} {e : IoError} (h : l.stream = some c)
    (hn : Network.writeAll c data l.net = (.failed e, net)) :
    l.writeAll data = (.error (.io e), { l with net }) := by
  simp only [writeAll, h, hn]

theorem writeAll_elapsed {data : List UInt8} (h : l.stream = some c)
    (hn : Network.writeAll c data l.net = (.elapsed, net)) :
    l.writeAll data = (.error .timeout, { l with net }) := by
  simp only [writeAll, h, hn]

theorem tryRequest_unconnected {p : List UInt8} {e : LinkError} {l₁ : DapLink ν}
    (h : l.ensure = (.error e, l₁)) : l.tryRequest p = (.error e, l₁) := by
  simp only [tryRequest, h]

theorem tryRequest_unwritten {p : List UInt8} {e : LinkError} {l₁ l₂ : DapLink ν}
    (h : l.ensure = (.ok (), l₁)) (hw : l₁.writeAll (wire p) = (.error e, l₂)) :
    l.tryRequest p = (.error e, l₂.disconnect) := by
  simp only [tryRequest, h, hw]

theorem ensure_connected (h : l.stream = some c) : l.ensure = (.ok (), l) := by
  simp only [ensure, h]

theorem tryRequest_connected {p : List UInt8} {l₁ : DapLink ν} (h : l.stream = none)
    (hc : l.connect = (.ok (), l₁)) (hs : l₁.stream = some c) :
    l.tryRequest p = l₁.tryRequest p := by
  have hensure : l.ensure = (.ok (), l₁) := by simp only [ensure, h, hc]
  unfold tryRequest
  rw [hensure, ensure_connected hs]

theorem tryRequest_written {p : List UInt8} {l₁ l₂ : DapLink ν} (h : l.ensure = (.ok (), l₁))
    (hw : l₁.writeAll (wire p) = (.ok (), l₂)) :
    l.tryRequest p = match l₂.readFrame with
      | (.error e, l₃) => (.error e, l₃.disconnect)
      | (.ok resp, l₃) => (.ok resp, l₃) := by
  simp only [tryRequest, h, hw]

theorem request_refused {p : List UInt8} (h : maxFrame < p.length) :
    l.request p = (.error (.frameTooLarge p.length), l) := if_pos h

def counted (l : DapLink ν) : DapLink ν :=
  { l with metrics := { l.metrics with linkRequests := l.metrics.linkRequests + 1 } }

def retried (l : DapLink ν) : DapLink ν :=
  { l with metrics := { l.metrics with linkRetries := l.metrics.linkRetries + 1 } }

theorem request_first {p resp : List UInt8} {l₁ : DapLink ν} (h : p.length ≤ maxFrame)
    (h₁ : l.counted.tryRequest p = (.ok resp, l₁)) :
    l.request p = (.ok resp, { l₁ with
      metrics := l₁.metrics.noteRtt (Network.micros l₁.net - Network.micros l.net) }) := by
  rw [request, if_neg (Nat.not_lt.mpr h)]
  change (match l.counted.tryRequest p with | (.ok resp, l₁) => _ | (.error _, l₁) => _) = _
  rw [h₁]

def again (payload : List UInt8) (l : DapLink ν) : Res ν (List UInt8) :=
  match l.retried.disconnect.connect with
  | (.error e, l) => (.error e, l)
  | (.ok _, l) =>
      match tryRequest payload l with
      | (.error e, l) => (.error e, { l with metrics := l.metrics.noteLinkError e.toString })
      | (.ok resp, l) => (.ok resp, l)

theorem request_again {p : List UInt8} {e : LinkError} {l₁ : DapLink ν} (h : p.length ≤ maxFrame)
    (h₁ : l.counted.tryRequest p = (.error e, l₁)) : l.request p = l₁.again p := by
  rw [request, if_neg (Nat.not_lt.mpr h)]
  change (match l.counted.tryRequest p with | (.ok resp, l₁) => _ | (.error _, l₁) => _) = _
  rw [h₁]
  rfl

theorem disconnect_none (h : l.stream = none) : l.disconnect = l := by
  simp only [disconnect, h]

theorem disconnect_some (h : l.stream = some c) :
    l.disconnect = { l with stream := none, net := Network.close c l.net } := by
  simp only [disconnect, h]

theorem readFrame_failed {e : LinkError} {l₁ : DapLink ν} (h : l.readExact 1 = (.error e, l₁)) :
    l.readFrame = (.error e, l₁) := by
  have hskip : l.skipToMagic maxFrame = (.error e, l₁) := by
    rw [skipToMagic]
    simp only [h]
  simp only [readFrame, hskip]

theorem disconnect_stream (l : DapLink ν) : l.disconnect.stream = none := by
  rw [disconnect]
  split
  · assumption
  · rfl

end

end DapLink

end DapProxy.Host
