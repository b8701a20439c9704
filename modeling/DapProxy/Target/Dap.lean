import DapProxy.Memory.Checked
import DapProxy.Target.Transport

namespace DapProxy.Target
open Checked

def idInfo : UInt8 := 0x00
def idHostStatus : UInt8 := 0x01
def idConnect : UInt8 := 0x02
def idDisconnect : UInt8 := 0x03
def idTransferConfig : UInt8 := 0x04
def idTransfer : UInt8 := 0x05
def idTransferBlock : UInt8 := 0x06
def idWriteAbort : UInt8 := 0x08
def idSwjPins : UInt8 := 0x10
def idSwjClock : UInt8 := 0x11
def idSwjSequence : UInt8 := 0x12
def idSwdConfigure : UInt8 := 0x13

def stOk : UInt8 := 0x01
def stWait : UInt8 := 0x02
def stFault : UInt8 := 0x04
def stProto : UInt8 := 0x08

def leWord (b0 b1 b2 b3 : UInt8) : UInt32 :=
  b0.toUInt32 ||| b1.toUInt32 <<< 8 ||| b2.toUInt32 <<< 16 ||| b3.toUInt32 <<< 24

def leHalf (b0 b1 : UInt8) : UInt16 := b0.toUInt16 ||| b1.toUInt16 <<< 8

def leBytes (v : UInt32) : List UInt8 :=
  [v.toUInt8, (v >>> 8).toUInt8, (v >>> 16).toUInt8, (v >>> 24).toUInt8]

def leHalfBytes (v : UInt16) : List UInt8 := [v.toUInt8, (v >>> 8).toUInt8]

theorem leWord_bytes (v : UInt32) :
    leWord v.toUInt8 (v >>> 8).toUInt8 (v >>> 16).toUInt8 (v >>> 24).toUInt8 = v := by
  apply UInt32.eq_of_toBitVec_eq
  simp only [leWord, UInt32.toBitVec_or, UInt32.toBitVec_shiftLeft, UInt8.toBitVec_toUInt32,
    UInt32.toBitVec_toUInt8, UInt32.toBitVec_shiftRight]
  apply BitVec.eq_of_getLsbD_eq
  intro i hi
  simp
  grind

theorem leBytes_word (b0 b1 b2 b3 : UInt8) : leBytes (leWord b0 b1 b2 b3) = [b0, b1, b2, b3] := by
  simp only [leBytes, List.cons.injEq, and_true]
  refine ⟨?_, ?_, ?_, ?_⟩ <;> apply UInt8.eq_of_toBitVec_eq <;>
    simp only [leWord, UInt32.toBitVec_or, UInt32.toBitVec_shiftLeft, UInt8.toBitVec_toUInt32,
      UInt32.toBitVec_toUInt8, UInt32.toBitVec_shiftRight] <;>
    apply BitVec.eq_of_getLsbD_eq <;> intro i hi
  · simp
  · simp
    grind
  · simp
    grind
  · simp
    grind

theorem leHalf_bytes (v : UInt16) : leHalf v.toUInt8 (v >>> 8).toUInt8 = v := by
  apply UInt16.eq_of_toBitVec_eq
  simp only [leHalf, UInt16.toBitVec_or, UInt16.toBitVec_shiftLeft, UInt8.toBitVec_toUInt16,
    UInt16.toBitVec_toUInt8, UInt16.toBitVec_shiftRight]
  apply BitVec.eq_of_getLsbD_eq
  intro i hi
  simp
  grind

def ascii (s : String) : List UInt8 := s.toList.map (fun c => UInt8.ofNat c.toNat)

def apndp (rb : UInt8) : Bool := rb &&& 0x01 != 0

def rnw (rb : UInt8) : Bool := rb &&& 0x02 != 0

def regAddr (rb : UInt8) : UInt8 := ((rb >>> 2) &&& 0x03) <<< 2

structure Dap (T : Type) where
  transport : T
  waitRetry : UInt16
  errLogs : UInt32

structure Batch (T : Type) where
  dap : Dap T
  resp : List UInt8
  pos : ℕ
  rpos : ℕ
  done : ℕ
  status : UInt8

def readWord (req : List UInt8) (pos : ℕ) : Option UInt32 := do
  let b0 ← req[pos]?
  let b1 ← req[pos + 1]?
  let b2 ← req[pos + 2]?
  let b3 ← req[pos + 3]?
  some (leWord b0 b1 b2 b3)

def fetchData (req : List UInt8) (read : Bool) (pos : ℕ) : Option (Option UInt32 × ℕ) :=
  if read then some (none, pos)
  else (readWord req pos).map (fun v => (some v, pos + 4))

variable {T : Type}

namespace Dap

def new (transport : T) : Dap T := ⟨transport, 64, 0⟩

def logXferErr (d : Dap T) : Dap T :=
  if d.errLogs < 8 then { d with errLogs := d.errLogs + 1 } else d

def failure (d : Dap T) : TErr → UInt8 × Dap T
  | .wait => (stWait, d)
  | .fault => (stFault, d)
  | .parity => (stProto, d.logXferErr)
  | .unknown _ => (stProto, d.logXferErr)
  | .io => (stProto, d.logXferErr)

def retries (d : Dap T) (tries : UInt32) : Bool := tries.toUInt16 < min d.waitRetry 128

theorem retries_iff (d : Dap T) (tries : UInt32) :
    d.retries tries = true ↔ tries.toNat % 65536 < min d.waitRetry.toNat 128 := by
  have hm : min d.waitRetry 128 = if d.waitRetry ≤ 128 then d.waitRetry else 128 := rfl
  have h128 : (128 : UInt16).toNat = 128 := rfl
  rw [retries, hm, decide_eq_true_iff, UInt16.lt_iff_toNat_lt, UInt32.toNat_toUInt16]
  split
  · next h =>
    rw [UInt16.le_iff_toNat_le, h128] at h
    rw [Nat.min_eq_left h]
  · next h =>
    rw [UInt16.le_iff_toNat_le, h128, Nat.not_le] at h
    rw [Nat.min_eq_right (Nat.le_of_lt h), h128]

theorem retries_succ {d : Dap T} {tries : UInt32} (h : d.retries tries = true) :
    tries.toNat % 65536 < 128 ∧ (tries + 1).toNat = tries.toNat + 1 := by
  rw [retries_iff] at h
  have hlt := tries.toNat_lt
  have h1 : (1 : UInt32).toNat = 1 := rfl
  rw [UInt32.toNat_add, h1]
  omega

variable [Transport T]

def attempt (ap read : Bool) (a : UInt8) (wdata : Option UInt32) (t : T) :
    Except TErr (Option UInt32) × T :=
  match ap, read with
  | false, true => ((Transport.readDp a t).1.map some, (Transport.readDp a t).2)
  | false, false =>
      ((Transport.writeDp a (wdata.getD 0) t).1.map (fun _ => none),
        (Transport.writeDp a (wdata.getD 0) t).2)
  | true, true => ((Transport.readAp 0 a t).1.map some, (Transport.readAp 0 a t).2)
  | true, false =>
      ((Transport.writeAp 0 a (wdata.getD 0) t).1.map (fun _ => none),
        (Transport.writeAp 0 a (wdata.getD 0) t).2)

def execLoop (ap read : Bool) (a : UInt8) (wdata : Option UInt32) (d : Dap T) (tries : UInt32) :
    Except UInt8 (Option UInt32) × Dap T :=
  match attempt ap read a wdata d.transport with
  | (.ok v, t) => (.ok v, { d with transport := t })
  | (.error e, t) =>
      let f := failure { d with transport := t } e
      if h : f.1 = stWait ∧ f.2.retries tries = true then
        execLoop ap read a wdata f.2 (tries + 1)
      else (.error f.1, f.2)
  termination_by 128 - tries.toNat % 65536
  decreasing_by
    obtain ⟨h1, h2⟩ := retries_succ h.2
    omega

section
variable {ap read : Bool} {a : UInt8} {wdata : Option UInt32} {d : Dap T} {tries : UInt32} {t : T}

theorem execLoop_ok {v : Option UInt32}
    (h : attempt ap read a wdata d.transport = (.ok v, t)) :
    execLoop ap read a wdata d tries = (.ok v, { d with transport := t }) := by
  rw [execLoop]
  simp only [h]

theorem execLoop_again {e : TErr}
    (h : attempt ap read a wdata d.transport = (.error e, t))
    (hw : (failure { d with transport := t } e).1 = stWait ∧
      (failure { d with transport := t } e).2.retries tries = true) :
    execLoop ap read a wdata d tries =
      execLoop ap read a wdata (failure { d with transport := t } e).2 (tries + 1) := by
  rw [execLoop]
  simp only [h, dif_pos hw]

theorem execLoop_stop {e : TErr}
    (h : attempt ap read a wdata d.transport = (.error e, t))
    (hw : ¬((failure { d with transport := t } e).1 = stWait ∧
      (failure { d with transport := t } e).2.retries tries = true)) :
    execLoop ap read a wdata d tries =
      (.error (failure { d with transport := t } e).1,
        (failure { d with transport := t } e).2) := by
  rw [execLoop]
  simp only [h, dif_neg hw]

theorem execLoop_induct (ap read : Bool) (a : UInt8) (wdata : Option UInt32)
    {motive : Dap T → UInt32 → Prop}
    (ok : ∀ d tries v t, attempt ap read a wdata d.transport = (.ok v, t) → motive d tries)
    (again : ∀ d tries e t, attempt ap read a wdata d.transport = (.error e, t) →
      (failure { d with transport := t } e).1 = stWait ∧
        (failure { d with transport := t } e).2.retries tries = true →
      motive (failure { d with transport := t } e).2 (tries + 1) → motive d tries)
    (stop : ∀ d tries e t, attempt ap read a wdata d.transport = (.error e, t) →
      ¬((failure { d with transport := t } e).1 = stWait ∧
        (failure { d with transport := t } e).2.retries tries = true) → motive d tries)
    (d : Dap T) (tries : UInt32) : motive d tries := by
  induction hn : 128 - tries.toNat % 65536 using Nat.strong_induction_on
    generalizing d tries with
  | _ n ih =>
    rcases ha : attempt ap read a wdata d.transport with ⟨e | v, t⟩
    · by_cases hw : (failure { d with transport := t } e).1 = stWait ∧
          (failure { d with transport := t } e).2.retries tries = true
      · obtain ⟨hlt, hsucc⟩ := retries_succ hw.2
        exact again d tries e t ha hw (ih _ (by omega) _ _ rfl)
      · exact stop d tries e t ha hw
    · exact ok d tries v t ha

end

def execTransfer (d : Dap T) (ap read : Bool) (a : UInt8) (wdata : Option UInt32) :
    Except UInt8 (Option UInt32) × Dap T :=
  execLoop ap read a wdata d 0

end Dap

variable [Transport T]

def Batch.perform (limit : ℕ) (b : Batch T) (rb : UInt8) (wdata : Option UInt32) (pos : ℕ) :
    Option (Batch T × Bool) :=
  match b.dap.execTransfer (apndp rb) (rnw rb) (regAddr rb) wdata with
  | (.ok (some v), d) => do
      let resp ← copy b.resp b.rpos (leBytes v)
      let done ← bump limit b.done
      some ({ b with dap := d, resp, pos, rpos := b.rpos + 4, done }, true)
  | (.ok none, d) => do
      let done ← bump limit b.done
      some ({ b with dap := d, pos, done }, true)
  | (.error s, d) => some ({ b with dap := d, pos, status := s }, false)

def transferLoop (req : List UInt8) : ℕ → Batch T → Option (Batch T)
  | 0, b => some b
  | n + 1, b =>
      if req.length ≤ b.pos then some { b with status := stProto }
      else do
        let rb ← req[b.pos]?
        if rb &&& 0xF0 ≠ 0 then some { b with pos := b.pos + 1, status := stProto }
        else if rnw rb = false ∧ req.length < b.pos + 1 + 4 then
          some { b with pos := b.pos + 1, status := stProto }
        else do
          let w ← fetchData req (rnw rb) (b.pos + 1)
          let r ← b.perform 255 rb w.1 w.2
          if r.2 then transferLoop req n r.1 else some r.1

def blockLoop (req : List UInt8) (rb : UInt8) : ℕ → Batch T → Option (Batch T)
  | 0, b => some b
  | n + 1, b =>
      if rnw rb = false ∧ req.length < b.pos + 4 then some { b with status := stProto }
      else do
        let w ← fetchData req (rnw rb) b.pos
        let r ← b.perform 65535 rb w.1 w.2
        if r.2 then blockLoop req rb n r.1 else some r.1

def connectLoop : ℕ → T → Bool × T
  | 0, t => (false, t)
  | n + 1, t =>
      match Transport.readDp dpCtrlStat t with
      | (.ok stat, t') =>
          if stat &&& (cdbgpwrupack ||| csyspwrupack) = (cdbgpwrupack ||| csyspwrupack) then
            (true, t')
          else connectLoop n t'
      | (.error _, t') => connectLoop n t'

def infoString (id : UInt8) : List UInt8 :=
  if id = 0x01 then ascii "esp"
  else if id = 0x02 then ascii "my-esp-debugger"
  else if id = 0x04 then ascii "1.2.0"
  else []

abbrev Reply (T : Type) := ℕ × List UInt8 × Dap T

namespace Dap

def dapInfo (d : Dap T) (req resp : List UInt8) : Option (Reply T) := do
  let id ← (if 1 < req.length then req[1]? else some 0)
  let s := infoString id
  if s ≠ [] then
    let resp ← put resp 0 (UInt8.ofNat s.length)
    let resp ← copy resp 1 s
    some (1 + s.length, resp, d)
  else if id = 0xF0 then
    let resp ← put resp 0 1
    let resp ← put resp 1 0x01
    some (2, resp, d)
  else if id = 0xFE then
    let resp ← put resp 0 1
    let resp ← put resp 1 1
    some (2, resp, d)
  else if id = 0xFF then
    let resp ← put resp 0 2
    let resp ← put resp 1 0x00
    let resp ← put resp 2 0x02
    some (3, resp, d)
  else
    let resp ← put resp 0 0
    some (1, resp, d)

def dapConnect (d : Dap T) (resp : List UInt8) : Option (Reply T) := do
  let t := (Transport.init d.transport).2
  let t := (Transport.readDp dpDpidr t).2
  let t := (Transport.writeDp dpCtrlStat (cdbgpwrupreq ||| csyspwrupreq) t).2
  let r := connectLoop 200 t
  let resp ← put resp 0 (if r.1 then 0x01 else 0x00)
  some (1, resp, { d with transport := r.2 })

def dapTransferConfig (d : Dap T) (req resp : List UInt8) : Option (Reply T) := do
  let d ← if 6 ≤ req.length then do
      let b0 ← req[2]?
      let b1 ← req[3]?
      some { d with waitRetry := leHalf b0 b1 }
    else some d
  let resp ← put resp 0 0x00
  some (1, resp, d)

def dapWriteAbort (d : Dap T) (req resp : List UInt8) : Option (Reply T) := do
  let d ← if 6 ≤ req.length then do
      let word ← readWord req 2
      some { d with transport := (Transport.writeDp dpAbort word d.transport).2 }
    else some d
  let resp ← put resp 0 0x00
  some (1, resp, d)

def dapTransfer (d : Dap T) (req resp : List UInt8) : Option (Reply T) :=
  if req.length < 3 then do
    let resp ← put resp 0 0
    let resp ← put resp 1 stProto
    some (2, resp, d)
  else do
    let count ← req[2]?
    let b ← transferLoop req count.toNat ⟨d, resp, 3, 2, 0, stOk⟩
    let resp ← put b.resp 0 (UInt8.ofNat b.done)
    let resp ← put resp 1 b.status
    some (b.rpos, resp, b.dap)

def dapTransferBlock (d : Dap T) (req resp : List UInt8) : Option (Reply T) :=
  if req.length < 5 then do
    let resp ← copy resp 0 [0, 0, stProto]
    some (3, resp, d)
  else do
    let b0 ← req[2]?
    let b1 ← req[3]?
    let room ← sub resp.length 3
    let count := min (leHalf b0 b1).toNat (room / 4)
    let rb ← req[4]?
    if rb &&& 0xF0 ≠ 0 then
      let resp ← copy resp 0 [0, 0, stProto]
      some (3, resp, d)
    else
      let b ← blockLoop req rb count ⟨d, resp, 5, 3, 0, stOk⟩
      let done := UInt16.ofNat b.done
      let resp ← copy b.resp 0 [done.toUInt8, (done >>> 8).toUInt8]
      let resp ← put resp 2 b.status
      some (b.rpos, resp, b.dap)

def dapSwjClock (d : Dap T) (resp : List UInt8) : Option (Reply T) := do
  let resp ← put resp 0 0x00
  some (1, resp, d)

def dapSwjSequence (d : Dap T) (req resp : List UInt8) : Option (Reply T) :=
  if req.length < 2 then do
    let resp ← put resp 0 0xFF
    some (1, resp, d)
  else do
    let bits ← req[1]?
    let nbytes := (bits.toNat + 7) / 8
    if req.length < 2 + nbytes then
      let resp ← put resp 0 0xFF
      some (1, resp, d)
    else
      let t := (Transport.swjSequence bits ((req.drop 2).take nbytes) d.transport).2
      let resp ← put resp 0 0x00
      some (1, resp, { d with transport := t })

def dapSwjPins (d : Dap T) (req resp : List UInt8) : Option (Reply T) :=
  if req.length < 10 then do
    let resp ← put resp 0 0xFF
    some (1, resp, d)
  else do
    let wait ← readWord req 6
    let out ← req[1]?
    let sel ← req[2]?
    let r := Transport.swjPins out sel wait d.transport
    let resp ← put resp 0 (match r.1 with | .ok pins => pins | .error _ => 0x00)
    some (1, resp, { d with transport := r.2 })

def ack (d : Dap T) (status : UInt8) (resp : List UInt8) : Option (Reply T) := do
  let resp ← put resp 1 status
  some (2, resp, d)

def handle (d : Dap T) (req resp : List UInt8) : Option (Reply T) :=
  match req with
  | [] => do
      let resp ← put resp 0 0xFF
      some (1, resp, d)
  | id :: _ => do
      let resp ← put resp 0 id
      if id = idInfo then onTail resp (d.dapInfo req)
      else if id = idConnect then onTail resp d.dapConnect
      else if id = idDisconnect then d.ack 0x00 resp
      else if id = idHostStatus then d.ack 0x00 resp
      else if id = idTransferConfig then onTail resp (d.dapTransferConfig req)
      else if id = idTransfer then onTail resp (d.dapTransfer req)
      else if id = idTransferBlock then onTail resp (d.dapTransferBlock req)
      else if id = idWriteAbort then onTail resp (d.dapWriteAbort req)
      else if id = idSwjPins then onTail resp (d.dapSwjPins req)
      else if id = idSwjClock then onTail resp d.dapSwjClock
      else if id = idSwdConfigure then d.ack 0x00 resp
      else if id = idSwjSequence then onTail resp (d.dapSwjSequence req)
      else d.ack 0xFF resp

end Dap

end DapProxy.Target
