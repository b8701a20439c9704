import DapProxy.Host.Bridge
import DapProxy.Host.Descriptors
import DapProxy.Memory.Words
import DapProxy.Text.Utf8

namespace DapProxy.Host
open Words

def version : UInt16 := 0x0111

def opReqDevlist : UInt16 := 0x8005
def opRepDevlist : UInt16 := 0x0005
def opReqImport : UInt16 := 0x8003
def opRepImport : UInt16 := 0x0003

def cmdSubmit : UInt32 := 0x0001
def cmdUnlink : UInt32 := 0x0002
def retSubmit : UInt32 := 0x0003
def retUnlink : UInt32 := 0x0004

def dirOut : UInt32 := 0
def dirIn : UInt32 := 1

def eio : Int32 := 5
def epipe : Int32 := 32

def headerLen : ℕ := 48

structure Client where
  input : List UInt8
  output : List UInt8
  cut : ℕ → Option ℕ
  writes : ℕ

namespace Client

def new (input : List UInt8) (cut : ℕ → Option ℕ) : Client := ⟨input, [], cut, 0⟩

def readExact (n : ℕ) (c : Client) : Option (Vector UInt8 n) × Client :=
  if h : n ≤ c.input.length then
    (some (bufferOf n c.input h), { c with input := c.input.drop n })
  else (none, { c with input := [] })

def writeAll (data : List UInt8) (c : Client) : Bool × Client :=
  match c.cut c.writes with
  | none => (true, { c with output := c.output ++ data, writes := c.writes + 1 })
  | some k => (false, { c with output := c.output ++ data.take k, writes := c.writes + 1 })

end Client

-- the code's counters are u64: fewer than 2 ^ 64 frames and bytes
structure UsbMetrics where
  ep0Requests : ℕ
  ep1OutFrames : ℕ
  ep1OutBytes : ℕ
  ep1InFrames : ℕ
  ep1InBytes : ℕ

namespace UsbMetrics

def noteEp0 (m : UsbMetrics) : UsbMetrics := { m with ep0Requests := m.ep0Requests + 1 }

def noteOut (m : UsbMetrics) (n : ℕ) : UsbMetrics :=
  { m with ep1OutFrames := m.ep1OutFrames + 1, ep1OutBytes := m.ep1OutBytes + n }

def noteIn (m : UsbMetrics) (n : ℕ) : UsbMetrics :=
  { m with ep1InFrames := m.ep1InFrames + 1, ep1InBytes := m.ep1InBytes + n }

end UsbMetrics

inductive Exit where
  | closed
  | failed
  deriving DecidableEq, Repr

def ep0Payload (bmRequestType bRequest : UInt8) (wValue : UInt16) : Option (List UInt8) :=
  if bmRequestType = 0x80 ∧ bRequest = 0x00 then some [0x00, 0x00]
  else if bmRequestType = 0x80 ∧ bRequest = 0x06 ∧ wValue >>> 8 = 0x01 then some deviceDescriptor
  else if bmRequestType = 0x80 ∧ bRequest = 0x06 ∧ wValue >>> 8 = 0x02 then some configDescriptor
  else if bmRequestType = 0x80 ∧ bRequest = 0x06 ∧ wValue >>> 8 = 0x03 then
    stringDescriptor (wValue &&& 0xFF).toUInt8
  else if bmRequestType = 0x80 ∧ bRequest = 0x08 then some [0x01]
  else if (bmRequestType = 0x81 ∧ bRequest = 0x00) ∨ (bmRequestType = 0x82 ∧ bRequest = 0x00) then
    some [0x00, 0x00]
  else if bmRequestType = 0x80 ∧ bRequest = 0x0A then some [0x00]
  else none

def bmRequestType (setup : Vector UInt8 8) : UInt8 := setup[0]

def bRequest (setup : Vector UInt8 8) : UInt8 := setup[1]

def wValue (setup : Vector UInt8 8) : UInt16 := setup[2].toUInt16 ||| setup[3].toUInt16 <<< 8

def wLength (setup : Vector UInt8 8) : UInt16 := setup[6].toUInt16 ||| setup[7].toUInt16 <<< 8

def ep0Control (setup : Vector UInt8 8) : Int32 × List UInt8 :=
  let bmRequestType := setup[0]
  let bRequest := setup[1]
  let wValue := setup[2].toUInt16 ||| setup[3].toUInt16 <<< 8
  let wLength := setup[6].toUInt16 ||| setup[7].toUInt16 <<< 8
  if bmRequestType &&& 0x80 ≠ 0 then
    match ep0Payload bmRequestType bRequest wValue with
    | some p => (0, p.take (min p.length wLength.toNat))
    | none => (epipe, [])
  else if bRequest = 0x01 ∨ bRequest = 0x03 ∨ bRequest = 0x09 ∨ bRequest = 0x0B then (0, [])
  else (epipe, [])

def retSubmitBytes (seqnum : UInt32) (status : Int32) (data : List UInt8) : List UInt8 :=
  [retSubmit, seqnum, 0, 0, 0, status.toUInt32, UInt32.ofNat data.length, 0, 0, 0].flatMap
    beBytes ++ (List.replicate 8 0 ++ data)

def retUnlinkBytes (seqnum : UInt32) : List UInt8 :=
  [retUnlink, seqnum, 0, 0, 0, 0].flatMap beBytes ++ List.replicate 24 0

def headerWord (hdr : Vector UInt8 headerLen) (i : Fin 45) : UInt32 :=
  have hi := i.isLt
  have hlen : headerLen = 48 := rfl
  beWord hdr[i.val] hdr[i.val + 1] hdr[i.val + 2] hdr[i.val + 3]

def headerDirection (hdr : Vector UInt8 headerLen) : UInt32 := headerWord hdr 12

def headerEp (hdr : Vector UInt8 headerLen) : UInt32 := headerWord hdr 16

def headerTransferLen (hdr : Vector UInt8 headerLen) : UInt32 := headerWord hdr 24

def headerSetup (hdr : Vector UInt8 headerLen) : Vector UInt8 8 :=
  have hlen : headerLen = 48 := rfl
  Vector.ofFn (fun i : Fin 8 => hdr[40 + i.val])

def headVersion (head : Vector UInt8 8) : UInt16 := beHalf head[0] head[1]

def headCommand (head : Vector UInt8 8) : UInt16 := beHalf head[2] head[3]

def asBytes (s : String) : List UInt8 := s.toList.flatMap String.utf8EncodeChar

def padded (n : ℕ) (bytes : List UInt8) : List UInt8 :=
  bytes ++ List.replicate (n - bytes.length) 0

def pushDeviceBody (buf : List UInt8) : List UInt8 :=
  buf ++ (padded 256 (asBytes usbipPath) ++ padded 32 (asBytes usbipBusid) ++
    beBytes 1 ++ beBytes 1 ++ beBytes 3 ++
    beHalfBytes usbVid ++ beHalfBytes usbPid ++ beHalfBytes bcdDevice ++
    [0x00, 0x00, 0x00, 0x01, 0x01, 0x01])

def devlistReply : List UInt8 :=
  pushDeviceBody (beHalfBytes version ++ beHalfBytes opRepDevlist ++ beBytes 0 ++ beBytes 1) ++
    [0xFF, 0x00, 0x00, 0x00]

def importReply (status : UInt32) : List UInt8 :=
  beHalfBytes version ++ beHalfBytes opRepImport ++ beBytes status

structure Visit where
  client : Client
  usbSessions : ℕ

inductive Opening where
  | closed
  | failed
  | entered
  deriving DecidableEq, Repr

namespace Visit

def replyDevlist (v : Visit) : Bool × Visit :=
  match v.client.writeAll devlistReply with
  | (sent, client) => (sent, { v with client })

def replyImport (v : Visit) : Option Bool × Visit :=
  match v.client.readExact 32 with
  | (none, client) => (none, { v with client })
  | (some busid, client) =>
      let busid := Utf8.trimEnd 0 (Utf8.lossy busid.toList)
      if busid ≠ asBytes usbipBusid then
        match client.writeAll (importReply 1) with
        | (true, client) => (some false, { v with client })
        | (false, client) => (none, { v with client })
      else
        match client.writeAll (pushDeviceBody (importReply 0)) with
        | (true, client) => (some true, ⟨client, v.usbSessions + 1⟩)
        | (false, client) => (none, ⟨client, v.usbSessions + 1⟩)

def turn (v : Visit) : Option Opening × Visit :=
  match v.client.readExact 8 with
  | (none, client) => (some .closed, { v with client })
  | (some head, client) =>
      let v := { v with client }
      if headVersion head ≠ version then (some .closed, v)
      else if headCommand head = opReqDevlist then
        match v.replyDevlist with
        | (true, v) => (none, v)
        | (false, v) => (some .failed, v)
      else if headCommand head = opReqImport then
        match v.replyImport with
        | (none, v) => (some .failed, v)
        | (some false, v) => (some .closed, v)
        | (some true, v) => (some .entered, v)
      else (some .closed, v)

end Visit

structure UrbSession (ν : Type) where
  client : Client
  bridge : DapBridge ν
  metrics : UsbMetrics

namespace UrbSession
variable {ν : Type}

def readOut (direction transferLen : UInt32) (s : UrbSession ν) :
    Option (List UInt8) × UrbSession ν :=
  if direction = dirOut ∧ 0 < transferLen then
    match s.client.readExact transferLen.toNat with
    | (none, client) => (none, { s with client })
    | (some data, client) => (some data.toList, { s with client })
  else (some [], s)

def sendRetSubmit (seqnum : UInt32) (status : Int32) (data : List UInt8) (s : UrbSession ν) :
    Bool × UrbSession ν :=
  match s.client.writeAll (retSubmitBytes seqnum status data) with
  | (sent, client) => (sent, { s with client })

def sendRetUnlink (seqnum : UInt32) (s : UrbSession ν) : Bool × UrbSession ν :=
  match s.client.writeAll (retUnlinkBytes seqnum) with
  | (sent, client) => (sent, { s with client })

variable [Network ν]

def submit (ep direction transferLen : UInt32) (setup : Vector UInt8 8) (outData : List UInt8)
    (s : UrbSession ν) : (Int32 × List UInt8) × UrbSession ν :=
  if ep = 0 then (ep0Control setup, { s with metrics := s.metrics.noteEp0 })
  else if direction = dirOut then
    match s.bridge.bulkOut outData with
    | (.ok _, bridge) => ((0, []), { s with bridge, metrics := s.metrics.noteOut outData.length })
    | (.error _, bridge) => ((eio, []), { s with bridge })
  else if direction = dirIn then
    match s.bridge.bulkIn transferLen.toNat with
    | (.ok data, bridge) =>
        ((0, data), { s with bridge, metrics := s.metrics.noteIn data.length })
    | (.error _, bridge) => ((eio, []), { s with bridge })
  else ((epipe, []), s)

omit [Network ν] in
def replied : Bool × UrbSession ν → Option Exit × UrbSession ν
  | (true, s) => (none, s)
  | (false, s) => (some .failed, s)

def onSubmit (hdr : Vector UInt8 headerLen) (s : UrbSession ν) : Option Exit × UrbSession ν :=
  let seqnum := headerWord hdr 4
  let direction := headerWord hdr 12
  let ep := headerWord hdr 16
  let transferLen := headerWord hdr 24
  match s.readOut direction transferLen with
  | (none, s) => (some .closed, s)
  | (some outData, s) =>
      match s.submit ep direction transferLen (headerSetup hdr) outData with
      | ((status, inData), s) => replied (s.sendRetSubmit seqnum status inData)

def turn (s : UrbSession ν) : Option Exit × UrbSession ν :=
  match s.client.readExact headerLen with
  | (none, client) => (some .closed, { s with client })
  | (some hdr, client) =>
      let s := { s with client }
      let command := headerWord hdr 0
      if command = cmdSubmit then s.onSubmit hdr
      else if command = cmdUnlink then replied (s.sendRetUnlink (headerWord hdr 4))
      else (some .closed, s)

end UrbSession

end DapProxy.Host
