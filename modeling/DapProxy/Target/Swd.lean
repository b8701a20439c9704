import DapProxy.Target.Io
import DapProxy.Target.Transport

namespace DapProxy.Target

class Wire (S : Type) where
  transfer : Bool → Bool → UInt8 → Option UInt32 → S → Except TErr UInt32 × S

namespace Wire
variable {S : Type} [Wire S]

def readDp (addr : UInt8) (s : S) : Except TErr UInt32 × S := transfer false true addr none s

def readRdbuff (s : S) : Except TErr UInt32 × S := readDp dpRdbuff s

def writeDp (addr : UInt8) (val : UInt32) (s : S) : Except TErr Unit × S :=
  match transfer false false addr (some val) s with
  | (.error e, s) => (.error e, s)
  | (.ok _, s) => (.ok (), s)

def readAp (_select addr : UInt8) (s : S) : Except TErr UInt32 × S :=
  match transfer true true addr none s with
  | (.error e, s) => (.error e, s)
  | (.ok _, s) => readRdbuff s

def writeAp (_select addr : UInt8) (data : UInt32) (s : S) : Except TErr Unit × S :=
  match transfer true false addr (some data) s with
  | (.error e, s) => (.error e, s)
  | (.ok _, s) => (.ok (), s)

end Wire

structure Swd (I : Type) where
  io : I
  driving : Bool
  lastPins : UInt8

structure Call where
  apndp : Bool
  rnw : Bool
  addr : UInt8
  value : Option UInt32

def Call.data (call : Call) : UInt32 := call.value.getD 0

def countOnes (v : UInt32) : ℕ := (Io.bitsOf v 32).count true

def oddOnes (v : UInt32) : Bool := countOnes v % 2 != 0

namespace Swd
variable {I : Type}

def new (io : I) : Swd I := ⟨io, true, 0x80⟩

def makeRequest (apndp rnw : Bool) (addr : UInt8) : UInt8 :=
  let apndpBit := apndp.toUInt8 <<< 1
  let rnwBit := rnw.toUInt8 <<< 2
  let addrBits := ((addr >>> 2) &&& 0x03) <<< 3
  let payload := apndpBit ||| rnwBit ||| addrBits
  let parityBit := UInt8.ofNat (countOnes payload.toUInt32 % 2) <<< 5
  (1 : UInt8) ||| payload ||| parityBit ||| (0 : UInt8) <<< 6 ||| (1 : UInt8) <<< 7

variable [Io I]

def idle (s : Swd I) : Swd I := { s with io := Io.writeU32 0x00 8 s.io }

def turnaround (s : Swd I) : Swd I :=
  if s.driving then { s with io := Io.clockCycle (Io.setDataInput s.io), driving := false }
  else { s with io := Io.setDataOutput (Io.clockCycle s.io), driving := true }

def write (value : UInt32) (numBits : ℕ) (s : Swd I) : Swd I :=
  { s with io := Io.writeU32 value numBits s.io }

def read (numBits : ℕ) (s : Swd I) : UInt32 × Swd I :=
  let r := Io.readU32 numBits s.io
  (r.1, { s with io := r.2 })

def refused (ack : UInt8) : TErr :=
  if ack = 0b010 then .wait else if ack = 0b100 then .fault else .unknown ack

def transfer (apndp rnw : Bool) (addr : UInt8) (value : Option UInt32) (s : Swd I) :
    Except TErr UInt32 × Swd I :=
  let r := ((s.write (makeRequest apndp rnw addr).toUInt32 8).turnaround).read 3
  let ack := r.1.toUInt8
  if ack = 0b001 then
    if rnw then
      let d := r.2.read 32
      let parity := Io.readBit d.2.io
      let s := turnaround { d.2 with io := parity.2 }
      if parity.1 ≠ (countOnes d.1 % 2 != 0) then (.error .parity, s) else (.ok d.1, s.idle)
    else
      let data := value.getD 0
      let s := r.2.turnaround.write data 32
      (.ok data, idle { s with io := Io.writeBit (countOnes data % 2 != 0) s.io })
  else (.error (refused ack), r.2.turnaround.idle)

instance : Wire (Swd I) := ⟨transfer⟩

def ask (call : Call) (s : Swd I) : UInt32 × Swd I :=
  ((s.write (makeRequest call.apndp call.rnw call.addr).toUInt32 8).turnaround).read 3

def receive (s : Swd I) : Except TErr UInt32 × Swd I :=
  let d := s.read 32
  let parity := Io.readBit d.2.io
  let s := turnaround { d.2 with io := parity.2 }
  if parity.1 ≠ oddOnes d.1 then (.error .parity, s) else (.ok d.1, s.idle)

def send (data : UInt32) (s : Swd I) : Except TErr UInt32 × Swd I :=
  let s := s.turnaround.write data 32
  (.ok data, idle { s with io := Io.writeBit (oddOnes data) s.io })

def execute (call : Call) (s : Swd I) : Except TErr UInt32 × Swd I :=
  transfer call.apndp call.rnw call.addr call.value s

theorem execute_eq (call : Call) (s : Swd I) : s.execute call =
    if (s.ask call).1.toUInt8 = 0b001 then
      if call.rnw then (s.ask call).2.receive else (s.ask call).2.send call.data
    else (.error (refused (s.ask call).1.toUInt8), (s.ask call).2.turnaround.idle) := rfl

def transfers : List Call → Swd I → List (Except TErr UInt32) × Swd I
  | [], s => ([], s)
  | call :: calls, s =>
      let r := s.execute call
      let rest := transfers calls r.2
      (r.1 :: rest.1, rest.2)

def init (s : Swd I) : Swd I :=
  let s := { s with io := Io.lineReset (Io.writeU32 0xE79E 16 (Io.lineReset s.io)) }
  { s.idle with driving := true }

def swjSequence (count : UInt8) (data : List UInt8) (s : Swd I) : Swd I :=
  let n := min count.toNat (data.length * 8)
  let bit (i : ℕ) := ((data[i / 8]?.getD 0) >>> UInt8.ofNat (i % 8)) &&& 1 != 0
  { s with io := Io.writeBits ((List.range n).map bit) s.io }

def swjPins (pinOut pinSel : UInt8) (_waitMs : UInt32) (s : Swd I) : Except TErr UInt8 × Swd I :=
  if pinSel &&& 0x80 ≠ 0 then
    let pins := (s.lastPins &&& 0x7F) ||| (pinOut &&& 0x80)
    (.ok pins, { s with io := Io.setReset (pinOut &&& 0x80 != 0) s.io, lastPins := pins })
  else (.ok s.lastPins, s)

instance : Transport (Swd I) where
  init s := (.ok (), s.init)
  swjSequence count data s := (.ok (), s.swjSequence count data)
  swjPins := swjPins
  readDp := Wire.readDp
  writeDp := Wire.writeDp
  readAp := Wire.readAp
  writeAp := Wire.writeAp

end Swd

end DapProxy.Target
