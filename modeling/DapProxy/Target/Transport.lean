import Mathlib.Data.UInt

namespace DapProxy.Target

inductive TErr where
  | wait
  | fault
  | unknown (ack : UInt8)
  | parity
  | io
  deriving DecidableEq, Repr

class Transport (T : Type) where
  init : T → Except TErr Unit × T
  swjSequence : UInt8 → List UInt8 → T → Except TErr Unit × T
  swjPins : UInt8 → UInt8 → UInt32 → T → Except TErr UInt8 × T
  readDp : UInt8 → T → Except TErr UInt32 × T
  writeDp : UInt8 → UInt32 → T → Except TErr Unit × T
  readAp : UInt8 → UInt8 → T → Except TErr UInt32 × T
  writeAp : UInt8 → UInt8 → UInt32 → T → Except TErr Unit × T

structure Unplugged where
  lastPins : UInt8

instance : Transport Unplugged where
  init t := (.ok (), t)
  swjSequence _ _ t := (.ok (), t)
  swjPins out sel _ t :=
    let pins := if sel &&& 0x80 ≠ 0 then (t.lastPins &&& 0x7F) ||| (out &&& 0x80) else t.lastPins
    (.ok pins, ⟨pins⟩)
  readDp _ t := (.error (.unknown 7), t)
  writeDp _ _ t := (.error (.unknown 7), t)
  readAp _ _ t := (.error (.unknown 7), t)
  writeAp _ _ _ t := (.error (.unknown 7), t)

def dpDpidr : UInt8 := 0x00
def dpAbort : UInt8 := 0x00
def dpCtrlStat : UInt8 := 0x04
def dpRdbuff : UInt8 := 0x0C

def cdbgpwrupreq : UInt32 := (1 : UInt32) <<< 28
def cdbgpwrupack : UInt32 := (1 : UInt32) <<< 29
def csyspwrupreq : UInt32 := (1 : UInt32) <<< 30
def csyspwrupack : UInt32 := (1 : UInt32) <<< 31

end DapProxy.Target
