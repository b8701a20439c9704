import Mathlib.Data.UInt

namespace DapProxy.Target

class Io (I : Type) where
  setClkHigh : I → I
  setClkLow : I → I
  setDataHigh : I → I
  setDataLow : I → I
  isDataHigh : I → Bool
  setDataOutput : I → I
  setDataInput : I → I
  clockCycle : I → I
  setReset : Bool → I → I

namespace Io
variable {I : Type} [Io I]

def clockCycles : ℕ → I → I
  | 0, io => io
  | n + 1, io => clockCycles n (clockCycle io)

def lineReset (io : I) : I := clockCycles 60 (setDataOutput (setDataHigh io))

def writeBit (bit : Bool) (io : I) : I :=
  clockCycle (if bit then setDataHigh io else setDataLow io)

def readBit (io : I) : Bool × I := (isDataHigh (setClkLow io), setClkHigh (setClkLow io))

def writeBits : List Bool → I → I
  | [], io => io
  | bit :: bits, io => writeBits bits (writeBit bit io)

def bitsOf (value : UInt32) (numBits : ℕ) : List Bool :=
  (List.range numBits).map (fun i => (value >>> UInt32.ofNat i) &&& 1 != 0)

def writeU32 (value : UInt32) (numBits : ℕ) (io : I) : I := writeBits (bitsOf value numBits) io

def readFrom : ℕ → ℕ → UInt32 → I → UInt32 × I
  | _, 0, value, io => (value, io)
  | i, n + 1, value, io =>
      let r := readBit io
      readFrom (i + 1) n (if r.1 then value ||| 1 <<< UInt32.ofNat i else value) r.2

def readU32 (numBits : ℕ) (io : I) : UInt32 × I := readFrom 0 numBits 0 io

end Io

end DapProxy.Target
