import DapProxy.Target.LineBits

namespace DapProxy.Target

structure Request where
  apndp : Bool
  rnw : Bool
  a2 : Bool
  a3 : Bool
  deriving DecidableEq, Repr

namespace Request

def parity (r : Request) : Bool := r.apndp ^^ (r.rnw ^^ (r.a2 ^^ r.a3))

def header (r : Request) : List Bool :=
  [true, r.apndp, r.rnw, r.a2, r.a3, r.parity, false, true]

def decode : List Bool → Option Request
  | [start, apndp, rnw, a2, a3, parity, stop, park] =>
      let r : Request := ⟨apndp, rnw, a2, a3⟩
      if start = true ∧ parity = r.parity ∧ stop = false ∧ park = true then some r else none
  | _ => none

end Request

inductive Ack where
  | ok
  | wait
  | fault
  deriving DecidableEq, Repr

def Ack.bits : Ack → List Bool
  | .ok => [true, false, false]
  | .wait => [false, true, false]
  | .fault => [false, false, true]

structure Choice where
  ack : Ack
  word : UInt32
  flips : UInt32
  flipsParity : Bool

namespace Choice

def flipped (c : Choice) : ℕ := countOnes c.flips + c.flipsParity.toNat

def onLine (c : Choice) : List Bool :=
  List.zipWith (· ^^ ·) (Io.bitsOf c.word 32) (Io.bitsOf c.flips 32) ++
    [oddOnes c.word ^^ c.flipsParity]

end Choice

inductive Heard where
  | request (r : Request)
  | written (word : UInt32) (parityOk : Bool)
  deriving DecidableEq, Repr

inductive Phase where
  | listen (got : List Bool)
  | turn (bits : List Bool) (receive : Bool)
  | drive (bit : Bool) (rest : List Bool) (receive : Bool)
  | release (receive : Bool)
  | take (got : List Bool)
  | lost

structure Chip where
  phase : Phase
  choices : ℕ → Choice
  served : ℕ
  heard : List Heard

namespace Chip

def driven (c : Chip) : Option Bool :=
  match c.phase with
  | .drive bit _ _ => some bit
  | _ => none

def accept (c : Chip) (r : Request) : Chip :=
  let choice := c.choices c.served
  { c with
    phase := .turn (choice.ack.bits ++ if choice.ack = .ok ∧ r.rnw then choice.onLine else [])
      (choice.ack = .ok ∧ r.rnw = false)
    served := c.served + 1
    heard := c.heard ++ [.request r] }

def takeWord (c : Chip) (got : List Bool) (parity : Bool) : Chip :=
  let word := UInt32.ofNat (Bits.value got)
  { c with phase := .listen [], heard := c.heard ++ [.written word (parity == oddOnes word)] }

def rise (sample : Bool) (c : Chip) : Chip :=
  match c.phase with
  | .listen got =>
      -- a low line before the start bit is an idle cycle
      if got = [] ∧ sample = false then c
      else if got.length < 7 then { c with phase := .listen (got ++ [sample]) }
      else
        match Request.decode (got ++ [sample]) with
        | some r => c.accept r
        | none => { c with phase := .lost }
  | .turn [] receive => { c with phase := .release receive }
  | .turn (bit :: rest) receive => { c with phase := .drive bit rest receive }
  | .drive _ (bit :: rest) receive => { c with phase := .drive bit rest receive }
  | .drive _ [] receive => { c with phase := .release receive }
  | .release true => { c with phase := .take [] }
  | .release false => { c with phase := .listen [] }
  | .take got =>
      if got.length < 32 then { c with phase := .take (got ++ [sample]) } else c.takeWord got sample
  | .lost => c

end Chip

structure Bus where
  clk : Bool
  output : Bool
  level : Bool
  clash : Bool
  chip : Chip

namespace Bus

def line (b : Bus) : Bool := if b.output then b.level else b.chip.driven.getD true

def settle (b : Bus) : Bus := { b with clash := b.clash || (b.output && b.chip.driven.isSome) }

def clkHigh (b : Bus) : Bus :=
  if b.clk then b else settle { b with clk := true, chip := b.chip.rise b.line }

def clkLow (b : Bus) : Bus := { b with clk := false }

instance : Io Bus where
  setClkHigh := clkHigh
  setClkLow := clkLow
  setDataHigh b := { b with level := true }
  setDataLow b := { b with level := false }
  isDataHigh := line
  setDataOutput b := settle { b with output := true }
  setDataInput b := { b with output := false }
  clockCycle b := clkHigh (clkLow b)
  setReset _ b := b

def new (choices : ℕ → Choice) : Bus := ⟨false, true, true, false, ⟨.listen [], choices, 0, []⟩⟩

end Bus

end DapProxy.Target
