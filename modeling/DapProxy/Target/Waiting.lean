import DapProxy.Target.Recorded
import DapProxy.Target.Retry

namespace DapProxy.Target
variable {T : Type} [Transport T] {ap read : Bool} {a : UInt8} {wdata : Option UInt32}

def settled : Except TErr (Option UInt32) → Except UInt8 (Option UInt32)
  | .ok v => .ok v
  | .error .wait => .error stWait
  | .error .fault => .error stFault
  | .error .parity => .error stProto
  | .error (.unknown _) => .error stProto
  | .error .io => .error stProto

namespace Dap

def answered (ap read : Bool) (a : UInt8) (wdata : Option UInt32) (t : T) (n : ℕ) :
    Except TErr (Option UInt32) := (attempt ap read a wdata (attempts ap read a wdata n t)).1

end Dap

end DapProxy.Target
