import DapProxy.System.Proxy
import DapProxy.Target.OnWire

namespace DapProxy.System
open Target Host

def ordered (ms : List Moment) : List (List UInt8) :=
  (ms.filterMap Moment.command).filterMap order

theorem ordered_loss (loss : Loss) (ms : List Moment) : ordered (.loss loss :: ms) = ordered ms :=
  rfl

section
open Dap
variable {T U : Type} [Transport T] [Transport U] {R : T → U → Prop} {d : Dap T} {e : Dap U}

end

namespace Probe
open Dap

variable {T U : Type} {R S : T → U → Prop} {p : Probe T} {q : Probe U}

variable [Transport T] [Transport U]

end Probe

end DapProxy.System
