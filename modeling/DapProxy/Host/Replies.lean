import DapProxy.Host.Handshake
import DapProxy.Host.Outcome

namespace DapProxy.Host
open Words
variable {ν : Type}

namespace UrbSession

def moved (rest : List UInt8) (s : UrbSession ν) : UrbSession ν :=
  { s with client := { s.client with input := rest } }

variable [Network ν]

end UrbSession

namespace UrbSession

section
variable [Network ν]

end

end UrbSession

abbrev Served := List (Command × List UInt8)

namespace UrbSession

variable [Network ν]

section
variable {s s' : UrbSession ν} {c : Command} {tail reply : List UInt8}

end

end UrbSession

end DapProxy.Host
