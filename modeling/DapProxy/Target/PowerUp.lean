import DapProxy.Target.Resync
import DapProxy.Target.Serve

namespace DapProxy.Target
open Checked

namespace Swd
variable {I : Type} [Io I]

end Swd

end DapProxy.Target
