import DapProxy.Host.Link

namespace DapProxy.Host

structure DapBridge (ν : Type) where
  link : DapLink ν
  pending : Option (List UInt8)

namespace DapBridge
variable {ν : Type}

def new (net : ν) : DapBridge ν := ⟨.new net, none⟩

variable [Network ν]

def bulkOut (command : List UInt8) (b : DapBridge ν) : Except LinkError Unit × DapBridge ν :=
  match b.link.request command with
  | (.error e, link) => (.error e, ⟨link, none⟩)
  | (.ok response, link) => (.ok (), ⟨link, if response = [] then none else some response⟩)

omit [Network ν] in
def bulkIn (maxLen : ℕ) (b : DapBridge ν) : Except LinkError (List UInt8) × DapBridge ν :=
  match b.pending with
  | none => (.ok [], b)
  | some response =>
      if response.length ≤ maxLen then (.ok response, { b with pending := none })
      else (.ok (response.take maxLen), { b with pending := some (response.drop maxLen) })

end DapBridge

end DapProxy.Host
