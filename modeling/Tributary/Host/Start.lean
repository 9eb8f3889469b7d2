import Tributary.Host.Config
import Tributary.Store.Error
import Tributary.Store.Folder

/-!
# Starting a host

A host that keeps its records in files needs settings that can be read and a directory for
the records. It does not start if something that is no directory is in the way of that one.
-/

namespace Tributary

inductive StartFault where
  | settings (fault : HostConfig.Fault)
  | store (error : StoreError)
  deriving DecidableEq

/-- Whether there can be a directory at a path. -/
def HostConfig.canHold (path : String) : Bool := (Folder.start.makeDirectory path).complete

/-- The settings that a host starts with. -/
def HostConfig.start (home : String) (file : Option (List UInt8)) : Except StartFault HostConfig :=
  match load file with
  | .error fault => .error (.settings fault)
  | .ok c =>
    if canHold (Paths.recordsDirectory (c.root home)) then .ok c
    else .error (.store .unreachable)

end Tributary
