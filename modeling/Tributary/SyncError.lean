import Tributary.Store.Error

/-!
# Errors of a synchronisation

What a pass or a registration reports to its caller. Failures of the downstream are not
among them: those are entered into the record.
-/

namespace Tributary

inductive SyncError where
  | store (error : StoreError)
  /-- A write was refused for its token as often as it may be tried. -/
  | retriesExhausted (key : String) (attempts : Nat)
  /-- A configuration has no JSON form. -/
  | json (message : String)
  deriving DecidableEq

namespace SyncError

def message : SyncError → String
  | .store e => "store error: " ++ e.message
  | .retriesExhausted key attempts =>
    "update of " ++ key ++ " still conflicting after " ++ Decimal.digitsOf attempts ++ " attempts"
  | .json message => "JSON error: " ++ message

/-- Whether the record is gone. -/
def isNotFound : SyncError → Bool
  | .store e => e.isNotFound
  | _ => false

end SyncError

end Tributary
