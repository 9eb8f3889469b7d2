import Tributary.Decimal.Shortest

/-!
# Store errors

Why a store refuses an operation. A conflict is a write with a stale token; it is the only
error after which a write is tried again.
-/

namespace Tributary

/-- Why a key cannot name a record. -/
inductive KeyFault where
  | empty
  | separator
  | leadingDot
  deriving DecidableEq

inductive StoreError where
  | notFound (key : String)
  | alreadyExists (key : String)
  | conflict (key : String) (expected actual : Nat)
  | teardownPending (key : String)
  | invalidKey (key : String) (fault : KeyFault)
  /-- The files under the store cannot be read or written. -/
  | unreachable
  /-- The document of a record does not describe one. -/
  | malformed
  | backend (message : String)
  deriving DecidableEq

def KeyFault.text : KeyFault → String
  | .empty => "empty"
  | .separator => "contains a path separator"
  | .leadingDot => "starts with '.'"

namespace StoreError

/-- What is told about an error; the causes of file errors are not part of it. -/
def message : StoreError → String
  | .notFound key => "record not found: " ++ key
  | .alreadyExists key => "record already exists: " ++ key
  | .conflict key expected actual =>
    "conflict writing " ++ key ++ ": expected token " ++ Decimal.digitsOf expected ++
      ", store has " ++ Decimal.digitsOf actual
  | .teardownPending key => "record " ++ key ++ " still has a pending teardown; delete refused"
  | .invalidKey key fault => "invalid record key '" ++ key ++ "': " ++ fault.text
  | .unreachable => "I/O error"
  | .malformed => "failed to parse record"
  | .backend message => "store backend error: " ++ message

def isConflict : StoreError → Bool
  | .conflict .. => true
  | _ => false

def isNotFound : StoreError → Bool
  | .notFound _ => true
  | _ => false

end StoreError

end Tributary
