import Tributary.Json.Fingerprint
import Tributary.Record.Basic

/-!
# Aggregation

All aggregators take the contributions in the order of their priority numbers, earlier
registrations first among equals, and leave out each one whose payload is blank or cannot
be read. What they make of the rest is a JSON value and the list of owners behind it.
-/

namespace Tributary

structure Aggregation where
  value : Json
  sourceCount : Nat
  owners : List Owner
  deriving Inhabited

namespace Aggregation

/-- What remains of a record that goes away. -/
def empty : Aggregation := ⟨.null, 0, []⟩

def hash (a : Aggregation) : String := a.value.fingerprint

def isEmpty (a : Aggregation) : Bool := a.sourceCount = 0

/-- Contributions in the order in which they take precedence. -/
def byPriority (sources : List Contribution) : List Contribution :=
  sources.mergeSort fun a b => a.priority ≤ b.priority

/-- Space, tab, line feed, form feed and carriage return. -/
def isBlank (b : UInt8) : Bool := b = 32 ∨ b = 9 ∨ b = 10 ∨ b = 12 ∨ b = 13

/-- The configuration of a contribution, unless it is blank or cannot be read. -/
def decode (read : List UInt8 → Option γ) (source : Contribution) : Option (Contribution × γ) :=
  if source.payload.all isBlank then none
  else (read source.payload).map (source, ·)

/-- The contributions that can be read, in order of precedence, with their configurations. -/
def decoded (read : List UInt8 → Option γ) (sources : List Contribution) :
    List (Contribution × γ) :=
  (byPriority sources).filterMap (decode read)

end Aggregation

end Tributary
