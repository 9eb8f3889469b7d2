import Tributary.Table

/-!
# Dispatchers

Every key that is triggered gets a worker, which runs a pass as soon as it has one of the
permits. A key that is triggered while its worker is there is marked dirty instead, and its
worker then runs one more pass.
-/

namespace Tributary

structure Dispatcher where
  /-- The keys that have workers, and whether they are dirty. -/
  inFlight : Table Bool := {}
  /-- Permits that nobody has. -/
  free : Nat
  /-- The keys whose workers wait for a permit, the longest waiting first. -/
  waiting : List String := []

namespace Dispatcher

/-- Triggers a key; whether a worker has to be started for it. -/
def trigger (d : Dispatcher) (key : String) : Dispatcher × Bool :=
  ({ d with inFlight := d.inFlight.set key (d.inFlight.contains key) }, !d.inFlight.contains key)

/-- The worker of a key asks for a permit; whether it gets one at once. -/
def acquire (d : Dispatcher) (key : String) : Dispatcher × Bool :=
  match d.free with
  | 0 => ({ d with waiting := d.waiting ++ [key] }, false)
  | n + 1 => ({ d with free := n }, true)

/-- A permit is given back; the key whose worker it goes to. -/
def giveBack (d : Dispatcher) : Dispatcher × Option String :=
  match d.waiting with
  | [] => ({ d with free := d.free + 1 }, none)
  | key :: rest => ({ d with waiting := rest }, some key)

/-- The worker of a key has run a pass; whether it has to run another one. -/
def again (d : Dispatcher) (key : String) : Dispatcher × Bool :=
  if d.inFlight.get? key = some true then ({ d with inFlight := d.inFlight.set key false }, true)
  else ({ d with inFlight := d.inFlight.erase key }, false)

def idle (d : Dispatcher) : Bool := d.inFlight.isEmpty

end Dispatcher

end Tributary
