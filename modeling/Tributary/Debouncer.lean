import Tributary.Table

/-!
# Debouncers

A debouncer acts on a key only after the key has been quiet for a while. Every request gets
a number and replaces the one that waits under its key. When the alarm of a request rings,
the request may act if it is still the one that waits. `claim_eq_none` says when it is not. The
number of a request has 64 bits, and `schedule` takes it to be unbounded: it is how many requests
there have been (`Site.play_counted`).
-/

namespace Tributary

structure Debouncer where
  /-- The number of the request that waits, for each key. -/
  waiting : Table Nat := {}
  issued : Nat := 0
  deriving Inhabited

namespace Debouncer

/-- A request for a key, with its number. -/
def schedule (d : Debouncer) (key : String) : Debouncer × Nat :=
  (⟨d.waiting.set key (d.issued + 1), d.issued + 1⟩, d.issued + 1)

/-- The alarm of a request rings: what remains if the request may act. -/
def claim (d : Debouncer) (key : String) (number : Nat) : Option Debouncer :=
  if d.waiting.get? key = some number then some { d with waiting := d.waiting.erase key } else none

def isPending (d : Debouncer) (key : String) : Bool := d.waiting.contains key

def cancel (d : Debouncer) (key : String) : Debouncer :=
  { d with waiting := d.waiting.erase key }

/-- Forgets every request. -/
def flush (d : Debouncer) : Debouncer := { d with waiting := {} }

def pendingCount (d : Debouncer) : Nat := d.waiting.size

theorem claim_eq_none {d : Debouncer} {key : String} {number : Nat} :
    d.claim key number = none ↔ d.waiting.get? key ≠ some number := by
  unfold claim
  split <;> simp_all

@[simp] theorem isPending_schedule (d : Debouncer) (key k : String) :
    (d.schedule key).1.isPending k = (decide (k = key) || d.isPending k) := by
  by_cases h : k = key <;> simp [schedule, isPending, Table.contains, h]

@[simp] theorem isPending_cancel (d : Debouncer) (key k : String) :
    (d.cancel key).isPending k = (decide (k ≠ key) && d.isPending k) := by
  by_cases h : k = key <;> simp [cancel, isPending, Table.contains, h]

end Debouncer

end Tributary
