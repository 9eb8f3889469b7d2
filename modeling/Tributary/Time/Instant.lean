/-!
# Instants and durations

An instant counts seconds from the start of 1970 and nanoseconds within the second; a
second nanosecond count from 10⁹ up is the leap second that follows it.
-/

namespace Tributary

/-- A span of time that is not negative. -/
structure Duration where
  nanos : Nat
  deriving DecidableEq, Inhabited

namespace Duration

def ofMillis (ms : Nat) : Duration := ⟨ms * 1000000⟩

def ofSecs (secs : Nat) : Duration := ⟨secs * 1000000000⟩

def secs (d : Duration) : Nat := d.nanos / 1000000000

def subsecNanos (d : Duration) : Nat := d.nanos % 1000000000

/-- Timers tick in milliseconds and never ring early. -/
def ticks (d : Duration) : Nat := (d.nanos + 999999) / 1000000

end Duration

structure Instant where
  seconds : Int
  nanos : Nat
  deriving DecidableEq, Inhabited

namespace Instant

def nanosPerSecond : Nat := 1000000000

def ofMillis (ms : Int) : Instant := ⟨ms / 1000, (ms % 1000).toNat * 1000000⟩

/-- Microseconds since the start of 1970. -/
def micros (t : Instant) : Int := t.seconds * 1000000 + (t.nanos : Int) / 1000

def isLeap (t : Instant) : Bool := nanosPerSecond ≤ t.nanos

/-- The first and the last second that have a date. -/
def minSeconds : Int := -8334601228800

def maxSeconds : Int := 8210266876799

/-- The instant a number of whole seconds later, if it has a date. From a leap second on,
the time of day goes on as from the second before it. -/
def addSeconds? (t : Instant) (secs : Nat) : Option Instant :=
  let nanos := if t.isLeap ∧ 0 < secs then t.nanos - nanosPerSecond else t.nanos
  let seconds := t.seconds + secs
  if seconds ≤ maxSeconds then some ⟨seconds, nanos⟩ else none

def secondOfDay (t : Instant) : Int := t.seconds % 86400

/-- The nanoseconds from `u` to `t`. A leap second that lies between the two times of day
counts as one. -/
def nanosSince (t u : Instant) : Int :=
  let leap : Int :=
    if u.secondOfDay < t.secondOfDay ∧ u.isLeap then 1
    else if t.secondOfDay < u.secondOfDay ∧ t.isLeap then -1
    else 0
  (t.seconds - u.seconds + leap) * nanosPerSecond + ((t.nanos : Int) - u.nanos)

/-- The time that is left from `u` to `t`, if there is any. -/
def remaining? (t u : Instant) : Option Duration :=
  let left := t.nanosSince u
  if 0 < left then some ⟨left.toNat⟩ else none

end Instant

end Tributary
