import Tributary.Debouncer
import Tributary.Time.Timeline

/-!
# Rehearsing a debouncer

A debouncer on a clock that moves only when it is told to. Each request carries a tag,
which is logged with the time at which the request acts.
-/

namespace Tributary.Rehearsal

structure Wait where
  key : String
  number : Nat
  tag : String

structure Fired where
  time : Nat
  key : String
  tag : String

structure Quiet where
  clock : Nat := 0
  debouncer : Debouncer := {}
  alarms : Timeline Wait := {}

namespace Quiet

def schedule (q : Quiet) (key : String) (ms : Nat) (tag : String) : Quiet :=
  let (debouncer, number) := q.debouncer.schedule key
  { q with debouncer, alarms := q.alarms.set (Timeline.after q.clock ms) ⟨key, number, tag⟩ }

/-- Rings every alarm up to a time. -/
def ringUntil (time : Nat) (q : Quiet) : Quiet × List Fired :=
  match h : q.alarms.ring? time with
  | none => ({ q with clock := time }, [])
  | some (a, alarms) =>
    have := Timeline.size_of_ring? h
    match q.debouncer.claim a.what.key a.what.number with
    | none => ringUntil time { q with alarms }
    | some debouncer =>
      let (q, log) := ringUntil time { q with alarms, debouncer }
      (q, ⟨a.due, a.what.key, a.what.tag⟩ :: log)
termination_by q.alarms.size

def advance (q : Quiet) (ms : Nat) : Quiet × List Fired :=
  q.ringUntil (Timeline.after q.clock ms)

end Quiet

end Tributary.Rehearsal
