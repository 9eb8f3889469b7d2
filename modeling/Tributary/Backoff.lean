import Tributary.Readable
import Tributary.Record.Basic

/-!
# Backoff

A failed attempt is entered into the status of its record. A permanent failure fails the
record at once; any other one counts against the budget of its category and is tried
again after a delay that doubles up to a limit, until the budget is spent. The generation
at which a record failed is remembered: it stays failed until its generation moves on.
-/

namespace Tributary

structure Backoff where
  baseDelaySecs : Nat := 10
  maxDelaySecs : Nat := 300
  maxRetries : Nat := 5
  unknownMaxRetries : Nat := 3
  deriving DecidableEq, Inhabited

/-- What a failure did to a record. -/
inductive Backoff.Outcome where
  | retry (delay : Duration)
  | failed
  deriving DecidableEq

namespace Backoff

/-- Delays and counters are machine words that stop at their largest value. -/
def maxWord : Nat := Nat.pow 2 64 - 1

def maxCount : Nat := Nat.pow 2 32 - 1

/-- The base delay, doubled after every attempt but the first and at most 32 times, up to
the limit. -/
def delaySecs (b : Backoff) (retryCount : Nat) : Nat :=
  min b.maxDelaySecs (min maxWord (b.baseDelaySecs * Nat.pow 2 (min (retryCount - 1) 32)))

def delay (b : Backoff) (retryCount : Nat) : Duration := .ofSecs (b.delaySecs retryCount)

/-- How many failed attempts a category allows. -/
def budget (b : Backoff) : Category → Nat
  | .permanent => 0
  | .transient => b.maxRetries
  | .unknown => b.unknownMaxRetries

/-- Spans are counted in signed 64-bit milliseconds. -/
def maxSpanSecs : Nat := (Nat.pow 2 63 - 1) / 1000

/-- When a retry after so many seconds is due, if that instant can be represented. -/
def dueAt (now : Instant) (secs : Nat) : Option Instant :=
  if secs ≤ maxSpanSecs then now.addSeconds? secs else none

/-- Enters a failed attempt at `generation` into a status. -/
def recordFailure (b : Backoff) (s : Status) (category : Category) (reason : String)
    (generation : Nat) (now : Instant) : Status × Outcome :=
  let s := { s with
    failureReason := some reason
    errorCategory := some category
    maxRetries := b.budget category
    observedGeneration := generation
    retryCount :=
      if category = Category.permanent then s.retryCount else min (s.retryCount + 1) maxCount }
  if category ≠ Category.permanent ∧ s.retryCount < s.maxRetries then
    let secs := b.delaySecs s.retryCount
    ({ s with phase := .error, nextRetryAt := dueAt now secs }, .retry (.ofSecs secs))
  else
    ({ s with phase := .failed, failedAt := some now, nextRetryAt := none }, .failed)

/-- Whether a failed record has changed since it failed. -/
def shouldReset (r : Record) : Bool :=
  r.status.phase = .failed ∧ r.status.observedGeneration < r.generation

/-- Back to pending, all failures forgotten. -/
def resetFailed (s : Status) : Status := { s with phase := .pending }.clearFailure

/-- Whether a record has failed and has not changed since. -/
def parked (r : Record) : Bool := r.status.phase = .failed && !shouldReset r

/-- The time left until the retry of a record in error is due, unless the record has changed
since. -/
def retryWait (r : Record) (now : Instant) : Option Duration :=
  if r.status.phase = .error ∧ r.generation = r.status.observedGeneration then
    r.status.nextRetryAt.bind fun due => due.remaining? now
  else none

open Readable

def read [Readable σ] (s : σ) : Reading Backoff := do
  let f ← fields? ["base_delay_secs", "max_delay_secs", "max_retries", "unknown_max_retries"] s
  return {
    baseDelaySecs := ← fallback f "base_delay_secs" 10 (nat? 64)
    maxDelaySecs := ← fallback f "max_delay_secs" 300 (nat? 64)
    maxRetries := ← fallback f "max_retries" 5 (nat? 32)
    unknownMaxRetries := ← fallback f "unknown_max_retries" 3 (nat? 32) }

def toJson (b : Backoff) : Json :=
  .obj [
    ("base_delay_secs", .nat b.baseDelaySecs),
    ("max_delay_secs", .nat b.maxDelaySecs),
    ("max_retries", .nat b.maxRetries),
    ("unknown_max_retries", .nat b.unknownMaxRetries)]

end Backoff

end Tributary
