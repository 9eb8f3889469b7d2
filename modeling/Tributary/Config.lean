import Tributary.Backoff

/-!
# Engine settings

How long a key has to be quiet before its change is acted on, how failures are tried again
and how often a conflicting write is. Each setting that is not written has a default.
-/

namespace Tributary

open Readable

/-- How often a conflicting write is tried, and how long to wait before the next time. -/
structure RetryPolicy where
  maxRetries : Nat := 5
  conflictDelayMs : Nat := 100
  deriving DecidableEq, Inhabited

namespace RetryPolicy

/-- A write is tried at least once. -/
def maxAttempts (p : RetryPolicy) : Nat := max p.maxRetries 1

theorem maxAttempts_pos (p : RetryPolicy) : 0 < p.maxAttempts :=
  Nat.lt_of_lt_of_le Nat.zero_lt_one (Nat.le_max_right _ _)

def conflictDelay (p : RetryPolicy) : Duration := .ofMillis p.conflictDelayMs

def read [Readable σ] (s : σ) : Reading RetryPolicy := do
  let f ← fields? ["max_retries", "conflict_delay_ms"] s
  return {
    maxRetries := ← fallback f "max_retries" 5 (nat? 32)
    conflictDelayMs := ← fallback f "conflict_delay_ms" 100 (nat? 64) }

def toJson (p : RetryPolicy) : Json :=
  .obj [("max_retries", .nat p.maxRetries), ("conflict_delay_ms", .nat p.conflictDelayMs)]

end RetryPolicy

structure EngineConfig where
  debounceMs : Nat := 2000
  backoff : Backoff := {}
  updater : RetryPolicy := {}
  deriving DecidableEq, Inhabited

namespace EngineConfig

def debounce (c : EngineConfig) : Duration := .ofMillis c.debounceMs

def read [Readable σ] (s : σ) : Reading EngineConfig := do
  let f ← fields? ["debounce_ms", "backoff", "updater"] s
  return {
    debounceMs := ← fallback f "debounce_ms" 2000 (nat? 64)
    backoff := ← fallback f "backoff" {} Backoff.read
    updater := ← fallback f "updater" {} RetryPolicy.read }

def toJson (c : EngineConfig) : Json :=
  .obj [
    ("debounce_ms", .nat c.debounceMs),
    ("backoff", c.backoff.toJson),
    ("updater", c.updater.toJson)]

end EngineConfig

end Tributary
